/-
The tokens of two texts with a line feed between them.

A line feed is part of no token but a text or a prompt that is closed behind it.  A
quotation mark without a closing one is no token of a text by itself, so in front of the
line feed nothing changes if the first text has only tokens.
-/
import Betik.Proofs.Lines.Relabel
import Betik.Proofs.Syntax.Exactness
import Betik.Proofs.Token.Layout

namespace Betik

open Text

theorem not_startsWith_line {p : Char → Bool} {rest : List Char} (h : ¬startsWith p rest)
    (other : ¬p '\n') (more : List Char) : ¬startsWith p (rest ++ '\n' :: more) := by
  cases rest with
  | nil => simpa [startsWith] using other
  | cons c rest => exact h

namespace TokenKind

variable {kind : TokenKind} {lexeme rest : List Char}

theorem Stops.line (h : kind.Stops rest) (more : List Char) :
    kind.Stops (rest ++ '\n' :: more) := by
  cases kind with
  | keyword | name => exact not_startsWith_line h (by decide) more
  | integer | decimal => exact not_startsWith_line h (by decide) more
  | comment =>
    obtain rfl | ⟨tail, rfl⟩ := h
    · exact .inr ⟨more, rfl⟩
    · exact .inr ⟨tail ++ '\n' :: more, rfl⟩
  | _ => trivial

theorem Grows.of_line {more : List Char} (h : kind.Grows (rest ++ '\n' :: more)) :
    kind.Grows rest := by
  refine h.mono ?_ fun equals => ?_
  · rintro ⟨d, ds, split, digit⟩
    match rest, split with
    | [], split => cases split
    | [_], split =>
      cases split
      cases digit
    | _ :: _ :: _, split =>
      cases split
      exact ⟨d, _, rfl, digit⟩
  · by_cases same : startsWith (· = '=') rest
    · exact same
    · exact absurd equals (not_startsWith_line same (by decide) more)

theorem Heads.line (h : kind.Heads lexeme rest) (known : kind ≠ unknown) (more : List Char) :
    kind.Heads lexeme (rest ++ '\n' :: more) := by
  cases h with
  | stray => exact absurd rfl known
  | front front =>
    exact .front ⟨front.admits, front.stops.line more, front.whole ∘ Grows.of_line,
      front.reserved⟩

end TokenKind

theorem scan_relabel (line k : Nat) (cs : List Char) :
    scan (line + k) cs = (scan line cs).map (Token.relabel (· + k)) := by
  fun_induction scan line cs with
  | case1 line => rw [scan]; rfl
  | case2 line c cs blank ih => rw [scan, if_pos blank, ← ih, Nat.add_right_comm]
  | case3 line c cs printed kind n found lexeme ih =>
    rw [scan, if_neg printed, found]
    simp only [List.map_cons, ← ih]
    rw [Nat.add_right_comm]
    rfl

theorem Scans.append {line : Nat} {cs more : List Char} {ts us : List Token}
    (h : Scans line cs ts) (known : Lacks .unknown ts)
    (next : Scans (line + lineBreaks cs + 1) more us) :
    Scans line (cs ++ '\n' :: more) (ts.dropLast ++ us) := by
  induction h with
  | @ends line gap blanks =>
    have lineFeed : Blanks ['\n'] := by decide
    have blanks' : Blanks (gap ++ ['\n']) := List.forall_mem_append.2 ⟨blanks, lineFeed⟩
    have breaks : line + lineBreaks gap + 1 = line + lineBreaks (gap ++ ['\n']) := by
      rw [lineBreaks_append, Nat.add_assoc]
      rfl
    rw [List.append_cons]
    exact (breaks ▸ next).blanks_append blanks'
  | @token line gap lexeme rest kind ts blanks heads others ih =>
    obtain ⟨known₁, known₂⟩ := lacks_cons.1 known
    have breaks : line + lineBreaks (gap ++ (lexeme ++ rest)) + 1 =
        line + lineBreaks (gap ++ lexeme) + lineBreaks rest + 1 := by
      simp only [lineBreaks_append]
      omega
    rw [List.dropLast_cons_of_ne_nil others.ne_nil, List.append_assoc, List.append_assoc]
    exact .token blanks (heads.line known₁ more) (ih known₂ (breaks ▸ next))

/-- How far the text behind a source and a line feed is moved down. -/
def linesTaken (source : String) : Nat :=
  1 + lineBreaks source.toList

theorem tokenize_append {a : String} (known : Lacks .unknown (tokenize a)) (b : String) :
    tokenize (a ++ "\n" ++ b) =
      (tokenize a).dropLast ++ (tokenize b).map (Token.relabel (· + linesTaken a)) := by
  have next := scans_scan (1 + linesTaken a) b.toList
  have split : (a ++ "\n" ++ b).toList = a.toList ++ '\n' :: b.toList := by simp
  have lines : 1 + lineBreaks a.toList + 1 = 1 + linesTaken a := by
    rw [linesTaken]
    omega
  rw [scan_relabel] at next
  rw [tokenize, split]
  exact ((scans_scan 1 a.toList).append known (lines ▸ next)).scan_eq

end Betik
