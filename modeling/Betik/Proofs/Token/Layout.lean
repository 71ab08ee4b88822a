/-
Where tokens lie in their source.

`Scans` says what the tokens of a text are without saying how they are found: blanks,
a token, blanks, a token, and so on, and at last blanks and the end.  It holds of what
`scan` makes of a text and of nothing else.
-/
import Betik.Proofs.Token.Front

namespace Betik

open Text

def Blanks (cs : List Char) : Prop :=
  ∀ c ∈ cs, isBlank c

instance (cs : List Char) : Decidable (Blanks cs) :=
  decidable_of_iff (cs.all isBlank) List.all_eq_true

theorem lineBreaks_append (us vs : List Char) :
    lineBreaks (us ++ vs) = lineBreaks us + lineBreaks vs :=
  List.count_append

namespace TokenKind

/-- A text begins with a token, which is a single character where no pattern matches. -/
inductive Heads : TokenKind → List Char → List Char → Prop
  | front {kind : TokenKind} {c : Char} {more rest : List Char}
    (front : kind.Front (c :: more) rest) : Heads kind (c :: more) rest
  | stray {c : Char} {rest : List Char} (printed : ¬isBlank c)
    (nothing : front? c rest = none) : Heads unknown [c] rest

theorem not_isBlank_of_leads {kind : TokenKind} {c : Char} (h : kind.leads c) : ¬isBlank c := by
  cases kind with
  | keyword | name => exact not_isBlank_of_isNameStart h
  | integer | decimal => exact not_isBlank_of_isDigit h
  | operator op => cases op <;> cases of_decide_eq_true h <;> decide
  | mark sign => cases sign <;> cases of_decide_eq_true h <;> decide
  | text | prompt | comment => cases of_decide_eq_true h; decide
  | endOfFile | unknown => cases h

variable {kind : TokenKind} {c : Char} {more lexeme rest : List Char}

theorem Heads.printed (h : kind.Heads (c :: more) rest) : ¬isBlank c := by
  cases h with
  | front front => exact not_isBlank_of_leads front.admits.leads
  | stray printed => exact printed

theorem Heads.ne_nil (h : kind.Heads lexeme rest) : lexeme ≠ [] := by
  cases h <;> simp

theorem Heads.ne_endOfFile (h : kind.Heads lexeme rest) : kind ≠ endOfFile := by
  rintro rfl
  cases h with
  | front front => exact front.admits

theorem Heads.found (h : kind.Heads (c :: more) rest) :
    (front? c (more ++ rest)).getD (unknown, 0) = (kind, more.length) := by
  cases h with
  | front front => rw [front?_of_front front]; rfl
  | stray _ nothing => rw [List.nil_append, nothing]; rfl

theorem heads_of_found {cs : List Char} {n : Nat} (printed : ¬isBlank c)
    (h : (front? c cs).getD (unknown, 0) = (kind, n)) :
    kind.Heads (c :: cs.take n) (cs.drop n) := by
  cases found : front? c cs with
  | none =>
    rw [found] at h
    cases h
    exact .stray printed found
  | some r =>
    rw [found] at h
    cases h
    obtain ⟨more, rest, rfl, rfl, front⟩ := front?_eq_some_iff.1 found
    rw [List.take_left, List.drop_left]
    exact .front front

end TokenKind

inductive Scans : Nat → List Char → List Token → Prop
  | ends {line : Nat} {gap : List Char} (blanks : Blanks gap) :
    Scans line gap [⟨.endOfFile, "", line + lineBreaks gap⟩]
  | token {line : Nat} {gap lexeme rest : List Char} {kind : TokenKind} {ts : List Token}
    (blanks : Blanks gap) (heads : kind.Heads lexeme rest)
    (others : Scans (line + lineBreaks (gap ++ lexeme)) rest ts) :
    Scans line (gap ++ (lexeme ++ rest))
      (⟨kind, String.ofList lexeme, line + lineBreaks gap⟩ :: ts)

theorem scan_blanks_append {gap : List Char} (blanks : Blanks gap) (line : Nat)
    (cs : List Char) : scan line (gap ++ cs) = scan (line + lineBreaks gap) cs := by
  induction gap generalizing line with
  | nil => rfl
  | cons c gap ih =>
    obtain ⟨blank, others⟩ := List.forall_mem_cons.1 blanks
    have breaks : lineBreaks (c :: gap) = lineBreaks [c] + lineBreaks gap :=
      lineBreaks_append [c] gap
    rw [List.cons_append, scan, if_pos blank, ih others, breaks, Nat.add_assoc]

theorem scan_of_heads {kind : TokenKind} {lexeme rest : List Char} (h : kind.Heads lexeme rest)
    (line : Nat) : scan line (lexeme ++ rest) =
      ⟨kind, String.ofList lexeme, line⟩ :: scan (line + lineBreaks lexeme) rest := by
  obtain ⟨c, more, rfl⟩ := List.exists_cons_of_ne_nil h.ne_nil
  rw [List.cons_append, scan, if_neg h.printed, h.found]
  simp

namespace Scans

variable {line : Nat} {cs : List Char} {ts : List Token}

theorem scan_eq (h : Scans line cs ts) : scan line cs = ts := by
  induction h with
  | @ends line gap blanks =>
    rw [← List.append_nil gap, scan_blanks_append blanks, scan, List.append_nil]
  | token blanks heads _ ih =>
    rw [scan_blanks_append blanks, scan_of_heads heads, ← ih, lineBreaks_append, Nat.add_assoc]

theorem ne_nil (h : Scans line cs ts) : ts ≠ [] := by
  cases h <;> simp

theorem blanks_append {gap : List Char} (blanks : Blanks gap)
    (h : Scans (line + lineBreaks gap) cs ts) : Scans line (gap ++ cs) ts := by
  cases h with
  | ends blanks' =>
    rw [Nat.add_assoc, ← lineBreaks_append]
    exact .ends (List.forall_mem_append.2 ⟨blanks, blanks'⟩)
  | token blanks' heads others =>
    rw [Nat.add_assoc, ← lineBreaks_append] at others ⊢
    rw [← List.append_assoc] at others ⊢
    exact .token (List.forall_mem_append.2 ⟨blanks, blanks'⟩) heads others

end Scans

theorem scans_scan (line : Nat) (cs : List Char) : Scans line cs (scan line cs) := by
  fun_induction scan line cs with
  | case1 line => exact Scans.ends nofun
  | case2 line c cs blank ih => exact ih.blanks_append (by simpa [Blanks] using blank)
  | case3 line c cs printed kind n found lexeme ih =>
    have heads := TokenKind.heads_of_found printed found
    have blanks : Blanks [] := nofun
    have others := Scans.token blanks heads ih
    rw [List.nil_append, List.cons_append, List.take_append_drop] at others
    exact others

example : (tokenize "\"a\nb\" # ?").map (fun t => (t.kind, t.line)) =
    [(.text, 1), (.unknown, 2), (.unknown, 2), (.endOfFile, 2)] := by decide +kernel

def laidOut (pieces : List (List Char × Token)) : List Char :=
  pieces.flatMap fun (gap, t) => gap ++ t.lexeme.toList

/-- Tokens lie in a text that begins on a line, and behind the last of them there is
another gap. -/
structure Layout (line : Nat) (text : List Char) (pieces : List (List Char × Token))
    (last : List Char) : Prop where
  lossless : text = laidOut pieces ++ last
  blanks : (∀ p ∈ pieces, Blanks p.1) ∧ Blanks last
  printed : ∀ p ∈ pieces, ∃ c cs, p.2.lexeme.toList = c :: cs ∧ ¬isBlank c
  inner : ∀ p ∈ pieces, p.2.kind ≠ .endOfFile
  /-- A token is on the line that the text in front of it has come to. -/
  lines : ∀ before gap t after, pieces = before ++ (gap, t) :: after →
    t.line = line + lineBreaks (laidOut before ++ gap)

theorem Scans.layout {line : Nat} {cs : List Char} {ts : List Token} (h : Scans line cs ts) :
    ∃ pieces last, Layout line cs pieces last ∧
      ts = pieces.map Prod.snd ++ [⟨.endOfFile, "", line + lineBreaks cs⟩] := by
  induction h with
  | @ends line gap blanks =>
    refine ⟨[], gap, ⟨rfl, ⟨nofun, blanks⟩, nofun, nofun, fun before gap t after split => ?_⟩, rfl⟩
    simp at split
  | @token line gap lexeme rest kind ts blanks heads _ ih =>
    obtain ⟨pieces, last, laid, rfl⟩ := ih
    refine ⟨(gap, ⟨kind, String.ofList lexeme, line + lineBreaks gap⟩) :: pieces, last, ?_, ?_⟩
    · constructor
      · simp [laidOut, laid.lossless]
      · exact ⟨List.forall_mem_cons.2 ⟨blanks, laid.blanks.1⟩, laid.blanks.2⟩
      · refine List.forall_mem_cons.2 ⟨?_, laid.printed⟩
        obtain ⟨c, more, rfl⟩ := List.exists_cons_of_ne_nil heads.ne_nil
        exact ⟨c, more, String.toList_ofList, heads.printed⟩
      · exact List.forall_mem_cons.2 ⟨heads.ne_endOfFile, laid.inner⟩
      · intro before gap' t after split
        cases before with
        | nil =>
          cases split
          rfl
        | cons p before =>
          injection split with first others
          subst first
          rw [laid.lines before gap' t after others]
          simp only [laidOut, List.flatMap_cons, String.toList_ofList, lineBreaks_append]
          omega
    · simp only [List.map_cons, List.cons_append, lineBreaks_append, Nat.add_assoc]

/-- The lexer loses nothing and counts lines right. -/
theorem tokenize_layout (source : String) :
    ∃ pieces last, Layout 1 source.toList pieces last ∧
      tokenize source =
        pieces.map Prod.snd ++ [⟨.endOfFile, "", 1 + lineBreaks source.toList⟩] :=
  (scans_scan 1 source.toList).layout

end Betik
