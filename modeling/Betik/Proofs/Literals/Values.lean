/-
What tokens stand for as literals.

The patterns of the lexer and the decoders of the parser are written apart from each other:
a pattern counts characters, and a decoder strips what it finds at the ends of a lexeme or
reads a number of its own grammar.  Here they meet.  A decoder gets from its pattern just
what it can decode, with one exception, an integer that is too large.
-/
import Mathlib.Data.List.TakeWhile
import Mathlib.Data.Nat.Digits.Defs
import Betik.Proofs.Syntax.Completeness
import Betik.Proofs.Token.Layout

namespace Betik

namespace Number

/-- What decimal digits are written for, the one of the highest place first. -/
def decimalValue (cs : List Char) : Nat :=
  Nat.ofDigits 10 (cs.reverse.map digitValue)

def Digits (cs : List Char) : Prop :=
  cs ≠ [] ∧ ∀ d ∈ cs, isDigit d

theorem natural_eq_decimalValue (cs : List Char) : natural cs = decimalValue cs := by
  rw [decimalValue, Nat.ofDigits_eq_foldr, List.foldr_map, List.foldr_reverse, natural]
  simp only [Nat.cast_id, Nat.add_comm]

variable {cs : List Char}

theorem natural?_of_digits (h : Digits cs) : natural? cs = some (decimalValue cs) := by
  rw [natural?, natural_eq_decimalValue, if_pos]
  simpa [Digits] using h

/-- Digits have no sign. -/
theorem splitSign_of_digits (h : Digits cs) (rest : List Char) :
    splitSign (cs ++ rest) = (false, cs ++ rest) := by
  obtain ⟨nonempty, digits⟩ := h
  obtain ⟨c, cs, rfl⟩ := List.exists_cons_of_ne_nil nonempty
  have digit := digits c (List.mem_cons_self ..)
  rw [List.cons_append, splitSign.eq_def]
  split
  · rename_i same
    obtain ⟨rfl, -⟩ := List.cons.inj same
    exact absurd digit (by decide)
  · rename_i same
    obtain ⟨rfl, -⟩ := List.cons.inj same
    exact absurd digit (by decide)
  · rfl

theorem integer?_of_digits (h : Digits cs) : integer? cs =
    if decimalValue cs < 2 ^ 63 then some (Int64.ofInt (decimalValue cs)) else none := by
  have unsigned := splitSign_of_digits h []
  rw [List.append_nil] at unsigned
  have range (n : Nat) :
      (Int64.minValue.toInt ≤ (n : Int) ∧ (n : Int) ≤ Int64.maxValue.toInt) ↔ n < 2 ^ 63 := by
    have least : Int64.minValue.toInt = -9223372036854775808 := by decide
    have greatest : Int64.maxValue.toInt = 9223372036854775807 := by decide
    rw [least, greatest]
    omega
  simp only [integer?, unsigned, natural?_of_digits h, signed, Option.bind_eq_bind,
    Option.bind_some, if_neg Bool.false_ne_true, range]

example : integer? "9223372036854775808".toList = none := by decide

theorem double?_of_digits {whole fraction : List Char} (h : Digits whole) (h' : Digits fraction) :
    double? (whole ++ '.' :: fraction) =
      some (nearest (natural (whole ++ fraction)) (-fraction.length)) := by
  have run : (whole ++ '.' :: fraction).takeWhile isDigit = whole := by
    rw [List.takeWhile_append_of_pos h.2]
    simp [isDigit]
  have rest : (whole ++ '.' :: fraction).dropWhile isDigit = '.' :: fraction := by
    rw [List.dropWhile_append_of_pos h.2]
    simp [isDigit]
  have run' : fraction.takeWhile isDigit = fraction := List.takeWhile_eq_self_iff.2 h'.2
  have rest' : fraction.dropWhile isDigit = [] := List.dropWhile_eq_nil_iff.2 h'.2
  have read : decimal? (whole ++ '.' :: fraction) =
      some (nearest (natural (whole ++ fraction)) (-fraction.length)) := by
    simp [decimal?, run, rest, run', rest', h.1, exponent?]
  simp [double?, splitSign_of_digits h, read]

example : double? "0.5".toList = some 0.5 := by decide

end Number

namespace Text

theorem dropWhile_of_notMem {q : Char} {cs : List Char} (h : q ∉ cs) :
    cs.dropWhile (· = q) = cs := by
  cases cs with
  | nil => rfl
  | cons c cs =>
    refine List.dropWhile_cons_of_neg ?_
    simp only [decide_eq_true_eq]
    rintro rfl
    exact h (List.mem_cons_self ..)

/-- A text in quotation marks that has none inside. -/
theorem strip_quoted {body : List Char} (inside : '"' ∉ body) :
    strip (· = '"') ('"' :: (body ++ ['"'])) = body := by
  rw [strip, List.dropWhile_cons_of_pos (by simp)]
  cases body with
  | nil => rfl
  | cons c body =>
    have first : c ≠ '"' := fun same => inside (same ▸ List.mem_cons_self ..)
    rw [List.cons_append, List.dropWhile_cons_of_neg (by simpa using first), ← List.cons_append,
      List.reverse_append, List.reverse_singleton, List.singleton_append,
      List.dropWhile_cons_of_pos (by simp),
      dropWhile_of_notMem fun mem => inside (List.mem_reverse.1 mem), List.reverse_reverse]

end Text

/-- The kinds of the tokens that are literals or prompts by themselves. -/
def TokenKind.isLiteral : TokenKind → Bool
  | integer | decimal | text | prompt | keyword (.truth _) => true
  | _ => false

namespace Token

open Number (Digits decimalValue)

/-- The token stands for the literal or the prompt, which is all of the lexeme but the
quotation marks or question marks around it, or the number that its digits are written for. -/
inductive Denotes (t : Token) : Expr → Prop
  | integer {n : Int64} (kind : t.kind = .integer) (digits : Digits t.lexeme.toList)
    (value : n.toInt = decimalValue t.lexeme.toList) (bound : 0 ≤ n.toInt ∧ n.toInt < 2 ^ 63) :
    Denotes t (.literal t.line (.integer n))
  | decimal {whole fraction : List Char} (kind : t.kind = .decimal)
    (lexeme : t.lexeme.toList = whole ++ '.' :: fraction) (digits : Digits whole)
    (digits' : Digits fraction) :
    Denotes t (.literal t.line
      (.decimal (Number.nearest (Number.natural (whole ++ fraction)) (-fraction.length))))
  | text {s : String} (kind : t.kind = .text) (lexeme : t.lexeme = "\"" ++ s ++ "\"")
    (inside : '"' ∉ s.toList) : Denotes t (.literal t.line (.text s))
  | truth {b : Bool} (kind : t.kind = .keyword (.truth b)) :
    Denotes t (.literal t.line (.boolean b))
  | prompt {s : String} (kind : t.kind = .prompt) (lexeme : t.lexeme = "??" ++ s ++ "??")
    (inside : '?' ∉ s.toList) : Denotes t (.prompt t.line s)

structure TooLarge (t : Token) : Prop where
  kind : t.kind = .integer
  digits : Digits t.lexeme.toList
  beyond : 2 ^ 63 ≤ decimalValue t.lexeme.toList

variable {t : Token}

theorem atom_integer (kind : t.kind = .integer) (digits : Digits t.lexeme.toList) :
    (∃ e, t.atom = .ok e ∧ t.Denotes e) ∨
      t.TooLarge ∧ t.atom = .error (.invalidLiteral t.line t.lexeme) := by
  have decoded := Number.integer?_of_digits digits
  by_cases small : decimalValue t.lexeme.toList < 2 ^ 63
  · rw [if_pos small] at decoded
    have small' : (decimalValue t.lexeme.toList : Int) < 2 ^ 63 := by exact_mod_cast small
    have value := Int64.toInt_ofInt_of_le (by omega) small'
    refine .inl ⟨_, ?_, .integer kind digits value ?_⟩
    · simp [atom, kind, decoded]
    · rw [value]
      exact ⟨Int.natCast_nonneg _, small'⟩
  · rw [if_neg small] at decoded
    refine .inr ⟨⟨kind, digits, Nat.le_of_not_lt small⟩, ?_⟩
    simp [atom, kind, decoded]

/-- What the decoder makes of a literal token: the literal that it stands for, unless that is
an integer that is too large. -/
theorem atom_of_admits (literal : t.kind.isLiteral) (admits : t.kind.Admits t.lexeme.toList) :
    (∃ e, t.atom = .ok e ∧ t.Denotes e) ∨
      t.TooLarge ∧ t.atom = .error (.invalidLiteral t.line t.lexeme) := by
  cases kind : t.kind with
  | integer =>
    rw [kind] at admits
    exact atom_integer kind admits
  | decimal =>
    rw [kind] at admits
    obtain ⟨whole, fraction, lexeme, digits, digits'⟩ := admits
    refine .inl ⟨_, ?_, .decimal kind lexeme digits digits'⟩
    simp [atom, kind, lexeme, Number.double?_of_digits digits digits']
  | text =>
    rw [kind] at admits
    obtain ⟨body, lexeme, inside⟩ := admits
    have quoted : t.lexeme = "\"" ++ String.ofList body ++ "\"" :=
      String.toList_inj.1 (by simp [lexeme])
    refine .inl ⟨_, ?_, .text kind quoted (by simpa using inside)⟩
    simp [atom, kind, lexeme, Text.strip_quoted inside]
  | prompt =>
    rw [kind] at admits
    obtain ⟨body, lexeme, inside⟩ := admits
    have marked : t.lexeme = "??" ++ String.ofList body ++ "??" :=
      String.toList_inj.1 (by simp [lexeme])
    refine .inl ⟨_, ?_, .prompt kind marked (by simpa using inside)⟩
    simp [atom, kind, lexeme, promptText?_of]
  | keyword word =>
    cases word with
    | truth b => exact .inl ⟨_, by simp [atom, kind], .truth kind⟩
    | _ => simp [kind, TokenKind.isLiteral] at literal
  | _ => simp [kind, TokenKind.isLiteral] at literal

/-- A decoder finds fault only with literals. -/
theorem isLiteral_of_invalid {line : Nat} {lexeme : String}
    (h : t.atom = .error (.invalidLiteral line lexeme)) : t.kind.isLiteral := by
  simp only [atom] at h
  split at h <;> rename_i kind <;> simp_all [TokenKind.isLiteral]

end Token

theorem TokenKind.Heads.admits {kind : TokenKind} {lexeme rest : List Char}
    (h : kind.Heads lexeme rest) (literal : kind.isLiteral) : kind.Admits lexeme := by
  cases h with
  | front front => exact front.admits
  | stray => cases literal

/-- The lexemes of literal tokens are what the patterns of their kinds find. -/
theorem Scans.admits {line : Nat} {cs : List Char} {ts : List Token} (h : Scans line cs ts) :
    ∀ t ∈ ts, t.kind.isLiteral → t.kind.Admits t.lexeme.toList := by
  induction h with
  | ends =>
    intro t mem literal
    rw [List.mem_singleton.1 mem] at literal
    cases literal
  | token _ heads _ ih =>
    refine List.forall_mem_cons.2 ⟨fun literal => ?_, ih⟩
    simpa using heads.admits literal

theorem tokenize_admits (source : String) :
    ∀ t ∈ tokenize source, t.kind.isLiteral → t.kind.Admits t.lexeme.toList :=
  (scans_scan 1 source.toList).admits

end Betik
