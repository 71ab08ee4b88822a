/-
The rules for tokens, as regular expressions.

A rule is put together from classes of characters by the operations on languages: a
product stands for one thing after another, a sum for a choice, and a star for any number
of times.  Keywords are spelled out, like operators and marks, and nothing is said about
what may follow them.  A word follows the rule of a kind just if it is the text of a token
of that kind: `mem_rule`.
-/
import Mathlib.Computability.Language
import Betik.Proofs.Token.Front

namespace Betik

open scoped Computability

namespace TokenKind

def oneOf (p : Char → Prop) : Language Char :=
  {w | ∃ c, p c ∧ w = [c]}

def between (first last : Char) : Language Char :=
  oneOf fun c => first ≤ c ∧ c ≤ last

def among (text : String) : Language Char :=
  oneOf (· ∈ text.toList)

def butNot (q : Char) : Language Char :=
  oneOf (· ≠ q)

def exactly (text : String) : Language Char :=
  {text.toList}

def digit : Language Char :=
  between '0' '9'

def letter : Language Char :=
  between 'a' 'z' + between 'A' 'Z' + among "çğıöşüÇĞİÖŞÜ" + among "_"

def number : Language Char :=
  digit * digit∗

/-- The texts of tokens of a kind, as the language has them. -/
def rule : TokenKind → Language Char
  | keyword word => exactly word.spelling
  | operator op => exactly op.symbol
  | mark sign => exactly sign.spelling
  | integer => number
  | decimal => number * exactly "." * number
  | text => exactly "\"" * (butNot '"')∗ * exactly "\""
  | prompt => exactly "??" * (butNot '?')∗ * exactly "??"
  | comment => exactly "@" * (butNot '\n')∗
  | name => letter * (letter + digit)∗
  | endOfFile | unknown => 0

/-! ## What the parts of rules are -/

variable {p q : Char → Prop} {w : List Char}

theorem mem_oneOf : w ∈ oneOf p ↔ ∃ c, p c ∧ w = [c] := Iff.rfl

theorem oneOf_add : oneOf p + oneOf q = oneOf fun c => p c ∨ q c := by
  ext w
  rw [Language.mem_add, mem_oneOf, mem_oneOf, mem_oneOf, ← exists_or]
  simp only [or_and_right]

theorem mem_oneOf_kstar : w ∈ (oneOf p)∗ ↔ ∀ c ∈ w, p c := by
  rw [Language.mem_kstar]
  constructor
  · rintro ⟨parts, rfl, each⟩ c mem
    obtain ⟨part, listed, mem⟩ := List.mem_flatten.1 mem
    obtain ⟨d, inside, rfl⟩ := each part listed
    rwa [List.mem_singleton.1 mem]
  · intro inside
    have flat : w = (w.map fun c => [c]).flatten := by
      rw [← List.flatMap_def, List.flatMap_singleton']
    refine ⟨_, flat, fun part listed => ?_⟩
    obtain ⟨c, mem, rfl⟩ := List.mem_map.1 listed
    exact ⟨c, inside c mem, rfl⟩

theorem mem_butNot_kstar {c : Char} : w ∈ (butNot c)∗ ↔ c ∉ w := by
  rw [butNot, mem_oneOf_kstar]
  exact ⟨fun h mem => h c mem rfl, fun h d mem same => h (same ▸ mem)⟩

/-- A character of a class, and then any number of another one. -/
theorem mem_oneOf_mul_kstar :
    w ∈ oneOf p * (oneOf q)∗ ↔ ∃ c more, w = c :: more ∧ p c ∧ ∀ d ∈ more, q d := by
  simp only [Language.mem_mul, mem_oneOf, mem_oneOf_kstar]
  constructor
  · rintro ⟨_, ⟨c, first, rfl⟩, more, inside, rfl⟩
    exact ⟨c, more, rfl, first, inside⟩
  · rintro ⟨c, more, rfl, first, inside⟩
    exact ⟨[c], ⟨c, first, rfl⟩, more, inside, rfl⟩

theorem mem_exactly {text : String} : w ∈ exactly text ↔ w = text.toList := Iff.rfl

/-- Any number of other characters, between two fixed texts. -/
theorem mem_enclosed {c : Char} {first last : String} :
    w ∈ exactly first * (butNot c)∗ * exactly last ↔
      ∃ body, w = first.toList ++ body ++ last.toList ∧ c ∉ body := by
  simp only [Language.mem_mul, mem_exactly, mem_butNot_kstar]
  constructor
  · rintro ⟨_, ⟨_, rfl, body, free, rfl⟩, _, rfl, rfl⟩
    exact ⟨body, rfl, free⟩
  · rintro ⟨body, rfl, free⟩
    exact ⟨_, ⟨_, rfl, body, free, rfl⟩, _, rfl, rfl⟩

theorem digit_eq : digit = oneOf (Number.isDigit ·) := by
  simp [digit, between, Number.isDigit]

theorem letter_eq : letter = oneOf (isNameStart ·) := by
  simp only [letter, between, among, oneOf_add]
  congr 1
  funext c
  rw [or_right_comm]
  simp [isNameStart]

theorem letter_add_digit_eq : letter + digit = oneOf (isNameChar ·) := by
  rw [letter_eq, digit_eq, oneOf_add]
  simp [isNameChar]

theorem mem_number : w ∈ number ↔ w ≠ [] ∧ ∀ d ∈ w, Number.isDigit d := by
  rw [number, digit_eq, mem_oneOf_mul_kstar]
  constructor
  · rintro ⟨c, more, rfl, first, inside⟩
    exact ⟨List.cons_ne_nil _ _, List.forall_mem_cons.2 ⟨first, inside⟩⟩
  · rintro ⟨nonempty, digits⟩
    obtain ⟨c, more, rfl⟩ := List.exists_cons_of_ne_nil nonempty
    exact ⟨c, more, rfl, List.forall_mem_cons.1 digits⟩

theorem mem_rule {kind : TokenKind} : w ∈ kind.rule ↔ kind.Admits w := by
  cases kind with
  | keyword | operator | mark => exact mem_exactly
  | integer => exact mem_number
  | decimal =>
    simp only [rule, Language.mem_mul, mem_number, mem_exactly]
    constructor
    · rintro ⟨_, ⟨whole, digits, _, rfl, rfl⟩, fraction, digits', rfl⟩
      exact ⟨whole, fraction, List.append_assoc _ _ _, digits, digits'⟩
    · rintro ⟨whole, fraction, rfl, digits, digits'⟩
      exact ⟨_, ⟨whole, digits, _, rfl, rfl⟩, fraction, digits', List.append_assoc _ _ _⟩
  | text | prompt => exact mem_enclosed
  | comment =>
    simp only [rule, Language.mem_mul, mem_exactly, mem_butNot_kstar]
    constructor
    · rintro ⟨_, rfl, body, free, rfl⟩
      exact ⟨body, rfl, free⟩
    · rintro ⟨body, rfl, free⟩
      exact ⟨_, rfl, body, free, rfl⟩
  | name =>
    rw [rule, letter_add_digit_eq, letter_eq, mem_oneOf_mul_kstar]
    cases w with
    | nil => simp [Admits]
    | cons c more => simp [Admits]
  | endOfFile | unknown => exact iff_of_false (Language.notMem_zero w) id

end TokenKind
end Betik
