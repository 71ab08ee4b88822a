/-
The patterns of tokens, each by itself.

`Admits` tells which texts are tokens of a kind, `Stops` where one is over and `Grows`
what would make more of it; `Front` puts them together to say that a token of a kind
begins a text, without an order among the kinds.  Of each pattern it is said that it finds
what `Admits` and `Stops` say of its kind.
-/
import Betik.Text.Blank
import Betik.Token.Pattern

namespace Betik

open Text

/-! ## Characters and runs of them -/

theorem isNameChar_of_isNameStart {c : Char} (h : isNameStart c) : isNameChar c := by
  simp [isNameChar, h]

theorem isNameChar_of_isDigit {c : Char} (h : Number.isDigit c) : isNameChar c := by
  simp [isNameChar, h]

theorem not_isNameStart_of_isDigit {c : Char} (h : Number.isDigit c) : ¬isNameStart c := by
  simp [isNameStart, Number.isDigit, Char.le_def, UInt32.le_iff_toNat_le, Char.ext_iff,
    ← UInt32.toNat_inj] at h ⊢
  omega

theorem not_isNameChar_of_isBlank {c : Char} (h : isBlank c) : ¬isNameChar c := by
  simp [isBlank, isNameChar, isNameStart, Number.isDigit, Char.le_def, UInt32.le_iff_toNat_le,
    Char.ext_iff, ← UInt32.toNat_inj] at h ⊢
  omega

theorem not_isBlank_of_isNameStart {c : Char} (h : isNameStart c) : ¬isBlank c :=
  fun blank => not_isNameChar_of_isBlank blank (isNameChar_of_isNameStart h)

theorem not_isBlank_of_isDigit {c : Char} (h : Number.isDigit c) : ¬isBlank c :=
  fun blank => not_isNameChar_of_isBlank blank (isNameChar_of_isDigit h)

def startsWith (p : Char → Bool) (rest : List Char) : Bool :=
  rest.head?.any p

/-- The run of a class in front of a text, said by cutting the text in two. -/
theorem takeWhile_eq_iff {p : Char → Bool} {cs run : List Char} :
    cs.takeWhile p = run ↔
      ∃ rest, cs = run ++ rest ∧ (∀ c ∈ run, p c) ∧ ¬startsWith p rest := by
  constructor
  · rintro rfl
    refine ⟨cs.dropWhile p, List.takeWhile_append_dropWhile.symm,
      List.all_eq_true.1 List.all_takeWhile, ?_⟩
    have stop := List.head?_dropWhile_not p cs
    cases hd : (cs.dropWhile p).head? with
    | none => simp [startsWith, hd]
    | some d => simpa [startsWith, hd] using stop
  · rintro ⟨rest, rfl, inside, stop⟩
    rw [List.takeWhile_append_of_pos inside]
    cases rest with
    | nil => simp
    | cons d ds =>
      have outside : p d = false := by simpa [startsWith] using stop
      simp [outside]

theorem length_takeWhile_eq_iff {p : Char → Bool} {cs : List Char} {n : Nat} :
    (cs.takeWhile p).length = n ↔
      ∃ run rest, cs = run ++ rest ∧ run.length = n ∧ (∀ c ∈ run, p c) ∧ ¬startsWith p rest := by
  constructor
  · intro length
    obtain ⟨rest, split, inside, stop⟩ := takeWhile_eq_iff.1 (Eq.refl (cs.takeWhile p))
    exact ⟨_, rest, split, length, inside, stop⟩
  · rintro ⟨run, rest, split, length, inside, stop⟩
    rw [takeWhile_eq_iff.2 ⟨rest, split, inside, stop⟩, length]

/-- What stands in front of a character that ends it. -/
theorem takeWhile_ne_eq_iff {q : Char} {cs body : List Char} :
    cs.takeWhile (· ≠ q) = body ↔
      ∃ rest, cs = body ++ rest ∧ q ∉ body ∧ (rest = [] ∨ ∃ tail, rest = q :: tail) := by
  have inside : (∀ c ∈ body, decide (c ≠ q)) ↔ q ∉ body := by
    simp only [decide_eq_true_eq]
    exact ⟨fun h mem => h q mem rfl, fun h c mem same => h (same ▸ mem)⟩
  have stop (rest : List Char) :
      ¬startsWith (· ≠ q) rest ↔ rest = [] ∨ ∃ tail, rest = q :: tail := by
    cases rest <;> simp [startsWith]
  simp only [takeWhile_eq_iff, inside, stop]

namespace TokenKind

/-! ## Tokens without an order among the patterns -/

/-- The texts of the tokens of a kind.  Keywords look like names. -/
def Admits : TokenKind → List Char → Prop
  | keyword word, cs => cs = word.spelling.toList
  | operator op, cs => cs = op.symbol.toList
  | mark sign, cs => cs = sign.spelling.toList
  | integer, cs => cs ≠ [] ∧ ∀ d ∈ cs, Number.isDigit d
  | decimal, cs => ∃ whole fraction, cs = whole ++ '.' :: fraction ∧
    (whole ≠ [] ∧ ∀ d ∈ whole, Number.isDigit d) ∧ fraction ≠ [] ∧ ∀ d ∈ fraction, Number.isDigit d
  | text, cs => ∃ body, cs = '"' :: (body ++ ['"']) ∧ '"' ∉ body
  | prompt, cs => ∃ body, cs = '?' :: '?' :: (body ++ ['?', '?']) ∧ '?' ∉ body
  | comment, cs => ∃ body, cs = '@' :: body ∧ '\n' ∉ body
  | name, cs => cs.head?.any isNameStart ∧ ∀ d ∈ cs.tail, isNameChar d
  | endOfFile, _ | unknown, _ => False

/-- The run of characters that makes up a token of the kind is over. -/
def Stops : TokenKind → List Char → Prop
  | keyword _, rest | name, rest => ¬startsWith isNameChar rest
  | integer, rest | decimal, rest => ¬startsWith Number.isDigit rest
  | comment, rest => rest = [] ∨ ∃ tail, rest = '\n' :: tail
  | _, _ => True

def leads : TokenKind → Char → Bool
  | keyword _, c | name, c => isNameStart c
  | integer, c | decimal, c => Number.isDigit c
  | operator op, c => op.symbol.toList.head? = some c
  | mark sign, c => sign.spelling.toList.head? = some c
  | text, c => c = '"'
  | prompt, c => c = '?'
  | comment, c => c = '@'
  | endOfFile, _ | unknown, _ => false

/-- A token of another kind begins like one of this kind, and goes further. -/
def Grows : TokenKind → List Char → Prop
  | integer, rest => ∃ d ds, rest = '.' :: d :: ds ∧ Number.isDigit d
  | operator .greater, rest | operator .less, rest | mark .equals, rest => startsWith (· = '=') rest
  | _, _ => False

/-- A token grows on the strength of a point and a digit, or of an equals sign. -/
theorem Grows.mono {kind : TokenKind} {rest tail : List Char} (h : kind.Grows tail)
    (point : integer.Grows tail → integer.Grows rest)
    (equals : startsWith (· = '=') tail → startsWith (· = '=') rest) : kind.Grows rest := by
  cases kind with
  | integer => exact point h
  | operator op => cases op <;> first | exact equals h | exact h
  | mark sign => cases sign <;> first | exact equals h | exact h
  | _ => exact h

structure Front (kind : TokenKind) (lexeme rest : List Char) : Prop where
  admits : kind.Admits lexeme
  stops : kind.Stops rest
  whole : ¬kind.Grows rest
  reserved : kind = name → ∀ word : Keyword, lexeme ≠ word.spelling.toList

end TokenKind

namespace Pattern

open TokenKind (Admits Stops)

/-! ## The patterns, each by itself -/

/-- The pattern finds the tokens of the kind, as far as other patterns let it. -/
def Finds (p : Pattern) (kind : TokenKind) : Prop :=
  ∀ c cs n, p c cs = some n ↔ ∃ more rest, cs = more ++ rest ∧ more.length = n ∧
    kind.Admits (c :: more) ∧ kind.Stops rest

theorem spelled_eq_some_iff {spelling : List Char} {c : Char} {cs : List Char} {n : Nat} :
    spelled spelling c cs = some n ↔
      ∃ more rest, cs = more ++ rest ∧ more.length = n ∧ c :: more = spelling := by
  cases spelling with
  | nil => simp [spelled]
  | cons s ss =>
    simp only [spelled, List.isPrefixOf_iff_prefix, Option.ite_none_right_eq_some,
      Option.some.injEq, List.cons.injEq]
    constructor
    · rintro ⟨⟨rfl, rest, rfl⟩, rfl⟩
      exact ⟨ss, rest, rfl, rfl, rfl, rfl⟩
    · rintro ⟨_, rest, rfl, rfl, rfl, rfl⟩
      exact ⟨⟨rfl, rest, rfl⟩, rfl⟩

theorem finds_operator (op : Operator) : Finds (spelled op.symbol.toList) (.operator op) := by
  intro c cs n
  simp only [spelled_eq_some_iff, Admits, Stops, and_true]

theorem finds_mark (sign : Mark) : Finds (spelled sign.spelling.toList) (.mark sign) := by
  intro c cs n
  simp only [spelled_eq_some_iff, Admits, Stops, and_true]

theorem finds_word (word : Keyword) :
    Finds (Pattern.word word.spelling.toList) (.keyword word) := by
  intro c cs n
  have next (more rest : List Char) : (more ++ rest)[more.length]? = rest.head? := by
    rw [List.getElem?_append_right (Nat.le_refl _), Nat.sub_self, List.head?_eq_getElem?]
  simp only [Pattern.word, Option.bind_eq_bind, Option.bind_eq_some_iff, spelled_eq_some_iff,
    Option.ite_none_left_eq_some, Option.some.injEq]
  constructor
  · rintro ⟨_, ⟨more, rest, rfl, rfl, same⟩, stop, rfl⟩
    rw [next] at stop
    exact ⟨more, rest, rfl, rfl, same, stop⟩
  · rintro ⟨more, rest, rfl, rfl, same, stop⟩
    refine ⟨_, ⟨more, rest, rfl, rfl, same⟩, ?_, rfl⟩
    rwa [next]

theorem finds_name : Finds name .name := by
  intro c cs n
  simp only [name, Option.ite_none_right_eq_some, Option.some.injEq, length_takeWhile_eq_iff]
  constructor
  · rintro ⟨first, run, rest, split, length, inside, stop⟩
    exact ⟨run, rest, split, length, ⟨first, inside⟩, stop⟩
  · rintro ⟨run, rest, split, length, ⟨first, inside⟩, stop⟩
    exact ⟨first, run, rest, split, length, inside, stop⟩

theorem finds_integer : Finds integer .integer := by
  intro c cs n
  simp only [integer, Option.ite_none_right_eq_some, Option.some.injEq, length_takeWhile_eq_iff]
  constructor
  · rintro ⟨first, run, rest, split, length, inside, stop⟩
    exact ⟨run, rest, split, length, ⟨List.cons_ne_nil _ _, List.forall_mem_cons.2 ⟨first, inside⟩⟩,
      stop⟩
  · rintro ⟨run, rest, split, length, ⟨-, digits⟩, stop⟩
    obtain ⟨first, inside⟩ := List.forall_mem_cons.1 digits
    exact ⟨first, run, rest, split, length, inside, stop⟩

theorem finds_decimal : Finds decimal .decimal := by
  intro c cs n
  simp only [decimal, Option.bind_eq_bind, Option.bind_eq_some_iff]
  constructor
  · rintro ⟨_, found, h⟩
    obtain ⟨whole, rest, rfl, rfl, digits, -⟩ := (finds_integer c cs _).1 found
    rw [List.drop_left] at h
    split at h
    · rename_i d ds
      simp only [Option.bind_eq_some_iff] at h
      obtain ⟨_, found', h⟩ := h
      obtain ⟨fraction, rest, rfl, rfl, digits', stop⟩ := (finds_integer d ds _).1 found'
      cases h
      refine ⟨whole ++ '.' :: d :: fraction, rest, by simp, by simp; omega, ?_, stop⟩
      exact ⟨c :: whole, d :: fraction, rfl, digits, digits'⟩
    · cases h
  · rintro ⟨more, rest, rfl, rfl, ⟨whole, fraction, split, digits, digits'⟩, stop⟩
    obtain ⟨c', whole, rfl⟩ := List.exists_cons_of_ne_nil digits.1
    obtain ⟨d, fraction, rfl⟩ := List.exists_cons_of_ne_nil digits'.1
    injection split with same split
    subst same split
    have point : Stops .integer ('.' :: d :: (fraction ++ rest)) := by
      simp [Stops, startsWith, Number.isDigit]
    have first : integer c (whole ++ '.' :: d :: (fraction ++ rest)) = some whole.length :=
      (finds_integer _ _ _).2 ⟨whole, _, rfl, rfl, digits, point⟩
    have second : integer d (fraction ++ rest) = some fraction.length :=
      (finds_integer _ _ _).2 ⟨fraction, rest, rfl, rfl, digits', stop⟩
    refine ⟨_, by simpa using first, ?_⟩
    simp [second]
    omega

theorem finds_comment : Finds comment .comment := by
  intro c cs n
  obtain ⟨rest, split, inside, stop⟩ := takeWhile_ne_eq_iff.1 (Eq.refl (cs.takeWhile (· ≠ '\n')))
  simp only [comment, Option.ite_none_right_eq_some, Option.some.injEq]
  constructor
  · rintro ⟨rfl, length⟩
    exact ⟨_, rest, split, length, ⟨_, rfl, inside⟩, stop⟩
  · rintro ⟨more, rest', split', length, ⟨body, same, inside'⟩, stop'⟩
    cases same
    rw [takeWhile_ne_eq_iff.2 ⟨rest', split', inside', stop'⟩]
    exact ⟨rfl, length⟩

theorem finds_text : Finds text .text := by
  intro c cs n
  simp only [text, Option.ite_none_right_eq_some, Option.some.injEq]
  constructor
  · rintro ⟨⟨rfl, short⟩, rfl⟩
    obtain ⟨rest, split, inside, stop⟩ := takeWhile_ne_eq_iff.1 (Eq.refl (cs.takeWhile (· ≠ '"')))
    generalize cs.takeWhile (· ≠ '"') = body at *
    rcases stop with rfl | ⟨tail, rfl⟩
    · simp [split] at short
    · exact ⟨body ++ ['"'], tail, by simp [split], by simp, ⟨body, rfl, inside⟩, trivial⟩
  · rintro ⟨_, rest, rfl, rfl, ⟨body, same, inside⟩, -⟩
    cases same
    rw [takeWhile_ne_eq_iff.2 ⟨'"' :: rest, by simp, inside, .inr ⟨rest, rfl⟩⟩]
    exact ⟨⟨rfl, by simp⟩, by simp⟩

theorem finds_prompt : Finds prompt .prompt := by
  intro c cs n
  unfold prompt
  constructor
  · intro h
    split at h
    · rename_i body
      simp only [Option.ite_none_right_eq_some, Option.some.injEq, List.isPrefixOf_iff_prefix] at h
      obtain ⟨⟨tail, closed⟩, rfl⟩ := h
      obtain ⟨rest, split, inside, -⟩ :=
        takeWhile_ne_eq_iff.1 (Eq.refl (body.takeWhile (· ≠ '?')))
      generalize body.takeWhile (· ≠ '?') = text at *
      rw [split, List.drop_left] at closed
      exact ⟨'?' :: (text ++ ['?', '?']), tail, by simp [split, ← closed], by simp,
        ⟨text, rfl, inside⟩, trivial⟩
    · cases h
  · rintro ⟨_, rest, rfl, rfl, ⟨body, same, inside⟩, -⟩
    cases same
    simp only [List.cons_append, List.append_assoc, List.nil_append]
    rw [takeWhile_ne_eq_iff.2 ⟨'?' :: '?' :: rest, rfl, inside, .inr ⟨'?' :: rest, rfl⟩⟩]
    simp

end Pattern

end Betik
