/-
The token at the front of a text.

`front?` tries one pattern after the other and takes the first that matches.  A pattern
decides if no token of a kind before it could begin the same text, and where one could
it is a longer one, which `Grows` rules out.  So the order is gone from what is found:
it is the token that begins the text.
-/
import Betik.Proofs.Token.Pattern
import Betik.Token.Lexer

namespace Betik

open Text

namespace TokenKind

/-! ## The table -/

/-- Every kind has its own pattern in the table. -/
theorem finds_of_mem {kind : TokenKind} {p : Pattern} (h : (kind, p) ∈ patterns) :
    p.Finds kind := by
  simp only [patterns, List.mem_append, List.mem_map, List.mem_cons, List.not_mem_nil, or_false,
    Prod.mk.injEq] at h
  rcases h with ((⟨word, -, rfl, rfl⟩ | h) | ⟨sign, mem, rfl, rfl⟩) | ⟨rfl, rfl⟩
  · exact Pattern.finds_word word
  · rcases h with ⟨rfl, rfl⟩ | ⟨rfl, rfl⟩ | ⟨rfl, rfl⟩ | ⟨rfl, rfl⟩ | ⟨rfl, rfl⟩
    · exact Pattern.finds_prompt
    · exact Pattern.finds_comment
    · exact Pattern.finds_decimal
    · exact Pattern.finds_integer
    · exact Pattern.finds_text
  · cases sign with
    | operator op => exact Pattern.finds_operator op
    | mark sign => exact Pattern.finds_mark sign
    | _ => simp at mem
  · exact Pattern.finds_name

/-- Every keyword looks like a name. -/
theorem admits_name_spelling (word : Keyword) : Admits name word.spelling.toList := by
  have all : ∀ word ∈ Keyword.all, word.spelling.toList.head?.any isNameStart ∧
      word.spelling.toList.tail.all isNameChar := by
    decide
  exact (all word word.mem_all).imp_right List.all_eq_true.1

theorem spelling_inj {word other : Keyword} (h : word.spelling = other.spelling) :
    word = other := by
  have all : ∀ word ∈ Keyword.all, ∀ other ∈ Keyword.all, word.spelling = other.spelling →
      word = other := by
    decide
  exact all word word.mem_all other other.mem_all h

variable {c : Char} {cs : List Char} {kind : TokenKind} {n : Nat}

theorem Admits.leads {more : List Char} (h : kind.Admits (c :: more)) : kind.leads c := by
  cases kind with
  | keyword word =>
    have spelled : c :: more = word.spelling.toList := h
    simpa [TokenKind.leads, ← spelled] using (admits_name_spelling word).1
  | operator op =>
    have spelled : c :: more = op.symbol.toList := h
    simp [TokenKind.leads, ← spelled]
  | mark sign =>
    have spelled : c :: more = sign.spelling.toList := h
    simp [TokenKind.leads, ← spelled]
  | integer => exact h.2 c (by simp)
  | decimal =>
    obtain ⟨whole, fraction, split, digits, -⟩ := h
    obtain ⟨d, whole, rfl⟩ := List.exists_cons_of_ne_nil digits.1
    cases split
    exact digits.2 c (by simp)
  | text | prompt | comment =>
    obtain ⟨body, same, -⟩ := h
    cases same
    rfl
  | name => simpa [TokenKind.leads] using h.1
  | endOfFile | unknown => exact h.elim

def keyword? (c : Char) (cs : List Char) : Option (TokenKind × Nat) :=
  Keyword.all.findSome? fun word =>
    (Pattern.word word.spelling.toList c cs).map (keyword word, ·)

def unreserved : List (TokenKind × Pattern) :=
  patterns.drop Keyword.all.length

theorem front?_eq_or (c : Char) (cs : List Char) :
    front? c cs = (keyword? c cs).or
      (unreserved.findSome? fun (kind, p) => (p c cs).map (kind, ·)) := by
  rw [front?, patterns, List.append_assoc, List.append_assoc, List.findSome?_append,
    List.findSome?_map]
  rfl

theorem keyword?_eq_some (h : keyword? c cs = some (kind, n)) :
    ∃ word more rest, kind = keyword word ∧ cs = more ++ rest ∧ more.length = n ∧
      c :: more = word.spelling.toList ∧ ¬startsWith isNameChar rest := by
  obtain ⟨word, -, found⟩ := List.exists_of_findSome?_eq_some h
  obtain ⟨n, matched, same⟩ := Option.map_eq_some_iff.1 found
  cases same
  obtain ⟨more, rest, split, length, spelled, stops⟩ := (Pattern.finds_word word _ _ _).1 matched
  exact ⟨word, more, rest, rfl, split, length, spelled, stops⟩

theorem keyword?_eq_none (other : ¬isNameStart c) : keyword? c cs = none := by
  refine Option.eq_none_iff_forall_ne_some.2 fun (kind, n) found => ?_
  obtain ⟨word, more, rest, -, -, -, spelled, -⟩ := keyword?_eq_some found
  have admits : (keyword word).Admits (c :: more) := spelled
  exact other admits.leads

/-- Which keyword is found in front of a text is seen from the word in front of it. -/
theorem eq_of_keyword? {more rest : List Char} (looks : name.Admits (c :: more))
    (stops : name.Stops rest) (found : keyword? c (more ++ rest) = some (kind, n)) :
    ∃ word, kind = keyword word ∧ n = more.length ∧ c :: more = word.spelling.toList := by
  obtain ⟨word, more', rest', same, split, length, spelled, stops'⟩ := keyword?_eq_some found
  have run : (more ++ rest).takeWhile isNameChar = more :=
    takeWhile_eq_iff.2 ⟨rest, rfl, looks.2, stops⟩
  have looks' := spelled ▸ admits_name_spelling word
  have run' : (more ++ rest).takeWhile isNameChar = more' :=
    takeWhile_eq_iff.2 ⟨rest', split, looks'.2, stops'⟩
  obtain rfl : more = more' := run.symm.trans run'
  exact ⟨word, same, length.symm, spelled⟩

theorem keyword?_of_front {word : Keyword} {more rest : List Char}
    (h : (keyword word).Front (c :: more) rest) :
    keyword? c (more ++ rest) = some (keyword word, more.length) := by
  have spelled : c :: more = word.spelling.toList := h.admits
  cases found : keyword? c (more ++ rest) with
  | none =>
    have fails := List.findSome?_eq_none_iff.1 found word word.mem_all
    have matched := (Pattern.finds_word word c (more ++ rest) more.length).2
      ⟨more, rest, rfl, rfl, spelled, h.stops⟩
    simp [matched] at fails
  | some r =>
    have looks := spelled ▸ admits_name_spelling word
    obtain ⟨other, same, length, spelled'⟩ := eq_of_keyword? looks h.stops found
    obtain rfl : other = word := spelling_inj (String.toList_inj.1 (spelled'.symm.trans spelled))
    rw [← length, ← same]

/-- The kinds whose patterns come first, those of keywords apart. -/
def kindsBefore (k : Nat) : List TokenKind :=
  (unreserved.take k).map Prod.fst

/-- A pattern decides if no token of a kind before it could begin there. -/
theorem front?_of_first {p : Pattern} (k : Nat) (words : keyword? c cs = none)
    (place : unreserved[k]? = some (kind, p))
    (before : ∀ other ∈ kindsBefore k, ∀ more rest, cs = more ++ rest → ¬other.Admits (c :: more))
    (found : p c cs = some n) : front? c cs = some (kind, n) := by
  obtain ⟨inside, here⟩ := List.getElem?_eq_some_iff.1 place
  rw [front?_eq_or, words, Option.none_or]
  refine List.findSome?_eq_some_iff.2 ⟨unreserved.take k, (kind, p), unreserved.drop (k + 1), ?_,
    by simp [found], fun (other, q) mem => ?_⟩
  · rw [← here, ← List.drop_eq_getElem_cons inside, List.take_append_drop]
  · have listed : (other, q) ∈ patterns := List.mem_of_mem_drop (List.mem_of_mem_take mem)
    rw [Option.map_eq_none_iff, Option.eq_none_iff_forall_ne_some]
    intro m matched
    obtain ⟨more, rest, split, -, admits, -⟩ := (finds_of_mem listed _ _ _).1 matched
    exact before other (List.mem_map_of_mem mem) more rest split admits

def isWord : TokenKind → Bool
  | keyword _ | name => true
  | _ => false

theorem isWord_of_leads (h : kind.leads c) (letter : isNameStart c) : kind.isWord := by
  cases kind with
  | keyword | name => rfl
  | integer | decimal => exact absurd letter (not_isNameStart_of_isDigit h)
  | operator op => cases op <;> cases of_decide_eq_true h <;> exact absurd letter (by decide)
  | mark sign => cases sign <;> cases of_decide_eq_true h <;> exact absurd letter (by decide)
  | text | prompt | comment => cases of_decide_eq_true h; exact absurd letter (by decide)
  | endOfFile | unknown => cases h

theorem not_leads_of_isDigit (digit : Number.isDigit c) :
    ∀ other ∈ kindsBefore 2, ¬other.leads c := by
  show ∀ other ∈ [prompt, comment], ¬other.leads c
  simp only [List.forall_mem_cons, leads, decide_eq_true_eq]
  refine ⟨?_, ?_, nofun⟩ <;> rintro rfl <;> exact absurd digit (by decide)

/-- A decimal that begins like an integer is longer by a point and a digit at least. -/
theorem grows_of_decimal {more rest more' rest' : List Char} (admits : integer.Admits (c :: more))
    (stops : integer.Stops rest) (split : more ++ rest = more' ++ rest')
    (longer : decimal.Admits (c :: more')) : integer.Grows rest := by
  obtain ⟨whole, fraction, same, digits, digits'⟩ := longer
  have both : c :: more ++ rest = whole ++ ('.' :: fraction ++ rest') := by
    rw [List.cons_append, split, ← List.cons_append, same, List.append_assoc]
  have run : (c :: more ++ rest).takeWhile Number.isDigit = c :: more :=
    takeWhile_eq_iff.2 ⟨rest, rfl, admits.2, stops⟩
  have run' : (c :: more ++ rest).takeWhile Number.isDigit = whole :=
    takeWhile_eq_iff.2 ⟨_, both, digits.2, by simp [startsWith, Number.isDigit]⟩
  rw [← run.symm.trans run'] at both
  obtain ⟨d, ds, rfl⟩ := List.exists_cons_of_ne_nil digits'.1
  exact ⟨d, ds ++ rest', List.append_cancel_left both, digits'.2 d (by simp)⟩

/-- A sign is found where no equals sign follows that would make another of it. -/
theorem front?_of_no_equals (grown : Operator) {p : Pattern} {rest : List Char} (k : Nat)
    (words : keyword? c rest = none) (place : unreserved[k]? = some (kind, p))
    (before : ∀ other ∈ kindsBefore k, other.leads c → other = operator grown)
    (spelled : grown.symbol.toList = [c, '=']) (found : p c rest = some n)
    (stop : ¬startsWith (· = '=') rest) : front? c rest = some (kind, n) := by
  refine front?_of_first k words place (fun other mem more rest' split admits => ?_) found
  cases before other mem admits.leads
  have same : c :: more = grown.symbol.toList := admits
  cases same.trans spelled
  exact stop (by simp [split, startsWith])

theorem front?_of_front {more rest : List Char} (h : kind.Front (c :: more) rest) :
    front? c (more ++ rest) = some (kind, more.length) := by
  have found {p : Pattern} (finds : p.Finds kind) : p c (more ++ rest) = some more.length :=
    (finds _ _ _).2 ⟨more, rest, rfl, rfl, h.admits, h.stops⟩
  -- it is enough that no kind whose pattern comes first has tokens with this beginning
  have alone {p : Pattern} (k : Nat) (words : keyword? c (more ++ rest) = none)
      (place : unreserved[k]? = some (kind, p)) (finds : p.Finds kind)
      (before : ∀ other ∈ kindsBefore k, ¬other.leads c) :
      front? c (more ++ rest) = some (kind, more.length) :=
    front?_of_first k words place (fun other mem _ _ _ admits => before other mem admits.leads)
      (found finds)
  cases kind with
  | keyword word =>
    rw [front?_eq_or, keyword?_of_front h]
    rfl
  | operator op =>
    have spelled : c :: more = op.symbol.toList := h.admits
    cases op with
    | greater =>
      obtain ⟨rfl, rfl⟩ : c = '>' ∧ more = [] := by simpa [Operator.symbol] using spelled
      exact front?_of_no_equals .greaterEq 9 rfl rfl (by decide) rfl rfl h.whole
    | less =>
      obtain ⟨rfl, rfl⟩ : c = '<' ∧ more = [] := by simpa [Operator.symbol] using spelled
      exact front?_of_no_equals .lessEq 10 rfl rfl (by decide) rfl rfl h.whole
    | _ => cases spelled; rfl
  | mark sign =>
    have spelled : c :: more = sign.spelling.toList := h.admits
    cases sign with
    | equals =>
      obtain ⟨rfl, rfl⟩ : c = '=' ∧ more = [] := by simpa [Mark.spelling] using spelled
      exact front?_of_no_equals .equal 11 rfl rfl (by decide) rfl rfl h.whole
    | _ => cases spelled; rfl
  | decimal =>
    have digit : Number.isDigit c := h.admits.leads
    exact alone 2 (keyword?_eq_none (not_isNameStart_of_isDigit digit)) rfl Pattern.finds_decimal
      (not_leads_of_isDigit digit)
  | integer =>
    have digit : Number.isDigit c := h.admits.leads
    refine front?_of_first 3 (keyword?_eq_none (not_isNameStart_of_isDigit digit)) rfl
      (fun other mem more' rest' split admits => ?_) (found Pattern.finds_integer)
    rcases List.mem_append.1 (show other ∈ kindsBefore 2 ++ [decimal] from mem) with mem | mem
    · exact not_leads_of_isDigit digit other mem admits.leads
    · obtain rfl := List.mem_singleton.1 mem
      exact h.whole (grows_of_decimal h.admits h.stops split admits)
  | text =>
    obtain ⟨body, same, -⟩ := h.admits
    cases same
    exact alone 4 (keyword?_eq_none (by decide)) rfl Pattern.finds_text (by decide)
  | prompt =>
    obtain ⟨body, same, -⟩ := h.admits
    cases same
    exact alone 0 (keyword?_eq_none (by decide)) rfl Pattern.finds_prompt (by decide)
  | comment =>
    obtain ⟨body, same, -⟩ := h.admits
    cases same
    exact alone 1 (keyword?_eq_none (by decide)) rfl Pattern.finds_comment (by decide)
  | name =>
    have letter : isNameStart c := h.admits.leads
    have words : keyword? c (more ++ rest) = none := by
      refine Option.eq_none_iff_forall_ne_some.2 fun (kind, n) found => ?_
      obtain ⟨word, -, -, spelled⟩ := eq_of_keyword? h.admits h.stops found
      exact h.reserved rfl word spelled
    have before : ∀ other ∈ kindsBefore 23, ¬other.isWord := by decide
    exact alone 23 words rfl Pattern.finds_name fun other mem leads =>
      before other mem (isWord_of_leads leads letter)
  | endOfFile | unknown => exact h.admits.elim

theorem exists_of_startsWith_equals {rest : List Char} (h : startsWith (· = '=') rest) :
    ∃ tail, rest = '=' :: tail := by
  cases rest with
  | nil => cases h
  | cons d tail => exact ⟨tail, by simpa [startsWith] using h⟩

/-- Where a token could go on as one of another kind, that one begins the text. -/
theorem exists_front_of_grows {more rest : List Char} (admits : kind.Admits (c :: more))
    (grows : kind.Grows rest) : ∃ (other : TokenKind) (further rest' : List Char),
      further ≠ [] ∧ rest = further ++ rest' ∧ other.Front (c :: (more ++ further)) rest' := by
  cases kind with
  | integer =>
    obtain ⟨d, ds, rfl, digit⟩ := grows
    obtain ⟨tail, split, inside, stop⟩ :=
      takeWhile_eq_iff.1 (Eq.refl (ds.takeWhile Number.isDigit))
    have digits : integer.Admits (d :: ds.takeWhile Number.isDigit) :=
      ⟨List.cons_ne_nil _ _, List.forall_mem_cons.2 ⟨digit, inside⟩⟩
    refine ⟨decimal, '.' :: d :: ds.takeWhile Number.isDigit, tail, nofun, ?_,
      ⟨c :: more, _, rfl, admits, digits⟩, stop, nofun, nofun⟩
    simp [← split]
  | operator op =>
    have spelled : c :: more = op.symbol.toList := admits
    cases op with
    | greater =>
      obtain ⟨tail, rfl⟩ := exists_of_startsWith_equals grows
      obtain ⟨rfl, rfl⟩ : c = '>' ∧ more = [] := by simpa [Operator.symbol] using spelled
      exact ⟨operator .greaterEq, ['='], tail, nofun, rfl, rfl, trivial, nofun, nofun⟩
    | less =>
      obtain ⟨tail, rfl⟩ := exists_of_startsWith_equals grows
      obtain ⟨rfl, rfl⟩ : c = '<' ∧ more = [] := by simpa [Operator.symbol] using spelled
      exact ⟨operator .lessEq, ['='], tail, nofun, rfl, rfl, trivial, nofun, nofun⟩
    | _ => exact grows.elim
  | mark sign =>
    have spelled : c :: more = sign.spelling.toList := admits
    cases sign with
    | equals =>
      obtain ⟨tail, rfl⟩ := exists_of_startsWith_equals grows
      obtain ⟨rfl, rfl⟩ : c = '=' ∧ more = [] := by simpa [Mark.spelling] using spelled
      exact ⟨operator .equal, ['='], tail, nofun, rfl, rfl, trivial, nofun, nofun⟩
    | _ => exact grows.elim
  | _ => exact grows.elim

/-- What is found in front of a text is a token that begins it, and the other way
round. -/
theorem front?_eq_some_iff :
    front? c cs = some (kind, n) ↔
      ∃ more rest, cs = more ++ rest ∧ more.length = n ∧ kind.Front (c :: more) rest := by
  constructor
  · intro h
    obtain ⟨⟨_, p⟩, listed, found⟩ := List.exists_of_findSome?_eq_some h
    obtain ⟨_, matched, same⟩ := Option.map_eq_some_iff.1 found
    cases same
    obtain ⟨more, rest, rfl, rfl, admits, stops⟩ := (finds_of_mem listed _ _ _).1 matched
    refine ⟨more, rest, rfl, rfl, admits, stops, fun grows => ?_, fun same word spelled => ?_⟩
    · obtain ⟨other, further, rest', longer, rfl, front⟩ := exists_front_of_grows admits grows
      have grown := front?_of_front front
      rw [List.append_assoc, h] at grown
      injection grown with grown
      injection grown with _ length
      exact longer (by simpa using length)
    · subst same
      have front : (keyword word).Front (c :: more) rest := ⟨spelled, stops, nofun, nofun⟩
      cases h.symm.trans (front?_of_front front)
  · rintro ⟨more, rest, rfl, rfl, front⟩
    exact front?_of_front front

end TokenKind
end Betik
