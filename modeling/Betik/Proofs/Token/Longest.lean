/-
The first pattern that matches finds the longest token.

The patterns are tried in the order of their table, and the rules know no order: a rule
matches a beginning of the input or not.  Still the table finds the longest beginning that
any rule matches.  A beginning that a rule matches is part of a token in front of the
input, `Admits.exists_front`, and there is only one token in front of it.  Two rules match
that token only if it is a keyword, which looks like a name.  In which order the table has
the keywords makes no difference.
-/
import Betik.Proofs.Token.Rules

namespace Betik
namespace TokenKind

variable {c : Char} {cs more rest : List Char} {kind other : TokenKind} {n : Nat}

/-! ## Every match is part of a token -/

/-- The run of a class in front of a text is cut off where it ends. -/
theorem exists_run (p : Char → Bool) (cs : List Char) :
    ∃ run rest, cs = run ++ rest ∧ (∀ d ∈ run, p d) ∧ ¬startsWith p rest :=
  ⟨_, takeWhile_eq_iff.1 rfl⟩

/-- A text that is a token of a kind can be taken to where such a token stops. -/
theorem Admits.exists_stops (admits : kind.Admits (c :: more)) (cs : List Char)
    (unreserved : ∀ word, kind ≠ keyword word) :
    ∃ further rest, cs = further ++ rest ∧ kind.Admits (c :: (more ++ further)) ∧
      kind.Stops rest := by
  cases kind with
  | keyword word => exact absurd rfl (unreserved word)
  | integer =>
    obtain ⟨run, rest, split, inside, stops⟩ := exists_run Number.isDigit cs
    refine ⟨run, rest, split, ⟨List.cons_ne_nil _ _, ?_⟩, stops⟩
    exact List.forall_mem_append.2 ⟨admits.2, inside⟩
  | decimal =>
    obtain ⟨run, rest, split, inside, stops⟩ := exists_run Number.isDigit cs
    obtain ⟨whole, fraction, same, digits, nonempty, digits'⟩ := admits
    refine ⟨run, rest, split, ⟨whole, fraction ++ run, ?_, digits, ?_, ?_⟩, stops⟩
    · rw [← List.cons_append, same, List.append_assoc, List.cons_append]
    · exact List.append_ne_nil_of_left_ne_nil nonempty run
    · exact List.forall_mem_append.2 ⟨digits', inside⟩
  | comment =>
    obtain ⟨body, same, free⟩ := admits
    obtain ⟨rest, split, free', stops⟩ := takeWhile_ne_eq_iff.1 (Eq.refl (cs.takeWhile (· ≠ '\n')))
    generalize cs.takeWhile (· ≠ '\n') = run at split free'
    refine ⟨run, rest, split, ⟨body ++ run, ?_, ?_⟩, stops⟩
    · rw [← List.cons_append, same, List.cons_append]
    · exact fun mem => (List.mem_append.1 mem).elim free free'
  | name =>
    obtain ⟨run, rest, split, inside, stops⟩ := exists_run isNameChar cs
    refine ⟨run, rest, split, ⟨admits.1, ?_⟩, stops⟩
    exact List.forall_mem_append.2 ⟨admits.2, inside⟩
  | operator | mark | text | prompt | endOfFile | unknown =>
    exact ⟨[], cs, rfl, by rwa [List.append_nil], trivial⟩

/-- Where a token of a kind stops, a token begins the text: that one, or the keyword that
looks like it, or a longer one of another kind. -/
theorem Admits.exists_front_of_stops (admits : kind.Admits (c :: more)) (stops : kind.Stops rest) :
    ∃ (other : TokenKind) (further rest' : List Char), rest = further ++ rest' ∧
      other.Front (c :: (more ++ further)) rest' ∧
      (further = [] → other = kind ∨ kind = name ∧ ∃ word, other = keyword word) := by
  by_cases grows : kind.Grows rest
  · obtain ⟨other, further, rest', longer, split, front⟩ := exists_front_of_grows admits grows
    exact ⟨other, further, rest', split, front, fun nothing => absurd nothing longer⟩
  by_cases reserved : kind = name ∧ ∃ word : Keyword, c :: more = word.spelling.toList
  · obtain ⟨rfl, word, spelled⟩ := reserved
    refine ⟨keyword word, [], rest, rfl, ?_, fun _ => .inr ⟨rfl, word, rfl⟩⟩
    rw [List.append_nil]
    exact ⟨spelled, stops, nofun, nofun⟩
  · refine ⟨kind, [], rest, rfl, ?_, fun _ => .inl rfl⟩
    rw [List.append_nil]
    exact ⟨admits, stops, grows, fun named word spelled => reserved ⟨named, word, spelled⟩⟩

/-- A beginning of a text that is a token of some kind is part of the token in front of the
text, and if it is all of it, it is of that kind or looks like a name. -/
theorem Admits.exists_front (admits : kind.Admits (c :: more)) (cs : List Char) :
    ∃ (other : TokenKind) (further rest : List Char), cs = further ++ rest ∧
      other.Front (c :: (more ++ further)) rest ∧
      (further = [] → other = kind ∨ kind = name ∧ ∃ word, other = keyword word) := by
  by_cases isKeyword : ∃ word, kind = keyword word
  · -- a keyword goes on as a name, and is found again if it does not go on
    obtain ⟨word, rfl⟩ := isKeyword
    have spelled : c :: more = word.spelling.toList := admits
    have looks : name.Admits (c :: more) := spelled ▸ admits_name_spelling word
    obtain ⟨further, rest, rfl, looks', stops⟩ := looks.exists_stops cs nofun
    obtain ⟨other, further', rest', rfl, front, whole⟩ := looks'.exists_front_of_stops stops
    rw [List.append_assoc] at front
    refine ⟨other, further ++ further', rest', (List.append_assoc _ _ _).symm, front, ?_⟩
    intro nothing
    obtain ⟨rfl, rfl⟩ := List.append_eq_nil_iff.1 nothing
    rw [List.append_nil, List.append_nil] at front
    obtain rfl | ⟨-, other, rfl⟩ := whole rfl
    · exact absurd spelled (front.reserved rfl word)
    · have spelled' : c :: more = other.spelling.toList := front.admits
      rw [spelling_inj (String.toList_inj.1 (spelled'.symm.trans spelled))]
      exact .inl rfl
  · obtain ⟨further, rest, rfl, admits', stops⟩ :=
      admits.exists_stops cs fun word same => isKeyword ⟨word, same⟩
    obtain ⟨other, further', rest', rfl, front, whole⟩ := admits'.exists_front_of_stops stops
    rw [List.append_assoc] at front
    refine ⟨other, further ++ further', rest', (List.append_assoc _ _ _).symm, front, ?_⟩
    exact fun nothing => whole (List.append_eq_nil_iff.1 nothing).2

/-! ## The longest match -/

/-- The lexeme begins the input and follows the rule of the kind, and no longer beginning
follows the rule of any kind.  It follows the rule of another kind only if it is a keyword,
which is no name. -/
structure Longest (input : List Char) (kind : TokenKind) (lexeme : List Char) : Prop where
  begins : lexeme <+: input
  follows : lexeme ∈ kind.rule
  longest : ∀ other : TokenKind, ∀ w ∈ other.rule, w <+: input → w.length ≤ lexeme.length
  preferred : ∀ other : TokenKind, lexeme ∈ other.rule →
    other = kind ∨ other = name ∧ ∃ word, kind = keyword word

theorem Longest.unique {input lexeme lexeme' : List Char} (h : Longest input kind lexeme)
    (h' : Longest input other lexeme') : kind = other ∧ lexeme = lexeme' := by
  have length : lexeme.length = lexeme'.length :=
    Nat.le_antisymm (h'.longest kind lexeme h.follows h.begins)
      (h.longest other lexeme' h'.follows h'.begins)
  obtain rfl : lexeme = lexeme' :=
    (List.prefix_of_prefix_length_le h.begins h'.begins length.le).eq_of_length length
  refine ⟨?_, rfl⟩
  obtain same | ⟨rfl, word, rfl⟩ := h'.preferred kind h.follows
  · exact same
  · obtain same | ⟨-, word', same⟩ := h.preferred (keyword word) h'.follows
    · exact same.symm
    · cases same

theorem Admits.ne_nil {lexeme : List Char} (admits : kind.Admits lexeme) : lexeme ≠ [] := by
  rintro rfl
  cases kind with
  | keyword word =>
    have spelled : [] = word.spelling.toList := admits
    have looks := spelled ▸ admits_name_spelling word
    exact absurd looks.1 nofun
  | operator op => cases op <;> cases admits
  | mark sign => cases sign <;> cases admits
  | integer => exact admits.1 rfl
  | decimal =>
    obtain ⟨whole, fraction, same, -⟩ := admits
    exact List.append_ne_nil_of_right_ne_nil whole (List.cons_ne_nil _ _) same.symm
  | text | prompt | comment =>
    obtain ⟨body, same, -⟩ := admits
    cases same
  | name => exact absurd admits.1 nofun
  | endOfFile | unknown => exact admits

/-- The token in front of a text is the longest match. -/
theorem Front.longest (front : kind.Front (c :: more) rest) :
    Longest (c :: (more ++ rest)) kind (c :: more) := by
  -- any other match is part of a token in front of the text, which can only be this one
  have unique {other : TokenKind} {more' tail : List Char} (admits : other.Admits (c :: more'))
      (split : more' ++ tail = more ++ rest) :
      ∃ further, more = more' ++ further ∧
        (further = [] → kind = other ∨ other = name ∧ ∃ word, kind = keyword word) := by
    obtain ⟨other', further, rest', rfl, front', whole⟩ := admits.exists_front tail
    have found := front?_of_front front'
    rw [List.append_assoc, split, front?_of_front front] at found
    injection found with found
    injection found with same length
    rw [← List.append_assoc] at split
    exact ⟨further, (List.append_inj split length.symm).1.symm, same ▸ whole⟩
  constructor
  case begins => exact ⟨rest, rfl⟩
  case follows => exact mem_rule.2 front.admits
  case longest =>
    rintro other w follows ⟨tail, split⟩
    have admits := mem_rule.1 follows
    obtain ⟨d, more', rfl⟩ := List.exists_cons_of_ne_nil admits.ne_nil
    injection split with same split
    subst same
    obtain ⟨further, rfl, -⟩ := unique admits split
    simp
  case preferred =>
    intro other follows
    obtain ⟨further, same, whole⟩ := unique (mem_rule.1 follows) rfl
    exact (whole (List.self_eq_append_right.1 same)).imp_left Eq.symm

/-- Every match is part of the token in front of the text. -/
theorem front?_eq_none_iff :
    front? c cs = none ↔ ∀ kind : TokenKind, ∀ w ∈ kind.rule, w ≠ [] → ¬w <+: c :: cs := by
  constructor
  · rintro nothing kind w follows - ⟨tail, split⟩
    have admits := mem_rule.1 follows
    obtain ⟨d, more, rfl⟩ := List.exists_cons_of_ne_nil admits.ne_nil
    injection split with same split
    subst same split
    obtain ⟨other, further, rest, rfl, front, -⟩ := admits.exists_front tail
    have found := front?_of_front front
    rw [List.append_assoc] at found
    cases nothing.symm.trans found
  · intro nothing
    refine Option.eq_none_iff_forall_ne_some.2 fun (kind, n) found => ?_
    obtain ⟨more, rest, rfl, -, front⟩ := front?_eq_some_iff.1 found
    exact nothing kind _ front.longest.follows (List.cons_ne_nil c more) front.longest.begins

theorem front?_eq_some_iff_longest :
    front? c cs = some (kind, n) ↔
      ∃ lexeme, lexeme.length = n + 1 ∧ Longest (c :: cs) kind lexeme := by
  constructor
  · intro found
    obtain ⟨more, rest, rfl, rfl, front⟩ := front?_eq_some_iff.1 found
    exact ⟨c :: more, rfl, front.longest⟩
  · rintro ⟨lexeme, length, longest⟩
    have nonempty := (mem_rule.1 longest.follows).ne_nil
    cases found : front? c cs with
    | none =>
      have nothing := front?_eq_none_iff.1 found kind _ longest.follows nonempty
      exact absurd longest.begins nothing
    | some r =>
      obtain ⟨other, k⟩ := r
      obtain ⟨more, rest, rfl, rfl, front⟩ := front?_eq_some_iff.1 found
      obtain ⟨rfl, rfl⟩ := longest.unique front.longest
      rw [Nat.succ.inj length]

theorem front?_eq_keyword_iff {word : Keyword} :
    (∃ n, front? c cs = some (keyword word, n)) ↔
      c :: cs.takeWhile isNameChar = word.spelling.toList := by
  constructor
  · rintro ⟨n, found⟩
    obtain ⟨more, rest, rfl, -, front⟩ := front?_eq_some_iff.1 found
    have spelled : c :: more = word.spelling.toList := front.admits
    have looks : name.Admits (c :: more) := spelled ▸ admits_name_spelling word
    have run : (more ++ rest).takeWhile isNameChar = more :=
      takeWhile_eq_iff.2 ⟨rest, rfl, looks.2, front.stops⟩
    rwa [run]
  · intro spelled
    obtain ⟨rest, split, -, stops⟩ := takeWhile_eq_iff.1 (Eq.refl (cs.takeWhile isNameChar))
    exact ⟨_, front?_eq_some_iff.2 ⟨_, rest, split, rfl, spelled, stops, nofun, nofun⟩⟩

/-! ## The order of the keywords -/

/-- The table with the keywords in an order of its own. -/
def patternsOf (words : List Keyword) : List (TokenKind × Pattern) :=
  words.map (fun word => (keyword word, Pattern.word word.spelling.toList)) ++ unreserved

def frontOf? (words : List Keyword) (c : Char) (cs : List Char) : Option (TokenKind × Nat) :=
  (patternsOf words).findSome? fun (kind, pattern) => (pattern c cs).map (kind, ·)

theorem word_eq_some_iff {word : Keyword} :
    Pattern.word word.spelling.toList c cs = some n ↔ front? c cs = some (keyword word, n) := by
  rw [Pattern.finds_word word c cs n, front?_eq_some_iff]
  constructor
  · rintro ⟨more, rest, split, length, admits, stops⟩
    exact ⟨more, rest, split, length, admits, stops, nofun, nofun⟩
  · rintro ⟨more, rest, split, length, front⟩
    exact ⟨more, rest, split, length, front.admits, front.stops⟩

/-- Only one keyword can be found, so it makes no difference which one is tried first. -/
theorem findSome?_words {words : List Keyword} (complete : ∀ word, word ∈ words)
    (r : TokenKind × Nat) :
    (words.findSome? fun word => (Pattern.word word.spelling.toList c cs).map (keyword word, ·)) =
        some r ↔
      ∃ word n, r = (keyword word, n) ∧ front? c cs = some r := by
  have found {r : TokenKind × Nat} (h : (words.findSome? fun word =>
      (Pattern.word word.spelling.toList c cs).map (keyword word, ·)) = some r) :
      ∃ word n, r = (keyword word, n) ∧ front? c cs = some r := by
    obtain ⟨word, -, mapped⟩ := List.exists_of_findSome?_eq_some h
    obtain ⟨n, matched, rfl⟩ := Option.map_eq_some_iff.1 mapped
    exact ⟨word, n, rfl, word_eq_some_iff.1 matched⟩
  refine ⟨found, ?_⟩
  rintro ⟨word, n, rfl, front⟩
  cases h : words.findSome? fun word =>
      (Pattern.word word.spelling.toList c cs).map (keyword word, ·) with
  | none =>
    have fails := List.findSome?_eq_none_iff.1 h word (complete word)
    simp [word_eq_some_iff.2 front] at fails
  | some r =>
    obtain ⟨-, -, -, front'⟩ := found h
    rw [← front', front]

theorem frontOf?_eq {words : List Keyword} (complete : ∀ word, word ∈ words) :
    frontOf? words c cs = front? c cs := by
  rw [frontOf?, patternsOf, List.findSome?_append, List.findSome?_map, front?_eq_or]
  congr 1
  ext r
  exact (findSome?_words complete r).trans (findSome?_words Keyword.mem_all r).symm

/-- The table finds a token just if some rule matches a beginning of the input, and then the
longest one that any rule matches.  The word in front of the input is a keyword just if it is
spelled like one, and in which order the table has the keywords makes no difference. -/
theorem table_finds_longest (c : Char) (cs : List Char) :
    (front? c cs = none ↔
      ∀ kind : TokenKind, ∀ w ∈ kind.rule, w ≠ [] → ¬w <+: c :: cs) ∧
    (∀ kind n, front? c cs = some (kind, n) ↔
      ∃ lexeme, lexeme.length = n + 1 ∧ Longest (c :: cs) kind lexeme) ∧
    (∀ word, (∃ n, front? c cs = some (keyword word, n)) ↔
      c :: cs.takeWhile isNameChar = word.spelling.toList) ∧
    ∀ words : List Keyword, words.Perm Keyword.all → frontOf? words c cs = front? c cs :=
  ⟨front?_eq_none_iff, fun _ _ => front?_eq_some_iff_longest, fun _ => front?_eq_keyword_iff,
    fun _ order => frontOf?_eq fun word => order.mem_iff.2 word.mem_all⟩

/-- The keyword that begins like another one comes behind it in this order, and is found
all the same. -/
theorem table_finds_longest_backwards :
    Keyword.all.reverse.Perm Keyword.all ∧
      frontOf? Keyword.all.reverse 'v' "eya(x".toList = some (keyword (.connective .or), 3) ∧
      Longest "veya(x".toList (keyword (.connective .or)) "veya".toList := by
  obtain ⟨-, longest, -, same⟩ := table_finds_longest 'v' "eya(x".toList
  have order : Keyword.all.reverse.Perm Keyword.all := List.reverse_perm _
  have found : front? 'v' "eya(x".toList = some (keyword (.connective .or), 3) := by decide
  obtain ⟨lexeme, length, longest⟩ := (longest _ _).1 found
  have whole : lexeme = "veya".toList := by
    rw [List.prefix_iff_eq_take.1 longest.begins, length]
    rfl
  exact ⟨order, (same _ order).trans found, whole ▸ longest⟩

end TokenKind
end Betik
