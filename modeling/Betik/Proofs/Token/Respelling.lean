/-
Writing the tokens of a source anew.

A token that is followed by a blank, or by a line feed if it is a comment, begins a text
whatever comes later (`Heads.detached`).  The one token that depends on what is far behind
it is a stray quotation mark: it stays stray because writing tokens anew puts no quotation
mark where there was none.
-/
import Betik.Proofs.Token.Layout

namespace Betik

open Text

/-- The token as its kind is spelled, or as it was where the kind has no one spelling. -/
def Token.written (t : Token) : String :=
  t.kind.spelling?.getD t.lexeme

/-- A gap that keeps a token apart from the next.  A comment is over only with its
line. -/
structure Separates (kind : TokenKind) (gap : String) : Prop where
  nonempty : gap ≠ ""
  blanks : Blanks gap.toList
  lineFeed : kind = .comment → gap.toList.head? = some '\n'

instance (kind : TokenKind) (gap : String) : Decidable (Separates kind gap) :=
  decidable_of_iff (gap ≠ "" ∧ Blanks gap.toList ∧
    (kind = .comment → gap.toList.head? = some '\n'))
    ⟨fun ⟨h, h', h''⟩ => ⟨h, h', h''⟩, fun ⟨h, h', h''⟩ => ⟨h, h', h''⟩⟩

def respell : List Token → List String → String
  | [], _ => ""
  | t :: ts, [] => t.written ++ respell ts []
  | t :: ts, gap :: gaps => t.written ++ (gap ++ respell ts gaps)

structure Spaced (ts : List Token) (gaps : List String) : Prop where
  length : gaps.length = ts.length - 1
  separates : ∀ p ∈ ts.zip gaps, Separates p.1.kind p.2

instance (ts : List Token) (gaps : List String) : Decidable (Spaced ts gaps) :=
  decidable_of_iff (gaps.length = ts.length - 1 ∧ ∀ p ∈ ts.zip gaps, Separates p.1.kind p.2)
    ⟨fun ⟨h, h'⟩ => ⟨h, h'⟩, fun ⟨h, h'⟩ => ⟨h, h'⟩⟩

namespace TokenKind

variable {kind : TokenKind} {c : Char} {more lexeme rest tail : List Char}

/-! ## Tokens apart from what follows -/

def Detached (kind : TokenKind) (tail : List Char) : Prop :=
  ∀ d, tail.head? = some d → isBlank d ∧ (kind = comment → d = '\n')

theorem Detached.not_startsWith {p : Char → Bool} (h : kind.Detached tail)
    (other : ∀ d, isBlank d → ¬p d) : ¬startsWith p tail := by
  cases tail with
  | nil => simp [startsWith]
  | cons d ds => simpa [startsWith] using other d (h d rfl).1

theorem Detached.stops (h : kind.Detached tail) : kind.Stops tail := by
  cases kind with
  | keyword | name => exact h.not_startsWith fun d => not_isNameChar_of_isBlank
  | integer | decimal =>
    exact h.not_startsWith fun d blank digit => not_isBlank_of_isDigit digit blank
  | comment =>
    cases tail with
    | nil => exact .inl rfl
    | cons d ds => exact .inr ⟨ds, by rw [(h d rfl).2 rfl]⟩
  | _ => trivial

theorem Front.detached (h : kind.Front lexeme rest) (apart : kind.Detached tail) :
    kind.Front lexeme tail := by
  have noPoint : ¬integer.Grows tail := by
    rintro ⟨d, ds, rfl, -⟩
    cases (apart '.' rfl).1
  have noEquals : ¬startsWith (· = '=') tail := by
    refine apart.not_startsWith fun d blank equals => ?_
    cases of_decide_eq_true equals
    cases blank
  have whole : ¬kind.Grows tail := fun grows =>
    h.whole (grows.mono (absurd · noPoint) (absurd · noEquals))
  exact ⟨h.admits, apart.stops, whole, h.reserved⟩

theorem front?_ne_none {p : Pattern} {cs : List Char} (listed : (kind, p) ∈ patterns)
    (found : (p c cs).isSome) : front? c cs ≠ none := by
  intro nothing
  have fails := List.findSome?_eq_none_iff.1 nothing (kind, p) listed
  rw [Option.map_eq_none_iff.1 fails] at found
  cases found

theorem mem_patterns_operator (op : Operator) :
    (operator op, Pattern.spelled op.symbol.toList) ∈ patterns := by
  refine List.mem_append_left _ (List.mem_append_right _ (List.mem_map.2 ⟨operator op, ?_, rfl⟩))
  cases op <;> decide

theorem mem_patterns_mark (sign : Mark) :
    (mark sign, Pattern.spelled sign.spelling.toList) ∈ patterns := by
  refine List.mem_append_left _ (List.mem_append_right _ (List.mem_map.2 ⟨mark sign, ?_, rfl⟩))
  cases sign <;> decide

/-- A character that can be the whole of a token is never stray, and neither is an at
sign, nor a quotation mark with another one behind it. -/
theorem front?_ne_none_of_admits {cs : List Char} (admits : kind.Admits (c :: more))
    (short : more = [] ∨ kind = comment ∨ kind = text ∧ '"' ∈ cs) : front? c cs ≠ none := by
  cases kind with
  | keyword | name =>
    have letter : isNameStart c := admits.leads
    have listed : (name, Pattern.name) ∈ patterns := by simp [patterns]
    exact front?_ne_none listed (by simp [Pattern.name, letter])
  | integer | decimal =>
    have digit : Number.isDigit c := admits.leads
    have listed : (integer, Pattern.integer) ∈ patterns := by simp [patterns]
    exact front?_ne_none listed (by simp [Pattern.integer, digit])
  | comment =>
    obtain ⟨body, same, -⟩ := admits
    cases same
    have listed : (comment, Pattern.comment) ∈ patterns := by simp [patterns]
    exact front?_ne_none listed (by simp [Pattern.comment])
  | text =>
    obtain ⟨body, same, -⟩ := admits
    cases same
    have later : '"' ∈ cs := by simpa using short
    obtain ⟨inside, tail, rfl, first⟩ := List.eq_append_cons_of_mem later
    have found := (Pattern.finds_text '"' (inside ++ '"' :: tail) (inside.length + 1)).2
      ⟨inside ++ ['"'], tail, by simp, by simp, ⟨inside, rfl, first⟩, trivial⟩
    have listed : (text, Pattern.text) ∈ patterns := by simp [patterns]
    exact front?_ne_none listed (by simp [found])
  | prompt =>
    obtain ⟨body, same, -⟩ := admits
    cases same
    simp at short
  | operator op =>
    obtain rfl : more = [] := by simpa using short
    have spelled : [c] = op.symbol.toList := admits
    exact front?_ne_none (spelled ▸ mem_patterns_operator op) (by simp [Pattern.spelled])
  | mark sign =>
    obtain rfl : more = [] := by simpa using short
    have spelled : [c] = sign.spelling.toList := admits
    exact front?_ne_none (spelled ▸ mem_patterns_mark sign) (by simp [Pattern.spelled])
  | endOfFile | unknown => exact admits.elim

/-- Only texts and comments have blanks behind their first characters. -/
theorem not_isBlank_of_admits {d : Char} (admits : kind.Admits (c :: d :: more))
    (noText : kind ≠ text) (noComment : kind ≠ comment) : ¬isBlank d := by
  cases kind with
  | keyword word =>
    have spelled : c :: d :: more = word.spelling.toList := admits
    have looks := admits_name_spelling word
    rw [← spelled] at looks
    exact fun blank => not_isNameChar_of_isBlank blank (looks.2 d (by simp))
  | name => exact fun blank => not_isNameChar_of_isBlank blank (admits.2 d (by simp))
  | operator op =>
    have spelled : c :: d :: more = op.symbol.toList := admits
    cases op <;> cases spelled <;> decide
  | mark sign =>
    have spelled : c :: d :: more = sign.spelling.toList := admits
    cases sign <;> cases spelled
  | integer => exact not_isBlank_of_isDigit (admits.2 d (by simp))
  | decimal =>
    obtain ⟨whole, fraction, split, ⟨nonempty, digits⟩, -⟩ := admits
    obtain ⟨first, whole, rfl⟩ := List.exists_cons_of_ne_nil nonempty
    cases whole with
    | nil => cases split; decide
    | cons => cases split; exact not_isBlank_of_isDigit (digits d (by simp))
  | prompt =>
    obtain ⟨body, same, -⟩ := admits
    cases same
    decide
  | text => exact absurd rfl noText
  | comment => exact absurd rfl noComment
  | endOfFile | unknown => exact admits.elim

/-- A stray character stays one where blanks follow, unless a quotation mark comes up
behind it. -/
theorem stray_detached (nothing : front? c rest = none) (apart : unknown.Detached tail)
    (quotes : '"' ∈ tail → '"' ∈ rest) : front? c tail = none := by
  refine Option.eq_none_iff_forall_ne_some.2 fun (kind, n) found => ?_
  obtain ⟨more, tail', rfl, -, front⟩ := front?_eq_some_iff.1 found
  refine front?_ne_none_of_admits front.admits ?_ nothing
  cases more with
  | nil => exact .inl rfl
  | cons d more =>
    have blank : isBlank d := (apart d rfl).1
    by_cases isText : kind = text
    · subst isText
      obtain ⟨body, same, -⟩ := front.admits
      injection same with _ same
      have closed : '"' ∈ (d :: more) ++ tail' := by simp [same]
      exact .inr (.inr ⟨rfl, quotes closed⟩)
    · by_cases isComment : kind = comment
      · exact .inr (.inl isComment)
      · exact absurd blank (not_isBlank_of_admits front.admits isText isComment)

theorem Heads.detached (h : kind.Heads lexeme rest) (apart : kind.Detached tail)
    (quotes : '"' ∈ tail → '"' ∈ rest) : kind.Heads lexeme tail := by
  cases h with
  | front front => exact .front (front.detached apart)
  | stray printed nothing => exact .stray printed (stray_detached nothing apart quotes)

theorem Admits.eq_spelling {spelling : String} (h : kind.Admits lexeme)
    (fixed : kind.spelling? = some spelling) : lexeme = spelling.toList := by
  cases kind with
  | keyword | operator | mark => cases fixed; exact h
  | _ => cases fixed

/-- Writing a token anew changes nothing about it. -/
theorem Heads.written (h : kind.Heads lexeme rest) (line : Nat) :
    (Token.mk kind (String.ofList lexeme) line).written = String.ofList lexeme := by
  cases h with
  | stray => rfl
  | front front =>
    cases fixed : kind.spelling? with
    | none => simp only [Token.written, fixed, Option.getD_none]
    | some spelling =>
      rw [front.admits.eq_spelling fixed, String.ofList_toList]
      simp only [Token.written, fixed, Option.getD_some]

end TokenKind

/-! ## Whole texts -/

def Token.content (t : Token) : TokenKind × String :=
  (t.kind, t.lexeme)

theorem respell_cons (t : Token) (ts : List Token) (gaps : List String) :
    (respell (t :: ts) gaps).toList =
      t.written.toList ++ ((gaps.headD "").toList ++ (respell ts gaps.tail).toList) := by
  cases gaps <;> simp [respell]

theorem Separates.detached {kind : TokenKind} {gap : String} (h : Separates kind gap)
    (cs : List Char) : kind.Detached (gap.toList ++ cs) := by
  intro d first
  have nonempty : gap.toList ≠ [] := by simpa using h.nonempty
  obtain ⟨g, gs, same⟩ := List.exists_cons_of_ne_nil nonempty
  rw [same] at first
  obtain rfl : g = d := by simpa using first
  refine ⟨h.blanks g (by simp [same]), fun isComment => ?_⟩
  simpa [same] using h.lineFeed isComment

/-- What comes behind the first token, which is nothing at all if that is the last one. -/
theorem Spaced.behind {t : Token} {ts : List Token} {gaps : List String}
    (h : Spaced (t :: ts) gaps) : Spaced ts gaps.tail ∧ Blanks (gaps.headD "").toList ∧
      t.kind.Detached ((gaps.headD "").toList ++ (respell ts gaps.tail).toList) := by
  have length := h.length
  cases gaps with
  | nil =>
    obtain rfl : ts = [] := List.eq_nil_of_length_eq_zero length.symm
    exact ⟨⟨rfl, nofun⟩, nofun, nofun⟩
  | cons gap gaps =>
    obtain ⟨separates, others⟩ := List.forall_mem_cons.1 h.separates
    simp only [List.length_cons] at length
    have length' : gaps.length = ts.length - 1 := by omega
    exact ⟨⟨length', others⟩, separates.blanks, separates.detached _⟩

theorem Scans.respelled {line : Nat} {cs : List Char} {ts : List Token} (h : Scans line cs ts)
    (line' : Nat) {gaps : List String} (spaced : Spaced ts.dropLast gaps) :
    (∃ ts', Scans line' (respell ts.dropLast gaps).toList ts' ∧
      ts'.map Token.content = ts.map Token.content) ∧
    ∀ c ∈ (respell ts.dropLast gaps).toList, isBlank c ∨ c ∈ cs := by
  -- the second part keeps stray quotation marks stray: no new one comes up behind them
  induction h generalizing line' gaps with
  | ends => exact ⟨⟨_, Scans.ends nofun, rfl⟩, nofun⟩
  | @token line gap lexeme rest kind ts blanks heads others ih =>
    rw [List.dropLast_cons_of_ne_nil others.ne_nil] at spaced ⊢
    obtain ⟨spaced', blanks', apart⟩ := spaced.behind
    rw [respell_cons, heads.written, String.toList_ofList]
    obtain ⟨⟨ts', scans, same⟩, old⟩ :=
      ih (line' + lineBreaks lexeme + lineBreaks (gaps.headD "").toList) spaced'
    have old' : ∀ c ∈ (gaps.headD "").toList ++ (respell ts.dropLast gaps.tail).toList,
        isBlank c ∨ c ∈ rest :=
      List.forall_mem_append.2 ⟨fun c mem => .inl (blanks' c mem), old⟩
    have heads' := heads.detached apart fun quote => (old' _ quote).resolve_left (by decide)
    have noGap : Blanks [] := nofun
    have scans' := Scans.token noGap heads' (scans.blanks_append blanks')
    refine ⟨⟨_, scans', ?_⟩, ?_⟩
    · rw [List.map_cons, List.map_cons, same]
      rfl
    · refine List.forall_mem_append.2 ⟨fun c mem => .inr ?_, fun c mem => (old' c mem).imp_right ?_⟩
      · simp [mem]
      · intro mem
        simp [mem]

/-- Writing the tokens of a source anew, with other gaps between them, makes a source with
the same tokens. -/
theorem tokenize_respell (source : String) (gaps : List String)
    (spaced : Spaced (tokenize source).dropLast gaps) :
    (tokenize (respell (tokenize source).dropLast gaps)).map Token.content =
      (tokenize source).map Token.content := by
  obtain ⟨⟨ts, scans, same⟩, -⟩ := (scans_scan 1 source.toList).respelled 1 spaced
  exact (congrArg (List.map Token.content) scans.scan_eq).trans same

theorem tokenize_respell_stray :
    (tokenize (respell (tokenize "ise(x>=1.)@?\n\"?").dropLast
      [" ", "\t", " ", "\n", " ", " ", " ", "\n\t", "\u2003"])).map Token.content =
    (tokenize "ise(x>=1.)@?\n\"?").map Token.content :=
  tokenize_respell _ _ (by decide +kernel)

end Betik
