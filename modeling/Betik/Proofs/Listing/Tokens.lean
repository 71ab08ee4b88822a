/-
How faithful listings of tokens are.

A line of a listing shows all of a token.  Lexemes are not escaped either, but one that could
go on behind a quotation mark is a text or a prompt, which its own marks end, or a comment,
which the end of the line ends.  So a listing of tokens, unlike one of a tree, tells all
sources apart that have different tokens: `listing_eq_iff`.
-/
import Mathlib.Data.List.Nodup
import Betik.Proofs.Listing.Form
import Betik.Proofs.Number.Positional
import Betik.Proofs.Token.Layout

namespace Betik

namespace TokenKind

theorem nodup_labels : (all.map label).Nodup := by
  decide +kernel

theorem label_inj {kind other : TokenKind} (h : kind.label = other.label) : kind = other :=
  List.inj_on_of_nodup_map nodup_labels kind.mem_all other.mem_all h

theorem parenthesis_notMem_label (kind : TokenKind) : '(' ∉ kind.label.toList := by
  have all : ∀ kind ∈ all, '(' ∉ kind.label.toList := by
    decide +kernel
  exact all kind kind.mem_all

/-- The lexemes of the tokens that the lexer makes, those that no pattern finds included. -/
inductive Fits : TokenKind → List Char → Prop
  | admits {kind : TokenKind} {lexeme : List Char} (admits : kind.Admits lexeme) : Fits kind lexeme
  | stray (c : Char) : Fits unknown [c]
  | ends : Fits endOfFile []

theorem Admits.chars_decimal {lexeme : List Char} (h : decimal.Admits lexeme) :
    ∀ c ∈ lexeme, Number.isDigit c || c == '.' := by
  obtain ⟨whole, fraction, rfl, digits, digits'⟩ := h
  simp only [List.forall_mem_append, List.forall_mem_cons]
  refine ⟨fun c mem => ?_, rfl, fun c mem => ?_⟩
  · simp [digits.2 c mem]
  · simp [digits'.2 c mem]

theorem Admits.chars_name {lexeme : List Char} (h : name.Admits lexeme) :
    ∀ c ∈ lexeme, isNameChar c := by
  obtain ⟨first, others⟩ := h
  cases lexeme with
  | nil => exact nofun
  | cons c cs => exact List.forall_mem_cons.2 ⟨isNameChar_of_isNameStart first, others⟩

theorem Heads.fits {kind : TokenKind} {lexeme rest : List Char} (h : kind.Heads lexeme rest) :
    kind.Fits lexeme := by
  cases h with
  | front front => exact .admits front.admits
  | stray => exact .stray _

end TokenKind

theorem Scans.fits {line : Nat} {cs : List Char} {ts : List Token} (h : Scans line cs ts) :
    ∀ t ∈ ts, t.kind.Fits t.lexeme.toList := by
  induction h with
  | ends => exact List.forall_mem_singleton.2 .ends
  | token _ heads _ ih => exact List.forall_mem_cons.2 ⟨by simpa using heads.fits, ih⟩

/-! ## Lines of a listing -/

def lineWord : List Char :=
  ['\'', ',', ' ', 'l', 'i', 'n', 'e', ' ']

/-- What a line of a listing has behind the lexeme, and the lines behind it. -/
def lineEnd (line : Nat) (rest : List Char) : List Char :=
  lineWord ++ (Number.digitChars line ++ ')' :: '\n' :: rest)

theorem Token.toList_listing (t : Token) (rest : List Char) :
    (t.listing ++ "\n").toList ++ rest =
      t.kind.label.toList ++ '(' :: '\'' :: (t.lexeme.toList ++ lineEnd t.line rest) := by
  simp [listing, lineEnd, lineWord, Number.digitChars]

variable {m n : Nat} {r s u v : List Char}

theorem split_lineEnd (h : lineEnd m r = lineEnd n s) : m = n ∧ r = s := by
  obtain ⟨digits, rest⟩ := Form.split_before (q := ')') (by decide)
    (Number.digits_digitChars m).2 (Number.digits_digitChars n).2 (List.append_cancel_left h)
  exact ⟨Number.digitChars_inj digits, List.tail_eq_of_cons_eq rest⟩

/-- The end of the line is looked for, and from there the number of the line backwards. -/
theorem split_comment (short : '\n' ∉ u) (short' : '\n' ∉ v)
    (h : u ++ lineEnd m r = v ++ lineEnd n s) : u = v := by
  have digit {k : Nat} : ∀ c ∈ (Number.digitChars k).reverse, Number.isDigit c := fun c mem =>
    (Number.digits_digitChars k).2 c (List.mem_reverse.1 mem)
  have inside {w : List Char} {k : Nat} (short : '\n' ∉ w) :
      '\n' ∉ w ++ lineWord ++ Number.digitChars k ++ [')'] := by
    have digits : '\n' ∉ Number.digitChars k := fun mem =>
      absurd ((Number.digits_digitChars k).2 _ mem) (by decide)
    simp [short, digits, lineWord]
  obtain ⟨same, -⟩ := Form.split_until (inside short) (inside short') (by simpa [lineEnd] using h)
  have back := congrArg List.reverse (List.append_cancel_right same)
  simp only [List.reverse_append] at back
  obtain ⟨-, rest⟩ := Form.split_before (q := ' ') (by decide) digit digit back
  exact List.reverse_injective (List.append_cancel_left rest)

theorem split_lexeme {kind : TokenKind} (fits : kind.Fits u) (fits' : kind.Fits v)
    (h : u ++ lineEnd m r = v ++ lineEnd n s) : u = v := by
  have run {p : Char → Bool} (quote : ¬p '\'') (inside : ∀ c ∈ u, p c) (inside' : ∀ c ∈ v, p c) :
      u = v :=
    (Form.split_before quote inside inside' h).1
  cases fits with
  | stray c =>
    cases fits' with
    | stray d => rw [(List.cons.inj h).1]
    | admits admits' => cases admits'
  | ends =>
    cases fits' with
    | ends => rfl
    | admits admits' => cases admits'
  | admits admits =>
    cases fits' with
    | stray | ends => cases admits
    | admits admits' =>
      cases kind with
      | keyword | operator | mark => exact admits.trans admits'.symm
      | integer => exact run (by decide) admits.2 admits'.2
      | decimal => exact run (by decide) admits.chars_decimal admits'.chars_decimal
      | name => exact run (by decide) admits.chars_name admits'.chars_name
      | text =>
        obtain ⟨body, rfl, inside⟩ := admits
        obtain ⟨body', rfl, inside'⟩ := admits'
        have h : body ++ '"' :: lineEnd m r = body' ++ '"' :: lineEnd n s := by simpa using h
        rw [(Form.split_until inside inside' h).1]
      | prompt =>
        obtain ⟨body, rfl, inside⟩ := admits
        obtain ⟨body', rfl, inside'⟩ := admits'
        have h : body ++ '?' :: '?' :: lineEnd m r = body' ++ '?' :: '?' :: lineEnd n s := by
          simpa using h
        rw [(Form.split_until inside inside' h).1]
      | comment =>
        obtain ⟨body, rfl, short⟩ := admits
        obtain ⟨body', rfl, short'⟩ := admits'
        rw [split_comment short short' (List.tail_eq_of_cons_eq h)]
      | endOfFile | unknown => cases admits

theorem split_listing {t t' : Token} (fits : t.kind.Fits t.lexeme.toList)
    (fits' : t'.kind.Fits t'.lexeme.toList)
    (h : (t.listing ++ "\n").toList ++ r = (t'.listing ++ "\n").toList ++ s) : t = t' ∧ r = s := by
  obtain ⟨kind, lexeme, line⟩ := t
  obtain ⟨kind', lexeme', line'⟩ := t'
  rw [Token.toList_listing, Token.toList_listing] at h
  obtain ⟨label, rest⟩ := Form.split_until kind.parenthesis_notMem_label
    kind'.parenthesis_notMem_label h
  obtain rfl := TokenKind.label_inj (String.toList_inj.1 label)
  have rest := List.tail_eq_of_cons_eq rest
  obtain rfl := String.toList_inj.1 (split_lexeme fits fits' rest)
  obtain ⟨rfl, rfl⟩ := split_lineEnd (List.append_cancel_left rest)
  exact ⟨rfl, rfl⟩

/-! ## Listings -/

theorem tokens_of_listing : ∀ ts ts' : List Token, (∀ t ∈ ts, t.kind.Fits t.lexeme.toList) →
    (∀ t ∈ ts', t.kind.Fits t.lexeme.toList) →
    ts.flatMap (fun t => (t.listing ++ "\n").toList) =
      ts'.flatMap (fun t => (t.listing ++ "\n").toList) → ts = ts'
  | [], [], _, _, _ => rfl
  | [], t :: ts, _, _, h => by simp [Token.listing] at h
  | t :: ts, [], _, _, h => by simp [Token.listing] at h
  | t :: ts, t' :: ts', fits, fits', h => by
    obtain ⟨fit, others⟩ := List.forall_mem_cons.1 fits
    obtain ⟨fit', others'⟩ := List.forall_mem_cons.1 fits'
    obtain ⟨same, rest⟩ := split_listing fit fit' h
    rw [same, tokens_of_listing ts ts' others others' rest]

/-- The tokens of two sources have the same listing only if they are the same, on the same
lines. -/
theorem listing_eq_iff (a b : String) :
    String.join ((tokenize a).map fun t => t.listing ++ "\n") =
        String.join ((tokenize b).map fun t => t.listing ++ "\n") ↔
      tokenize a = tokenize b := by
  refine ⟨fun same => ?_, fun same => by rw [same]⟩
  have chars := congrArg String.toList same
  simp only [String.toList_join, List.flatMap_map] at chars
  exact tokens_of_listing _ _ (scans_scan 1 a.toList).fits (scans_scan 1 b.toList).fits chars

end Betik
