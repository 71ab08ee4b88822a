/-
Trees from sources have legible forms.

Names are words that are no numbers and no keywords, texts have no quotation marks, and no
decimal is not-a-number, `Sourced`.  Of prompts and comments nothing is known, and what is
asked of them is asked of `quotes`.  Two such trees of one form have one outline.
-/
import Betik.Proofs.Listing.Tree
import Betik.Proofs.Number.Nearest
import Betik.Proofs.Number.Shortest

namespace Betik

/-! ## Words -/

def LooksLikeName (name : String) : Prop :=
  TokenKind.name.Admits name.toList

structure IsName (name : String) : Prop where
  looks : LooksLikeName name
  reserved : ∀ word : Keyword, name ≠ word.spelling

namespace Form

theorem not_isClosing_of_isNameChar {c : Char} (h : isNameChar c) : ¬isClosing c := by
  simp only [isClosing, Bool.or_eq_true, decide_eq_true_eq]
  rintro (rfl | rfl) <;> exact absurd h (by decide)

end Form

theorem LooksLikeName.exists_letter {name : String} (h : LooksLikeName name) :
    ∃ c rest, name.toList = c :: rest ∧ isNameStart c ∧ ∀ d ∈ rest, isNameChar d := by
  obtain ⟨letter, others⟩ := h
  cases split : name.toList with
  | nil =>
    rw [split] at letter
    cases letter
  | cons c rest =>
    rw [split] at letter others
    exact ⟨c, rest, rfl, by simpa using letter, others⟩

theorem LooksLikeName.legible {name : String} (h : LooksLikeName name) :
    (Form.word name).Legible := by
  obtain ⟨c, rest, split, letter, others⟩ := h.exists_letter
  refine ⟨fun d mem => Form.not_isClosing_of_isNameChar ?_, c, rest, split, ?_, ?_⟩
  · rw [split] at mem
    obtain rfl | mem := List.mem_cons.1 mem
    · exact isNameChar_of_isNameStart letter
    · exact others d mem
  · rintro rfl
    exact absurd letter (by decide)
  · rintro rfl
    exact absurd letter (by decide)

/-! ## Literals -/

namespace Number

def isNumberChar (c : Char) : Bool :=
  isDigit c || ['-', '.', 'i', 'n', 'f', 'N', 'a'].contains c

theorem integerText_chars (n : Int64) : ∀ c ∈ (integerText n).toList, isDigit c ∨ c = '-' := by
  have digits := (digits_digitChars n.toInt.natAbs).2
  intro c mem
  simp only [integerText] at mem
  split at mem
  · simp only [String.toList_append, String.toList_ofList, List.mem_append] at mem
    obtain minus | mem := mem
    · exact .inr (by simpa using minus)
    · exact .inl (digits c mem)
  · rw [String.toList_ofList] at mem
    exact .inl (digits c mem)

theorem integerText_ne_nil (n : Int64) : (integerText n).toList ≠ [] := by
  have nonempty := (digits_digitChars n.toInt.natAbs).1
  simp only [integerText]
  split <;> simp [nonempty]

theorem positional_chars (d : Decimal) : ∀ c ∈ d.positional, isDigit c ∨ c = '.' := by
  obtain ⟨whole, fraction, spells⟩ := d.positional_spells
  intro c mem
  rw [spells.split, List.mem_append, List.mem_cons] at mem
  obtain mem | rfl | mem := mem
  · exact .inl (spells.digits.2 c mem)
  · exact .inr rfl
  · exact .inl (spells.digits'.2 c mem)

theorem doubleText_chars (x : Float) : ∀ c ∈ (doubleText x).toList, isNumberChar c := by
  intro c mem
  rw [toList_doubleText, List.mem_append] at mem
  obtain mem | mem := mem
  · split at mem
    · rw [List.mem_singleton.1 mem]
      decide
    · cases mem
  · cases split : Binary64.ofFloat x with
    | nan | infinite =>
      simp only [split, Binary64.written, List.mem_cons, List.not_mem_nil, or_false] at mem
      obtain rfl | rfl | rfl := mem <;> decide
    | finite negative m e =>
      rw [split] at mem
      obtain digit | rfl := positional_chars _ c mem
      · simp [isNumberChar, digit]
      · decide

/-- What no text of an integer has. -/
theorem doubleText_point (x : Float) : ∃ c ∈ (doubleText x).toList, ¬(isDigit c ∨ c = '-') := by
  rw [toList_doubleText]
  cases Binary64.ofFloat x with
  | nan => exact ⟨'N', by simp [Binary64.written], by decide⟩
  | infinite => exact ⟨'i', by simp [Binary64.written], by decide⟩
  | finite negative m e =>
    obtain ⟨_, _, -, -, point⟩ := positional_head (digitsOf m e)
    exact ⟨'.', List.mem_append_right _ point, by decide⟩

/-- Not-a-number and infinity begin with letters, and no other double. -/
theorem doubleText_head {x : Float} (number : Binary64.ofFloat x ≠ .nan)
    (finite : Binary64.ofFloat x ≠ .infinite false) :
    ∃ c rest, (doubleText x).toList = c :: rest ∧ (isDigit c ∨ c = '-') := by
  rw [toList_doubleText]
  cases split : Binary64.ofFloat x with
  | nan => exact absurd split number
  | infinite negative =>
    cases negative with
    | false => exact absurd split finite
    | true => exact ⟨_, _, rfl, .inr rfl⟩
  | finite negative m e =>
    obtain ⟨c, rest, head, digit, -⟩ := positional_head (digitsOf m e)
    cases negative with
    | false => exact ⟨c, rest, by simp [Binary64.written, head], .inl digit⟩
    | true => exact ⟨_, _, rfl, .inr rfl⟩

theorem doubleText_infinite {x : Float} (infinite : Binary64.ofFloat x = .infinite false) :
    doubleText x = "inf" :=
  String.toList_inj.1 (by rw [toList_doubleText, infinite]; rfl)

end Number

theorem Form.legible_of_numberChars {w : String} (chars : ∀ c ∈ w.toList, Number.isNumberChar c)
    (nonempty : w.toList ≠ []) : (Form.word w).Legible := by
  have apart {c d : Char} (h : Number.isNumberChar c) (other : Number.isNumberChar d = false) :
      c ≠ d := by
    rintro rfl
    exact absurd h (by simp [other])
  obtain ⟨c, rest, split⟩ := List.exists_cons_of_ne_nil nonempty
  have first := chars c (split ▸ List.mem_cons_self ..)
  refine ⟨fun d mem => ?_, c, rest, split, apart first (by decide), apart first (by decide)⟩
  simp [isClosing, apart (chars d mem) (show Number.isNumberChar ' ' = false by decide),
    apart (chars d mem) (show Number.isNumberChar ')' = false by decide)]

namespace Literal

/-- What is known of a literal from a source. -/
def Sourced : Literal → Prop
  | decimal x => Number.Binary64.ofFloat x ≠ .nan
  | text s => '"' ∉ s.toList
  | integer _ | boolean _ => True

variable {value value' : Literal}

theorem Sourced.legible (h : value.Sourced) : value.form.Legible := by
  cases value with
  | integer n =>
    refine Form.legible_of_numberChars (fun c mem => ?_) (Number.integerText_ne_nil n)
    obtain digit | rfl := Number.integerText_chars n c mem
    · simp [Number.isNumberChar, digit]
    · decide
  | decimal x =>
    obtain ⟨c, mem, -⟩ := Number.doubleText_point x
    exact Form.legible_of_numberChars (Number.doubleText_chars x) (List.ne_nil_of_mem mem)
  | boolean b => exact LooksLikeName.legible (TokenKind.admits_name_spelling (.truth b))
  | text s => exact h

/-- Literals are told apart by their forms. -/
theorem form_inj (h : value.form = value'.form) : value = value' := by
  have integer_ne {n : Int64} {w : String} (other : ∃ c ∈ w.toList, ¬(Number.isDigit c ∨ c = '-')) :
      Number.integerText n ≠ w := by
    rintro rfl
    obtain ⟨c, mem, other⟩ := other
    exact other (Number.integerText_chars n c mem)
  have truth (b : Bool) : ∃ c ∈ (truthWord b).toList, ¬Number.isNumberChar c ∧
      ¬(Number.isDigit c ∨ c = '-') := by
    cases b with
    | true => exact ⟨'d', by simp [truthWord], by decide, by decide⟩
    | false => exact ⟨'y', by simp [truthWord], by decide, by decide⟩
  have integer_ne_truth {n : Int64} {b : Bool} : Number.integerText n ≠ truthWord b := by
    obtain ⟨c, mem, -, other⟩ := truth b
    exact integer_ne ⟨c, mem, other⟩
  have decimal_ne {x : Float} {b : Bool} : Number.doubleText x ≠ truthWord b := by
    intro same
    obtain ⟨c, mem, other, -⟩ := truth b
    exact other (Number.doubleText_chars x c (same ▸ mem))
  cases value <;> cases value' <;>
    simp only [form, reduceCtorEq, Form.word.injEq, Form.quoted.injEq, render] at h
  · rw [Number.integerText_inj h]
  · exact absurd h (integer_ne (Number.doubleText_point _))
  · exact absurd h integer_ne_truth
  · exact absurd h.symm (integer_ne (Number.doubleText_point _))
  · rw [Number.doubleText_inj h]
  · exact absurd h decimal_ne
  · exact absurd h.symm integer_ne_truth
  · exact absurd h.symm decimal_ne
  · rename_i b b'
    cases b <;> cases b' <;> first | rfl | exact absurd h (by decide)
  · rw [h]

/-- Only an infinite decimal is written like a name. -/
theorem outline_of_form_eq_word {name : String} (h : value.Sourced) (isName : IsName name)
    (same : value.form = .word name) : value.outline = .var 0 name := by
  obtain ⟨c, rest, split, letter, -⟩ := isName.looks.exists_letter
  have number {w : String} {d : Char} {rest' : List Char} (head : w.toList = d :: rest')
      (digit : Number.isDigit d ∨ d = '-') : w ≠ name := by
    rintro rfl
    cases split.symm.trans head
    obtain digit | rfl := digit
    · exact not_isNameStart_of_isDigit digit letter
    · exact absurd letter (by decide)
  cases value <;> simp only [form, reduceCtorEq, Form.word.injEq, render] at same
  · rename_i n
    obtain ⟨d, rest', head⟩ := List.exists_cons_of_ne_nil (Number.integerText_ne_nil n)
    exact absurd same (number head (Number.integerText_chars n d (head ▸ List.mem_cons_self ..)))
  · rename_i x
    by_cases infinite : Number.Binary64.ofFloat x = .infinite false
    · rw [Number.doubleText_infinite infinite] at same
      rw [outline, if_pos (show (decimal x).Infinite from infinite), same]
    · obtain ⟨d, rest', head, digit⟩ := Number.doubleText_head h infinite
      exact absurd same (number head digit)
  · rename_i b
    exact absurd same.symm (isName.reserved (.truth b))

end Literal

/-! ## Trees -/

namespace Expr

mutual

def Sourced : Expr → Prop
  | literal _ value => value.Sourced
  | binary _ _ lhs rhs | logical _ _ lhs rhs => lhs.Sourced ∧ rhs.Sourced
  | var _ name => IsName name
  | assign _ name value => LooksLikeName name ∧ value.Sourced
  | call _ name args => LooksLikeName name ∧ SourcedAll args
  | prompt .. => True

def SourcedAll : List Expr → Prop
  | [] => True
  | e :: es => e.Sourced ∧ SourcedAll es

end

mutual

def quotes : Expr → List String
  | literal .. | var .. => []
  | binary _ _ lhs rhs | logical _ _ lhs rhs => lhs.quotes ++ rhs.quotes
  | assign _ _ value => value.quotes
  | call _ _ args => quotesAll args
  | prompt _ text => [text]

def quotesAll : List Expr → List String
  | [] => []
  | e :: es => e.quotes ++ quotesAll es

end

def isCommand : Expr → Bool
  | assign .. | call .. => true
  | _ => false

end Expr

namespace Stmt

mutual

def Sourced : Stmt → Prop
  | declare _ name _ init => LooksLikeName name ∧ init.Sourced
  | print _ value | ret _ value => value.Sourced
  | cond _ condition yes no => condition.Sourced ∧ yes.Sourced ∧ SourcedOption no
  | loop _ condition body => condition.Sourced ∧ body.Sourced
  | function _ name params body =>
    LooksLikeName name ∧ (∀ param ∈ params, LooksLikeName param) ∧ SourcedAll body
  | block _ body => SourcedAll body
  | expr _ value => value.isCommand ∧ value.Sourced
  | comment _ text => '\n' ∉ text.toList

def SourcedOption : Option Stmt → Prop
  | none => True
  | some s => s.Sourced

def SourcedAll : List Stmt → Prop
  | [] => True
  | s :: ss => s.Sourced ∧ SourcedAll ss

end

mutual

def quotes : Stmt → List String
  | declare _ _ _ value | print _ value | ret _ value | expr _ value => value.quotes
  | cond _ condition yes no => condition.quotes ++ (yes.quotes ++ quotesOption no)
  | loop _ condition body => condition.quotes ++ body.quotes
  | function _ _ _ body | block _ body => quotesAll body
  | comment _ text => [text]

def quotesOption : Option Stmt → List String
  | none => []
  | some s => s.quotes

def quotesAll : List Stmt → List String
  | [] => []
  | s :: ss => s.quotes ++ quotesAll ss

end

end Stmt

/-! ### Legible forms -/

def Late (quotes : List String) : Prop :=
  ∀ s ∈ quotes, ¬EndsEarly s

theorem late_append {us vs : List String} : Late (us ++ vs) ↔ Late us ∧ Late vs := by
  simp only [Late, List.mem_append, or_imp, forall_and]

namespace Form

theorem legible_list {head : String} {items : List Form} (plain : Plain head)
    (noNote : head ∉ noteHeads) (all : LegibleAll items) : (list head items).Legible :=
  ⟨plain, fun mem => absurd mem noNote, all⟩

def heads : List String :=
  ["=", "call", "declare", "print", "if", "while", "function", "return", "block"]

theorem legible_of_mem_heads {head : String} {items : List Form} (mem : head ∈ heads)
    (all : LegibleAll items) : (list head items).Legible := by
  have plain : ∀ w ∈ heads, (∀ c ∈ w.toList, ¬isClosing c) ∧ w ∉ noteHeads := by
    simp [heads, noteHeads, isClosing]
  exact legible_list (plain head mem).1 (plain head mem).2 all

theorem legible_names {names : List String} (looks : ∀ name ∈ names, LooksLikeName name) :
    (Form.names names).Legible := by
  cases names with
  | nil => exact ⟨fun c mem => by simp at mem, nofun, trivial⟩
  | cons name names =>
    obtain ⟨first, others⟩ := List.forall_mem_cons.1 looks
    refine ⟨first.legible.1, fun _ s rest same => ?_, ?_⟩
    · cases names with
      | nil => cases same
      | cons => cases same
    · clear looks first
      induction names with
      | nil => trivial
      | cons w ws ih =>
        obtain ⟨first, others⟩ := List.forall_mem_cons.1 others
        exact ⟨first.legible, ih others⟩

end Form

theorem Operator.legible_list (op : Operator) {items : List Form} (all : Form.LegibleAll items) :
    (Form.list op.symbol items).Legible := by
  have plain : (∀ c ∈ op.symbol.toList, ¬isClosing c) ∧ op.symbol ∉ Form.noteHeads := by
    cases op <;> simp [symbol, isClosing, Form.noteHeads]
  exact Form.legible_list plain.1 plain.2 all

theorem Connective.legible_list (c : Connective) {items : List Form}
    (all : Form.LegibleAll items) : (Form.list c.symbol items).Legible := by
  have plain : (∀ d ∈ c.symbol.toList, ¬isClosing d) ∧ c.symbol ∉ Form.noteHeads := by
    cases c <;> simp [symbol, isClosing, Form.noteHeads]
  exact Form.legible_list plain.1 plain.2 all

theorem DataType.legible_word (type : DataType) : (Form.word type.word).Legible :=
  LooksLikeName.legible (TokenKind.admits_name_spelling (.dataType type))

open Form (legible_of_mem_heads)

namespace Expr

mutual

theorem legible : ∀ e : Expr, e.Sourced → Late e.quotes → e.form.Legible
  | literal _ value, sourced, _ => sourced.legible
  | binary _ op lhs rhs, sourced, late => by
    obtain ⟨left, right⟩ := late_append.1 late
    exact op.legible_list ⟨legible lhs sourced.1 left, legible rhs sourced.2 right, trivial⟩
  | logical _ op lhs rhs, sourced, late => by
    obtain ⟨left, right⟩ := late_append.1 late
    exact op.legible_list ⟨legible lhs sourced.1 left, legible rhs sourced.2 right, trivial⟩
  | var _ name, sourced, _ => sourced.looks.legible
  | assign _ name value, sourced, late =>
    legible_of_mem_heads (by decide) ⟨sourced.1.legible, legible value sourced.2 late, trivial⟩
  | call _ name args, sourced, late =>
    legible_of_mem_heads (by decide) ⟨sourced.1.legible, legibleAll args sourced.2 late⟩
  | prompt _ text, _, late => ⟨by decide, late text (List.mem_singleton_self _)⟩

theorem legibleAll : ∀ es : List Expr, SourcedAll es → Late (quotesAll es) →
    Form.LegibleAll (formAll es)
  | [], _, _ => trivial
  | e :: es, sourced, late => by
    obtain ⟨first, others⟩ := late_append.1 late
    exact ⟨legible e sourced.1 first, legibleAll es sourced.2 others⟩

end

end Expr

namespace Stmt

mutual

theorem legible : ∀ s : Stmt, s.Sourced → Late s.quotes → s.form.Legible
  | declare _ name type init, sourced, late => legible_of_mem_heads (by decide)
    ⟨sourced.1.legible, type.legible_word, init.legible sourced.2 late, trivial⟩
  | print _ value, sourced, late | ret _ value, sourced, late =>
    legible_of_mem_heads (by decide) ⟨value.legible sourced late, trivial⟩
  | cond _ condition yes no, sourced, late => by
    obtain ⟨first, branches⟩ := late_append.1 late
    obtain ⟨branch, other⟩ := late_append.1 branches
    exact legible_of_mem_heads (by decide) ⟨condition.legible sourced.1 first,
      legible yes sourced.2.1 branch, legibleOption no sourced.2.2 other⟩
  | loop _ condition body, sourced, late => by
    obtain ⟨first, inner⟩ := late_append.1 late
    exact legible_of_mem_heads (by decide)
      ⟨condition.legible sourced.1 first, legible body sourced.2 inner, trivial⟩
  | function _ name params body, sourced, late => by
    have block : (Form.list "block" (formAll body)).Legible :=
      legible_of_mem_heads (by decide) (legibleAll body sourced.2.2 late)
    exact legible_of_mem_heads (by decide)
      ⟨sourced.1.legible, Form.legible_names sourced.2.1, block, trivial⟩
  | block _ body, sourced, late => legible_of_mem_heads (by decide) (legibleAll body sourced late)
  | expr _ value, sourced, late => value.legible sourced.2 late
  | comment _ text, _, late => ⟨by decide, late text (List.mem_singleton_self _)⟩

theorem legibleOption : ∀ s : Option Stmt, SourcedOption s → Late (quotesOption s) →
    Form.LegibleAll (formOption s)
  | none, _, _ => trivial
  | some s, sourced, late => ⟨legible s sourced late, trivial⟩

theorem legibleAll : ∀ ss : List Stmt, SourcedAll ss → Late (quotesAll ss) →
    Form.LegibleAll (formAll ss)
  | [], _, _ => trivial
  | s :: ss, sourced, late => by
    obtain ⟨first, others⟩ := late_append.1 late
    exact ⟨legible s sourced.1 first, legibleAll ss sourced.2 others⟩

end

end Stmt

end Betik
