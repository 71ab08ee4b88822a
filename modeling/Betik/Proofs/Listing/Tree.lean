/-
Trees as forms.

The listing of a tree is the text of its form.  A form knows no lines, and it cannot tell an
infinite decimal, which is written `inf`, from the variable of that name; `outline` is what
it knows of a tree.
-/
import Betik.Proofs.Lines.Relabel
import Betik.Proofs.Listing.Form
import Betik.Proofs.Literals.Agreement
import Betik.Syntax.Render

namespace Betik

/-! ## Forms of trees -/

def Literal.form : Literal → Form
  | text s => .quoted s
  | value => .word value.render

namespace Expr

mutual

def form : Expr → Form
  | literal _ value => value.form
  | binary _ op lhs rhs => .list op.symbol [lhs.form, rhs.form]
  | logical _ op lhs rhs => .list op.symbol [lhs.form, rhs.form]
  | var _ name => .word name
  | assign _ name value => .list "=" [.word name, value.form]
  | call _ name args => .list "call" (.word name :: formAll args)
  | prompt _ text => .note "input" text

def formAll : List Expr → List Form
  | [] => []
  | e :: es => e.form :: formAll es

end

end Expr

/-- The first of the names stands where other lists have their heads. -/
def Form.names : List String → Form
  | [] => list "" []
  | name :: names => list name (names.map word)

namespace Stmt

mutual

def form : Stmt → Form
  | declare _ name type init => .list "declare" [.word name, .word type.word, init.form]
  | print _ value => .list "print" [value.form]
  | cond _ condition yes no => .list "if" (condition.form :: yes.form :: formOption no)
  | loop _ condition body => .list "while" [condition.form, body.form]
  | function _ name params body =>
    .list "function" [.word name, .names params, .list "block" (formAll body)]
  | ret _ value => .list "return" [value.form]
  | block _ body => .list "block" (formAll body)
  | expr _ value => value.form
  | comment _ text => .note "comment" text

def formOption : Option Stmt → List Form
  | none => []
  | some s => [s.form]

def formAll : List Stmt → List Form
  | [] => []
  | s :: ss => s.form :: formAll ss

end

end Stmt

open Form (chars charsAll)

theorem Literal.toList_render (value : Literal) : value.render.toList = value.form.chars := by
  cases value with
  | text s => simp [render, form, chars]
  | _ => rfl

namespace Expr

mutual

theorem toList_render : ∀ e : Expr, e.render.toList = e.form.chars
  | literal _ value => value.toList_render
  | binary _ op lhs rhs | logical _ op lhs rhs => by
    simp [render, form, chars, charsAll, toList_render lhs, toList_render rhs]
  | var .. => rfl
  | assign _ name value => by simp [render, form, chars, charsAll, toList_render value]
  | call _ name args => by simp [render, form, chars, charsAll, toList_renderAll args]
  | prompt .. => by simp [render, form, chars]

theorem toList_renderAll : ∀ es : List Expr, (renderAll es).toList = charsAll (formAll es)
  | [] => by simp [renderAll, formAll, charsAll]
  | e :: es => by simp [renderAll, formAll, charsAll, toList_render e, toList_renderAll es]

end

end Expr

theorem Form.chars_names (names : List String) :
    (Form.names names).chars = '(' :: ((" ".intercalate names).toList ++ [')']) := by
  cases names with
  | nil => simp [Form.names, chars, charsAll]
  | cons name names =>
    have items (names : List String) :
        charsAll (names.map word) = names.flatMap fun w => ' ' :: w.toList := by
      induction names with
      | nil => rfl
      | cons w ws ih => simp [charsAll, chars, ih]
    simp only [Form.names, chars, items]
    induction names generalizing name with
    | nil => simp
    | cons w ws ih => simp_all [String.intercalate_cons_cons]

namespace Stmt

mutual

theorem toList_render : ∀ s : Stmt, s.render.toList = s.form.chars
  | declare _ name type init => by simp [render, form, chars, charsAll, init.toList_render]
  | print _ value | ret _ value => by simp [render, form, chars, charsAll, value.toList_render]
  | cond _ condition yes no => by
    simp [render, form, chars, charsAll, condition.toList_render, toList_render yes,
      toList_renderOption no]
  | loop _ condition body => by
    simp [render, form, chars, charsAll, condition.toList_render, toList_render body]
  | function _ name params body => by
    simp [render, form, chars, charsAll, Form.chars_names, toList_renderAll body]
  | block _ body => by simp [render, form, chars, toList_renderAll body]
  | expr _ value => value.toList_render
  | comment .. => by simp [render, form, chars]

theorem toList_renderOption : ∀ s : Option Stmt, (renderOption s).toList = charsAll (formOption s)
  | none => by simp [renderOption, formOption, charsAll]
  | some s => by simp [renderOption, formOption, charsAll, toList_render s]

theorem toList_renderAll : ∀ ss : List Stmt, (renderAll ss).toList = charsAll (formAll ss)
  | [] => by simp [renderAll, formAll, charsAll]
  | s :: ss => by simp [renderAll, formAll, charsAll, toList_render s, toList_renderAll ss]

end

end Stmt

theorem Program.toList_render (p : Program) :
    p.render.toList = p.statements.flatMap fun s => s.form.chars ++ ['\n'] := by
  simp only [render, String.toList_join, List.flatMap_map, String.toList_append,
    Stmt.toList_render]
  rfl

/-! ## What a form knows of a tree -/

/-- The decimal is too large for a double. -/
def Literal.Infinite : Literal → Prop
  | decimal x => Number.Binary64.ofFloat x = .infinite false
  | _ => False

instance : DecidablePred Literal.Infinite
  | .decimal x => inferInstanceAs (Decidable (Number.Binary64.ofFloat x = .infinite false))
  | .integer _ | .boolean _ | .text _ => .isFalse id

/-- The variable that is written like an infinite decimal. -/
def Literal.outline (value : Literal) : Expr :=
  if value.Infinite then .var 0 "inf" else .literal 0 value

namespace Expr

mutual

/-- Without lines, and with a variable in place of each infinite decimal. -/
def outline : Expr → Expr
  | literal _ value => value.outline
  | binary _ op lhs rhs => binary 0 op lhs.outline rhs.outline
  | logical _ op lhs rhs => logical 0 op lhs.outline rhs.outline
  | var _ name => var 0 name
  | assign _ name value => assign 0 name value.outline
  | call _ name args => call 0 name (outlineAll args)
  | prompt _ text => prompt 0 text

def outlineAll : List Expr → List Expr
  | [] => []
  | e :: es => e.outline :: outlineAll es

end

end Expr

namespace Stmt

mutual

def outline : Stmt → Stmt
  | declare _ name type init => declare 0 name type init.outline
  | print _ value => print 0 value.outline
  | cond _ condition yes no => cond 0 condition.outline yes.outline (outlineOption no)
  | loop _ condition body => loop 0 condition.outline body.outline
  | function _ name params body => function 0 name params (outlineAll body)
  | ret _ value => ret 0 value.outline
  | block _ body => block 0 (outlineAll body)
  | expr _ value => expr 0 value.outline
  | comment _ text => comment 0 text

def outlineOption : Option Stmt → Option Stmt
  | none => none
  | some s => some s.outline

def outlineAll : List Stmt → List Stmt
  | [] => []
  | s :: ss => s.outline :: outlineAll ss

end

end Stmt

def Program.outline (p : Program) : Program :=
  ⟨Stmt.outlineAll p.statements⟩

theorem Literal.form_outline (value : Literal) : value.outline.form = value.form := by
  unfold outline
  split
  · rename_i infinite
    cases value with
    | decimal x =>
      have written : Number.doubleText x = "inf" := by
        simp only [Number.doubleText, show Number.Binary64.ofFloat x = _ from infinite]
        rfl
      simp [Expr.form, form, render, written]
    | _ => exact infinite.elim
  · rfl

namespace Expr

mutual

theorem form_outline : ∀ e : Expr, e.outline.form = e.form
  | literal _ value => value.form_outline
  | binary _ _ lhs rhs | logical _ _ lhs rhs => by
    simp [outline, form, form_outline lhs, form_outline rhs]
  | var .. | prompt .. => rfl
  | assign _ _ value => by simp [outline, form, form_outline value]
  | call _ _ args => by simp [outline, form, formAll_outlineAll args]

theorem formAll_outlineAll : ∀ es : List Expr, formAll (outlineAll es) = formAll es
  | [] => rfl
  | e :: es => by simp [outlineAll, formAll, form_outline e, formAll_outlineAll es]

end

end Expr

namespace Stmt

mutual

theorem form_outline : ∀ s : Stmt, s.outline.form = s.form
  | declare _ _ _ value | print _ value | ret _ value | expr _ value => by
    simp [outline, form, value.form_outline]
  | cond _ condition yes no => by
    simp [outline, form, condition.form_outline, form_outline yes, formOption_outlineOption no]
  | loop _ condition body => by
    simp [outline, form, condition.form_outline, form_outline body]
  | function _ _ _ body | block _ body => by simp [outline, form, formAll_outlineAll body]
  | comment .. => rfl

theorem formOption_outlineOption : ∀ s : Option Stmt, formOption (outlineOption s) = formOption s
  | none => rfl
  | some s => by simp [outlineOption, formOption, form_outline s]

theorem formAll_outlineAll : ∀ ss : List Stmt, formAll (outlineAll ss) = formAll ss
  | [] => rfl
  | s :: ss => by simp [outlineAll, formAll, form_outline s, formAll_outlineAll ss]

end

end Stmt

/-- A listing is written from the outline. -/
theorem Program.render_outline (p : Program) : p.outline.render = p.render := by
  refine String.toList_inj.1 ?_
  rw [toList_render, toList_render, outline]
  generalize p.statements = ss
  induction ss with
  | nil => rfl
  | cons s ss ih => simp only [Stmt.outlineAll, List.flatMap_cons, Stmt.form_outline, ih]

/-! Without infinite decimals an outline is the tree without its lines. -/

def NoInfinite (es : List Expr) : Prop :=
  ∀ line value, .literal line value ∈ es → ¬value.Infinite

theorem noInfinite_append {es es' : List Expr} :
    NoInfinite (es ++ es') ↔ NoInfinite es ∧ NoInfinite es' := by
  simp only [NoInfinite, List.mem_append, or_imp, forall_and]

namespace Expr

mutual

theorem outline_eq : ∀ e : Expr, NoInfinite e.literals → e.outline = e.relabel fun _ => 0
  | literal line value, finite => by
    simp [outline, relabel, Literal.outline, finite line value (List.mem_singleton_self _)]
  | binary _ _ lhs rhs, finite | logical _ _ lhs rhs, finite => by
    obtain ⟨left, right⟩ := noInfinite_append.1 finite
    simp [outline, relabel, outline_eq lhs left, outline_eq rhs right]
  | var .., _ | prompt .., _ => rfl
  | assign _ _ value, finite => by simp [outline, relabel, outline_eq value finite]
  | call _ _ args, finite => by simp [outline, relabel, outlineAll_eq args finite]

theorem outlineAll_eq : ∀ es : List Expr, NoInfinite (literalsAll es) →
    outlineAll es = relabelAll (fun _ => 0) es
  | [], _ => rfl
  | e :: es, finite => by
    obtain ⟨first, others⟩ := noInfinite_append.1 finite
    simp [outlineAll, relabelAll, outline_eq e first, outlineAll_eq es others]

end

end Expr

namespace Stmt

mutual

theorem outline_eq : ∀ s : Stmt, NoInfinite s.literals → s.outline = s.relabel fun _ => 0
  | declare _ _ _ value, finite | print _ value, finite | ret _ value, finite
  | expr _ value, finite => by simp [outline, relabel, value.outline_eq finite]
  | cond _ condition yes none, finite => by
    obtain ⟨first, branch⟩ := noInfinite_append.1 finite
    simp [outline, outlineOption, relabel, condition.outline_eq first, outline_eq yes branch]
  | cond _ condition yes (some no), finite => by
    obtain ⟨first, branches⟩ := noInfinite_append.1 finite
    obtain ⟨branch, other⟩ := noInfinite_append.1 branches
    simp [outline, outlineOption, relabel, condition.outline_eq first, outline_eq yes branch,
      outline_eq no other]
  | loop _ condition body, finite => by
    obtain ⟨first, inner⟩ := noInfinite_append.1 finite
    simp [outline, relabel, condition.outline_eq first, outline_eq body inner]
  | function _ _ _ body, finite | block _ body, finite => by
    simp [outline, relabel, outlineAll_eq body finite]
  | comment .., _ => rfl

theorem outlineAll_eq : ∀ ss : List Stmt, NoInfinite (literalsAll ss) →
    outlineAll ss = relabelAll (fun _ => 0) ss
  | [], _ => rfl
  | s :: ss, finite => by
    obtain ⟨first, others⟩ := noInfinite_append.1 finite
    simp [outlineAll, relabelAll, outline_eq s first, outlineAll_eq ss others]

end

end Stmt

end Betik
