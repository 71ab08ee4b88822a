/-
Tokens and trees with their comments taken out.
-/
import Betik.Syntax.Tree
import Betik.Token.Basic

namespace Betik

def withoutComments (ts : List Token) : List Token :=
  ts.filter (·.kind ≠ .comment)

namespace Stmt

def isComment : Stmt → Bool
  | comment .. => true
  | _ => false

mutual

/-- The statement with no comment in any sequence inside it.  A comment that is not in
a sequence stays. -/
def withoutComments : Stmt → Stmt
  | cond line condition yes none => cond line condition yes.withoutComments none
  | cond line condition yes (some no) =>
    cond line condition yes.withoutComments (some no.withoutComments)
  | loop line condition body => loop line condition body.withoutComments
  | function line name params body => function line name params (dropComments body)
  | block line body => block line (dropComments body)
  | s => s

def dropComments : List Stmt → List Stmt
  | [] => []
  | s :: ss => if s.isComment then dropComments ss else s.withoutComments :: dropComments ss

end

theorem dropComments_comment {s : Stmt} (h : s.isComment) (ss : List Stmt) :
    dropComments (s :: ss) = dropComments ss := by
  rw [dropComments, if_pos h]

theorem dropComments_cons {s : Stmt} (h : ¬s.isComment) (ss : List Stmt) :
    dropComments (s :: ss) = s.withoutComments :: dropComments ss := by
  rw [dropComments, if_neg h]

/-- Two sequences that differ in their comments only are built up side by side. -/
@[elab_as_elim] theorem dropComments_induction {motive : List Stmt → List Stmt → Prop}
    (nil : motive [] [])
    (left : ∀ {s ss ts}, s.isComment → dropComments ss = dropComments ts → motive ss ts →
      motive (s :: ss) ts)
    (right : ∀ {t ss ts}, t.isComment → motive ss ts → motive ss (t :: ts))
    (cons : ∀ {s t ss ts}, s.withoutComments = t.withoutComments →
      dropComments ss = dropComments ts → motive ss ts → motive (s :: ss) (t :: ts))
    (ss ts : List Stmt) (same : dropComments ss = dropComments ts) : motive ss ts := by
  induction ss generalizing ts with
  | nil =>
    induction ts with
    | nil => exact nil
    | cons t ts iht =>
      by_cases comment : t.isComment
      · rw [dropComments_comment comment] at same
        exact right comment (iht same)
      · rw [dropComments_cons comment] at same
        cases same
  | cons s ss ihs =>
    by_cases comment : s.isComment
    · rw [dropComments_comment comment] at same
      exact left comment same (ihs _ same)
    · induction ts with
      | nil =>
        rw [dropComments_cons comment] at same
        cases same
      | cons t ts iht =>
        by_cases comment' : t.isComment
        · rw [dropComments_comment comment'] at same
          exact right comment' (iht same)
        · rw [dropComments_cons comment, dropComments_cons comment'] at same
          injection same with first others
          exact cons first others (ihs _ others)

theorem withoutComments_cond (line : Nat) (condition : Expr) (yes : Stmt) (no : Option Stmt) :
    (cond line condition yes no).withoutComments =
      cond line condition yes.withoutComments (no.map withoutComments) := by
  cases no <;> simp [withoutComments]

/-! What a statement was that became such a one. -/

section

variable {t : Stmt} {line : Nat} {condition : Expr}

theorem cond_of_withoutComments {yes : Stmt} {no : Option Stmt}
    (h : t.withoutComments = cond line condition yes no) :
    ∃ yes' no', t = cond line condition yes' no' ∧ yes'.withoutComments = yes ∧
      no'.map withoutComments = no := by
  cases t with
  | cond line' condition' yes' no' =>
    rw [withoutComments_cond] at h
    injection h with hl hc hy hn
    subst hl hc
    exact ⟨yes', no', rfl, hy, hn⟩
  | _ => simp [withoutComments] at h

theorem loop_of_withoutComments {body : Stmt} (h : t.withoutComments = loop line condition body) :
    ∃ body', t = loop line condition body' ∧ body'.withoutComments = body := by
  cases t with
  | loop =>
    simp only [withoutComments, loop.injEq] at h
    obtain ⟨rfl, rfl, rfl⟩ := h
    exact ⟨_, rfl, rfl⟩
  | cond => simp [withoutComments_cond] at h
  | _ => simp [withoutComments] at h

theorem function_of_withoutComments {name : String} {params : List String} {body : List Stmt}
    (h : t.withoutComments = function line name params body) :
    ∃ body', t = function line name params body' ∧ dropComments body' = body := by
  cases t with
  | function =>
    simp only [withoutComments, function.injEq] at h
    obtain ⟨rfl, rfl, rfl, rfl⟩ := h
    exact ⟨_, rfl, rfl⟩
  | cond => simp [withoutComments_cond] at h
  | _ => simp [withoutComments] at h

theorem block_of_withoutComments {body : List Stmt} (h : t.withoutComments = block line body) :
    ∃ body', t = block line body' ∧ dropComments body' = body := by
  cases t with
  | block =>
    simp only [withoutComments, block.injEq] at h
    obtain ⟨rfl, rfl⟩ := h
    exact ⟨_, rfl, rfl⟩
  | cond => simp [withoutComments_cond] at h
  | _ => simp [withoutComments] at h

end

def isSimple : Stmt → Bool
  | cond .. | loop .. | function .. | block .. => false
  | _ => true

theorem isSimple_withoutComments (s : Stmt) : s.withoutComments.isSimple = s.isSimple := by
  cases s with
  | cond => rw [withoutComments_cond]; rfl
  | _ => simp [withoutComments, isSimple]

theorem withoutComments_simple {s : Stmt} (h : s.isSimple) : s.withoutComments = s := by
  cases s with
  | cond | loop | function | block => cases h
  | _ => rfl

theorem simple_of_withoutComments {s t : Stmt} (h : t.withoutComments = s.withoutComments)
    (simple : s.isSimple) : t = s := by
  have simple' : t.isSimple := by
    rw [← isSimple_withoutComments, h, isSimple_withoutComments, simple]
  rw [← withoutComments_simple simple', h, withoutComments_simple simple]

theorem withoutComments_line (s : Stmt) : s.withoutComments.line = s.line := by
  cases s with
  | cond => rw [withoutComments_cond]; rfl
  | _ => simp [withoutComments, line]

theorem isComment_withoutComments (s : Stmt) : s.withoutComments.isComment = s.isComment := by
  cases s with
  | cond => rw [withoutComments_cond]; rfl
  | _ => simp [withoutComments, isComment]

mutual

theorem withoutComments_withoutComments : ∀ s : Stmt,
    s.withoutComments.withoutComments = s.withoutComments
  | cond _ _ yes none => by
    simp [withoutComments, withoutComments_withoutComments yes]
  | cond _ _ yes (some no) => by
    simp [withoutComments, withoutComments_withoutComments yes, withoutComments_withoutComments no]
  | loop _ _ body => by
    simp [withoutComments, withoutComments_withoutComments body]
  | function _ _ _ body => by
    simp [withoutComments, dropComments_dropComments body]
  | block _ body => by
    simp [withoutComments, dropComments_dropComments body]
  | declare .. | print .. | ret .. | expr .. | comment .. => rfl

theorem dropComments_dropComments : ∀ ss : List Stmt,
    dropComments (dropComments ss) = dropComments ss
  | [] => by simp [dropComments]
  | s :: ss => by
    by_cases comment : s.isComment
    · rw [dropComments_comment comment, dropComments_dropComments ss]
    · have kept : ¬s.withoutComments.isComment := by rwa [isComment_withoutComments]
      rw [dropComments_cons comment, dropComments_cons kept, withoutComments_withoutComments s,
        dropComments_dropComments ss]

end

end Stmt

def Program.withoutComments (p : Program) : Program :=
  ⟨Stmt.dropComments p.statements⟩

end Betik
