/-
Stacks in which a call has two frames of its own, and stacks in which it has one.

The two frames of a call are that of its parameters and that of its body.  A name is looked
up in the body first, so one frame is as good that has the variables of both, and for a
name of both the body's: `Frame.Joins`.  No frame but these can tell the stacks apart, and
what is done to variables and frames keeps them alike.
-/
import Betik.Proofs.Machine.Stack

namespace Betik

/-- The frame has the variables of a body and of the parameters beneath it. -/
def Frame.Joins (frame body params : Frame) : Prop :=
  ∀ name, frame.get? name = (body.get? name).or (params.get? name)

namespace Frame

variable {frame body params : Frame}

/-- The parameters by themselves, before the body has made a variable. -/
theorem joins_empty (params : Frame) : Joins params .empty params :=
  fun _ => rfl

theorem Joins.contains (h : Joins frame body params) (name : String) :
    frame.contains name = (body.contains name || params.contains name) := by
  simp only [Table.contains, h name]
  cases body.get? name <;> rfl

theorem Joins.put (h : Joins frame body params) (name : String) (value : Value) :
    Joins (frame.put name value) (body.put name value) params := by
  intro other
  simp only [Table.get?_put, h other]
  split <;> rfl

/-- A parameter that no variable of the body hides. -/
theorem Joins.put_params (h : Joins frame body params) {name : String}
    (unhidden : ¬body.contains name) (value : Value) :
    Joins (frame.put name value) body (params.put name value) := by
  intro other
  simp only [Table.get?_put, h other]
  split
  · rename_i same
    subst same
    have none : body.get? name = none := by simpa [Table.contains] using unhidden
    rw [none]
    rfl
  · rfl

end Frame

namespace Environment

/-- What is found on both sides, or on neither, is found with what follows from it. -/
theorem rel_imp {α β : Type} {r r' : α → β → Prop} {x : Option α} {y : Option β}
    (h : Option.Rel r x y) (imp : ∀ a b, x = some a → y = some b → r a b → r' a b) :
    Option.Rel r' x y := by
  cases h with
  | none => exact .none
  | some related => exact .some (imp _ _ rfl rfl related)

theorem rel_map {α α' β β' : Type} {r : α' → β' → Prop} {f : α → α'} {g : β → β'}
    {x : Option α} {y : Option β} (h : Option.Rel (fun a b => r (f a) (g b)) x y) :
    Option.Rel r (x.map f) (y.map g) := by
  cases h with
  | none => exact .none
  | some related => exact .some related

/-! ## The frames of one call -/

/-- The frames of a call in which as many blocks are open, with two of its own and with
one. -/
inductive CallFrames : Nat → List Frame → List Frame → Prop
  | own {frame body params : Frame} (joins : frame.Joins body params) :
    CallFrames 0 [body, params] [frame]
  | block {blocks : Nat} {two one : List Frame} (f : Frame) (within : CallFrames blocks two one) :
    CallFrames (blocks + 1) (f :: two) (f :: one)

namespace CallFrames

variable {blocks : Nat} {two one : List Frame}

theorem getFirst? (h : CallFrames blocks two one) (name : String) :
    Environment.getFirst? name one = Environment.getFirst? name two := by
  induction h with
  | @own frame body params joins =>
    simp only [Environment.getFirst?, joins name]
    cases body.get? name with
    | some => rfl
    | none => cases params.get? name <;> rfl
  | block f _ ih => simp only [Environment.getFirst?, ih]

theorem assignFirst? (h : CallFrames blocks two one) (name : String) (value : Value) :
    Option.Rel (CallFrames blocks) (Environment.assignFirst? name value two)
      (Environment.assignFirst? name value one) := by
  induction h with
  | @own frame body params joins =>
    simp only [Environment.assignFirst?, joins.contains]
    by_cases inBody : body.contains name
    · simpa [inBody] using CallFrames.own (joins.put name value)
    · by_cases inParams : params.contains name
      · simpa [inBody, inParams] using CallFrames.own (joins.put_params inBody value)
      · simp [inBody, inParams]
  | block f within ih =>
    simp only [Environment.assignFirst?]
    by_cases here : f.contains name
    · simpa [here] using CallFrames.block (f.put name value) within
    · simp only [here, Bool.false_eq_true, if_false]
      exact rel_map (rel_imp ih fun _ _ _ _ changed => .block f changed)

end CallFrames

/-! ## All frames -/

theorem assignFirst?_append (name : String) (value : Value) (fs gs : List Frame) :
    assignFirst? name value (fs ++ gs) =
      match assignFirst? name value fs with
      | some fs' => some (fs' ++ gs)
      | none => (assignFirst? name value gs).map (fs ++ ·) := by
  induction fs with
  | nil => simp [assignFirst?]
  | cons f fs ih =>
    simp only [List.cons_append, assignFirst?]
    split
    · rfl
    · rw [ih]
      cases assignFirst? name value fs with
      | some => rfl
      | none => simp [Function.comp_def]

/-- The bases and frames of active calls with two frames of their own and with one.  In each
call as many blocks are open as the first list says, the innermost call first.  Its last
number is that of the frames outside of all calls. -/
inductive Alike : List Nat → List Nat → List Frame → List Nat → List Frame → Prop
  | outside {k : Nat} (fs : List Frame) (count : fs.length = k) : Alike [k] [] fs [] fs
  | call {k : Nat} {ks bs bs' : List Nat} {two one fs fs' : List Frame}
    (frames : CallFrames k two one) (around : Alike ks bs fs bs' fs') :
    Alike (k :: ks) (fs.length :: bs) (two ++ fs) (fs'.length :: bs') (one ++ fs')

namespace Alike

variable {ks bs bs' : List Nat} {fs fs' : List Frame}

theorem getFirst? (h : Alike ks bs fs bs' fs') (name : String) :
    Environment.getFirst? name fs' = Environment.getFirst? name fs := by
  induction h with
  | outside => rfl
  | call frames _ ih => rw [getFirst?_append, getFirst?_append, ih, frames.getFirst?]

theorem assignFirst? (h : Alike ks bs fs bs' fs') (name : String) (value : Value) :
    Option.Rel (Alike ks bs · bs' ·) (Environment.assignFirst? name value fs)
      (Environment.assignFirst? name value fs') := by
  induction h with
  | outside fs count =>
    cases assigned : Environment.assignFirst? name value fs with
    | none => exact .none
    | some gs => exact .some (.outside gs ((length_assignFirst? assigned).trans count))
  | @call k ks bs bs' two one fs fs' frames around ih =>
    rw [assignFirst?_append, assignFirst?_append]
    have own := frames.assignFirst? name value
    generalize Environment.assignFirst? name value two = inTwo at own ⊢
    generalize Environment.assignFirst? name value one = inOne at own ⊢
    cases own with
    | some changed => exact .some (.call changed around)
    | none =>
      refine rel_map (rel_imp ih fun gs gs' found found' changed => ?_)
      rw [← length_assignFirst? found, ← length_assignFirst? found']
      exact .call frames changed

end Alike

/-! ## Environments -/

/-- The second environment has one frame where the first has two of a call, and is the same
else. -/
inductive MergesTo (ks : List Nat) : Environment → Environment → Prop
  | intro {bs bs' : List Nat} {fs fs' : List Frame} (globals : Frame) (scope : Scope)
    (frames : Alike ks bs fs bs' fs') :
    MergesTo ks ⟨globals, fs, bs, scope⟩ ⟨globals, fs', bs', scope⟩

variable {k : Nat} {ks : List Nat} {env env' : Environment}

theorem MergesTo.globals (h : MergesTo ks env env') : env'.globals = env.globals := by
  cases h
  rfl

theorem mergesTo_self {env : Environment} (outside : env.bases = []) :
    MergesTo [env.locals.length] env env := by
  obtain ⟨globals, locals, bases, scope⟩ := env
  cases outside
  exact .intro globals scope (.outside locals rfl)

theorem MergesTo.eq_of_outside (h : MergesTo [k] env env') : env' = env := by
  obtain ⟨globals, scope, frames⟩ := h
  cases frames with
  | outside => rfl
  | call _ around => cases around

theorem MergesTo.nonempty (h : MergesTo ks env env') : ∃ k ks', ks = k :: ks' := by
  obtain ⟨globals, scope, frames⟩ := h
  cases frames <;> exact ⟨_, _, rfl⟩

theorem MergesTo.get? (h : MergesTo ks env env') (name : String) :
    env'.get? name = env.get? name := by
  have seen : getFirst? name env'.seen = getFirst? name env.seen := by
    obtain ⟨globals, scope, frames⟩ := h
    cases scope with
    | dynamic => exact frames.getFirst? name
    | lexical =>
      cases frames with
      | outside => rfl
      | call frames _ => simpa [Environment.seen] using frames.getFirst? name
  rw [Environment.get?, Environment.get?, seen, h.globals]

theorem MergesTo.define (h : MergesTo ks env env') (name : String) (value : Value) :
    MergesTo ks (env.define name value) (env'.define name value) := by
  obtain @⟨_, _, fs, _, globals, scope, frames⟩ := h
  cases frames with
  | outside _ count =>
    cases fs with
    | nil => exact .intro _ scope (.outside [] count)
    | cons f fs => exact .intro globals scope (.outside _ count)
  | call frames around =>
    cases frames with
    | own joins => exact .intro globals scope (.call (.own (joins.put name value)) around)
    | block f within => exact .intro globals scope (.call (.block (f.put name value) within) around)

theorem MergesTo.assignFirst?_seen (h : MergesTo ks env env') (name : String) (value : Value) :
    Option.Rel
      (fun fs fs' => MergesTo ks { env with locals := fs ++ env.hidden }
        { env' with locals := fs' ++ env'.hidden })
      (assignFirst? name value env.seen) (assignFirst? name value env'.seen) := by
  obtain ⟨globals, scope, frames⟩ := h
  have all := rel_imp (frames.assignFirst? name value) fun gs gs' _ _ changed =>
    MergesTo.intro globals scope changed
  cases scope with
  | dynamic => simpa [Environment.seen, Environment.hidden] using all
  | lexical =>
    cases frames with
    | outside => simpa [Environment.seen, Environment.hidden] using all
    | call frames around =>
      have own := rel_imp (frames.assignFirst? name value) fun gs gs' _ _ changed =>
        MergesTo.intro globals .lexical (.call changed around)
      simpa [Environment.seen, Environment.hidden] using own

theorem MergesTo.assign? (h : MergesTo ks env env') (name : String) (value : Value) :
    Option.Rel (MergesTo ks) (env.assign? name value) (env'.assign? name value) := by
  have seen := h.assignFirst?_seen name value
  simp only [Environment.assign?]
  generalize assignFirst? name value env.seen = found at seen ⊢
  generalize assignFirst? name value env'.seen = found' at seen ⊢
  cases seen with
  | some changed => exact .some changed
  | none =>
    obtain ⟨globals, scope, frames⟩ := h
    simp only
    split
    · exact .some (.intro _ scope frames)
    · exact .none

theorem MergesTo.enterBlock (h : MergesTo (k :: ks) env env') :
    MergesTo ((k + 1) :: ks) env.enterBlock env'.enterBlock := by
  obtain @⟨_, _, fs, _, globals, scope, frames⟩ := h
  cases frames with
  | outside _ count =>
    exact .intro globals scope (.outside (.empty :: fs) (congrArg (· + 1) count))
  | call frames around => exact .intro globals scope (.call (.block .empty frames) around)

theorem MergesTo.leaveBlock (h : MergesTo ((k + 1) :: ks) env env') :
    MergesTo (k :: ks) env.leaveBlock env'.leaveBlock := by
  obtain @⟨_, _, fs, _, globals, scope, frames⟩ := h
  cases frames with
  | outside _ count =>
    refine .intro globals scope (.outside fs.tail ?_)
    rw [List.length_tail, count, Nat.add_sub_cancel]
  | call frames around =>
    cases frames with
    | block f within => exact .intro globals scope (.call within around)

def called (params : Frame) (env : Environment) : Environment :=
  { env.enterCall with locals := params :: env.locals }

/-- With two frames the body has a block to itself, with one it has not. -/
theorem MergesTo.called (h : MergesTo ks env env') (params : Frame) :
    MergesTo (0 :: ks) (env.called params).enterBlock (env'.called params) := by
  obtain ⟨globals, scope, frames⟩ := h
  exact .intro globals scope (.call (.own params.joins_empty) frames)

theorem MergesTo.leaveCall (h : MergesTo (0 :: k :: ks) env env') :
    MergesTo (k :: ks) env.leaveBlock.leaveCall env'.leaveCall := by
  obtain ⟨globals, scope, frames⟩ := h
  cases frames with
  | call frames around =>
    cases frames with
    | own joins =>
      have left := MergesTo.intro globals scope around
      simpa [Environment.leaveBlock, Environment.leaveCall] using left

end Environment
end Betik
