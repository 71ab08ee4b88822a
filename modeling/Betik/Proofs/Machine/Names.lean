/-
Which names the frames have.

A declaration adds its name to the innermost frame, and nothing else makes a variable.  So
whatever runs leaves the names of all other frames alone: `closed_growing`.  Blocks and
calls bring a frame along and take it away again, so they leave the names of all frames
alone that were there, and so do expressions, which make variables in calls only.  The
values are another matter: under dynamic scope a function assigns to the variables of its
callers.
-/
import Betik.Proofs.Machine.Stack

namespace Betik

namespace Environment

variable {env env' : Environment}

/-- The names of the variables in each frame, the innermost frame first and the global one
last. -/
def names (env : Environment) : List (List String) :=
  env.locals.map Table.names ++ [env.globals.names]

/-- The names are those there were, but for more in the innermost `k` frames.  From the
innermost one no name is gone. -/
structure Kept (k : Nat) (env env' : Environment) : Prop where
  others : env'.names.drop k = env.names.drop k
  innermost : env.names.headD [] ⊆ env'.names.headD []

theorem Kept.of_names (k : Nat) (same : env'.names = env.names) : Kept k env env' :=
  ⟨by rw [same], by rw [same]; exact List.Subset.refl _⟩

theorem Kept.trans {k : Nat} {env'' : Environment} (h : Kept k env env')
    (h' : Kept k env' env'') : Kept k env env'' :=
  ⟨h'.others.trans h.others, List.Subset.trans h.innermost h'.innermost⟩

theorem names_put_subset (frame : Frame) (name : String) (value : Value) :
    frame.names ⊆ (frame.put name value).names := by
  rw [Table.names_put]
  split
  · exact List.Subset.refl _
  · exact List.subset_append_left _ _

theorem names_put_of_contains {frame : Frame} {name : String} (present : frame.contains name)
    (value : Value) : (frame.put name value).names = frame.names := by
  rw [Table.names_put, if_pos (Table.contains_iff_mem.1 present)]

/-- A declaration adds to the innermost frame. -/
theorem kept_define (env : Environment) (name : String) (value : Value) :
    Kept 1 env (env.define name value) := by
  unfold define
  split
  · rename_i alone
    refine ⟨by simp [names, alone], ?_⟩
    simpa [names, alone] using names_put_subset env.globals name value
  · rename_i frame frames split
    refine ⟨by simp [names, split], ?_⟩
    simpa [names, split] using names_put_subset frame name value

/-- An assignment changes a frame that has the name. -/
theorem names_assignFirst? {name : String} {value : Value} {fs gs : List Frame}
    (assigned : assignFirst? name value fs = some gs) :
    gs.map Table.names = fs.map Table.names := by
  induction fs generalizing gs with
  | nil => cases assigned
  | cons f fs ih =>
    simp only [assignFirst?] at assigned
    split at assigned
    · rename_i present
      cases assigned
      rw [List.map_cons, names_put_of_contains present, List.map_cons]
    · obtain ⟨gs', assigned', rfl⟩ := Option.map_eq_some_iff.1 assigned
      rw [List.map_cons, ih assigned', List.map_cons]

theorem names_assign? {name : String} {value : Value}
    (assigned : env.assign? name value = some env') : env'.names = env.names := by
  unfold assign? at assigned
  split at assigned
  · rename_i frames seen
    cases assigned
    have locals : (frames ++ env.hidden).map Table.names = env.locals.map Table.names := by
      rw [List.map_append, names_assignFirst? seen, ← List.map_append, env.seen_append_hidden]
    exact congrArg (· ++ [env.globals.names]) locals
  · split at assigned
    · rename_i present
      cases assigned
      exact congrArg (env.locals.map Table.names ++ [·]) (names_put_of_contains present value)
    · cases assigned

theorem names_leaveBlock (h : env.enterBlock.SameShape env') :
    env'.leaveBlock.names = env'.names.tail := by
  cases frames : env'.locals with
  | nil =>
    have length := h.frames
    simp [enterBlock, frames] at length
  | cons f fs => simp [names, leaveBlock, frames]

theorem names_leaveCall (h : env.enterCall.SameShape env') :
    env'.leaveCall.names = env'.names.tail := by
  have length : env'.locals.length = env.locals.length + 1 := h.frames
  have bases : env'.bases = env.locals.length :: env.bases := h.bases
  cases frames : env'.locals with
  | nil => simp [frames] at length
  | cons f fs =>
    have depth : fs.length = env.locals.length := by simpa [frames] using length
    simp [names, leaveCall, bases, frames, depth]

end Environment

def Machine.names (m : Machine) : List (List String) :=
  m.environment.names

namespace Action

variable {α β : Type} {a : Action α} {k : Nat} {m : Machine}

/-- However the action ends on the machine, no frame has been added or taken away, and only
in the innermost `k` frames there are more names.  The names of the others are there at
every machine that the action comes through. -/
structure KeepsNamesOn (k : Nat) (a : Action α) (m : Machine) : Prop where
  ends : ∀ r m', a m = some (r, m') → Environment.Kept k m.environment m'.environment
  passes : ∀ s, a.passes m s → m.names.drop k <:+ s.names

theorem keepsNamesOn_step {f : Machine → Except RuntimeError α × Machine}
    (kept : Environment.Kept k m.environment (f m).2.environment) :
    (step f).KeepsNamesOn k m where
  ends r m' ran := by
    injection ran with ran
    rwa [ran] at kept
  passes s passed := by
    obtain rfl | rfl := passed
    · exact List.drop_suffix k _
    · exact kept.others ▸ List.drop_suffix k _

/-- A step that leaves the variables alone. -/
theorem keepsNamesOn_idle {f : Machine → Except RuntimeError α × Machine}
    (same : (f m).2.environment = m.environment) : (step f).KeepsNamesOn k m :=
  keepsNamesOn_step (.of_names k (congrArg Environment.names same))

theorem keepsNamesOn_say (result : Except RuntimeError α) (m : Machine) :
    (step fun m => (result, m)).KeepsNamesOn k m :=
  keepsNamesOn_idle rfl

theorem keepsNamesOn_outOfFuel (m : Machine) : (outOfFuel : Action α).KeepsNamesOn k m :=
  ⟨fun _ _ ran => (Option.some_ne_none _ ran.symm).elim,
    fun _ passed => passed ▸ List.drop_suffix k _⟩

theorem keepsNamesOn_lookUp (line : Nat) (name : String) (m : Machine) :
    (lookUp line name).KeepsNamesOn k m := by
  refine keepsNamesOn_idle ?_
  cases m.environment.get? name <;> rfl

theorem keepsNamesOn_assign (line : Nat) (name : String) (value : Value) (m : Machine) :
    (assign line name value).KeepsNamesOn k m := by
  refine keepsNamesOn_step (.of_names k ?_)
  cases assigned : m.environment.assign? name value with
  | none => rfl
  | some env => exact Environment.names_assign? assigned

theorem keepsNamesOn_readLine (line : Nat) (m : Machine) :
    (readLine line).KeepsNamesOn k m := by
  refine keepsNamesOn_idle ?_
  simp only
  split <;> rfl

theorem KeepsNamesOn.bind {f : α → Action β} (first : a.KeepsNamesOn k m)
    (second : ∀ value m', a m = some (.ok value, m') → (f value).KeepsNamesOn k m') :
    (a >>= f).KeepsNamesOn k m where
  ends r m' ran := by
    obtain ⟨e, failed, rfl⟩ | ⟨value, m₁, done, ran⟩ := bind_ended ran
    · exact first.ends _ m' failed
    · exact (first.ends _ m₁ done).trans ((second value m₁ done).ends r m' ran)
  passes s passed := by
    obtain passed | ⟨value, m₁, done, passed⟩ := passed
    · exact first.passes s passed
    · exact (first.ends _ m₁ done).others ▸ (second value m₁ done).passes s passed

/-- What is asked of the machine is what the machine says. -/
theorem KeepsNamesOn.ask {f : Machine → β} {g : β → Action α} (h : (g (f m)).KeepsNamesOn k m) :
    (ask f >>= g).KeepsNamesOn k m :=
  (keepsNamesOn_idle rfl).bind fun value m' asked => by
    cases asked
    exact h

theorem KeepsNamesOn.insideCall (h : a.KeepsNamesOn k m) (line : Nat) :
    (insideCall line a).KeepsNamesOn k m := by
  refine .ask ?_
  split
  · exact keepsNamesOn_say _ m
  · exact h

theorem KeepsNamesOn.withFunction {use : Function → Action α}
    (h : ∀ f, (use f).KeepsNamesOn k m) (line : Nat) (name : String) :
    (withFunction line name use).KeepsNamesOn k m := by
  refine .ask ?_
  cases m.functions.get? name with
  | none => exact keepsNamesOn_say _ m
  | some f => exact h f

/-- What is added to a frame that is entered goes when the frame is left. -/
theorem KeepsNamesOn.within {enter leave : Machine → Machine} (h : a.KeepsNamesOn 1 (enter m))
    (entering : (enter m).names.tail = m.names)
    (leaving : ∀ r m', a (enter m) = some (r, m') → (leave m').names = m'.names.tail) :
    (within enter leave a).KeepsNamesOn k m := by
  have entered : (enter m).names.drop 1 = m.names := List.drop_one.trans entering
  have left (r : Except RuntimeError α) (m' : Machine) (ran : a (enter m) = some (r, m')) :
      (leave m').names = m.names := by
    rw [leaving r m' ran, ← List.drop_one]
    exact (h.ends r m' ran).others.trans entered
  constructor
  case ends =>
    intro r m' ran
    obtain ⟨m₁, inside, rfl⟩ := within_ended ran
    exact .of_names k (left r m₁ inside)
  case passes =>
    rintro s (rfl | inside | ⟨r, m₁, inside, rfl⟩)
    · exact List.drop_suffix k _
    · exact (List.drop_suffix k _).trans (entered ▸ h.passes s inside)
    · exact left r m₁ inside ▸ List.drop_suffix k _

/-- Names are added to the innermost frame only.  The frames are there at the end that were
there at the start, which is what leaving a frame needs. -/
structure Growing (a : Action α) : Prop where
  disciplined : a.Disciplined
  keeps : ∀ m, a.KeepsNamesOn 1 m

theorem Growing.inBlock (h : a.Growing) (m : Machine) : (inBlock a).KeepsNamesOn k m :=
  (h.keeps m.enterBlock).within rfl fun _ _ ran =>
    Environment.names_leaveBlock ((h.disciplined _).restores _ _ ran).shape

theorem Growing.inCall (h : a.Growing) (line : Nat) (m : Machine) :
    (inCall line a).KeepsNamesOn k m := by
  refine .ask ?_
  by_cases full : m.callLimit ≤ m.callDepth
  · simp only [full, if_true]
    exact keepsNamesOn_say _ m
  · simp only [full, if_false]
    exact (h.keeps m.enterCall).within rfl fun _ _ ran =>
      Environment.names_leaveCall ((h.disciplined _).restores _ _ ran).shape

theorem closed_growing : Closed fun _ a => a.Growing where
  outOfFuel := ⟨closed_disciplined.outOfFuel, keepsNamesOn_outOfFuel⟩
  say result := ⟨closed_disciplined.say result, keepsNamesOn_say result⟩
  lookUp line name := ⟨disciplined_lookUp line name, keepsNamesOn_lookUp line name⟩
  define name value := ⟨closed_disciplined.define name value, fun m =>
    keepsNamesOn_step (m.environment.kept_define name value)⟩
  assign line name value :=
    ⟨disciplined_assign line name value, keepsNamesOn_assign line name value⟩
  defineFunction name f :=
    ⟨closed_disciplined.defineFunction name f, fun _ => keepsNamesOn_idle rfl⟩
  write line text := ⟨closed_disciplined.write line text, fun _ => keepsNamesOn_idle rfl⟩
  flush line := ⟨closed_disciplined.flush line, fun _ => keepsNamesOn_idle rfl⟩
  readLine line := ⟨disciplined_readLine line, keepsNamesOn_readLine line⟩
  bind ha hf := ⟨ha.disciplined.bind fun value => (hf value).disciplined,
    fun m => (ha.keeps m).bind fun value m' _ => (hf value).keeps m'⟩
  withFunction line name h := ⟨.withFunction (fun f => (h f).disciplined) line name,
    fun m => .withFunction (fun f => (h f).keeps m) line name⟩
  inBlock h := ⟨closed_disciplined.inBlock h.disciplined, h.inBlock⟩
  inCall line h := ⟨h.disciplined.inCall line, h.inCall line⟩
  insideCall line h := ⟨h.disciplined.insideCall line, fun m => (h.keeps m).insideCall line⟩

end Action

open Betik.Action

/-- A call has a frame of its own from the start. -/
theorem Function.call_keepsNamesOn (fuel line : Nat) (name : String) (f : Function)
    (args : List Value) (m : Machine) : (f.call fuel line name args).KeepsNamesOn 0 m := by
  cases fuel with
  | zero => exact keepsNamesOn_outOfFuel m
  | succ fuel =>
    simp only [Function.call]
    split
    · exact keepsNamesOn_say _ m
    · have body : (do
          Action.defineAll (f.params.zip args)
          Stmt.runBlock fuel f.body).Growing :=
        closed_growing.bind (closed_growing.defineAll _) fun _ =>
          (closed_growing.everywhere fuel).runBlock _
      exact (body.inCall line m).bind fun _ _ _ => keepsNamesOn_say _ _

/-- No expression makes a variable: it can only call functions, whose variables are in
frames of their own. -/
theorem keepsNamesOn_eval (fuel : Nat) :
    (∀ (e : Expr) m, (e.eval fuel).KeepsNamesOn 0 m) ∧
      ∀ es m, (Expr.evalAll fuel es).KeepsNamesOn 0 m := by
  induction fuel with
  | zero => exact ⟨fun _ => keepsNamesOn_outOfFuel, fun _ => keepsNamesOn_outOfFuel⟩
  | succ fuel ih =>
    obtain ⟨eval, evalAll⟩ := ih
    constructor
    · intro e m
      cases e with
      | literal => exact keepsNamesOn_say _ m
      | binary | logical =>
        exact (eval _ m).bind fun _ m₁ _ => (eval _ m₁).bind fun _ m₂ _ => keepsNamesOn_say _ m₂
      | var => exact keepsNamesOn_lookUp _ _ m
      | assign =>
        refine (eval _ m).bind fun _ m₁ _ => (keepsNamesOn_assign _ _ _ m₁).bind fun _ m₂ _ => ?_
        exact keepsNamesOn_say _ m₂
      | call line name args =>
        refine (evalAll args m).bind fun values m₁ _ => ?_
        split
        · exact (keepsNamesOn_idle rfl).bind fun _ m₂ _ => keepsNamesOn_say _ m₂
        · exact .withFunction (fun f => f.call_keepsNamesOn fuel line name values m₁) line name
      | prompt =>
        refine (keepsNamesOn_idle rfl).bind fun _ m₁ _ => ?_
        refine (keepsNamesOn_idle rfl).bind fun _ m₂ _ => ?_
        exact (keepsNamesOn_readLine _ m₂).bind fun _ m₃ _ => keepsNamesOn_say _ m₃
    · intro es m
      cases es with
      | nil => exact keepsNamesOn_say _ m
      | cons =>
        refine (eval _ m).bind fun _ m₁ _ => (evalAll _ m₁).bind fun _ m₂ _ => ?_
        exact keepsNamesOn_say _ m₂

namespace Stmt

/-- Every declaration in the statement stands in a block or in the body of a function. -/
def Enclosed : Stmt → Prop
  | declare .. => False
  | cond _ _ yes none => yes.Enclosed
  | cond _ _ yes (some no) => yes.Enclosed ∧ no.Enclosed
  | loop _ _ body => body.Enclosed
  | print .. | function .. | ret .. | block .. | expr .. | comment .. => True

theorem keepsNamesOn_run (fuel : Nat) :
    (∀ s : Stmt, s.Enclosed → ∀ m, (s.run fuel).KeepsNamesOn 0 m) ∧
      ∀ condition (body : Stmt), body.Enclosed →
        ∀ m, (Stmt.runLoop fuel condition body).KeepsNamesOn 0 m := by
  induction fuel with
  | zero => exact ⟨fun _ _ => keepsNamesOn_outOfFuel, fun _ _ _ => keepsNamesOn_outOfFuel⟩
  | succ fuel ih =>
    obtain ⟨run, runLoop⟩ := ih
    have eval := (keepsNamesOn_eval fuel).1
    have runBlock (body : List Stmt) (m : Machine) :
        (Stmt.runBlock fuel body).KeepsNamesOn 0 m := by
      cases fuel with
      | zero => exact keepsNamesOn_outOfFuel m
      | succ fuel => exact ((closed_growing.everywhere fuel).runAll body).inBlock m
    constructor
    · intro s enclosed m
      cases s with
      | declare => exact enclosed.elim
      | print =>
        refine (eval _ m).bind fun _ m₁ _ => (keepsNamesOn_idle rfl).bind fun _ m₂ _ => ?_
        exact keepsNamesOn_say _ m₂
      | cond line condition yes no =>
        refine (eval _ m).bind fun c m₁ _ => ?_
        split
        · cases no with
          | none => exact run yes enclosed m₁
          | some no => exact run yes enclosed.1 m₁
        · cases no with
          | none => exact keepsNamesOn_say _ m₁
          | some no => exact run no enclosed.2 m₁
      | loop line condition body => exact runLoop condition body enclosed m
      | function => exact (keepsNamesOn_idle rfl).bind fun _ m₁ _ => keepsNamesOn_say _ m₁
      | ret => exact .insideCall ((eval _ m).bind fun _ m₁ _ => keepsNamesOn_say _ m₁) _
      | block line body => exact runBlock body m
      | expr => exact (eval _ m).bind fun _ m₁ _ => keepsNamesOn_say _ m₁
      | comment => exact keepsNamesOn_say _ m
    · intro condition body enclosed m
      refine (eval _ m).bind fun c m₁ _ => ?_
      split
      · refine (run body enclosed m₁).bind fun flow m₂ _ => ?_
        cases flow with
        | normal => exact runLoop condition body enclosed m₂
        | returned => exact keepsNamesOn_say _ m₂
      · exact keepsNamesOn_say _ m₁

end Stmt

/-- No frame gets a name or loses one by an expression, nor by a call, which makes its
variables in frames of its own.  A statement adds names to the innermost frame at most, and
none if its declarations are enclosed.  Of the values this is not true: under dynamic scope
a call can change the variables of its caller. -/
theorem names_of_frames :
    (∀ fuel (e : Expr) m, (e.eval fuel).KeepsNamesOn 0 m) ∧
    (∀ fuel line name (f : Function) args m, (f.call fuel line name args).KeepsNamesOn 0 m) ∧
    (∀ fuel (s : Stmt) m, (s.run fuel).KeepsNamesOn 1 m) ∧
    (∀ fuel (s : Stmt), s.Enclosed → ∀ m, (s.run fuel).KeepsNamesOn 0 m) ∧
    ∃ fuel line name f args result, ∃ m m' : Machine, m.environment.scope = .dynamic ∧
      Function.call fuel line name f args m = some (result, m') ∧
      m'.environment.locals ≠ m.environment.locals := by
  refine ⟨fun fuel => (keepsNamesOn_eval fuel).1, Function.call_keepsNamesOn,
    fun fuel s => ((closed_growing.everywhere fuel).run s).keeps,
    fun fuel => (Stmt.keepsNamesOn_run fuel).1, ?_⟩
  let f : Function := ⟨[], [.expr 1 (.assign 1 "x" (.literal 1 (.integer 2)))]⟩
  let m (x : Value) : Machine := { environment := ⟨.empty, [⟨[("x", x)]⟩], [], .dynamic⟩ }
  have called : f.call 6 1 "f" [] (m (.integer 1)) = some (.ok .null, m (.integer 2)) := rfl
  exact ⟨6, 1, "f", f, [], .ok .null, m (.integer 1), m (.integer 2), rfl, called, by simp [m]⟩

/-- The function makes a variable of its own, and changes one of its caller, which stands in
a block with a declaration. -/
theorem names_of_frames_dynamic_call :
    let f : Function := ⟨["a"], [.declare 1 "y" .integer (.var 1 "a"),
      .expr 2 (.assign 2 "x" (.var 2 "y"))]⟩
    let m (x : Value) : Machine :=
      { environment := ⟨.empty, [⟨[("x", x)]⟩], [], .dynamic⟩, functions := ⟨[("f", f)]⟩ }
    let s : Stmt := .block 4 [.declare 4 "z" .integer (.literal 4 (.integer 2)),
      .expr 5 (.call 5 "f" [.var 5 "z"])]
    s.Enclosed ∧ s.run 20 (m (.integer 1)) = some (.ok .normal, m (.integer 2)) ∧
      (m (.integer 2)).names = [["x"], []] := by
  intro f m s
  have ran : s.run 20 (m (.integer 1)) = some (.ok .normal, m (.integer 2)) := rfl
  have kept := names_of_frames.2.2.2.1 20 s trivial (m (.integer 1))
  exact ⟨trivial, ran, (kept.ends _ _ ran).others⟩

end Betik
