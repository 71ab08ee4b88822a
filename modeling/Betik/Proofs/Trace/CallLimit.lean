/-
The call limit only cuts runs short.

A run is compared with the same run under a higher limit.  If no call was one too many,
both do the same.  Otherwise the run under the higher limit first does all that the other
one did, and then may go on.  This is `partwise_spared`.

A call is one too many if as many are active as the limit allows, and then nothing else
is wrong with it: the function exists and takes that many values.  `closed_locates` says
that a run ends with such an error just if its trace has such a call.
-/
import Betik.Machine.Fuel
import Betik.Proofs.Machine.Stack
import Betik.Proofs.Trace.World

namespace Betik

def Machine.withCallLimit (limit : Nat) (m : Machine) : Machine :=
  { m with callLimit := limit }

def Moment.withCallLimit (limit : Nat) (mo : Moment) : Moment :=
  ⟨mo.machine.withCallLimit limit, mo.deed⟩

theorem worldAfter_withCallLimit (limit : Nat) (moments : List Moment) (world : Sink × Input) :
    worldAfter (moments.map (Moment.withCallLimit limit)) world = worldAfter moments world :=
  List.foldl_map

namespace Action

variable {α β : Type} {a : Action α} {f : α → Action β} {m : Machine} {e : RuntimeError}

theorem inCall_of_full (full : m.callLimit ≤ m.callDepth) (line : Nat) :
    inCall line a m = some (.error ⟨.stackOverflow m.callLimit, line⟩, m) := by
  rw [inCall, ask_run]
  simp only [if_pos full]
  rfl

theorem inCall_of_room (room : ¬m.callLimit ≤ m.callDepth) (line : Nat) :
    inCall line a m = within Machine.enterCall Machine.leaveCall a m := by
  rw [inCall, ask_run]
  simp only [if_neg room]

def Raises (a : Action α) (m : Machine) (e : RuntimeError) : Prop :=
  ∃ m', a m = some (.error e, m')

theorem raises_bind :
    (a >>= f).Raises m e ↔
      a.Raises m e ∨ ∃ value m₁, a m = some (.ok value, m₁) ∧ (f value).Raises m₁ e := by
  constructor
  · rintro ⟨m', ran⟩
    obtain ⟨_, failed, same⟩ | ⟨value, m₁, done, ran⟩ := bind_ended ran
    · cases same
      exact .inl ⟨m', failed⟩
    · exact .inr ⟨value, m₁, done, m', ran⟩
  · rintro (⟨m', failed⟩ | ⟨value, m₁, done, m', ran⟩)
    · exact ⟨m', bind_of_error failed⟩
    · exact ⟨m', (bind_of_ok done).trans ran⟩

theorem raises_map {g : α → β} : (do return g (← a)).Raises m e ↔ a.Raises m e := by
  rw [raises_bind]
  refine or_iff_left ?_
  rintro ⟨value, m₁, -, m', ran⟩
  cases ran

/-- A failed flush is no other error than one of its own line. -/
theorem raises_thenFlush {line : Nat} (other : ∀ failure, e ≠ ⟨.io failure, line⟩) :
    (thenFlush line a).Raises m e ↔ a.Raises m e := by
  constructor
  · rintro ⟨m', failed⟩
    obtain ⟨m₁, -, failed | ⟨-, failure, -, -, same⟩⟩ := thenFlush_failed failed
    · exact ⟨m₁, failed⟩
    · exact absurd same (other failure)
  · rintro ⟨m₁, failed⟩
    exact ⟨m₁.flushed, thenFlush_of_error failed⟩

theorem raises_within {enter leave : Machine → Machine} :
    (within enter leave a).Raises m e ↔ a.Raises (enter m) e := by
  constructor
  · rintro ⟨m', ran⟩
    obtain ⟨m₁, inside, -⟩ := within_ended ran
    exact ⟨m₁, inside⟩
  · rintro ⟨m₁, inside⟩
    exact ⟨leave m₁, within_of_some inside⟩

end Action

/-- A failed flush is no overflow. -/
theorem overflowed_thenFlush {α : Type} {r : Except RuntimeError α} {line : Nat}
    {flush : Except Failure Unit} : Overflowed (r <* Action.blame line flush) ↔ Overflowed r := by
  cases r with
  | error e => exact Iff.rfl
  | ok value => cases flush <;> exact ⟨nofun, nofun⟩

namespace Trace

variable {α β : Type} {limit : Nat} {m : Machine}

theorem inCall_of_full {t : Trace} (full : m.callLimit ≤ m.callDepth) : t.inCall m = [] := by
  rw [inCall, asking_run]
  exact congrFun (if_pos full) m

theorem inCall_of_room {t : Trace} (room : ¬m.callLimit ≤ m.callDepth) :
    t.inCall m = t m.enterCall := by
  rw [inCall, asking_run]
  exact congrFun (if_neg room) m

/-! ## The same run under a higher limit -/

/-- Under the limit the action does the same as under a lower one, unless it overflows
there.  Then it does first what it did there. -/
structure Spared (limit : Nat) (a : Action α) (t : Trace) : Prop where
  kept : ∀ m r m', a m = some (r, m') → m'.callLimit = m.callLimit
  whole : ∀ m r m', m.callLimit ≤ limit → a m = some (r, m') → ¬Overflowed r →
    a (m.withCallLimit limit) = some (r, m'.withCallLimit limit) ∧
      t (m.withCallLimit limit) = (t m).map (Moment.withCallLimit limit)
  short : ∀ m r m', m.callLimit ≤ limit → a m = some (r, m') → Overflowed r →
    (t m).map (Moment.withCallLimit limit) <+: t (m.withCallLimit limit)

/-- Something that does not look at the limit. -/
theorem Spared.of_same {a : Action α} {t : Trace}
    (kept : ∀ m r m', a m = some (r, m') → m'.callLimit = m.callLimit)
    (same : ∀ m r m', a m = some (r, m') →
      a (m.withCallLimit limit) = some (r, m'.withCallLimit limit))
    (told : ∀ m, t (m.withCallLimit limit) = (t m).map (Moment.withCallLimit limit)) :
    Spared limit a t where
  kept := kept
  whole m r m' _ ran _ := ⟨same m r m' ran, told m⟩
  short m _ _ _ _ _ := ⟨[], by rw [told, List.append_nil]⟩

theorem spared_step {f : Machine → Except RuntimeError α × Machine}
    (kept : ∀ m, (f m).2.callLimit = m.callLimit)
    (same : ∀ m : Machine,
      f (m.withCallLimit limit) = ((f m).1, (f m).2.withCallLimit limit)) :
    Spared limit (.step f) silent := by
  refine .of_same (fun m r m' ran => ?_) (fun m r m' ran => ?_) fun _ => rfl
  · injection ran with ran
    rw [← kept m, ran]
  · injection ran with ran
    exact congrArg some (by rw [same, ran])

theorem spared_say (result : Except RuntimeError α) :
    Spared limit (.step fun m => (result, m)) silent :=
  spared_step (fun _ => rfl) fun _ => rfl

theorem Spared.bind {a : Action α} {f : α → Action β} {t : Trace} {u : α → Trace}
    (first : Spared limit a t) (second : ∀ value, Spared limit (f value) (u value)) :
    Spared limit (a >>= f) (t.andThen a u) where
  kept m r m' ran := by
    obtain ⟨e, failed, -⟩ | ⟨value, m₁, done, ran⟩ := Action.bind_ended ran
    · exact first.kept m _ m' failed
    · exact ((second value).kept m₁ r m' ran).trans (first.kept m _ m₁ done)
  whole m r m' low ran calm := by
    obtain ⟨e, failed, rfl⟩ | ⟨value, m₁, done, ran⟩ := Action.bind_ended ran
    · rw [overflowed_error] at calm
      obtain ⟨same, told⟩ := first.whole m _ m' low failed (by rwa [overflowed_error])
      rw [Action.bind_of_error same, andThen_of_error same, andThen_of_error failed, told]
      exact ⟨rfl, rfl⟩
    · obtain ⟨same₁, told₁⟩ := first.whole m _ m₁ low done (not_overflowed_ok value)
      rw [← first.kept m _ m₁ done] at low
      obtain ⟨same₂, told₂⟩ := (second value).whole m₁ r m' low ran calm
      rw [Action.bind_of_ok same₁, andThen_of_ok same₁, andThen_of_ok done, told₁, told₂,
        List.map_append]
      exact ⟨same₂, rfl⟩
  short m r m' low ran overflows := by
    obtain ⟨e, failed, rfl⟩ | ⟨value, m₁, done, ran⟩ := Action.bind_ended ran
    · rw [overflowed_error] at overflows
      have begun := first.short m _ m' low failed (by rwa [overflowed_error])
      rw [andThen_of_error failed]
      exact begun.trans (List.prefix_append _ _)
    · obtain ⟨same, told⟩ := first.whole m _ m₁ low done (not_overflowed_ok value)
      rw [← first.kept m _ m₁ done] at low
      rw [andThen_of_ok same, andThen_of_ok done, told, List.map_append]
      have begun := (second value).short m₁ r m' low ran overflows
      exact (List.prefix_append_right_inj _).2 begun

theorem Spared.mark {a : Action α} {t : Trace} (h : Spared limit a t) (deed : Deed) :
    Spared limit a (t.mark deed) where
  kept := h.kept
  whole m r m' low ran calm := by
    obtain ⟨same, told⟩ := h.whole m r m' low ran calm
    exact ⟨same, by rw [Trace.mark, told]; rfl⟩
  short m r m' low ran overflows :=
    (List.prefix_cons_inj _).2 (h.short m r m' low ran overflows)

theorem Spared.within {a : Action α} {t : Trace} (h : Spared limit a t)
    {enter leave : Machine → Machine} (entered : ∀ m, (enter m).callLimit = m.callLimit)
    (left : ∀ m, (leave m).callLimit = m.callLimit)
    (entering : ∀ m : Machine, enter (m.withCallLimit limit) = (enter m).withCallLimit limit)
    (leaving : ∀ m : Machine, leave (m.withCallLimit limit) = (leave m).withCallLimit limit) :
    Spared limit (.within enter leave a) fun m => t (enter m) where
  kept m r m' ran := by
    obtain ⟨m₁, inside, rfl⟩ := Action.within_ended ran
    rw [left, h.kept (enter m) r m₁ inside, entered]
  whole m r m' low ran calm := by
    obtain ⟨m₁, inside, rfl⟩ := Action.within_ended ran
    rw [← entered m] at low
    obtain ⟨same, told⟩ := h.whole (enter m) r m₁ low inside calm
    rw [← entering] at same told
    exact ⟨by rw [Action.within_of_some same, leaving], told⟩
  short m r m' low ran overflows := by
    obtain ⟨m₁, inside, rfl⟩ := Action.within_ended ran
    rw [← entered m] at low
    have begun := h.short (enter m) r m₁ low inside overflows
    rwa [← entering] at begun

/-- Something other than the limit is asked of the machine. -/
theorem Spared.ask {f : Machine → β} {g : β → Action α} {t : β → Trace}
    (same : ∀ m : Machine, f (m.withCallLimit limit) = f m)
    (h : ∀ answer, Spared limit (g answer) (t answer)) :
    Spared limit (Action.ask f >>= g) (asking f t) where
  kept m := (h (f m)).kept m
  whole m r m' low ran calm := by
    rw [Action.ask_run, asking_run, asking_run, same]
    exact (h (f m)).whole m r m' low ran calm
  short m r m' low ran overflows := by
    rw [asking_run, asking_run, same]
    exact (h (f m)).short m r m' low ran overflows

theorem Spared.withFunction {use : Function → Action α} {t : Function → Trace}
    (h : ∀ f, Spared limit (use f) (t f)) (line : Nat) (name : String) :
    Spared limit (.withFunction line name use) (withFunction name t) := by
  refine .ask (fun _ => rfl) fun found => ?_
  cases found with
  | none => exact spared_say _
  | some f => exact h f

/-- Where the lower limit leaves room for a call, so does the higher one. -/
theorem room_withCallLimit (low : m.callLimit ≤ limit) (room : ¬m.callLimit ≤ m.callDepth) :
    ¬(m.withCallLimit limit).callLimit ≤ (m.withCallLimit limit).callDepth :=
  fun full => room (Nat.le_trans low full)

theorem Spared.inCall {a : Action α} {t : Trace} (h : Spared limit a t) (line : Nat) :
    Spared limit (.inCall line a) t.inCall := by
  have inside : Spared limit (.within .enterCall .leaveCall a) fun m => t m.enterCall :=
    h.within (fun _ => rfl) (fun _ => rfl) (fun _ => rfl) fun _ => rfl
  constructor
  case kept =>
    intro m r m' ran
    by_cases full : m.callLimit ≤ m.callDepth
    · rw [Action.inCall_of_full full] at ran
      cases ran
      rfl
    · rw [Action.inCall_of_room full] at ran
      exact inside.kept m r m' ran
  case whole =>
    intro m r m' low ran calm
    by_cases full : m.callLimit ≤ m.callDepth
    · rw [Action.inCall_of_full full] at ran
      cases ran
      exact absurd ⟨_, _, rfl⟩ calm
    · have room := room_withCallLimit low full
      rw [Action.inCall_of_room full] at ran
      rw [Action.inCall_of_room room, inCall_of_room room, inCall_of_room full]
      exact inside.whole m r m' low ran calm
  case short =>
    intro m r m' low ran overflows
    by_cases full : m.callLimit ≤ m.callDepth
    · rw [inCall_of_full full]
      exact List.nil_prefix
    · rw [Action.inCall_of_room full] at ran
      rw [inCall_of_room (room_withCallLimit low full), inCall_of_room full]
      exact inside.short m r m' low ran overflows

theorem spared_outOfFuel : Spared limit (α := α) .outOfFuel silent where
  kept _ _ _ ran := nomatch ran
  whole _ _ _ _ ran := nomatch ran
  short _ _ _ _ ran := nomatch ran

theorem spared_takeAnswer (line : Nat) :
    Spared limit (.takeAnswer line) (outcome (.answer line) (.takeAnswer line)) := by
  refine .of_same (fun m r m' ran => ?_) (fun m r m' ran => ?_) fun m => ?_
  · rw [takeAnswer_run] at ran
    cases ran
    rfl
  · rw [takeAnswer_run] at ran
    cases ran
    rw [takeAnswer_run]
    rfl
  · rw [outcome_takeAnswer, outcome_takeAnswer]
    rfl

theorem partwise_spared (limit : Nat) : Partwise fun _ a t => Spared limit a t where
  outOfFuel := spared_outOfFuel
  say result _ := spared_say result
  lookUp line name := spared_step (fun m => by cases m.environment.get? name <;> rfl) fun m => by
    simp only [Machine.withCallLimit]
    cases m.environment.get? name <;> rfl
  define _ _ := spared_step (fun _ => rfl) fun _ => rfl
  assign line name value :=
    spared_step (fun m => by cases m.environment.assign? name value <;> rfl) fun m => by
      simp only [Machine.withCallLimit]
      cases m.environment.assign? name value <;> rfl
  defineFunction _ _ := spared_step (fun _ => rfl) fun _ => rfl
  write _ _ := .of_same (fun _ _ _ ran => by cases ran; rfl) (fun _ _ _ ran => by cases ran; rfl)
    fun _ => rfl
  flush _ := .of_same (fun _ _ _ ran => by cases ran; rfl) (fun _ _ _ ran => by cases ran; rfl)
    fun _ => rfl
  takeAnswer := spared_takeAnswer
  bind := Spared.bind
  statement _ h := h.mark _
  inBlock h := h.within (fun _ => rfl) (fun _ => rfl) (fun _ => rfl) fun _ => rfl
  insideCall _ h := .ask (fun _ => rfl) fun _ =>
    holds_ite (P := fun _ => Spared limit) _ (spared_say _) h
  withFunction line name h := .withFunction h line name
  call _ _ _ h := h.mark _
  inCall line h := h.inCall line

/-! ## Which call is one too many -/

end Trace

/-- At the moment a function is called that exists and takes that many values, and as
many calls are active as the limit allows. -/
def Moment.OneTooMany (limit line : Nat) (mo : Moment) : Prop :=
  ∃ name args f, mo.deed = .call line name args ∧ name ≠ printName ∧
    mo.machine.functions.get? name = some f ∧ args.length = f.params.length ∧
    mo.machine.environment.bases.length = limit

namespace Trace

def LocatesOn (a : Action α) (t : Trace) (m : Machine) : Prop :=
  ∀ limit line, a.Raises m ⟨.stackOverflow limit, line⟩ ↔
    limit = m.callLimit ∧ ∃ mo ∈ t m, mo.OneTooMany limit line

/-- Only a balanced machine has as many frames of calls as it counts calls. -/
structure Locates (a : Action α) (t : Trace) : Prop where
  disciplined : a.Disciplined
  locates : ∀ m, m.Balanced → LocatesOn a t m

/-- Something that never overflows and calls nothing. -/
theorem Locates.of_calm {a : Action α} {t : Trace} (disciplined : a.Disciplined)
    (calm : ∀ m r m', a m = some (r, m') → ¬Overflowed r)
    (callsNothing : ∀ m, ∀ mo ∈ t m, ∀ line name args, mo.deed ≠ .call line name args) :
    Locates a t := by
  refine ⟨disciplined, fun m _ limit line => ⟨?_, ?_⟩⟩
  · rintro ⟨m', ran⟩
    exact absurd ⟨limit, line, rfl⟩ (calm m _ m' ran)
  · rintro ⟨-, mo, mem, name, args, f, same, -⟩
    exact absurd same (callsNothing m mo mem line name args)

theorem locates_step {f : Machine → Except RuntimeError α × Machine}
    (disciplined : (Action.step f).Disciplined) (calm : ∀ m, ¬Overflowed (f m).1) :
    Locates (.step f) silent := by
  refine .of_calm disciplined (fun m r m' ran => ?_) fun _ _ mem => nomatch mem
  injection ran with ran
  have calm := calm m
  rwa [ran] at calm

theorem LocatesOn.bind {a : Action α} {f : α → Action β} {t : Trace} {u : α → Trace}
    (kept : ∀ r m', a m = some (r, m') → m'.callLimit = m.callLimit) (first : LocatesOn a t m)
    (second : ∀ value m₁, a m = some (.ok value, m₁) → LocatesOn (f value) (u value) m₁) :
    LocatesOn (a >>= f) (t.andThen a u) m := by
  intro limit line
  rw [Action.raises_bind, first limit line]
  simp only [mem_andThen]
  constructor
  · rintro (⟨same, mo, mem, much⟩ | ⟨value, m₁, done, raised⟩)
    · exact ⟨same, mo, .inl mem, much⟩
    · obtain ⟨same, mo, mem, much⟩ := (second value m₁ done limit line).1 raised
      exact ⟨same.trans (kept _ m₁ done), mo, .inr ⟨value, m₁, done, mem⟩, much⟩
  · rintro ⟨same, mo, mem | ⟨value, m₁, done, mem⟩, much⟩
    · exact .inl ⟨same, mo, mem, much⟩
    · have here := same.trans (kept _ m₁ done).symm
      exact .inr ⟨value, m₁, done, (second value m₁ done limit line).2 ⟨here, mo, mem, much⟩⟩

theorem Locates.bind {a : Action α} {f : α → Action β} {t : Trace} {u : α → Trace}
    (first : Locates a t) (second : ∀ value, Locates (f value) (u value)) :
    Locates (a >>= f) (t.andThen a u) where
  disciplined := first.disciplined.bind fun value => (second value).disciplined
  locates m b := by
    have same := (first.disciplined m).restores
    refine (first.locates m b).bind (fun r m' ran => (same r m' ran).limit) ?_
    intro value m₁ done
    exact (second value).locates m₁ ((same _ m₁ done).balanced b)

theorem LocatesOn.within {a : Action α} {t : Trace} {enter leave : Machine → Machine}
    (h : LocatesOn a t (enter m)) (entered : (enter m).callLimit = m.callLimit) :
    LocatesOn (.within enter leave a) (fun m => t (enter m)) m := by
  intro limit line
  rw [Action.raises_within, h limit line, entered]

theorem LocatesOn.map {a : Action α} {t : Trace} (h : LocatesOn a t m) (g : α → β) :
    LocatesOn (do return g (← a)) t m :=
  fun limit line => Action.raises_map.trans (h limit line)

/-- A deed in front of others, which is no call that is one too many. -/
theorem LocatesOn.mark {a : Action α} {t : Trace} (h : LocatesOn a t m) {deed : Deed}
    (other : ∀ line, ¬Moment.OneTooMany m.callLimit line ⟨m, deed⟩) :
    LocatesOn a (t.mark deed) m := by
  intro limit line
  rw [h limit line]
  refine and_congr_right fun same => ?_
  subst same
  simp only [mem_mark, or_and_right, exists_or, exists_eq_left, other, false_or]

theorem locates_fail {cause : RuntimeError.Cause} (line : Nat)
    (other : ∀ limit, cause ≠ .stackOverflow limit) :
    Locates (α := α) (.fail line cause) silent := by
  refine locates_step (Action.closed_disciplined.say (.error ⟨cause, line⟩)) fun _ => ?_
  rintro ⟨limit, line', same⟩
  cases same
  exact other limit rfl

/-- What is asked of the machine is no call. -/
theorem LocatesOn.ask {f : Machine → β} {g : β → Action α} {t : β → Trace}
    (h : LocatesOn (g (f m)) (t (f m)) m) : LocatesOn (Action.ask f >>= g) (asking f t) m :=
  h

theorem LocatesOn.withFunction {use : Function → Action α} {t : Function → Trace} {line : Nat}
    {name : String} (b : m.Balanced)
    (h : ∀ f, m.functions.get? name = some f → LocatesOn (use f) (t f) m) :
    LocatesOn (.withFunction line name use) (withFunction name t) m := by
  refine .ask ?_
  cases found : m.functions.get? name with
  | none => exact (locates_fail line (by nofun)).locates m b
  | some f => exact h f found

theorem Locates.insideCall {a : Action α} {t : Trace} (h : Locates a t) (line : Nat) :
    Locates (.insideCall line a) t.insideCall := by
  refine ⟨h.disciplined.insideCall line, fun m b => .ask ?_⟩
  exact (holds_ite (m.callDepth = 0) (locates_fail line (by nofun)) h).locates m b

/-- A call with as many values as the function takes.  It is the one that is told, unless
there is room for it: then it is one of those in its body. -/
theorem locatesOn_inCall {f : Function} {name : String} {args : List Value} (b : m.Balanced)
    (found : m.functions.get? name = some f) (other : name ≠ printName)
    (fits : args.length = f.params.length) {a : Action α} {t : Trace} (body : Locates a t)
    (line : Nat) : LocatesOn (.inCall line a) (mark (.call line name args) t.inCall) m := by
  have counted := b.counted
  by_cases full : m.callLimit ≤ m.callDepth
  · have ends := Action.inCall_of_full (a := a) full line
    have all : m.environment.bases.length = m.callLimit := by
      have limited := b.limited
      omega
    intro limit line'
    constructor
    · rintro ⟨m', ran⟩
      rw [ends] at ran
      cases ran
      exact ⟨rfl, _, mem_mark.2 (.inl rfl), name, args, f, rfl, other, found, fits, all⟩
    · rintro ⟨rfl, mo, mem, much⟩
      rw [mem_mark, inCall_of_full full] at mem
      obtain rfl : mo = ⟨m, .call line name args⟩ := by simpa using mem
      obtain ⟨_, _, _, same, -⟩ := much
      cases same
      exact ⟨m, ends⟩
  · have room := b.enterCall (Nat.lt_of_not_le full)
    refine .mark (fun limit line' => ?_) ?_
    · rw [Action.Raises, Action.inCall_of_room full, inCall_of_room full]
      exact ((body.locates m.enterCall room).within rfl) limit line'
    · rintro line' ⟨_, _, _, -, -, -, -, all⟩
      have all : m.environment.bases.length = m.callLimit := all
      omega

/-- The number of values is looked at before the limit. -/
theorem locatesOn_called {f : Function} {name : String} {args : List Value} (b : m.Balanced)
    (found : m.functions.get? name = some f) (other : name ≠ printName) {a : Action Flow}
    {t : Trace} (body : Locates a t) (line : Nat) :
    LocatesOn
      (if args.length ≠ f.params.length then
          .fail line (.wrongArity name f.params.length args.length)
        else do
          let flow ← Action.inCall line a
          return flow.value)
      (mark (.call line name args) (if args.length ≠ f.params.length then silent else t.inCall))
      m := by
  by_cases fits : args.length = f.params.length
  · simp only [ne_eq, fits, not_true_eq_false, if_false]
    exact .map (locatesOn_inCall b found other fits body line) Flow.value
  · simp only [ne_eq, fits, not_false_eq_true, if_true]
    refine .mark ((locates_fail line (by nofun)).locates m b) ?_
    rintro line' ⟨_, _, f', same, -, found', fits', -⟩
    cases same
    cases found.symm.trans found'
    exact fits fits'

theorem Locates.called {body : Function → Action Flow} {t : Function → Trace} {name : String}
    (other : name ≠ printName) (h : ∀ f, Locates (body f) (t f)) (line : Nat)
    (args : List Value) :
    Locates
      (.withFunction line name fun f =>
        if args.length ≠ f.params.length then
          .fail line (.wrongArity name f.params.length args.length)
        else do
          let flow ← Action.inCall line (body f)
          return flow.value)
      (Trace.withFunction name fun f =>
        mark (.call line name args)
          (if args.length ≠ f.params.length then silent else (t f).inCall)) where
  disciplined := by
    refine .withFunction (fun f => ?_) line name
    refine Action.Closed.ite (P := fun _ a => a.Disciplined) _ (Action.closed_disciplined.say _) ?_
    exact ((h f).disciplined.inCall line).bind fun _ => Action.closed_disciplined.say _
  locates m b := .withFunction b fun _ found => locatesOn_called b found other (h _) line

theorem locates_takeAnswer (line : Nat) :
    Locates (.takeAnswer line) (outcome (.answer line) (.takeAnswer line)) := by
  refine .of_calm ?_ (fun m r m' ran => ?_) fun m mo mem line' name args => ?_
  · exact (Action.disciplined_readLine line).bind fun _ => Action.closed_disciplined.say (.ok _)
  · rw [takeAnswer_run] at ran
    cases ran
    cases m.input.readLine.1 <;> nofun
  · rw [outcome_takeAnswer] at mem
    cases List.mem_singleton.1 mem
    nofun

theorem not_overflowed_blame (line : Nat) (result : Except Failure α) :
    ¬Overflowed (Action.blame line result) := by
  cases result <;> nofun

theorem locates_write (line : Nat) (text : String) :
    Locates (.write line text) (only (.write line text)) := by
  refine .of_calm (Action.closed_disciplined.write line text) (fun m r m' ran => ?_) ?_
  · rw [Action.write_run] at ran
    cases ran
    exact not_overflowed_blame line _
  · intro m mo mem line' name args
    cases List.mem_singleton.1 mem
    nofun

theorem locates_flush (line : Nat) : Locates (.flush line) (only (.flush line)) := by
  refine .of_calm (Action.closed_disciplined.flush line) (fun m r m' ran => ?_) ?_
  · rw [Action.flush_run] at ran
    cases ran
    exact not_overflowed_blame line _
  · intro m mo mem line' name args
    cases List.mem_singleton.1 mem
    nofun

theorem locates_outOfFuel : Locates (α := α) .outOfFuel silent :=
  .of_calm Action.closed_disciplined.outOfFuel (fun _ _ _ ran => nomatch ran)
    fun _ _ mem => nomatch mem

theorem locates_notCalled (line : Nat) (name : String) :
    Locates (α := α) (.withFunction line name fun _ => .outOfFuel) silent := by
  rw [← withFunction_silent name]
  exact ⟨.withFunction (fun _ => locates_outOfFuel.disciplined) line name, fun m b =>
    .withFunction b fun _ _ => locates_outOfFuel.locates m b⟩

theorem closed_locates : Closed fun _ a t => Locates a t where
  outOfFuel := locates_outOfFuel
  say result calm := locates_step (Action.closed_disciplined.say result) fun _ => calm
  lookUp line name := locates_step (Action.closed_disciplined.lookUp line name) fun m => by
    cases m.environment.get? name <;> nofun
  define _ _ := locates_step (Action.closed_disciplined.define _ _) fun _ => nofun
  assign line name value :=
    locates_step (Action.closed_disciplined.assign line name value) fun m => by
      cases m.environment.assign? name value <;> nofun
  defineFunction _ _ := locates_step (Action.closed_disciplined.defineFunction _ _) fun _ => nofun
  write := locates_write
  flush := locates_flush
  takeAnswer := locates_takeAnswer
  bind := Locates.bind
  statement s h := ⟨h.disciplined, fun m b => (h.locates m b).mark nofun⟩
  inBlock h := ⟨Action.closed_disciplined.inBlock h.disciplined, fun m b =>
    (h.locates m.enterBlock b.enterBlock).within rfl⟩
  insideCall line h := h.insideCall line
  notCalled := locates_notCalled
  called line name args other h := .called other h line args

end Trace

theorem Machine.balanced_new (scope : Scope) (limit : Nat) (input : Input) (sink : Sink) :
    (Machine.new scope limit input sink).Balanced where
  nested := .nil
  framed _ mem := nomatch mem
  counted := rfl
  limited := Nat.zero_le limit

/-- The call limit only cuts runs short.  A program that does not overflow does the same
under every higher limit.  Of one that does, what it wrote and read comes first in what it
writes and reads under a higher limit, should it end there.  And it overflows at a line
just if a call there, of a function that exists and with as many values as it takes, finds
as many calls active as the limit allows. -/
theorem call_limit_cuts_short (p : Program) (scope : Scope) (input : Input) (sink : Sink)
    (limit : Nat) :
    let m (limit : Nat) := Machine.new scope limit input sink
    (∀ higher fuel r m₁, limit ≤ higher → p.run fuel (m limit) = some (r, m₁) → ¬Overflowed r →
      p.run fuel (m higher) = some (r, m₁.withCallLimit higher)) ∧
    (∀ higher fuel fuel' r r' m₁ m₂, limit ≤ higher → p.run fuel (m limit) = some (r, m₁) →
      Overflowed r → p.run fuel' (m higher) = some (r', m₂) →
      ∃ printed used used', m₂.sink.written = m₁.sink.written ++ printed ∧
        input.unread = used ++ m₁.input.unread ∧
        input.unread = used ++ used' ++ m₂.input.unread) ∧
    ∀ fuel refused line, (p.run fuel).Raises (m limit) ⟨.stackOverflow refused, line⟩ ↔
      refused = limit ∧ ∃ mo ∈ p.trace fuel (m limit), mo.OneTooMany limit line := by
  intro m
  refine ⟨fun higher fuel r m₁ low ran calm => ?_, ?_, fun fuel refused line => ?_⟩
  · have spared := (Trace.partwise_spared higher).closed.runProgram fuel p.statements
    obtain ⟨r₀, m₀, first, rfl, rfl⟩ := Action.thenFlush_ended ran
    rw [overflowed_thenFlush] at calm
    exact Action.thenFlush_of_some (spared.whole (m limit) r₀ m₀ low first calm).1
  · intro higher fuel fuel' r r' m₁ m₂ low ran overflows ran'
    -- with the larger fuel of the two both runs end
    replace ran := Program.run_below (Nat.le_max_left fuel fuel') p _ _ ran
    replace ran' := Program.run_below (Nat.le_max_right fuel fuel') p _ _ ran'
    generalize max fuel fuel' = fuel at ran ran'
    obtain ⟨r₀, m₁, below, rfl, rfl⟩ := Action.thenFlush_ended ran
    obtain ⟨r₀', m₂, above, -, rfl⟩ := Action.thenFlush_ended ran'
    rw [overflowed_thenFlush] at overflows
    have accounts := Trace.partwise_accounts.closed.runProgram fuel p.statements
    have spared := (Trace.partwise_spared higher).closed.runProgram fuel p.statements
    obtain ⟨more, told⟩ := spared.short (m limit) r₀ m₁ low below overflows
    have first : m₁.world = worldAfter (p.trace fuel (m limit)) (m limit).world :=
      accounts.ends _ r₀ m₁ below
    have second : m₂.world = worldAfter more m₁.world := by
      have whole := accounts.ends ((m limit).withCallLimit higher) r₀' m₂ above
      rw [← told, worldAfter_append, worldAfter_withCallLimit] at whole
      rw [whole, first]
      rfl
    have begun := later_worldAfter (p.trace fuel (m limit)) (m limit).world
    have later := later_worldAfter more m₁.world
    rw [← first] at begun
    rw [← second] at later
    obtain ⟨used, read⟩ := begun.read
    obtain ⟨⟨printed, written⟩, used', read'⟩ := later
    refine ⟨printed, used, used', written, read, ?_⟩
    rw [List.append_assoc]
    exact read.trans (congrArg (used ++ ·) read')
  · have locates := (Trace.closed_locates.runProgram fuel p.statements).locates
    have here := locates (m limit) (Machine.balanced_new scope limit input sink) refused line
    refine (Action.raises_thenFlush fun _ same => by cases same).trans (here.trans ?_)
    refine and_congr_right fun same => ?_
    rw [show refused = limit from same]
    rfl

/-- With a limit of one call the inner one is one too many, so its prompt is missing and
the second line stays unread.  Two calls are enough. -/
theorem call_limit_cuts_short_inner_call :
    let p : Program := ⟨[
      .function 1 "dış" [] [.print 2 (.prompt 2 "a"), .expr 3 (.call 3 "iç" [])],
      .function 5 "iç" [] [.print 6 (.prompt 6 "b")],
      .expr 8 (.call 8 "dış" [])]⟩
    let m (limit : Nat) := Machine.new .lexical limit ⟨[120, 10, 121]⟩ {}
    ∃ m₁ m₂, p.run 20 (m 1) = some (.error ⟨.stackOverflow 1, 3⟩, m₁) ∧
      p.run 20 (m 2) = some (.ok (), m₂) ∧ m₁.sink.written = "ax\n".toUTF8 ∧
      m₁.input.unread = [121] ∧
      p.run 20 (m 3) = some (.ok (), m₂.withCallLimit 3) ∧
      (∃ printed used used', m₂.sink.written = m₁.sink.written ++ printed ∧
        [120, 10, 121] = used ++ m₁.input.unread ∧
        [120, 10, 121] = used ++ used' ++ m₂.input.unread) ∧
      ∃ mo ∈ p.trace 20 (m 1), mo.OneTooMany 1 3 := by
  intro p m
  obtain ⟨-, cut, overflows⟩ := call_limit_cuts_short p .lexical ⟨[120, 10, 121]⟩ {} 1
  obtain ⟨spared, -⟩ := call_limit_cuts_short p .lexical ⟨[120, 10, 121]⟩ {} 2
  refine ⟨_, _, rfl, rfl, rfl, rfl, ?_, ?_, ?_⟩
  · exact spared 3 20 (.ok ()) _ (by decide) rfl (not_overflowed_ok ())
  · exact cut 2 20 20 _ _ _ _ (by decide) rfl ⟨1, 3, rfl⟩ rfl
  · exact ((overflows 20 1 3).1 ⟨_, rfl⟩).2

end Betik
