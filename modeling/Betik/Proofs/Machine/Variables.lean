/-
Which variable a name means.

Frames have heights, from the global one at zero up to the innermost one.  A name is looked
for at the heights `Environment.heights`, from the top down to a floor and then at zero, and
the first frame that has it is the one it means: `Environment.Means`.  Looking up and
assigning are two searches of their own; both come to that frame, so what is assigned is what
is read afterwards, and nothing else changes.  A declaration does not search, it takes the
innermost frame, and that one can be seen because every call has a frame of its own.
-/
import Betik.Proofs.Machine.Names

namespace Betik
namespace Environment

variable {env env' : Environment} {name : String} {value : Value}

/-! ## Frames by height -/

def frames (env : Environment) : List Frame :=
  env.globals :: env.locals.reverse

/-- The least height at which a frame is seen, but for the global one.  Under lexical scope
it is that of the innermost call. -/
def floor (env : Environment) : Nat :=
  match env.scope, env.bases with
  | .lexical, base :: _ => base + 1
  | _, _ => 1

/-- The heights at which a name is looked for, in that order. -/
def heights (env : Environment) : List Nat :=
  (List.range' env.floor (env.frames.length - env.floor)).reverse ++ [0]

/-- Every active call has a frame, above those that were there when it began. -/
structure Framed (env : Environment) : Prop where
  nested : env.bases.Pairwise (· > ·)
  below : ∀ base ∈ env.bases, base < env.locals.length

theorem length_frames (env : Environment) : env.frames.length = env.locals.length + 1 := by
  simp [frames]

theorem Framed.floor_eq (framed : env.Framed) : env.floor = env.hidden.length + 1 := by
  obtain ⟨globals, locals, bases, scope⟩ := env
  cases scope with
  | dynamic => rfl
  | lexical =>
    cases bases with
    | nil => rfl
    | cons base bases =>
      have below : base < locals.length := framed.below base (List.mem_cons_self ..)
      simp only [floor, hidden, List.length_drop]
      omega

theorem heights_pairwise (env : Environment) : env.heights.Pairwise (· > ·) := by
  refine List.pairwise_append.2 ⟨?_, List.pairwise_singleton .., fun h mem z zero => ?_⟩
  · exact List.pairwise_reverse.2 List.pairwise_lt_range'
  · rw [List.mem_singleton.1 zero]
    have above := (List.mem_range'_1.1 (List.mem_reverse.1 mem)).1
    have floor : 1 ≤ env.floor := by
      unfold Environment.floor
      split <;> omega
    omega

theorem mem_heights {h : Nat} :
    h ∈ env.heights ↔ h = 0 ∨ env.floor ≤ h ∧ h < env.frames.length := by
  simp only [heights, List.mem_append, List.mem_reverse, List.mem_range'_1, List.mem_singleton]
  omega

/-- The frames that are looked at are those at the heights. -/
theorem Framed.visible_eq (framed : env.Framed) :
    env.visible.map some = env.heights.map (env.frames[·]?) := by
  have locals := env.seen_append_hidden
  have count : env.frames.length - env.floor = env.seen.length := by
    rw [length_frames, framed.floor_eq, ← locals, List.length_append]
    omega
  have seen : env.seen.reverse.map some =
      (List.range' (env.hidden.length + 1) env.seen.length).map (env.frames[·]?) := by
    refine List.ext_getElem? fun i => ?_
    rw [frames, ← locals]
    by_cases inside : i < env.seen.length
    · have place : env.hidden.length + 1 + i = env.hidden.length + i + 1 := by omega
      simp [inside, place]
    · simp [Nat.le_of_not_lt inside]
  rw [visible, heights, count, framed.floor_eq, List.map_append, List.map_append, List.map_reverse,
    ← seen, ← List.map_reverse, List.reverse_reverse]
  rfl

/-- The name means a variable of this frame, which is at this height.  The frame has the name,
and no frame has it that is looked at before. -/
structure Means (env : Environment) (name : String) (height : Nat) (frame : Frame) : Prop where
  visited : height ∈ env.heights
  there : env.frames[height]? = some frame
  has : frame.contains name
  first : ∀ h ∈ env.heights, height < h → ∀ other, env.frames[h]? = some other →
    other.contains name = false

/-- The frame at this height is another one, and that is all. -/
structure Replaces (env : Environment) (height : Nat) (frame : Frame) (env' : Environment) :
    Prop where
  frames : env'.frames = env.frames.set height frame
  bases : env'.bases = env.bases
  scope : env'.scope = env.scope

/-! ## Searching frames -/

section

variable {above below fs : List Frame} {f : Frame}

theorem getFirst?_eq_none (lacks : ∀ g ∈ fs, g.contains name = false) :
    getFirst? name fs = none := by
  induction fs with
  | nil => rfl
  | cons g fs ih =>
    obtain ⟨first, others⟩ := List.forall_mem_cons.1 lacks
    have absent : g.get? name = none := by simpa [Table.contains] using first
    simp [getFirst?, absent, ih others]

theorem assignFirst?_eq_none (value : Value) (lacks : ∀ g ∈ fs, g.contains name = false) :
    assignFirst? name value fs = none := by
  induction fs with
  | nil => rfl
  | cons g fs ih =>
    obtain ⟨first, others⟩ := List.forall_mem_cons.1 lacks
    simp [assignFirst?, first, ih others]

variable (lacks : ∀ g ∈ above, g.contains name = false)

include lacks

theorem getFirst?_of_first (has : f.contains name) :
    getFirst? name (above ++ f :: below) = f.get? name := by
  obtain ⟨value, found⟩ := Option.isSome_iff_exists.1 has
  rw [getFirst?_append, getFirst?_eq_none lacks]
  simp [getFirst?, found]

theorem assignFirst?_of_first (has : f.contains name) (value : Value) :
    assignFirst? name value (above ++ f :: below) = some (above ++ f.put name value :: below) := by
  induction above with
  | nil => simp [assignFirst?, has]
  | cons g above ih =>
    obtain ⟨first, others⟩ := List.forall_mem_cons.1 lacks
    simp [assignFirst?, first, ih others]

/-- Only the name that is set is read otherwise. -/
theorem getFirst?_put (value : Value) (other : String) :
    getFirst? other (above ++ f.put name value :: below) =
      if name = other then some value else getFirst? other (above ++ f :: below) := by
  rw [getFirst?_append, getFirst?_append]
  simp only [getFirst?, Table.get?_put]
  by_cases same : name = other
  · subst same
    simp [getFirst?_eq_none lacks]
  · simp [same]

end

/-- The frames that are seen can be exchanged for as many others. -/
theorem seen_of_length {fs : List Frame} (length : fs.length = env.seen.length) :
    { env with locals := fs ++ env.hidden }.seen = fs := by
  obtain ⟨globals, locals, bases, scope⟩ := env
  cases scope with
  | dynamic => simp [seen, hidden]
  | lexical =>
    cases bases with
    | nil => simp [seen, hidden]
    | cons base bases =>
      simp only [seen, List.length_take] at length
      have count : (fs ++ locals.drop (locals.length - base)).length - base = fs.length := by
        rw [List.length_append, List.length_drop]
        omega
      simp only [seen, hidden, count, List.take_left]

/-! ## Reading and assigning come to one frame -/

structure Finds (env : Environment) (name : String) (height : Nat) (frame : Frame) : Prop where
  means : env.Means name height frame
  get? : env.get? name = frame.get? name
  assign? : ∀ value, ∃ env', env.assign? name value = some env' ∧
    env.Replaces height (frame.put name value) env' ∧
    ∀ other, env'.get? other = if name = other then some value else env.get? other

theorem lacks_of_getElem? {lower upper : List Frame} (order : env.frames = lower ++ upper.reverse)
    (lacks : ∀ g ∈ upper, g.contains name = false) {height : Nat} (high : lower.length ≤ height)
    {frame : Frame} (there : env.frames[height]? = some frame) : frame.contains name = false := by
  rw [order, List.getElem?_append_right high] at there
  exact lacks frame (List.mem_reverse.1 (List.mem_of_getElem? there))

theorem Framed.finds_seen (framed : env.Framed) {above below : List Frame} {f : Frame}
    (seen : env.seen = above ++ f :: below) (lacks : ∀ g ∈ above, g.contains name = false)
    (has : f.contains name) :
    env.Finds name (env.globals :: (below ++ env.hidden).reverse).length f := by
  have locals : env.locals = above ++ f :: below ++ env.hidden := by
    rw [← seen, env.seen_append_hidden]
  have order : env.frames =
      (env.globals :: (below ++ env.hidden).reverse) ++ f :: above.reverse := by
    simp [frames, locals]
  have before : env.visible = above ++ f :: (below ++ [env.globals]) := by
    simp [visible, seen]
  constructor
  case means =>
    refine ⟨mem_heights.2 (.inr ?_), by simp [order], has, fun h _ high frame there => ?_⟩
    · rw [framed.floor_eq, length_frames, locals]
      simp only [List.length_cons, List.length_reverse, List.length_append]
      omega
    · have split : env.frames =
          (env.globals :: (below ++ env.hidden).reverse ++ [f]) ++ above.reverse := by
        simp [order]
      have high' := Nat.succ_le_of_lt high
      exact lacks_of_getElem? split lacks (by simpa [Nat.add_assoc] using high') there
  case get? =>
    rw [get?_eq_getFirst?_visible, before, getFirst?_of_first lacks has]
  case assign? =>
    intro value
    let fs := above ++ f.put name value :: below
    have assigned : assignFirst? name value env.seen = some fs := by
      rw [seen, assignFirst?_of_first lacks has]
    have seen' : { env with locals := fs ++ env.hidden }.seen = fs :=
      seen_of_length (length_assignFirst? assigned)
    refine ⟨{ env with locals := fs ++ env.hidden }, by rw [assign?, assigned], ⟨?_, rfl, rfl⟩,
      fun other => ?_⟩
    · rw [order]
      simp [frames, fs]
    · have after : { env with locals := fs ++ env.hidden }.visible =
          above ++ f.put name value :: (below ++ [env.globals]) := by
        rw [visible, seen']
        simp [fs]
      rw [get?_eq_getFirst?_visible, get?_eq_getFirst?_visible, after, before,
        getFirst?_put lacks]

theorem Framed.finds_global (framed : env.Framed)
    (lacks : ∀ g ∈ env.seen, g.contains name = false) (has : env.globals.contains name) :
    env.Finds name 0 env.globals := by
  have order : env.frames = (env.globals :: env.hidden.reverse) ++ env.seen.reverse := by
    simp [frames, ← env.seen_append_hidden]
  constructor
  case means =>
    refine ⟨mem_heights.2 (.inl rfl), rfl, has, fun h visited high frame there => ?_⟩
    have above : env.floor ≤ h := ((mem_heights.1 visited).resolve_left (Nat.ne_of_gt high)).1
    rw [framed.floor_eq] at above
    exact lacks_of_getElem? order lacks (by simpa using above) there
  case get? => rw [Environment.get?, getFirst?_eq_none lacks]
  case assign? =>
    intro value
    have passed := assignFirst?_eq_none value lacks
    refine ⟨{ env with globals := env.globals.put name value }, ?_, ⟨rfl, rfl, rfl⟩,
      fun other => ?_⟩
    · rw [assign?, passed]
      exact if_pos has
    · have after : { env with globals := env.globals.put name value }.visible =
          env.seen ++ env.globals.put name value :: [] := rfl
      rw [get?_eq_getFirst?_visible, get?_eq_getFirst?_visible, after, getFirst?_put lacks]
      rfl

/-- A search comes to a frame, or to none for reading and assigning alike. -/
theorem Framed.finds (framed : env.Framed) (name : String) :
    (env.get? name = none ∧ ∀ value, env.assign? name value = none) ∨
      ∃ height frame, env.Finds name height frame := by
  cases found : env.seen.find? (·.contains name) with
  | some f =>
    obtain ⟨has, above, below, seen, lacks⟩ := List.find?_eq_some_iff_append.1 found
    exact .inr ⟨_, f, framed.finds_seen seen (by simpa using lacks) has⟩
  | none =>
    have lacks : ∀ g ∈ env.seen, g.contains name = false := by simpa using found
    by_cases has : env.globals.contains name
    · exact .inr ⟨0, env.globals, framed.finds_global lacks has⟩
    · refine .inl ⟨?_, fun value => ?_⟩
      · rw [Environment.get?, getFirst?_eq_none lacks]
        simpa [Table.contains] using has
      · rw [assign?, assignFirst?_eq_none value lacks]
        exact if_neg has

/-! ## Declaring in the innermost frame -/

/-- The innermost frame is one of the call that is running, so it is seen. -/
theorem Framed.seen_eq_cons (framed : env.Framed) {frame : Frame} {frames : List Frame}
    (locals : env.locals = frame :: frames) : ∃ others, env.seen = frame :: others := by
  have own := framed.floor_eq
  have some : 0 < env.locals.length := by rw [locals]; exact Nat.succ_pos _
  have lowest : env.floor ≤ env.locals.length := by
    obtain ⟨globals, locals', bases, scope⟩ := env
    cases scope with
    | dynamic => exact some
    | lexical =>
      cases bases with
      | nil => exact some
      | cons base bases => exact framed.below base (List.mem_cons_self ..)
  have split := env.seen_append_hidden
  cases seen : env.seen with
  | nil =>
    rw [seen, List.nil_append] at split
    rw [own, split] at lowest
    omega
  | cons f others =>
    rw [seen, locals, List.cons_append] at split
    exact ⟨others, by rw [(List.cons.inj split).1]⟩

theorem Framed.define (framed : env.Framed) (name : String) (value : Value) :
    ∃ frame, env.frames.getLast? = some frame ∧
      env.Replaces env.locals.length (frame.put name value) (env.define name value) ∧
      ∀ other, (env.define name value).get? other =
        if name = other then some value else env.get? other := by
  cases locals : env.locals with
  | nil =>
    have none : env.seen = [] := (List.append_eq_nil_iff.1 (env.seen_append_hidden.trans locals)).1
    have defined : env.define name value =
        { env with globals := env.globals.put name value } := by rw [Environment.define, locals]
    refine ⟨env.globals, by simp [frames, locals], ?_, fun other => ?_⟩
    · rw [defined]
      exact ⟨by simp [frames, locals], rfl, rfl⟩
    · have after : { env with globals := env.globals.put name value }.visible =
          [] ++ env.globals.put name value :: [] := congrArg (· ++ [_]) none
      rw [defined, get?_eq_getFirst?_visible, get?_eq_getFirst?_visible, after,
        getFirst?_put (List.forall_mem_nil _), visible, none]
  | cons frame frames =>
    obtain ⟨others, seen⟩ := framed.seen_eq_cons locals
    have split := env.seen_append_hidden
    rw [seen, locals, List.cons_append, List.cons.injEq] at split
    have defined : env.define name value =
        { env with locals := (frame.put name value :: others) ++ env.hidden } := by
      rw [Environment.define, locals, List.cons_append, split.2]
    refine ⟨frame, by simp [Environment.frames, locals, List.getLast?_cons], ?_, fun other => ?_⟩
    · rw [defined]
      exact ⟨by simp [Environment.frames, locals, split.2], rfl, rfl⟩
    · have after : { env with locals := (frame.put name value :: others) ++ env.hidden }.visible =
          [] ++ frame.put name value :: (others ++ [env.globals]) := by
        rw [visible, seen_of_length (by simp [seen])]
        rfl
      rw [defined, get?_eq_getFirst?_visible, get?_eq_getFirst?_visible, after,
        getFirst?_put (List.forall_mem_nil _), visible, seen]
      rfl

end Environment

open Environment

/-- Names are looked for at the heights, of which none comes twice, none above the floor is
left out and the global frame is the last.  Reading and assigning a name come to the same
frame or both to none.  What is assigned is read afterwards, as is what is declared, and no
other name is read otherwise.  Of all frames one differs: by an assignment the one that the
name means, and only in the value of the name, and by a declaration the innermost one. -/
theorem read_where_written {env : Environment} (framed : env.Framed) (name : String)
    (value : Value) :
    (env.visible.map some = env.heights.map (env.frames[·]?) ∧ env.heights.Pairwise (· > ·) ∧
      (∀ h, h ∈ env.heights ↔ h = 0 ∨ env.floor ≤ h ∧ h < env.frames.length) ∧
      env.heights.getLast? = some 0) ∧
    ((env.assign? name value).isSome ↔ (env.get? name).isSome) ∧
    (∀ v, env.get? name = some v → ∃ height frame, env.Means name height frame ∧
      frame.get? name = some v) ∧
    (∀ env', env.assign? name value = some env' →
      (∀ other, env'.get? other = if name = other then some value else env.get? other) ∧
      ∃ height frame frame', env.Means name height frame ∧ env.Replaces height frame' env' ∧
        frame'.names = frame.names ∧
        ∀ other, frame'.get? other = if name = other then some value else frame.get? other) ∧
    (∀ line (m : Machine), m.environment = env → env.assign? name value = none →
      Action.assign line name value m = some (.error ⟨.undefinedVariable name, line⟩, m)) ∧
    (∀ other, (env.define name value).get? other =
      if name = other then some value else env.get? other) ∧
    ∃ frame frame', env.frames.getLast? = some frame ∧
      env.Replaces (env.frames.length - 1) frame' (env.define name value) ∧
      ∀ other, frame'.get? other = if name = other then some value else frame.get? other := by
  obtain ⟨top, innermost, replaced, declared⟩ := framed.define name value
  have height : env.frames.length - 1 = env.locals.length := by rw [length_frames]; rfl
  refine ⟨⟨framed.visible_eq, env.heights_pairwise, fun h => mem_heights, ?_⟩, ?_, ?_, ?_, ?_,
    declared, top, _, innermost, height ▸ replaced, fun other => top.get?_put name other value⟩
  · simp [heights]
  · obtain ⟨unknown, refused⟩ | ⟨height, frame, found⟩ := framed.finds name
    · simp [unknown, refused value]
    · obtain ⟨env', assigned, -⟩ := found.assign? value
      have has : (frame.get? name).isSome := found.means.has
      simp [assigned, found.get?, has]
  · intro v read
    obtain ⟨unknown, -⟩ | ⟨height, frame, found⟩ := framed.finds name
    · cases unknown.symm.trans read
    · exact ⟨height, frame, found.means, found.get?.symm.trans read⟩
  · intro env' assigned
    obtain ⟨-, refused⟩ | ⟨height, frame, found⟩ := framed.finds name
    · cases (refused value).symm.trans assigned
    · obtain ⟨env'', assigned', replaced, reads⟩ := found.assign? value
      cases assigned.symm.trans assigned'
      exact ⟨reads, height, frame, _, found.means, replaced,
        names_put_of_contains found.means.has value,
        fun other => frame.get?_put name other value⟩
  · rintro line m rfl refused
    simp only [Action.assign, Action.step, refused]

/-- In a call under lexical scope a name of the caller means the global variable, although the
frame of the caller lies between. -/
theorem read_where_written_past_caller :
    let env (x : Int64) : Environment :=
      ⟨⟨[("x", .integer x)]⟩, [⟨[("y", .boolean true)]⟩, ⟨[("x", .integer 2)]⟩], [1], .lexical⟩
    (env 1).Framed ∧ (env 1).heights = [2, 0] ∧
      (env 1).assign? "x" (.integer 3) = some (env 3) ∧ (env 3).get? "x" = some (.integer 3) := by
  intro env
  have framed : (env 1).Framed := ⟨List.pairwise_singleton .., by simp [env]⟩
  obtain ⟨-, -, -, assigning, -⟩ := read_where_written framed "x" (.integer 3)
  have assigned : (env 1).assign? "x" (.integer 3) = some (env 3) := rfl
  exact ⟨framed, rfl, assigned, (assigning (env 3) assigned).1 "x"⟩

end Betik
