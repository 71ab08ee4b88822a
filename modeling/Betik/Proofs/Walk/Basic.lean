/-
Reading as a walk along the tokens.

A reader says in its type that it leaves fewer tokens than it got, so it cannot but end.
A walk promises nothing of the kind.  It stands at a place in a list of tokens, which
stays as it is; it looks at the token there, takes it and so comes to the next place, asks
for the token behind it, and goes round a loop for as long as it finds a reason to.  Only
fuel ends a walk that does not end by itself.

The end of file is never taken: a walk that takes it stays where it is.  So no walk gets
behind the first one or turns back, `run_forward`, and a walk that misses it does what it
would have done up to there, `run_withoutEnd`.
-/
import Betik.Proofs.Syntax.Exactness

namespace Betik
namespace Walk

inductive Loop
  | program
  | block
  | operators
  | arguments
  | parameters
deriving DecidableEq, Repr

inductive Note
  /-- At the place a statement is looked for. -/
  | statement (place : Nat)
  /-- A loop has gone round, from the first place to the second, and goes round again. -/
  | round (loop : Loop) (start stop : Nat)
deriving DecidableEq, Repr

structure Refusal where
  error : ParseError
  place : Nat
deriving DecidableEq, Repr

/-- How a walk ended and where, what token it looked at last, and in order the places
that it came to and the notes that it made. -/
structure Journey (α : Type) where
  result : Except Refusal α
  place : Nat
  seen : Nat
  places : List Nat := []
  notes : List Note := []

end Walk

open Walk

inductive Walk (α : Type)
  | done (value : α)
  | outOfFuel
  /-- It ends with an error, which is raised at the token it has looked at last. -/
  | fail (e : ParseError)
  | look (next : Token → Walk α)
  /-- It looks at the token and goes to the next place. -/
  | step (next : Token → Walk α)
  /-- It asks whether the token at the next place is the sign. -/
  | peek (sign : Mark) (next : Bool → Walk α)
  | ask (next : Nat → Walk α)
  | tell (note : Note) (next : Walk α)

namespace Walk

variable {α β : Type}

def andThen : Walk α → (α → Walk β) → Walk β
  | done value, f => f value
  | outOfFuel, _ => outOfFuel
  | fail e, _ => fail e
  | look next, f => look fun t => (next t).andThen f
  | step next, f => step fun t => (next t).andThen f
  | peek sign next, f => peek sign fun b => (next b).andThen f
  | ask next, f => ask fun place => (next place).andThen f
  | tell note next, f => tell note (next.andThen f)

instance : Monad Walk where
  pure := done
  bind := andThen

def Journey.behind (places : List Nat) (notes : List Note) (j : Journey α) : Journey α :=
  { j with places := places ++ j.places, notes := notes ++ j.notes }

def placeBehind (t : Token) (place : Nat) : Nat :=
  if t.kind = .endOfFile then place else place + 1

/-- The journey from a place on.  The other number is the place looked at last.  It is
`none` for a walk whose fuel is gone, and for no other. -/
def run (ts : List Token) : Walk α → (place seen : Nat) → Option (Journey α)
  | done value, place, seen => some ⟨.ok value, place, seen, [], []⟩
  | outOfFuel, _, _ => none
  | fail e, place, seen => some ⟨.error ⟨e, seen⟩, place, seen, [], []⟩
  | look next, place, seen =>
    match ts[place]? with
    | none => some ⟨.error ⟨.beyondEndOfFile, place⟩, place, seen, [], []⟩
    | some t => (next t).run ts place place
  | step next, place, seen =>
    match ts[place]? with
    | none => some ⟨.error ⟨.beyondEndOfFile, place⟩, place, seen, [], []⟩
    | some t =>
      ((next t).run ts (placeBehind t place) place).map (.behind [placeBehind t place] [])
  | peek sign next, place, seen =>
    (next (nextIs (.mark sign) (ts.drop (place + 1)))).run ts place seen
  | ask next, place, seen => (next place).run ts place seen
  | tell note next, place, seen => (next.run ts place seen).map (.behind [] [note])

/-! ## One walk after another -/

def Journey.goOn (j : Journey α) (further : α → (place seen : Nat) → Option (Journey β)) :
    Option (Journey β) :=
  match j.result with
  | .error r => some ⟨.error r, j.place, j.seen, j.places, j.notes⟩
  | .ok value => (further value j.place j.seen).map (.behind j.places j.notes)

theorem Journey.behind_comp (us vs : List Nat) (ns ms : List Note) :
    (behind us ns ∘ behind vs ms : Journey α → Journey α) = behind (us ++ vs) (ns ++ ms) := by
  funext j
  simp [behind]

theorem Journey.behind_goOn (places : List Nat) (notes : List Note) (j : Journey α)
    (further : α → (place seen : Nat) → Option (Journey β)) :
    (j.behind places notes).goOn further = (j.goOn further).map (.behind places notes) := by
  obtain ⟨result, place, seen, places', notes'⟩ := j
  cases result with
  | error r => rfl
  | ok value =>
    simp only [goOn, behind, Option.map_map]
    exact congrArg (Option.map · _) (behind_comp _ _ _ _).symm

theorem behind_bind_goOn (places : List Nat) (notes : List Note) (o : Option (Journey α))
    (further : α → (place seen : Nat) → Option (Journey β)) :
    (o.map (Journey.behind places notes)).bind (Journey.goOn · further) =
      (o.bind (Journey.goOn · further)).map (Journey.behind places notes) := by
  cases o with
  | none => rfl
  | some j => exact j.behind_goOn places notes further

theorem run_bind (ts : List Token) (w : Walk α) (f : α → Walk β) (place seen : Nat) :
    (w >>= f).run ts place seen =
      (w.run ts place seen).bind (Journey.goOn · fun value => (f value).run ts) := by
  change (w.andThen f).run ts place seen = _
  induction w generalizing place seen with
  | done value => exact Option.map_id'.symm
  | outOfFuel | fail => rfl
  | look next ih =>
    simp only [andThen, run]
    split
    · rfl
    · exact ih _ _ _
  | step next ih =>
    simp only [andThen, run]
    split
    · rfl
    · rw [ih, behind_bind_goOn]
  | peek sign next ih => exact ih _ _ _
  | ask next ih => exact ih _ _ _
  | tell note next ih => simp only [andThen, run, ih, behind_bind_goOn]

section

variable {ts : List Token} {w : Walk α} {f : α → Walk β} {place seen place' seen' : Nat}
  {places : List Nat} {notes : List Note}

theorem run_bind_of_ok {value : α}
    (first : w.run ts place seen = some ⟨.ok value, place', seen', places, notes⟩) :
    (w >>= f).run ts place seen =
      ((f value).run ts place' seen').map (.behind places notes) := by
  rw [run_bind, first]
  rfl

theorem run_bind_of_error {r : Refusal}
    (first : w.run ts place seen = some ⟨.error r, place', seen', places, notes⟩) :
    (w >>= f).run ts place seen = some ⟨.error r, place', seen', places, notes⟩ := by
  rw [run_bind, first]
  rfl

end

/-! ## Walks go forward -/

/-- The place is in the list or at its end, and no end of file is before it. -/
structure Inside (ts : List Token) (place : Nat) : Prop where
  le_length : place ≤ ts.length
  before : Lacks .endOfFile (ts.take place)

theorem inside_zero (ts : List Token) : Inside ts 0 :=
  ⟨Nat.zero_le _, by simp⟩

theorem le_placeBehind (t : Token) (place : Nat) : place ≤ placeBehind t place := by
  unfold placeBehind
  split <;> omega

theorem Inside.placeBehind {ts : List Token} {place : Nat} {t : Token} (h : Inside ts place)
    (found : ts[place]? = some t) : Inside ts (placeBehind t place) := by
  unfold Walk.placeBehind
  split
  · exact h
  · rename_i other
    obtain ⟨short, rfl⟩ := List.getElem?_eq_some_iff.1 found
    refine ⟨short, ?_⟩
    rw [List.take_add_one, found]
    exact lacks_append.2 ⟨h.before, lacks_cons.2 ⟨other, lacks_nil _⟩⟩

/-- From place to place a journey goes on, up to where it ends, and not past an end of
file. -/
structure Journey.Forward (ts : List Token) (start : Nat) (j : Journey α) : Prop where
  sorted : (start :: j.places ++ [j.place]).Pairwise (· ≤ ·)
  inside : ∀ place ∈ j.places, Inside ts place
  ends : Inside ts j.place

theorem Journey.Forward.still {ts : List Token} {place : Nat} (inside : Inside ts place)
    (result : Except Refusal α) (seen : Nat) :
    Journey.Forward ts place ⟨result, place, seen, [], []⟩ :=
  ⟨by simp, nofun, inside⟩

theorem run_forward {ts : List Token} {w : Walk α} {place seen : Nat} {j : Journey α}
    (inside : Inside ts place) (ran : w.run ts place seen = some j) : j.Forward ts place := by
  induction w generalizing place seen j with
  | done | fail =>
    cases ran
    exact .still inside _ _
  | outOfFuel => cases ran
  | look next ih =>
    simp only [run] at ran
    split at ran
    · cases ran
      exact .still inside _ _
    · exact ih _ inside ran
  | step next ih =>
    simp only [run] at ran
    split at ran
    · cases ran
      exact .still inside _ _
    · rename_i t found
      obtain ⟨j, ran', rfl⟩ := Option.map_eq_some_iff.1 ran
      have inside' := inside.placeBehind found
      have on := ih t inside' ran'
      have le := le_placeBehind t place
      refine ⟨List.pairwise_cons.2 ⟨?_, on.sorted⟩, ?_, on.ends⟩
      · intro p mem
        obtain rfl | mem := List.mem_cons.1 mem
        · exact le
        · exact Nat.le_trans le ((List.pairwise_cons.1 on.sorted).1 p mem)
      · exact List.forall_mem_cons.2 ⟨inside', on.inside⟩
  | peek sign next ih => exact ih _ inside ran
  | ask next ih => exact ih _ inside ran
  | tell note next ih =>
    obtain ⟨j, ran', rfl⟩ := Option.map_eq_some_iff.1 ran
    have on := ih inside ran'
    exact ⟨on.sorted, on.inside, on.ends⟩

/-! ## Walks without an end of file -/

section

variable {ts : List Token} {eof : Token}

/-- At the end of file a walk stays, and what it refuses it refuses there. -/
theorem run_at_end {w : Walk α} {j : Journey α} (ends : eof.kind = .endOfFile)
    (ran : w.run (ts ++ [eof]) ts.length ts.length = some j) {r : Refusal}
    (refused : j.result = .error r) : r.place = ts.length := by
  have here : (ts ++ [eof])[ts.length]? = some eof := by simp
  induction w generalizing j with
  | done =>
    cases ran
    cases refused
  | outOfFuel => cases ran
  | fail =>
    cases ran
    cases refused
    rfl
  | look next ih =>
    simp only [run, here] at ran
    exact ih _ ran refused
  | step next ih =>
    simp only [run, here, placeBehind, if_pos ends] at ran
    obtain ⟨j, ran', rfl⟩ := Option.map_eq_some_iff.1 ran
    exact ih _ ran' refused
  | peek sign next ih => exact ih _ ran refused
  | ask next ih => exact ih _ ran refused
  | tell note next ih =>
    obtain ⟨j, ran', rfl⟩ := Option.map_eq_some_iff.1 ran
    exact ih ran' refused

theorem nextIs_withoutEnd (ends : eof.kind = .endOfFile) (sign : Mark) (n : Nat) :
    nextIs (.mark sign) ((ts ++ [eof]).drop n) = nextIs (.mark sign) (ts.drop n) := by
  rw [List.drop_append]
  cases ts.drop n with
  | cons t us => rfl
  | nil => cases n - ts.length <;> simp [nextIs, ends]

/-- A token that is not the end of file, or the end of file. -/
theorem getElem?_withoutEnd (before : Lacks .endOfFile ts) (eof : Token) {place : Nat}
    (inside : place ≤ ts.length) :
    (∃ t, t.kind ≠ .endOfFile ∧ place < ts.length ∧ ts[place]? = some t ∧
      (ts ++ [eof])[place]? = some t) ∨
    place = ts.length ∧ ts[place]? = none ∧ (ts ++ [eof])[place]? = some eof := by
  obtain short | rfl := Nat.lt_or_eq_of_le inside
  · refine .inl ⟨ts[place], before _ (List.getElem_mem short), short, by simp, ?_⟩
    rw [List.getElem?_append_left short, List.getElem?_eq_getElem short]
  · exact .inr ⟨rfl, by simp, by simp⟩

/-- What is left of a journey through a list and the end of file at a place, if that is
missing: all of it if it came to its end before the place, and otherwise that there is
nothing to look at.  If the journey failed, it was before the place or at it. -/
def Journey.Misses (place : Nat) (j : Journey α) (o : Option (Journey α)) : Prop :=
  (o = some j ∧ ∀ r, j.result = .error r → r.place < place) ∨
    (∃ j', o = some j' ∧ j'.result = .error ⟨.beyondEndOfFile, place⟩) ∧
      ∀ r, j.result = .error r → r.place = place

theorem Journey.Misses.behind {place : Nat} {j : Journey α} {o : Option (Journey α)}
    (h : j.Misses place o) (places : List Nat) (notes : List Note) :
    (j.behind places notes).Misses place (o.map (.behind places notes)) := by
  obtain ⟨rfl, refused⟩ | ⟨⟨j', rfl, missing⟩, refused⟩ := h
  · exact .inl ⟨rfl, refused⟩
  · exact .inr ⟨⟨_, rfl, missing⟩, refused⟩

/-- Where the end of file is missing, a walk does what it would have done, until it has to
look at the end of file. -/
theorem run_withoutEnd (before : Lacks .endOfFile ts) (ends : eof.kind = .endOfFile) {w : Walk α}
    {place seen : Nat} {j : Journey α} (inside : place ≤ ts.length) (earlier : seen < ts.length)
    (ran : w.run (ts ++ [eof]) place seen = some j) :
    j.Misses ts.length (w.run ts place seen) := by
  induction w generalizing place seen j with
  | done =>
    cases ran
    exact .inl ⟨rfl, nofun⟩
  | outOfFuel => cases ran
  | fail e =>
    cases ran
    refine .inl ⟨rfl, fun r refused => ?_⟩
    cases refused
    exact earlier
  | look next ih =>
    obtain ⟨t, -, short, here, here'⟩ | ⟨rfl, missing, here⟩ :=
      getElem?_withoutEnd before eof inside
    · simp only [run, here, here'] at ran ⊢
      exact ih t inside short ran
    · simp only [run, missing, here] at ran ⊢
      exact .inr ⟨⟨_, rfl, rfl⟩, fun r => run_at_end ends ran⟩
  | step next ih =>
    obtain ⟨t, other, short, here, here'⟩ | ⟨rfl, missing, here⟩ :=
      getElem?_withoutEnd before eof inside
    · simp only [run, here, here', placeBehind, if_neg other] at ran ⊢
      obtain ⟨j, ran', rfl⟩ := Option.map_eq_some_iff.1 ran
      exact (ih t short short ran').behind _ _
    · simp only [run, missing, here, placeBehind, if_pos ends] at ran ⊢
      obtain ⟨j, ran', rfl⟩ := Option.map_eq_some_iff.1 ran
      exact .inr ⟨⟨_, rfl, rfl⟩, fun r => run_at_end ends ran'⟩
  | peek sign next ih =>
    simp only [run, nextIs_withoutEnd ends] at ran ⊢
    exact ih _ inside earlier ran
  | ask next ih => exact ih _ inside earlier ran
  | tell note next ih =>
    simp only [run] at ran ⊢
    obtain ⟨j, ran', rfl⟩ := Option.map_eq_some_iff.1 ran
    exact (ih inside earlier ran').behind _ _

end

end Walk
end Betik
