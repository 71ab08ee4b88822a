/-
Actions with as much fuel as they need.

What an action does with no bound on its fuel is what it does with some fuel.  If more fuel
only takes it further, then two such actions in a row do what their parts do: no fuel has
to be shared out between them.
-/
import Betik.Machine.Fuel

namespace Betik
namespace Action

variable {α β : Type}

def Grows (a : Nat → Action α) : Prop :=
  ∀ n k, n ≤ k → Extended (a n) (a k)

/-- With enough fuel the action ends with this, and leaves the second machine. -/
def Finishes (a : Nat → Action α) (m : Machine) (r : Except RuntimeError α) (m' : Machine) :
    Prop :=
  ∃ fuel, a fuel m = some (r, m')

def Visits (a : Nat → Action α) (m s : Machine) : Prop :=
  ∃ fuel, (a fuel).passes m s

theorem grows_always (a : Action α) : Grows fun _ => a :=
  fun _ _ _ => .refl a

section

variable {a : Nat → Action α} {f : α → Nat → Action β} {m m' m₁ m₂ s : Machine}

/-- An action that grows can be given the larger of two amounts of fuel. -/
theorem Grows.unique (grows : Grows a) {r₁ r₂ : Except RuntimeError α}
    (first : Finishes a m r₁ m₁) (second : Finishes a m r₂ m₂) : (r₁, m₁) = (r₂, m₂) := by
  obtain ⟨n, ran₁⟩ := first
  obtain ⟨k, ran₂⟩ := second
  have enough₁ := (grows n _ (Nat.le_max_left n k)).below m _ ran₁
  have enough₂ := (grows k _ (Nat.le_max_right n k)).below m _ ran₂
  exact Option.some.inj (enough₁.symm.trans enough₂)

/-- What an action that grows ends with is the only value that there is. -/
theorem Grows.exists_iff (grows : Grows a) {value : α} (done : Finishes a m (.ok value) m₁)
    {P : α → Machine → Prop} :
    (∃ other m₂, Finishes a m (.ok other) m₂ ∧ P other m₂) ↔ P value m₁ := by
  constructor
  · rintro ⟨other, m₂, again, holds⟩
    cases grows.unique done again
    exact holds
  · exact fun holds => ⟨value, m₁, done, holds⟩

theorem finishes_bind_iff (ha : Grows a) (hf : ∀ value, Grows (f value))
    {r : Except RuntimeError β} :
    Finishes (fun fuel => a fuel >>= fun value => f value fuel) m r m' ↔
      (∃ e, Finishes a m (.error e) m' ∧ r = .error e) ∨
        ∃ value m₁, Finishes a m (.ok value) m₁ ∧ Finishes (f value) m₁ r m' := by
  constructor
  · rintro ⟨fuel, ended⟩
    obtain ⟨e, failed, rfl⟩ | ⟨value, m₁, done, ended⟩ := bind_ended ended
    · exact .inl ⟨e, ⟨fuel, failed⟩, rfl⟩
    · exact .inr ⟨value, m₁, ⟨fuel, done⟩, fuel, ended⟩
  · rintro (⟨e, ⟨fuel, failed⟩, rfl⟩ | ⟨value, m₁, ⟨n, done⟩, k, ended⟩)
    · exact ⟨fuel, bind_of_error failed⟩
    · have done := (ha n _ (Nat.le_max_left n k)).below m _ done
      have ended := (hf value k _ (Nat.le_max_right n k)).below m₁ _ ended
      exact ⟨max n k, (bind_of_ok done).trans ended⟩

theorem visits_bind_iff (ha : Grows a) (hf : ∀ value, Grows (f value)) :
    Visits (fun fuel => a fuel >>= fun value => f value fuel) m s ↔
      Visits a m s ∨ ∃ value m₁, Finishes a m (.ok value) m₁ ∧ Visits (f value) m₁ s := by
  constructor
  · rintro ⟨fuel, first | ⟨value, m₁, done, second⟩⟩
    · exact .inl ⟨fuel, first⟩
    · exact .inr ⟨value, m₁, ⟨fuel, done⟩, fuel, second⟩
  · rintro (⟨fuel, first⟩ | ⟨value, m₁, ⟨n, done⟩, k, second⟩)
    · exact ⟨fuel, .inl first⟩
    · have done := (ha n _ (Nat.le_max_left n k)).below m _ done
      have second := (hf value k _ (Nat.le_max_right n k)).passes m₁ s second
      exact ⟨max n k, .inr ⟨value, m₁, done, second⟩⟩

/-- One more unit of fuel changes nothing if there is no bound. -/
theorem finishes_succ_iff (grows : Grows a) {r : Except RuntimeError α} :
    Finishes (fun fuel => a (fuel + 1)) m r m' ↔ Finishes a m r m' := by
  constructor
  · rintro ⟨fuel, ended⟩
    exact ⟨fuel + 1, ended⟩
  · rintro ⟨fuel, ended⟩
    exact ⟨fuel, (grows fuel _ (Nat.le_succ fuel)).below m _ ended⟩

theorem visits_succ_iff (grows : Grows a) :
    Visits (fun fuel => a (fuel + 1)) m s ↔ Visits a m s := by
  constructor
  · rintro ⟨fuel, passed⟩
    exact ⟨fuel + 1, passed⟩
  · rintro ⟨fuel, passed⟩
    exact ⟨fuel, (grows fuel _ (Nat.le_succ fuel)).passes m s passed⟩

end

end Action

open Betik.Action

theorem Expr.eval_grows (e : Expr) : Grows (e.eval ·) :=
  fun _ _ more => e.eval_extended more

theorem Stmt.run_grows (s : Stmt) : Grows (s.run ·) :=
  fun _ _ more => s.run_extended more

theorem Stmt.runProgram_grows (ss : List Stmt) : Grows (Stmt.runProgram · ss) :=
  fun _ _ more => Stmt.runProgram_extended more ss

end Betik
