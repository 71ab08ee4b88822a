/-
Operators on values.  The result of arithmetic is always a double, so no integer
of a program can overflow.
-/
import Betik.Machine.RuntimeError
import Betik.Number.Remainder

namespace Betik
namespace Operator

def numeric (op : Operator) (f : Float → Float → Value) (lhs rhs : Value) :
    Except RuntimeError.Cause Value :=
  match lhs.number?, rhs.number? with
  | some x, some y => .ok (f x y)
  | _, _ => .error (.illegalOperation op lhs rhs)

/-- A division, which refuses a zero divisor before it looks at the dividend. -/
def division (op : Operator) (f : Float → Float → Float) (lhs rhs : Value) :
    Except RuntimeError.Cause Value :=
  if rhs.number?.any (· == 0.0) then .error .divisionByZero
  else op.numeric (fun x y => .decimal (f x y)) lhs rhs

/-- A text on either side makes a sum the two renderings side by side. -/
def sum (lhs rhs : Value) : Except RuntimeError.Cause Value :=
  match lhs, rhs with
  | .text _, _ | _, .text _ => .ok (.text (lhs.render ++ rhs.render))
  | _, _ => add.numeric (fun x y => .decimal (x + y)) lhs rhs

/-- The result of an operator.  Equality takes any two values and all other
operators but the sum take numbers only. -/
def apply (op : Operator) (lhs rhs : Value) : Except RuntimeError.Cause Value :=
  match op with
  | add => sum lhs rhs
  | subtract => op.numeric (fun x y => .decimal (x - y)) lhs rhs
  | multiply => op.numeric (fun x y => .decimal (x * y)) lhs rhs
  | divide => op.division (· / ·) lhs rhs
  | modulo => op.division Number.remainder lhs rhs
  | equal => .ok (.boolean (lhs.same rhs))
  | notEqual => .ok (.boolean (!lhs.same rhs))
  | greater => op.numeric (fun x y => .boolean (decide (x > y))) lhs rhs
  | greaterEq => op.numeric (fun x y => .boolean (decide (x ≥ y))) lhs rhs
  | less => op.numeric (fun x y => .boolean (decide (x < y))) lhs rhs
  | lessEq => op.numeric (fun x y => .boolean (decide (x ≤ y))) lhs rhs

/-! ### What operators answer -/

/-- What kind of value an operator gives.  None gives an integer, arithmetic with integers
included. -/
def Gives (op : Operator) (value : Value) : Prop :=
  match op with
  | add => (∃ x, value = .decimal x) ∨ ∃ s, value = .text s
  | subtract | multiply | divide | modulo => ∃ x, value = .decimal x
  | equal | notEqual | greater | greaterEq | less | lessEq => ∃ b, value = .boolean b

/-- How an operator answers: with such a value, or with an error about its own operands. -/
def Answers (op : Operator) (lhs rhs : Value) : Except RuntimeError.Cause Value → Prop
  | .ok value => op.Gives value
  | .error cause => cause = .divisionByZero ∨ cause = .illegalOperation op lhs rhs

variable {op : Operator} {lhs rhs : Value}

theorem numeric_answers {f : Float → Float → Value} (gives : ∀ x y, op.Gives (f x y)) :
    op.Answers lhs rhs (op.numeric f lhs rhs) := by
  unfold numeric
  split
  · exact gives _ _
  · exact .inr rfl

theorem division_answers {f : Float → Float → Float} (gives : ∀ x, op.Gives (.decimal x)) :
    op.Answers lhs rhs (op.division f lhs rhs) := by
  unfold division
  split
  · exact .inl rfl
  · exact numeric_answers fun x y => gives (f x y)

theorem apply_answers (op : Operator) (lhs rhs : Value) :
    op.Answers lhs rhs (op.apply lhs rhs) := by
  cases op with
  | add =>
    simp only [apply, sum]
    split
    · exact .inr ⟨_, rfl⟩
    · exact .inr ⟨_, rfl⟩
    · exact numeric_answers fun _ _ => .inl ⟨_, rfl⟩
  | divide | modulo => exact division_answers fun x => ⟨x, rfl⟩
  | equal | notEqual => exact ⟨_, rfl⟩
  | _ => exact numeric_answers fun _ _ => ⟨_, rfl⟩

theorem apply_error {cause : RuntimeError.Cause} (failed : op.apply lhs rhs = .error cause) :
    cause = .divisionByZero ∨ cause = .illegalOperation op lhs rhs := by
  have answers := op.apply_answers lhs rhs
  rwa [failed] at answers

end Operator

def Connective.apply (c : Connective) (lhs rhs : Bool) : Bool :=
  match c with
  | and => lhs && rhs
  | or => lhs || rhs

end Betik
