/-
What a running program computes with.  Integers and decimals are told apart by
their type and by their text, but compare and combine as doubles.
-/
import Betik.Number.Text
import Betik.Syntax.Tree

namespace Betik

/-- A value of a running program.  `null` is what a call without a return gives. -/
inductive Value
  | integer (n : Int64)
  | decimal (x : Float)
  | text (s : String)
  | boolean (b : Bool)
  | null
deriving DecidableEq, Repr

def Literal.value : Literal → Value
  | integer n => .integer n
  | decimal x => .decimal x
  | boolean b => .boolean b
  | text s => .text s

namespace Value

def render : Value → String
  | integer n => Number.integerText n
  | decimal x => Number.doubleText x
  | text s => s
  | boolean b => truthWord b
  | null => "boş"

def typeName : Value → String
  | integer _ => DataType.integer.word
  | decimal _ => DataType.decimal.word
  | text _ => DataType.text.word
  | boolean _ => DataType.boolean.word
  | null => "boş"

/-- Zero, the empty text, a false value and no value at all count as false. -/
def truthy : Value → Bool
  | integer n => n != 0
  | decimal x => x != 0.0
  | text s => s != ""
  | boolean b => b
  | null => false

/-- The double a number counts as.  An integer that no double equals becomes the
nearest one, and of two the even one. -/
def number? : Value → Option Float
  | integer n => some (Float.ofInt n.toInt)
  | decimal x => some x
  | _ => none

/-- Equality as programs see it.  Two integers are compared exactly, any other
two numbers as doubles, and values of different kinds are never equal. -/
def same : Value → Value → Bool
  | text a, text b => a == b
  | boolean a, boolean b => a == b
  | null, null => true
  | integer a, integer b => a == b
  | a, b =>
    match a.number?, b.number? with
    | some x, some y => x == y
    | _, _ => false

end Value
end Betik
