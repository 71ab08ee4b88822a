/-
What can stand between two operands, and how tightly it binds them.
-/

namespace Betik

/-- The operators that compute with the values of both operands. -/
inductive Operator
  | add
  | subtract
  | multiply
  | divide
  | modulo
  | equal
  | notEqual
  | greater
  | greaterEq
  | less
  | lessEq
deriving DecidableEq, Repr

/-- The operators that ask only whether their operands count as true. -/
inductive Connective
  | and
  | or
deriving DecidableEq, Repr

/-- The levels at which expressions are read, loosest first. -/
inductive Precedence
  | logicalOr
  | logicalAnd
  | equality
  | comparison
  | addition
  | multiplication
  | primary
deriving DecidableEq, Repr

namespace Precedence

def next : Precedence → Precedence
  | logicalOr => logicalAnd
  | logicalAnd => equality
  | equality => comparison
  | comparison => addition
  | addition => multiplication
  | multiplication => primary
  | primary => primary

def height : Precedence → Nat
  | logicalOr => 6
  | logicalAnd => 5
  | equality => 4
  | comparison => 3
  | addition => 2
  | multiplication => 1
  | primary => 0

theorem height_next {p : Precedence} (h : p ≠ primary) : p.next.height < p.height := by
  cases p <;> simp_all [next, height]

theorem height_le (p : Precedence) : p.height ≤ 6 := by
  cases p <;> decide

end Precedence

namespace Operator

def all : List Operator :=
  [add, subtract, multiply, divide, modulo, equal, notEqual, greater, greaterEq, less, lessEq]

def symbol : Operator → String
  | add => "+"
  | subtract => "-"
  | multiply => "*"
  | divide => "/"
  | modulo => "%"
  | equal => "=="
  | notEqual => "!="
  | greater => ">"
  | greaterEq => ">="
  | less => "<"
  | lessEq => "<="

def precedence : Operator → Precedence
  | add | subtract => .addition
  | multiply | divide | modulo => .multiplication
  | equal | notEqual => .equality
  | greater | greaterEq | less | lessEq => .comparison

theorem mem_all (op : Operator) : op ∈ all := by
  cases op <;> decide

end Operator

namespace Connective

def all : List Connective :=
  [and, or]

def symbol : Connective → String
  | and => "ve"
  | or => "veya"

def precedence : Connective → Precedence
  | and => .logicalAnd
  | or => .logicalOr

theorem mem_all (c : Connective) : c ∈ all := by
  cases c <;> decide

end Connective

/-- Either kind of operator, as the parser meets them. -/
inductive Joiner
  | operator (op : Operator)
  | connective (c : Connective)
deriving DecidableEq, Repr

def Joiner.precedence : Joiner → Precedence
  | operator op => op.precedence
  | connective c => c.precedence

/-- No operator joins at the level of primary expressions, where reading stops
looking for one. -/
theorem Joiner.precedence_ne_primary (j : Joiner) : j.precedence ≠ .primary := by
  cases j with
  | operator op => cases op <;> decide
  | connective c => cases c <;> decide

end Betik
