/-! # Operators

Unary and binary operators, sorted by what they ask of their operands: **arithmetic** and **order**
operators take numbers, **equality** operators take any two comparable values, **logic** operators
take truth values. -/

namespace Procedural

/-- Operators from two numbers to a number. -/
inductive ArithOp where
  /-- Sum. -/
  | add
  /-- Difference. -/
  | sub
  /-- Product. -/
  | mul
  /-- Quotient; of integers, truncated toward zero. -/
  | div
  /-- Remainder of the truncated quotient. -/
  | rem
deriving DecidableEq, Repr, Inhabited

/-- Operators that compare two numbers by size. -/
inductive OrderOp where
  /-- Less than. -/
  | lt
  /-- Less than or equal to. -/
  | le
  /-- Greater than. -/
  | gt
  /-- Greater than or equal to. -/
  | ge
deriving DecidableEq, Repr, Inhabited

/-- Operators that test two values for equality. -/
inductive EqualityOp where
  /-- Equal. -/
  | eq
  /-- Not equal. -/
  | ne
deriving DecidableEq, Repr, Inhabited

/-- Operators from two truth values to a truth value. -/
inductive LogicOp where
  /-- Both hold; the right operand is not evaluated when the left one fails. -/
  | and
  /-- One of them holds; the right operand is not evaluated when the left one holds. -/
  | or
deriving DecidableEq, Repr, Inhabited

/-- Binary operators. -/
inductive BinaryOp where
  /-- An arithmetic operator. -/
  | arith (op : ArithOp)
  /-- A comparison by size. -/
  | order (op : OrderOp)
  /-- A test for equality. -/
  | equality (op : EqualityOp)
  /-- A logic operator. -/
  | logic (op : LogicOp)
deriving DecidableEq, Repr, Inhabited

/-- Unary operators. -/
inductive UnaryOp where
  /-- The negative of a number. -/
  | neg
  /-- The opposite of a truth value. -/
  | not
deriving DecidableEq, Repr, Inhabited

/-! ## Symbols -/

/-- The symbol that stands for an arithmetic operator in source text and messages. -/
def ArithOp.symbol : ArithOp → String
  | add => "+"
  | sub => "-"
  | mul => "*"
  | div => "/"
  | rem => "%"

/-- The symbol of a comparison by size. -/
def OrderOp.symbol : OrderOp → String
  | lt => "<"
  | le => "<="
  | gt => ">"
  | ge => ">="

/-- The symbol of a test for equality. -/
def EqualityOp.symbol : EqualityOp → String
  | eq => "=="
  | ne => "!="

/-- The symbol of a logic operator. -/
def LogicOp.symbol : LogicOp → String
  | and => "&&"
  | or => "||"

namespace BinaryOp

/-- The symbol of a binary operator. -/
def symbol : BinaryOp → String
  | arith op => op.symbol
  | order op => op.symbol
  | equality op => op.symbol
  | logic op => op.symbol

/-- The operator is an arithmetic one. -/
def isArithmetic : BinaryOp → Bool
  | arith _ => true
  | _ => false

/-- The operator compares by size. -/
def isOrder : BinaryOp → Bool
  | order _ => true
  | _ => false

/-- The operator tests for equality. -/
def isEquality : BinaryOp → Bool
  | equality _ => true
  | _ => false

/-- The operator is a logic one. -/
def isLogic : BinaryOp → Bool
  | logic _ => true
  | _ => false

end BinaryOp

/-- The symbol of a unary operator. -/
def UnaryOp.symbol : UnaryOp → String
  | neg => "-"
  | not => "!"

/-! ## Meaning on plain numbers and truth values -/

/-- The result of comparing two integers by size. -/
def OrderOp.onInt : OrderOp → Int64 → Int64 → Bool
  | lt, x, y => decide (x < y)
  | le, x, y => decide (x ≤ y)
  | gt, x, y => decide (y < x)
  | ge, x, y => decide (y ≤ x)

/-- The result of comparing two reals by size; no comparison with a NaN holds. -/
def OrderOp.onReal : OrderOp → Float → Float → Bool
  | lt, x, y => decide (x < y)
  | le, x, y => decide (x ≤ y)
  | gt, x, y => decide (y < x)
  | ge, x, y => decide (y ≤ x)

/-- The answer to an equality test, given whether the values are equal. -/
def EqualityOp.ofEqual : EqualityOp → Bool → Bool
  | eq, e => e
  | ne, e => !e

/-- The result of a logic operator when both operands are known. -/
def LogicOp.onBool : LogicOp → Bool → Bool → Bool
  | and, x, y => x && y
  | or, x, y => x || y

/-- The left operand that settles a logic operator by itself. -/
def LogicOp.decisive : LogicOp → Bool
  | and => false
  | or => true

end Procedural
