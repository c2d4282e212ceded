import Procedural.Number.Checked
import Procedural.Number.Remainder
import Procedural.Operator
import Procedural.Ty

/-! # Literals and operations on them

A **literal** is a value written out in the program. `Literal.unary?` and `Literal.binary?` apply an
operator to literals where the result is settled: they give nothing for operands of the wrong kind,
for an integer result that does not fit, and for a zero divisor. -/

namespace Procedural

/-- Values that can be written in a program. -/
inductive Literal where
  /-- A signed 64-bit integer. -/
  | int (value : Int64)
  /-- A double-precision real. -/
  | real (value : Float)
  /-- A truth value. -/
  | bool (value : Bool)
  /-- A character. -/
  | char (value : Char)
  /-- A character string. -/
  | str (value : String)
deriving DecidableEq, Repr, Inhabited

namespace Literal

/-- The type of a literal. -/
def ty : Literal → Ty
  | int _ => .int
  | real _ => .real
  | bool _ => .bool
  | char _ => .char
  | str _ => .str

/-- The truth value of a boolean literal. -/
def bool? : Literal → Option Bool
  | bool b => some b
  | _ => none

/-- Only boolean literals have a truth value. -/
@[simp] theorem bool?_eq_some_iff {v : Literal} {b : Bool} : v.bool? = some b ↔ v = bool b := by
  cases v <;> simp [bool?]

/-- The number a literal stands for, as a real: an integer becomes the nearest double, of two
equally near ones the one with the even last bit. -/
def real? : Literal → Option Float
  | int v => some (Float.ofInt v.toInt)
  | real v => some v
  | _ => none

/-- Literals that agree in kind and value, reals being compared as numbers: a NaN agrees with
nothing, and the two zeros agree. -/
def agrees : Literal → Literal → Bool
  | int x, int y => x == y
  | real x, real y => x == y
  | bool x, bool y => x == y
  | char x, char y => x == y
  | str x, str y => x == y
  | _, _ => false

/-! ## Applying operators -/

/-- The result of a unary operator on a literal, where there is one. -/
def unary? : UnaryOp → Literal → Option Literal
  | .neg, int v => (Checked.neg? v).map int
  | .neg, real v => some (real (-v))
  | .not, bool b => some (bool !b)
  | _, _ => none

/-- Integer arithmetic: no result on overflow or for a zero divisor. -/
def onInt? : ArithOp → Int64 → Int64 → Option Int64
  | .add => Checked.add?
  | .sub => Checked.sub?
  | .mul => Checked.mul?
  | .div => Checked.div?
  | .rem => Checked.rem?

/-- Real arithmetic: no quotient and no remainder for a zero divisor. -/
def onReal? : ArithOp → Float → Float → Option Float
  | .add, x, y => some (x + y)
  | .sub, x, y => some (x - y)
  | .mul, x, y => some (x * y)
  | .div, x, y => if y == 0 then none else some (x / y)
  | .rem, x, y => if y == 0 then none else some (remainder x y)

/-- Arithmetic on literals: exact on two integers, otherwise on the two numbers as reals. -/
def arith? (op : ArithOp) : Literal → Literal → Option Literal
  | int x, int y => (onInt? op x y).map int
  | v, w => do return real (← onReal? op (← v.real?) (← w.real?))

/-- Comparison by size: exact on two integers, otherwise of the two numbers as reals. -/
def order? (op : OrderOp) : Literal → Literal → Option Bool
  | int x, int y => some (op.onInt x y)
  | v, w => do return op.onReal (← v.real?) (← w.real?)

/-- Whether two literals are equal. Beside a real both must be numbers; otherwise literals of
different kinds are unequal. -/
def equal? : Literal → Literal → Option Bool
  | real x, w => w.real?.map (x == ·)
  | v, real y => v.real?.map (· == y)
  | v, w => some (v.agrees w)

/-- The result of a binary operator on two literals, where there is one. -/
def binary? : BinaryOp → Literal → Literal → Option Literal
  | .arith op, v, w => arith? op v w
  | .order op, v, w => (order? op v w).map bool
  | .equality op, v, w => (equal? v w).map fun e => bool (op.ofEqual e)
  | .logic op, bool x, bool y => some (bool (op.onBool x y))
  | .logic _, _, _ => none

end Literal

end Procedural
