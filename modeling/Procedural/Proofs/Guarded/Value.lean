import Procedural.Literal
import Procedural.Proofs.Semantics.Comparison

/-! # Values with their types

Values of the guarded runs. Every value shows its type, so a run can tell whether a value is of the
kind that is asked for: a function value carries the types of its parameters and of its result. -/

namespace Procedural.Guarded

/-- Values. -/
inductive Value where
  /-- A value that can be written in a program. -/
  | lit (value : Literal)
  /-- What a procedure yields. -/
  | unit
  /-- A function, known by a number. -/
  | func (params : List Ty) (result : Ty) (id : Nat)

namespace Value

/-- The type of a value. -/
def ty : Value → Ty
  | lit v => v.ty
  | unit => .void
  | func ps r _ => .fn ps r

/-- A truth value. -/
def ofBool (b : Bool) : Value := lit (.bool b)

/-- The number that a value is. -/
def number? : Value → Option Literal
  | lit (.int x) => some (.int x)
  | lit (.real x) => some (.real x)
  | _ => none

/-- The truth value that a value is. -/
def truth? : Value → Option Bool
  | lit (.bool b) => some b
  | _ => none

/-- The value as it is stored where `t` is declared: an integer becomes a real where a real is
declared. -/
def widen (t : Ty) (v : Value) : Value :=
  match t, v with
  | .real, lit (.int x) => lit (.real (Float.ofInt x.toInt))
  | _, v => v

/-- Whether two values are equal: two numbers, or two values of one type. -/
def equal? : Value → Value → Option Bool
  | lit (.bool x), lit (.bool y) => some (x == y)
  | lit (.char x), lit (.char y) => some (x == y)
  | lit (.str x), lit (.str y) => some (x == y)
  | unit, unit => some true
  | func ps r i, func qs s j => if ps = qs ∧ r = s then some (i == j) else none
  | v, w => do Literal.equal? (← v.number?) (← w.number?)

/-- How two numbers compare by size: two integers exactly, otherwise both as reals. -/
def order? (op : OrderOp) : Value → Value → Option Bool
  | lit (.int x), lit (.int y) => some (decide (op.Holds x.toInt y.toInt))
  | v, w => do
    let x ← (← v.number?).real?
    let y ← (← w.number?).real?
    return decide (op.Holds x y)

/-- The answer to a test for equality. -/
def test? (op : EqualityOp) (v w : Value) : Option Bool :=
  (v.equal? w).map fun b => decide (op.Holds (b = true))

end Value

end Procedural.Guarded
