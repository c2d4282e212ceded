import Procedural.Literal
import Procedural.Number.Remainder
import Procedural.Proofs.Semantics.Comparison

/-! # Values and what operators make of them

Runs of a program compute with **values**. Integers are computed with exactly and have to stay in
the range of 64 bits, and beside a real an integer counts as the nearest real. What becomes of an
operation on numbers that has no result, and what a call does, is left open: an **interpretation**
fixes it. -/

namespace Procedural.Semantics

/-- Values. -/
inductive Value where
  /-- A value that can be written in a program. -/
  | lit (value : Literal)
  /-- What a procedure yields. -/
  | unit
  /-- A function, known by a number. -/
  | func (id : Nat)
deriving DecidableEq

/-- Why a run fails. -/
inductive Failure where
  /-- No variable of that name is in sight. -/
  | unbound (name : String)
  /-- An operation, a condition or a call met a value of the wrong kind. -/
  | wrongKind
  /-- Something that an interpretation lets fail. -/
  | raised (code : Nat)
deriving DecidableEq

/-- Why an evaluation does not come to a value. -/
inductive Halt where
  /-- It fails. -/
  | failure (f : Failure)
  /-- It never ends. -/
  | never

/-- Variables, with their declared types and present values. -/
structure Cell where
  /-- The declared type. -/
  ty : Ty
  /-- The present value. -/
  value : Value

/-- The variables in sight, in frames, innermost first. -/
abbrev Store := List (String → Option Cell)

/-- What a call comes to. -/
inductive CallResult where
  /-- It returns a value. -/
  | returned (value : Value) (store : Store)
  /-- It fails. -/
  | failed (f : Failure) (store : Store)
  /-- It never ends. -/
  | never

/-- What the language leaves open. -/
structure Interp where
  /-- What a call of a named function with given arguments does. -/
  call : String → List Value → Store → CallResult
  /-- What scheduling a call of a named function, after a delay, does at once. -/
  schedule : Value → String → List Value → Store → Store
  /-- What becomes of an arithmetic operation that overflows or has a zero divisor. -/
  undefined : ArithOp → Value → Value → Except Halt Value
  /-- What becomes of a negative that overflows. -/
  undefinedNeg : Value → Except Halt Value
  /-- The value of a variable that is declared without one. -/
  initial : Ty → Value

/-! ## Numbers -/

/-- The integer is one of the signed 64-bit integers. -/
def InRange (z : Int) : Prop := Int64.minValue.toInt ≤ z ∧ z ≤ Int64.maxValue.toInt

instance (z : Int) : Decidable (InRange z) := inferInstanceAs (Decidable (_ ∧ _))

/-- The exact result of integer arithmetic, if there is one. A remainder goes with a quotient that
is in range. -/
def intResult? : ArithOp → Int → Int → Option Int
  | .add, x, y => some (x + y)
  | .sub, x, y => some (x - y)
  | .mul, x, y => some (x * y)
  | .div, x, y => if y = 0 then none else some (x.tdiv y)
  | .rem, x, y => if y = 0 ∨ ¬InRange (x.tdiv y) then none else some (x.tmod y)

/-- The result of real arithmetic, if there is one. -/
def realResult? : ArithOp → Float → Float → Option Float
  | .add, x, y => some (x + y)
  | .sub, x, y => some (x - y)
  | .mul, x, y => some (x * y)
  | .div, x, y => if y == 0 then none else some (x / y)
  | .rem, x, y => if y == 0 then none else some (remainder x y)

namespace Value

/-- The real that a number counts as beside a real. -/
def number? : Value → Option Float
  | lit (.int x) => some (Float.ofInt x.toInt)
  | lit (.real x) => some x
  | _ => none

/-- The value as it is stored where `t` is declared: an integer becomes a real where a real is
declared. -/
def widen (t : Ty) (v : Value) : Value :=
  match t, v with
  | .real, lit (.int x) => lit (.real (Float.ofInt x.toInt))
  | _, v => v

/-- Whether two values are equal: two numbers, or two values of one kind. -/
def equal? : Value → Value → Option Bool
  | lit (.int x), lit (.int y) => some (x == y)
  | lit (.bool x), lit (.bool y) => some (x == y)
  | lit (.char x), lit (.char y) => some (x == y)
  | lit (.str x), lit (.str y) => some (x == y)
  | unit, unit => some true
  | func i, func j => some (i == j)
  | v, w => do return (← v.number?) == (← w.number?)

/-- How two numbers compare by size. -/
def order? (op : OrderOp) : Value → Value → Option Bool
  | lit (.int x), lit (.int y) => some (decide (op.Holds x.toInt y.toInt))
  | v, w => do return decide (op.Holds (← v.number?) (← w.number?))

/-- The answer to a test for equality. -/
def test? (op : EqualityOp) (v w : Value) : Option Bool :=
  (v.equal? w).map fun b => decide (op.Holds (b = true))

/-- A truth value. -/
def ofBool (b : Bool) : Value := lit (.bool b)

end Value

/-! ## Operators -/

/-- A value that has to be there for the operation to make sense. -/
def orWrongKind {α : Type} : Option α → Except Halt α
  | some a => .ok a
  | none => .error (.failure .wrongKind)

namespace Interp

variable (I : Interp)

/-- Arithmetic on integers. -/
def onInts (op : ArithOp) (x y : Int64) : Except Halt Value :=
  match intResult? op x.toInt y.toInt with
  | some z =>
    if InRange z then .ok (.lit (.int (Int64.ofInt z)))
    else I.undefined op (.lit (.int x)) (.lit (.int y))
  | none => I.undefined op (.lit (.int x)) (.lit (.int y))

/-- Arithmetic on numbers. -/
def arith (op : ArithOp) : Value → Value → Except Halt Value
  | .lit (.int x), .lit (.int y) => I.onInts op x y
  | v, w => do
    let x ← orWrongKind v.number?
    let y ← orWrongKind w.number?
    match realResult? op x y with
    | some z => return .lit (.real z)
    | none => I.undefined op v w

/-- The negative of a number and the opposite of a truth value. -/
def unary : UnaryOp → Value → Except Halt Value
  | .neg, .lit (.int x) =>
    if InRange (-x.toInt) then .ok (.lit (.int (Int64.ofInt (-x.toInt))))
    else I.undefinedNeg (.lit (.int x))
  | .neg, .lit (.real x) => .ok (.lit (.real (-x)))
  | .not, .lit (.bool b) => .ok (.ofBool !b)
  | _, _ => .error (.failure .wrongKind)

end Interp

end Procedural.Semantics
