import Procedural.Context
import Procedural.Syntax.Expr

/-! # Demands on analyzed expressions

A construct places **demands** on its operands once they have been analyzed: be a number, be a truth
value, fit a declared type. A demand that is not met is reported once; the operand then loses its
type (`Ty.error`), which makes every later demand on it fail without a report. -/

namespace Procedural

/-- What a construct asks of a value. -/
inductive Demand where
  /-- A number. -/
  | arithmetic (construct : String)
  /-- A truth value. -/
  | boolean (construct : String)
  /-- A value that may be stored where `target` is declared. -/
  | assignable (construct : String) (target : Ty)
deriving DecidableEq, Repr, Inhabited

namespace Demand

/-- A value of type `found` meets the demand. -/
def admits : Demand → Ty → Bool
  | arithmetic _, found => found.isArithmetic
  | boolean _, found => found.isBoolean
  | assignable _ target, found => target.accepts found

/-- What is wrong when a value of type `found` does not meet the demand. -/
def problem : Demand → Ty → Problem
  | arithmetic c, found => .nonArithmeticOperand c found
  | boolean c, found => .nonBooleanOperand c found
  | assignable c target, found => .typeMismatch c target found

end Demand

namespace Expr

/-- The type of an analyzed expression; asking an expression that has none is a fault. -/
def resolved (e : Expr) : Check Ty := fun ctx =>
  match e.ty? with
  | some t => .ok t ctx
  | none => .error .notAnalyzed ctx

/-- Places a demand on an analyzed expression. The answer is whether the demand is met, and the
expression as it is afterwards. -/
def require (e : Expr) (d : Demand) : Check (Bool × Expr) := do
  let found ← e.resolved
  if found.isError then
    return (false, e)
  else if d.admits found then
    return (true, e)
  else
    report (d.problem found) (some e.span)
    return (false, e.withTy .error)

end Expr

end Procedural
