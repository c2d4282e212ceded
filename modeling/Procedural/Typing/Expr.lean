import Procedural.Typing.Demand

/-! # Typing of expressions

`Expr.analyze` finds the type of every node of an expression, operands before operators and left
before right, and writes it into the node's note. Problems are reported on the way and never stop
the analysis. -/

namespace Procedural

/-- Places a demand on both operands, the left one first. -/
def requireBoth (d : Demand) (l r : Expr) : Check ((Bool × Expr) × (Bool × Expr)) := do
  let l ← l.require d
  let r ← r.require d
  return (l, r)

/-- Checks the analyzed operands of a binary operator. The answer is the type of the result and the
operands afterwards. An equality test blames the right operand when the two are not comparable, and
has nothing to add when the type of the left one is unknown. -/
def checkBinary (op : BinaryOp) (l r : Expr) : Check (Ty × Expr × Expr) :=
  match op with
  | .arith _ => do
    let ((_, l), (_, r)) ← requireBoth (.arithmetic op.symbol) l r
    return ((← l.resolved).arithmeticResult (← r.resolved), l, r)
  | .order _ => do
    let ((_, l), (_, r)) ← requireBoth (.arithmetic op.symbol) l r
    return (.bool, l, r)
  | .equality _ => do
    let left ← l.resolved
    let right ← r.resolved
    if left.isError || right.comparable left then
      return (.bool, l, r)
    else
      let (_, r) ← r.require (.assignable op.symbol left)
      return (.bool, l, r)
  | .logic _ => do
    let ((leftOk, l), (rightOk, r)) ← requireBoth (.boolean op.symbol) l r
    return (if leftOk && rightOk then .bool else .error, l, r)

/-- Checks the analyzed operand of a unary operator. The answer is the type of the result and the
operand afterwards. -/
def checkUnary (op : UnaryOp) (e : Expr) : Check (Ty × Expr) :=
  match op with
  | .neg => do
    let (_, e) ← e.require (.arithmetic op.symbol)
    return (← e.resolved, e)
  | .not => do
    let (ok, e) ← e.require (.boolean op.symbol)
    return (if ok then .bool else .error, e)

/-- The type of a name used as a value. -/
def checkIdent (x : String) (span : Span) : Check Ty := do
  match ← resolve x span with
  | none => return .error
  | some e =>
    if e.isValue then
      return e.ty
    else
      report (.notAVariable x) (some span)
      return .error

/-- How messages refer to the `i`-th argument of a call, counted from one. -/
def argumentLabel (callee : String) (i : Nat) : String :=
  "argument " ++ toString i ++ " of " ++ Problem.quoted callee

/-- Demands of each argument, counted from `i`, that it fit the parameter in its place. -/
def requireArgs (callee : String) : Nat → List Expr → List Ty → Check (List Expr)
  | i, e :: es, t :: ts => do
    let (_, e) ← e.require (.assignable (argumentLabel callee i) t)
    return e :: (← requireArgs callee (i + 1) es ts)
  | _, es, _ => return es

/-- Checks the analyzed arguments of a call against what the callee stands for. The answer is the
type of the result and the arguments afterwards. A callee that is not declared has been reported
already; arguments in the wrong number are not looked at. -/
def checkCall (callee : String) (span : Span) (entity : Option Entity) (args : List Expr) :
    Check (Ty × List Expr) :=
  match entity with
  | none => return (.error, args)
  | some ⟨_, .fn params result, _⟩ => do
    if params.length = args.length then
      return (result, ← requireArgs callee 1 args params)
    else
      report (.wrongArgumentCount callee params.length args.length) (some span)
      return (result, args)
  | some _ => do
    report (.notCallable callee) (some span)
    return (.error, args)

mutual

/-- Finds the types of an expression's nodes. -/
def Expr.analyze : Expr → Check Expr
  | .lit n v => return (Expr.lit n v).withTy v.ty
  | .ident n x => do
    let t ← checkIdent x n.span
    return (Expr.ident n x).withTy t
  | .binary n op l r => do
    let l ← l.analyze
    let r ← r.analyze
    let (t, l, r) ← checkBinary op l r
    return (Expr.binary n op l r).withTy t
  | .unary n op e => do
    let e ← e.analyze
    let (t, e) ← checkUnary op e
    return (Expr.unary n op e).withTy t
  | .call n c => do
    let (t, c) ← c.analyze
    return (Expr.call n c).withTy t

/-- Finds the types of a call's arguments and of its result. -/
def Call.analyze : Call → Check (Ty × Call)
  | ⟨f, args, s⟩ => do
    let entity ← resolve f s
    let args ← analyzeAll args
    let (t, args) ← checkCall f s entity args
    return (t, ⟨f, args, s⟩)

/-- Finds the types in each expression of a list, first to last. -/
def analyzeAll : List Expr → Check (List Expr)
  | [] => return []
  | e :: es => do
    let e ← e.analyze
    let es ← analyzeAll es
    return e :: es

end

end Procedural
