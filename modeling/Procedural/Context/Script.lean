import Procedural.Compile

/-! # Scripts of context operations

The operations on a context as data, nested as the brackets `inScope`, `inLoop` and `inFunction`
nest, with the answer to each. A script runs to its end whatever happens: a step that ends in a
fault answers with the fault, and the next step goes on from the context it left. -/

namespace Procedural.Context

/-- Operations on a context. -/
inductive Step where
  /-- Enter a scope. -/
  | enterScope
  /-- Leave a scope. -/
  | exitScope
  /-- Enter a loop. -/
  | enterLoop
  /-- Leave a loop. -/
  | exitLoop
  /-- Perform `body` in a scope of its own. -/
  | inScope (body : List Step)
  /-- Perform `body` one loop deeper. -/
  | inLoop (body : List Step)
  /-- Perform `body` as the body of a function. -/
  | inFunction (result : Ty) (body : List Step)
  /-- Declare a name. -/
  | declare (name : String) (entity : Entity)
  /-- Look a name up in all scopes. -/
  | lookup (name : String)
  /-- Look a name up in the innermost scope. -/
  | lookupLocal (name : String)
  /-- Look a name up, reporting it if it is not declared. -/
  | resolve (name : String) (span : Span)
  /-- Report a problem. -/
  | report (diagnostic : Diagnostic)
  /-- Analyze a statement. -/
  | stmt (stmt : Stmt)
  /-- Analyze a block. -/
  | block (block : Block)
  /-- Analyze a sequence. -/
  | sequence (stmts : List Stmt)
  /-- Analyze a program. -/
  | program (program : Program)
  /-- Analyze a call. -/
  | call (call : Call)
  /-- Analyze an expression, unless `analyze` is off, and place demands on it. -/
  | expr (expr : Expr) (analyze : Bool) (demands : List Demand)

/-- The answer to a demand: a fault, or whether it was met and the type afterwards. -/
inductive Verdict where
  /-- The expression has no type. -/
  | fault (f : Fault)
  /-- Whether the demand was met, and the type of the expression afterwards. -/
  | judged (ok : Bool) (now : Ty)
deriving DecidableEq, Repr, Inhabited

/-- The visible state of a context. -/
structure View where
  /-- The number of frames in force. -/
  depth : Nat
  /-- The number of enclosing loops. -/
  loops : Nat
  /-- Whether there are enclosing loops. -/
  isInLoop : Bool
  /-- The result type of the enclosing function. -/
  returns : Option Ty
  /-- Whether something has been reported. -/
  hasErrors : Bool
deriving DecidableEq, Repr, Inhabited

/-- The visible state of `ctx`. -/
def view (ctx : Context) : View :=
  ⟨ctx.scopes.depth, ctx.loops, ctx.isInLoop, ctx.returns, ctx.hasErrors⟩

mutual

/-- Answers to operations on a context. -/
inductive Reply where
  /-- Nothing to say. -/
  | done
  /-- The operation ended in a fault. -/
  | fault (f : Fault)
  /-- The records of a bracket's body. -/
  | records (records : List Record)
  /-- Whether a name could be declared. -/
  | declared (ok : Bool)
  /-- What a name is declared to be, if it is declared. -/
  | found (entity : Option Entity)
  /-- The analyzed statement. -/
  | stmt (stmt : Stmt)
  /-- The analyzed block. -/
  | block (block : Block)
  /-- The analyzed sequence. -/
  | sequence (stmts : List Stmt)
  /-- The type of the result of a call, and the analyzed call. -/
  | call (ty : Ty) (call : Call)
  /-- The type of an expression right after its analysis, the answers to the demands on it, and the
  expression after them. -/
  | expr (ty : Option Ty) (verdicts : List Verdict) (expr : Expr)

/-- What a step did: its answer, the visible state after it, and what was reported during it. -/
structure Record where
  /-- The answer. -/
  reply : Reply
  /-- The visible state after the step. -/
  view : View
  /-- The reports made during the step, oldest first. -/
  reported : Log

end

/-- Places demands on an expression one after the other. -/
def demandAll (e : Expr) : List Demand → Context → List Verdict × Expr × Context
  | [], ctx => ([], e, ctx)
  | d :: ds, ctx =>
    match e.require d ctx with
    | .ok (ok, e') ctx' =>
      let (vs, rest) := demandAll e' ds ctx'
      (.judged ok (e'.ty?.getD .error) :: vs, rest)
    | .error f ctx' =>
      let (vs, rest) := demandAll e ds ctx'
      (.fault f :: vs, rest)

/-- Analyzes an expression, if asked to, and places demands on it. -/
def examine (e : Expr) (analyze : Bool) (demands : List Demand) : Check Reply := do
  let e ← if analyze then e.analyze else pure e
  fun ctx =>
    let (vs, e', ctx') := demandAll e demands ctx
    .ok (.expr (if analyze then e.ty? else none) vs e') ctx'

/-- The record of performing `act` on `ctx`, and the context afterwards. -/
def record (act : Check Reply) (ctx : Context) : Record × Context :=
  match act ctx with
  | .ok r after => (⟨r, after.view, after.log.drop ctx.log.length⟩, after)
  | .error f after => (⟨.fault f, after.view, after.log.drop ctx.log.length⟩, after)

mutual

/-- Performs a step. -/
def Step.perform : Step → Check Reply
  | .enterScope => do
    Procedural.enterScope
    return .done
  | .exitScope => do
    Procedural.exitScope
    return .done
  | .enterLoop => do
    Procedural.enterLoop
    return .done
  | .exitLoop => do
    Procedural.exitLoop
    return .done
  | .inScope body => return .records (← Procedural.inScope (performAll body))
  | .inLoop body => return .records (← Procedural.inLoop (performAll body))
  | .inFunction t body => return .records (← Procedural.inFunction t (performAll body))
  | .declare x e => return .declared (← Procedural.declare x e)
  | .lookup x => return .found ((← get).scopes.lookup x)
  | .lookupLocal x => return .found ((← get).scopes.lookupLocal x)
  | .resolve x s => return .found (← Procedural.resolve x s)
  | .report d => do
    Procedural.report d.problem d.span
    return .done
  | .stmt s => return .stmt (← s.analyze)
  | .block b => return .block (← b.analyze)
  | .sequence ss => return .sequence (← analyzeSequence ss)
  | .program p => return .sequence (← p.analyze).stmts
  | .call c => do
    let (t, c) ← c.analyze
    return .call t c
  | .expr e analyze demands => examine e analyze demands

/-- Performs several steps and keeps a record of each. -/
def performAll : List Step → Check (List Record)
  | [] => return []
  | s :: ss => do
    let r ← fun ctx =>
      let (r, after) := record s.perform ctx
      .ok r after
    let rs ← performAll ss
    return r :: rs

end

end Procedural.Context
