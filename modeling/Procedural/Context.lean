import Procedural.Diagnostic
import Procedural.Scope

/-! # The context of an analysis

Analysis carries a **context** along: the scopes, how many loops enclose the current statement
within its function, the result type of that function, and the log. `Check` is the type of
computations that read and change the context. Such a computation can stop at a **fault**, which is
a misuse of the context by its caller and never a flaw of the analyzed program; the context stays as
it was when the fault occurred. -/

namespace Procedural

/-- The state of an analysis. -/
structure Context where
  /-- The declarations in force. -/
  scopes : Scopes
  /-- How many loops enclose the current statement within its function. -/
  loops : Nat
  /-- The result type of the enclosing function. -/
  returns : Option Ty
  /-- The diagnostics reported so far. -/
  log : Log
deriving DecidableEq, Repr, Inhabited

/-- Misuses of a context. -/
inductive Fault where
  /-- A scope was left that had not been entered. -/
  | unmatchedExitScope
  /-- A loop was left that had not been entered. -/
  | unmatchedExitLoop
  /-- The type of an expression was asked for before the expression was analyzed. -/
  | notAnalyzed
  /-- An analysis ended in another scope than it began in. -/
  | unbalancedScopes
  /-- An analysis ended inside a loop. -/
  | unbalancedLoops
deriving DecidableEq, Repr, Inhabited

/-- The text of a fault. -/
def Fault.message : Fault → String
  | unmatchedExitScope => "exit_scope without matching enter_scope"
  | unmatchedExitLoop => "exit_loop without matching enter_loop"
  | notAnalyzed => "expression used before analysis"
  | unbalancedScopes => "unbalanced scopes after analysis"
  | unbalancedLoops => "unbalanced loops after analysis"

/-- Computations on a context. -/
abbrev Check := EStateM Fault Context

namespace Context

/-- The context at the start of an analysis. -/
def initial : Context := ⟨.empty, 0, none, []⟩

/-- The current statement is inside a loop of its function. -/
def isInLoop (ctx : Context) : Bool := 0 < ctx.loops

/-- Something has been reported. -/
def hasErrors (ctx : Context) : Bool := !ctx.log.isEmpty

/-- The context with one more report. -/
def report (ctx : Context) (problem : Problem) (span : Option Span) : Context :=
  { ctx with log := ctx.log.report ⟨problem, span⟩ }

end Context

/-! ## Reports -/

/-- Reports a problem at a place. -/
def report (problem : Problem) (span : Option Span) : Check Unit :=
  fun ctx => .ok () (ctx.report problem span)

/-! ## Scopes and names -/

/-- Enters a new scope. -/
def enterScope : Check Unit :=
  fun ctx => .ok () { ctx with scopes := ctx.scopes.push }

/-- Leaves the innermost scope; leaving the global one is a fault. -/
def exitScope : Check Unit := fun ctx =>
  match ctx.scopes.pop? with
  | some scopes => .ok () { ctx with scopes }
  | none => .error .unmatchedExitScope ctx

/-- Runs `act` in a scope of its own. -/
def inScope {α : Type} (act : Check α) : Check α := do
  enterScope
  let a ← act
  exitScope
  return a

/-- Declares a name in the innermost scope and says whether it could be declared. A second
declaration is reported and the first one stays. -/
def declare (x : String) (e : Entity) : Check Bool := fun ctx =>
  match ctx.scopes.define x e with
  | .ok scopes => .ok true { ctx with scopes }
  | .error ⟨previous⟩ => .ok false (ctx.report (.duplicateDeclaration x previous) (some e.span))

/-- Declares several names, first to last. -/
def declareAll : List Binding → Check Unit
  | [] => return
  | (x, e) :: bs => do
    let _ ← declare x e
    declareAll bs

/-- What a name stands for. A name that is not declared is reported. -/
def resolve (x : String) (span : Span) : Check (Option Entity) := fun ctx =>
  match ctx.scopes.lookup x with
  | some e => .ok (some e) ctx
  | none => .ok none (ctx.report (.undeclaredIdentifier x) (some span))

/-! ## Loops and functions -/

/-- Enters a loop. -/
def enterLoop : Check Unit :=
  fun ctx => .ok () { ctx with loops := ctx.loops + 1 }

/-- Leaves a loop; leaving one outside every loop is a fault. -/
def exitLoop : Check Unit := fun ctx =>
  match ctx.loops with
  | n + 1 => .ok () { ctx with loops := n }
  | 0 => .error .unmatchedExitLoop ctx

/-- Runs `act` one loop deeper. -/
def inLoop {α : Type} (act : Check α) : Check α := do
  enterLoop
  let a ← act
  exitLoop
  return a

/-- Runs `act` in the body of a function with result type `result`. Loops around the function are
not seen from its body. -/
def inFunction {α : Type} (result : Ty) (act : Check α) : Check α := do
  let outer ← get
  set { outer with returns := some result, loops := 0 }
  let a ← act
  modify fun ctx => { ctx with returns := outer.returns, loops := outer.loops }
  return a

end Procedural
