import Procedural.Syntax.Stmt
import Procedural.Typing.Expr

/-! # Typing of statements

`Stmt.analyze`, `Block.analyze`, `analyzeSequence` and `Program.analyze` find the types of all
expressions in a tree and check the rules of declarations, conditions, jumps and returns. The
functions that a sequence declares can be used in all of it, so they are declared before anything in
it is analyzed; a variable can be used only after its declaration. -/

namespace Procedural

/-- The binding that a variable declaration makes. -/
def VarDecl.binding (d : VarDecl) : Binding := (d.name, ⟨.var, d.ty, d.span⟩)

/-- The binding that a parameter makes. -/
def Param.binding (p : Param) : Binding := (p.name, ⟨.param, p.ty, p.span⟩)

/-- The binding that a function declaration makes. -/
def FuncHeader.binding (f : FuncHeader) : Binding := (f.name, ⟨.func, f.ty, f.span⟩)

/-- The bindings of the functions that a sequence declares, first to last. -/
def functionBindings (stmts : List Stmt) : List Binding :=
  (stmts.filterMap Stmt.header?).map FuncHeader.binding

/-- Sequences in a row bind their functions in that order. -/
theorem functionBindings_append (ss ss' : List Stmt) :
    functionBindings (ss ++ ss') = functionBindings ss ++ functionBindings ss' := by
  rw [functionBindings, List.filterMap_append, List.map_append]
  rfl

/-- Analyzes an expression and places a demand on it. -/
def Expr.analyzeFor (e : Expr) (d : Demand) : Check Expr := do
  let e ← e.analyze
  let (_, e) ← e.require d
  return e

/-- Analyzes an expression that may be missing and places a demand on it. -/
def analyzeForOpt (d : Demand) : Option Expr → Check (Option Expr)
  | none => return none
  | some e => return some (← e.analyzeFor d)

/-- Analyzes a variable declaration. The initial value does not see the variable. -/
def VarDecl.analyze (d : VarDecl) : Check VarDecl := do
  let label := "declaration of " ++ Problem.quoted d.name
  let init ← analyzeForOpt (.assignable label d.ty) d.init
  declareAll [d.binding]
  return { d with init }

/-- Analyzes an assignment to `target` that stands at `span`. -/
def analyzeAssign (target : String) (value : Expr) (span : Span) : Check Expr := do
  let entity ← resolve target span
  let value ← value.analyze
  match entity with
  | none => return value
  | some entity =>
    if entity.isValue then
      let label := "assignment to " ++ Problem.quoted target
      let (_, value) ← value.require (.assignable label entity.ty)
      return value
    else
      report (.notAVariable target) (some span)
      return value

/-- Analyzes a return statement that stands at `span`: outside every function it is reported, a
procedure returns no value, and any other function returns one that fits its result type. -/
def analyzeReturn (value : Option Expr) (span : Span) : Check (Option Expr) := do
  match (← get).returns, value with
  | none, none => do
    report .returnOutsideFunction (some span)
    return none
  | none, some e => do
    let e ← e.analyze
    report .returnOutsideFunction (some span)
    return some e
  | some .void, none => return none
  | some .void, some e => do
    let e ← e.analyze
    report .unexpectedReturnValue (some span)
    return some e
  | some result, none => do
    report (.missingReturnValue result) (some span)
    return none
  | some result, some e => return some (← e.analyzeFor (.assignable "return" result))

/-- The problem with a jump that is not inside a loop. -/
def Jump.problem : Jump → Problem
  | breakOut => .breakNotInLoop
  | continueNext => .continueNotInLoop

/-- Checks a jump that stands at `span`. -/
def checkJump (j : Jump) (span : Span) : Check Unit := do
  if (← get).isInLoop then return else report j.problem (some span)

mutual

/-- Analyzes a statement. `declared` says that the enclosing sequence has declared its functions. -/
def Stmt.analyzeIn (declared : Bool) : Stmt → Check Stmt
  | .var s d => return .var s (← d.analyze)
  | .func s f ⟨body, t⟩ => do
    unless declared do declareAll [f.binding]
    let body ← inFunction f.result (inScope (do
      declareAll (f.params.map Param.binding)
      declareAll (functionBindings body)
      analyzeAllIn body))
    return .func s f ⟨body, t⟩
  | .assign s x e => return .assign s x (← analyzeAssign x e s)
  | .call s c => do
    let (_, c) ← c.analyze
    return .call s c
  | .after s e c => do
    let e ← e.analyzeFor (.arithmetic "after")
    let (_, c) ← c.analyze
    return .after s e c
  | .block s b => return .block s (← b.analyze)
  | .ifChain s arms o => do
    let arms ← analyzeArms arms
    let o ← analyzeBlockOpt o
    return .ifChain s arms o
  | .whileLoop s e b => do
    let e ← e.analyzeFor (.boolean "while")
    let b ← inLoop b.analyze
    return .whileLoop s e b
  | .forLoop s i e u b => inScope (do
    let i ← analyzeStmtOpt i
    let e ← analyzeForOpt (.boolean "for") e
    let b ← inLoop b.analyze
    let u ← analyzeStmtOpt u
    return .forLoop s i e u b)
  | .jump s j => do
    checkJump j s
    return .jump s j
  | .ret s e => return .ret s (← analyzeReturn e s)

/-- Analyzes the initializer or step of a loop, if there is one. -/
def analyzeStmtOpt : Option Stmt → Check (Option Stmt)
  | none => return none
  | some s => return some (← s.analyzeIn false)

/-- Analyzes the statements of a sequence whose functions have been declared. -/
def analyzeAllIn : List Stmt → Check (List Stmt)
  | [] => return []
  | s :: ss => do
    let s ← s.analyzeIn true
    let ss ← analyzeAllIn ss
    return s :: ss

/-- Analyzes a block in a scope of its own. -/
def Block.analyze : Block → Check Block
  | ⟨ss, s⟩ => do
    let ss ← inScope (do
      declareAll (functionBindings ss)
      analyzeAllIn ss)
    return ⟨ss, s⟩

/-- Analyzes a block, if there is one. -/
def analyzeBlockOpt : Option Block → Check (Option Block)
  | none => return none
  | some b => return some (← b.analyze)

/-- Analyzes conditional arms, first to last. -/
def analyzeArms : List Arm → Check (List Arm)
  | [] => return []
  | ⟨e, b⟩ :: arms => do
    let e ← e.analyzeFor (.boolean "if")
    let b ← b.analyze
    let arms ← analyzeArms arms
    return ⟨e, b⟩ :: arms

end

/-- Analyzes a statement that stands by itself. -/
def Stmt.analyze (s : Stmt) : Check Stmt := s.analyzeIn false

/-- Analyzes a sequence in the scope that is in force. -/
def analyzeSequence (ss : List Stmt) : Check (List Stmt) := do
  declareAll (functionBindings ss)
  analyzeAllIn ss

/-- Analyzes a program in the scope that is in force. -/
def Program.analyze (p : Program) : Check Program := do
  return ⟨← analyzeSequence p.stmts⟩

end Procedural
