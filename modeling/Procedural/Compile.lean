import Procedural.Simplify
import Procedural.Typing.Stmt

/-! # Compiling a program

A program is analyzed in a fresh context. If nothing is reported it is simplified as the options
say, and otherwise it is rejected with everything that was reported. -/

namespace Procedural

/-- What to do with a program that is free of errors; everything is done unless it is turned off. -/
structure Options where
  /-- Simplify the program. -/
  simplify : Bool := true
  /-- When simplifying, take away what follows a jump or a return. -/
  cutDeadCode : Bool := true
deriving DecidableEq, Repr

/-- The outcome of analyzing a program. -/
structure Analysis where
  /-- The program with its types found. -/
  program : Program
  /-- What was reported. -/
  log : Log

/-- Something was reported. -/
def Analysis.hasErrors (a : Analysis) : Bool := !a.log.isEmpty

/-- Analyzes a program in a fresh context. It is a fault if the analysis does not end where it
began, in the global scope and outside every loop. -/
def Program.analysis (p : Program) : Except Fault Analysis :=
  match p.analyze .initial with
  | .error f _ => .error f
  | .ok q ctx =>
    if ctx.scopes.depth ≠ 1 then .error .unbalancedScopes
    else if ctx.isInLoop then .error .unbalancedLoops
    else .ok ⟨q, ctx.log⟩

/-- Simplifies a program as the options say. -/
def Program.optimize (o : Options) (p : Program) : Program :=
  if o.simplify then p.simplify o.cutDeadCode else p

/-- Why a program was not compiled. -/
inductive CompileError where
  /-- The analysis stopped at a fault. -/
  | fault (f : Fault)
  /-- The program has errors. -/
  | rejected (log : Log)
deriving DecidableEq, Repr, Inhabited

/-- The text of a compile error. -/
def CompileError.message : CompileError → String
  | fault f => f.message
  | rejected log => "semantic analysis failed with " ++ toString log.length ++ " error(s)"

/-- Analyzes a program and, if nothing is reported, simplifies it as the options say. -/
def Program.compile (o : Options) (p : Program) : Except CompileError Program :=
  match p.analysis with
  | .error f => .error (.fault f)
  | .ok a => if a.hasErrors then .error (.rejected a.log) else .ok (a.program.optimize o)

end Procedural
