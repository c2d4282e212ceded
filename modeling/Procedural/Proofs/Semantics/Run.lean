import Procedural.Proofs.Semantics.Value
import Procedural.Syntax.Stmt
import Mathlib.Logic.Function.Basic

/-! # Runs of statements

A big-step semantics. A **state** holds the store and the trace of the calls performed and scheduled
so far. Expressions are evaluated by functions, because nothing in them repeats; a statement stands
for a **behaviour**, the relation between the states it can start in, the outcomes it can come to
and the states it can end in. A run that does not end has no outcome. -/

namespace Procedural.Semantics

/-! ## States -/

/-- What is recorded of a run. -/
inductive Event where
  /-- A call was performed. -/
  | called (callee : String) (args : List Value)
  /-- A call was scheduled. -/
  | scheduled (delay : Value) (callee : String) (args : List Value)

/-- States of a run. -/
structure State where
  /-- The variables. -/
  store : Store
  /-- The calls performed and scheduled so far, oldest first. -/
  trace : List Event

/-- The value of the variable of that name that is declared innermost. -/
def Store.read (s : Store) (x : String) : Option Value :=
  (s.findSome? fun frame => frame x).map Cell.value

/-- The store with a value put into the variable of that name that is declared innermost. -/
def Store.write (x : String) (v : Value) : Store → Option Store
  | [] => none
  | frame :: frames =>
    match frame x with
    | some cell =>
      some (Function.update frame x (some { cell with value := v.widen cell.ty }) :: frames)
    | none => (write x v frames).map (frame :: ·)

/-- The store with a variable declared in the innermost frame. -/
def Store.declare (x : String) (c : Cell) : Store → Store
  | [] => [Function.update (fun _ => none) x (some c)]
  | frame :: frames => Function.update frame x (some c) :: frames

namespace State

/-- The state with a new innermost frame. -/
def push (m : State) : State := { m with store := (fun _ => none) :: m.store }

/-- The state without its innermost frame. -/
def pop (m : State) : State := { m with store := m.store.tail }

/-- The state with one more event recorded. -/
def record (m : State) (e : Event) : State := { m with trace := m.trace ++ [e] }

/-- Leaving a scope that was just entered gives the state before. -/
@[simp] theorem pop_push (m : State) : m.push.pop = m := rfl

end State

/-! ## Evaluation -/

/-- Evaluations: they change the state and come to an answer, or halt. -/
abbrev Eval := EStateM Halt State

/-- The answer of an operation on values. -/
def answer {α : Type} : Except Halt α → Eval α
  | .ok a => pure a
  | .error h => throw h

/-- The value of a variable. -/
def readVar (x : String) : Eval Value := fun m =>
  match Store.read m.store x with
  | some v => .ok v m
  | none => .error (.failure (.unbound x)) m

/-- Puts a value into a variable. -/
def writeVar (x : String) (v : Value) : Eval Unit := fun m =>
  match Store.write x v m.store with
  | some store => .ok () { m with store }
  | none => .error (.failure (.unbound x)) m

/-- Declares a variable in the innermost frame. -/
def declareVar (x : String) (t : Ty) (v : Value) : Eval Unit := fun m =>
  .ok () { m with store := Store.declare x ⟨t, v.widen t⟩ m.store }

/-- The truth value that a value has to be. -/
def truth : Value → Eval Bool
  | .lit (.bool b) => pure b
  | _ => throw (.failure .wrongKind)

variable (I : Interp)

/-- A call of a named function. -/
def perform (f : String) (args : List Value) : Eval Value := fun m =>
  let m := m.record (.called f args)
  match I.call f args m.store with
  | .returned v store => .ok v { m with store }
  | .failed e store => .error (.failure e) { m with store }
  | .never => .error .never m

/-- Schedules a call of a named function. -/
def schedule (delay : Value) (f : String) (args : List Value) : Eval Unit := fun m =>
  .ok () { m.record (.scheduled delay f args) with store := I.schedule delay f args m.store }

/-- A binary operator between two evaluations, the left one first. A logic operator does not
evaluate its right operand if the left one settles it, and otherwise yields it. -/
def combine (op : BinaryOp) (l r : Eval Value) : Eval Value :=
  match op with
  | .arith op => do
    let v ← l
    let w ← r
    answer (I.arith op v w)
  | .order op => do
    let v ← l
    let w ← r
    return .ofBool (← answer (orWrongKind (v.order? op w)))
  | .equality op => do
    let v ← l
    let w ← r
    return .ofBool (← answer (orWrongKind (v.test? op w)))
  | .logic .and => do
    if ← truth (← l) then r else return .ofBool false
  | .logic .or => do
    if ← truth (← l) then return .ofBool true else r

/-! ## Behaviours -/

/-- What a run comes to. -/
inductive Outcome where
  /-- It is through. -/
  | normal
  /-- It goes on elsewhere in the innermost loop. -/
  | jump (j : Jump)
  /-- It returns from the function, with or without a value. -/
  | returned (value : Option Value)
  /-- It fails. -/
  | failed (f : Failure)

/-- The loop goes on after a round with this outcome. -/
def Outcome.GoesOn (o : Outcome) : Prop := o = .normal ∨ o = .jump .continueNext

/-- The outcome is not one that the innermost loop takes care of. -/
def Outcome.LeavesLoop : Outcome → Prop
  | returned _ | failed _ => True
  | normal | jump _ => False

/-- Behaviours: which outcomes runs from a state come to, and in which states. -/
abbrev Behaviour := State → Outcome → State → Prop

/-- Nothing is done, with the given outcome. -/
def stop (o₀ : Outcome) : Behaviour := fun m o m' => o = o₀ ∧ m' = m

/-- Nothing is done. -/
def done : Behaviour := stop .normal

/-- First `A`, and then `B` if `A` is through. -/
def andThen (A B : Behaviour) : Behaviour := fun m o m' =>
  (∃ m₁, A m .normal m₁ ∧ B m₁ o m') ∨ (o ≠ .normal ∧ A m o m')

/-- First an evaluation, and then what its answer asks for. -/
def evaluating {α : Type} (e : Eval α) (k : α → Behaviour) : Behaviour := fun m o m' =>
  match e m with
  | .ok a m₁ => k a m₁ o m'
  | .error (.failure f) m₁ => o = .failed f ∧ m' = m₁
  | .error .never _ => False

/-- In a frame of its own. -/
def inFrame (A : Behaviour) : Behaviour := fun m o m' => ∃ m₁, A m.push o m₁ ∧ m' = m₁.pop

/-- The rounds of a loop: a test, the body, and a step after it. A jump in the body is taken care
of, a jump in the step is not. -/
inductive Rounds (test : Eval Bool) (body step : Behaviour) : Behaviour where
  /-- The test says that there is no further round. -/
  | stops {m m' : State} : test m = .ok false m' → Rounds test body step m .normal m'
  /-- The test fails. -/
  | testFails {m m' : State} {f : Failure} :
    test m = .error (.failure f) m' → Rounds test body step m (.failed f) m'
  /-- The body leaves the loop by a jump. -/
  | breaks {m m₁ m' : State} :
    test m = .ok true m₁ → body m₁ (.jump .breakOut) m' → Rounds test body step m .normal m'
  /-- The body leaves the loop otherwise. -/
  | leaves {m m₁ m' : State} {o : Outcome} :
    test m = .ok true m₁ → body m₁ o m' → o.LeavesLoop → Rounds test body step m o m'
  /-- The step is not through. -/
  | stepLeaves {m m₁ m₂ m' : State} {o₁ o : Outcome} :
    test m = .ok true m₁ → body m₁ o₁ m₂ → o₁.GoesOn → step m₂ o m' → o ≠ .normal →
    Rounds test body step m o m'
  /-- There is a further round. -/
  | again {m m₁ m₂ m₃ m' : State} {o₁ o : Outcome} :
    test m = .ok true m₁ → body m₁ o₁ m₂ → o₁.GoesOn → step m₂ .normal m₃ →
    Rounds test body step m₃ o m' → Rounds test body step m o m'

end Procedural.Semantics

namespace Procedural

open Semantics

variable (I : Interp)

/-! ## Expressions -/

mutual

/-- The value of an expression. -/
def Expr.eval : Expr → Eval Value
  | .lit _ v => return .lit v
  | .ident _ x => readVar x
  | .binary _ op l r => combine I op l.eval r.eval
  | .unary _ op e => do answer (I.unary op (← e.eval))
  | .call _ c => c.eval

/-- What a call yields: its arguments are evaluated first to last, and then it is performed. -/
def Call.eval : Call → Eval Value
  | ⟨f, args, _⟩ => do perform I f (← evalAll args)

/-- The values of the expressions of a list, evaluated first to last. -/
def evalAll : List Expr → Eval (List Value)
  | [] => return []
  | e :: es => do
    let v ← e.eval
    return v :: (← evalAll es)

end

/-- The truth value of a condition. -/
def Expr.test (e : Expr) : Eval Bool := do truth (← e.eval I)

/-- The truth value of a condition that may be missing; a missing condition holds. -/
def testOpt : Option Expr → Eval Bool
  | none => return true
  | some e => e.test I

/-- Declares a variable, with its initial value if one is given. -/
def VarDecl.run (d : VarDecl) : Eval Unit :=
  match d.init with
  | none => declareVar d.name d.ty (I.initial d.ty)
  | some e => do declareVar d.name d.ty (← e.eval I)

/-! ## Statements -/

/-- A return, with its value if there is one. -/
def runReturn : Option Expr → Behaviour
  | none => stop (.returned none)
  | some e => evaluating (e.eval I) fun v => stop (.returned (some v))

mutual

/-- What runs of a statement come to. -/
def Stmt.run : Stmt → Behaviour
  | .var _ d => evaluating (d.run I) fun _ => done
  | .func _ _ _ => done
  | .assign _ x e => evaluating (do writeVar x (← e.eval I)) fun _ => done
  | .call _ c => evaluating (c.eval I) fun _ => done
  | .after _ e ⟨f, args, _⟩ =>
    evaluating (do
      let v ← e.eval I
      schedule I v f (← evalAll I args)) fun _ => done
  | .block _ b => b.run
  | .ifChain _ arms o => runArms arms (runBlockOpt o)
  | .whileLoop _ e b => Rounds (e.test I) b.run done
  | .forLoop _ i e u b =>
    inFrame (andThen (runStmtOpt i) (Rounds (testOpt I e) b.run (runStmtOpt u)))
  | .jump _ j => stop (.jump j)
  | .ret _ e => runReturn I e

/-- What runs of the initializer or step of a loop come to. -/
def runStmtOpt : Option Stmt → Behaviour
  | none => done
  | some s => s.run

/-- What runs of a sequence come to. -/
def runAll : List Stmt → Behaviour
  | [] => done
  | s :: ss => andThen s.run (runAll ss)

/-- What runs of a block come to; it has a frame of its own. -/
def Block.run : Block → Behaviour
  | ⟨ss, _⟩ => inFrame (runAll ss)

/-- What runs of a block that may be missing come to. -/
def runBlockOpt : Option Block → Behaviour
  | none => done
  | some b => b.run

/-- What runs of conditional arms come to: the first block with a condition that holds, and
`otherwise` if there is none. -/
def runArms : List Arm → Behaviour → Behaviour
  | [], otherwise => otherwise
  | ⟨e, b⟩ :: arms, otherwise =>
    evaluating (e.test I) fun c => if c then b.run else runArms arms otherwise

end

end Procedural
