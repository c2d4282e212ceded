import Procedural.Proofs.Guarded.Store
import Procedural.Proofs.Rules.Known

/-! # Guarded runs

A big-step semantics that checks everything it relies on. A run halts with a **misuse** where an
operator meets an operand of a kind it does not take, where a name is used that does not stand for
such a thing, where a value is stored or passed that is not of the declared type, where a condition
is no truth value, and also where an expression yields a value of another type than its note
records. Calls are performed by a **host**. Loops get fuel, so that every run ends; a run that needs
more rounds halts unfinished. -/

namespace Procedural.Guarded

/-- What a run must not do. -/
inductive Misuse where
  /-- Apply an operator to an operand of a kind that it does not take. -/
  | operand
  /-- Use a name that is not declared. -/
  | unbound (name : String)
  /-- Read a function as a value, or assign to it. -/
  | notAValue (name : String)
  /-- Call something that is not a function. -/
  | notCallable (name : String)
  /-- Call with the wrong number of arguments. -/
  | argumentCount
  /-- Branch on something that is not a truth value. -/
  | condition
  /-- Store or pass a value that is not of the declared type. -/
  | kind
  /-- Find a value of another type than the note of its expression records. -/
  | mistyped
deriving DecidableEq, Repr

/-- Why a run halts. -/
inductive Halt where
  /-- It does what it must not do. -/
  | misuse (m : Misuse)
  /-- An operation has no result, or a call does not return. -/
  | raised
  /-- There is no fuel for a further round of a loop. -/
  | unfinished

/-- What is called: a declared function, or the function that a variable holds, which is known by a
number. -/
structure Target where
  /-- The types of the parameters. -/
  params : List Ty
  /-- The type of the result. -/
  result : Ty
  /-- The number of the function, if it comes from a variable. -/
  id : Option Nat

/-- What a call of a name is a call of. -/
def Slot.target? : Slot → Option Target
  | .func (.fn ps r) => some ⟨ps, r, none⟩
  | .var _ (.func ps r id) => some ⟨ps, r, some id⟩
  | _ => none

/-- A call with its arguments found. -/
structure Invocation where
  /-- The name that is called. -/
  callee : String
  /-- What it stands for. -/
  target : Target
  /-- The arguments as they are passed, first to last. -/
  args : List Value

/-- What a run leaves to its surroundings. -/
structure Host where
  /-- What a call yields, and the store after it; nothing if the call does not return. -/
  call : Invocation → Store → Option (Value × Store)
  /-- The store after a call has been scheduled. -/
  schedule : Value → Invocation → Store → Store
  /-- What stands in for the result of arithmetic that overflows or has a zero divisor, if the run
  goes on. -/
  undefined : ArithOp → Literal → Literal → Option Literal
  /-- What stands in for a negative that overflows, if the run goes on. -/
  undefinedNeg : Literal → Option Literal
  /-- The value of a variable that is declared without one. -/
  initial : VarDecl → Store → Value

/-- The host keeps to the declared types: a call with arguments of the types of the parameters
yields a value of the type of the result, calls leave in every variable a value of its declared
type, and values that stand in for others have their types. -/
structure Host.Conforms (H : Host) : Prop where
  /-- Calls yield values of their result types and keep the store. -/
  call : ∀ ⦃i : Invocation⦄ ⦃m : Store⦄ ⦃v : Value⦄ ⦃m' : Store⦄,
    i.args.map Value.ty = i.target.params → H.call i m = some (v, m') →
    v.ty = i.target.result ∧ m.Keeps m'
  /-- Scheduling a call keeps the store. -/
  schedule : ∀ (v : Value) (i : Invocation) (m : Store), m.Keeps (H.schedule v i m)
  /-- Arithmetic without a result goes on with a number of the right type. -/
  undefined : ∀ ⦃op : ArithOp⦄ ⦃a b c : Literal⦄, H.undefined op a b = some c →
    c.ty = a.ty.arithmeticResult b.ty
  /-- A negative without a result goes on with a number of the right type. -/
  undefinedNeg : ∀ ⦃a b : Literal⦄, H.undefinedNeg a = some b → b.ty = a.ty
  /-- A variable starts with a value of its declared type. -/
  initial : ∀ ⦃d : VarDecl⦄ (m : Store), d.ty.Known → (H.initial d m).ty = d.ty

/-- What a statement comes to. -/
inductive Outcome where
  /-- It is through. -/
  | normal
  /-- It goes on elsewhere in the innermost loop. -/
  | jump (j : Jump)
  /-- It returns from the function, with or without a value. -/
  | returned (value : Option Value)

/-- Guarded runs: they change the store and come to an answer, or halt. -/
abbrev Run := EStateM Halt Store

/-! ## Checks -/

/-- Halts with a misuse. -/
def misuse {α : Type} (m : Misuse) : Run α := throw (.misuse m)

/-- What has to be there. -/
def orMisuse {α : Type} (m : Misuse) : Option α → Run α
  | some a => pure a
  | none => misuse m

/-- What there may be no result of. -/
def orRaised {α : Type} : Option α → Run α
  | some a => pure a
  | none => throw .raised

/-- A value as it is stored or passed where `t` is declared. -/
def fit (t : Ty) (v : Value) : Run Value :=
  if (v.widen t).ty = t then return v.widen t else misuse .kind

/-- The truth value that a condition has to be. -/
def condition (v : Value) : Run Bool := orMisuse .condition v.truth?

/-- The value that an expression yields has the type that the expression records. -/
def recorded (n : Note) (act : Run Value) : Run Value := do
  let v ← act
  if n.ty = some v.ty then return v else misuse .mistyped

/-! ## Names -/

/-- The value of a variable. -/
def read (x : String) : Run Value := do
  match (← get).lookup x with
  | some (.var _ v) => return v
  | some (.func _) => misuse (.notAValue x)
  | none => misuse (.unbound x)

/-- Puts a value into a variable. -/
def assign (x : String) (v : Value) : Run Unit := do
  match (← get).lookup x with
  | some (.var t _) => do
    let w ← fit t v
    modify (Store.put x (.var t w))
  | some (.func _) => misuse (.notAValue x)
  | none => misuse (.unbound x)

/-- Declares a variable in the innermost frame. -/
def declareVar (x : String) (t : Ty) (v : Value) : Run Unit := do
  let w ← fit t v
  modify (Store.declare x (.var t w))

/-- Declares the functions of a sequence in the innermost frame. -/
def hoist (ss : List Stmt) : Run Unit := modify (·.declareFuncs (ss.filterMap Stmt.header?))

/-- What a name that is called stands for. -/
def callee (f : String) : Run Target := do
  match (← get).lookup f with
  | some s => orMisuse (.notCallable f) s.target?
  | none => misuse (.unbound f)

/-- The arguments as they are passed for the parameters. -/
def pass : List Value → List Ty → Run (List Value)
  | [], [] => return []
  | v :: vs, t :: ts => do
    let w ← fit t v
    return w :: (← pass vs ts)
  | _, _ => misuse .argumentCount

/-- Runs `act` in a frame of its own. -/
def inFrame {α : Type} (act : Run α) : Run α := do
  modify Store.push
  let a ← act
  modify Store.pop
  return a

/-- First `x`, and then `y` if `x` is through. -/
def andThen (x y : Run Outcome) : Run Outcome := do
  match ← x with
  | .normal => y
  | o => return o

/-! ## Operators and calls -/

variable (H : Host)

/-- Performs a call. -/
def invoke (i : Invocation) : Run Value := fun m =>
  match H.call i m with
  | some (v, m') => .ok v m'
  | none => .error .raised m

/-- A unary operator on a value. -/
def unary : UnaryOp → Value → Run Value
  | .neg, v => do
    let a ← orMisuse .operand v.number?
    return .lit (← orRaised ((Literal.unary? .neg a).or (H.undefinedNeg a)))
  | .not, v => do
    let b ← orMisuse .operand v.truth?
    return .ofBool !b

/-- Arithmetic on two values. -/
def arith (op : ArithOp) (v w : Value) : Run Value := do
  let a ← orMisuse .operand v.number?
  let b ← orMisuse .operand w.number?
  return .lit (← orRaised ((Literal.arith? op a b).or (H.undefined op a b)))

/-- A binary operator between two evaluations, the left one first. A logic operator does not
evaluate its right operand if the left one settles it. -/
def binary (op : BinaryOp) (l r : Run Value) : Run Value :=
  match op with
  | .arith op => do
    let v ← l
    arith H op v (← r)
  | .order op => do
    let v ← l
    return .ofBool (← orMisuse .operand (v.order? op (← r)))
  | .equality op => do
    let v ← l
    return .ofBool (← orMisuse .operand (v.test? op (← r)))
  | .logic .and => do
    if ← orMisuse .operand (← l).truth? then
      return .ofBool (← orMisuse .operand (← r).truth?)
    else return .ofBool false
  | .logic .or => do
    if ← orMisuse .operand (← l).truth? then return .ofBool true
    else return .ofBool (← orMisuse .operand (← r).truth?)

/-- The rounds of a loop, as far as the fuel goes: a test, the body, and a step after it. A jump in
the body is taken care of, a jump in the step is not. -/
def rounds (test : Run Bool) (body step : Run Outcome) : Nat → Run Outcome
  | 0 => throw .unfinished
  | n + 1 => do
    if ← test then
      match ← body with
      | .jump .breakOut => return .normal
      | .returned v => return .returned v
      | .normal | .jump .continueNext => andThen step (rounds test body step n)
    else return .normal

end Procedural.Guarded

namespace Procedural

open Guarded

variable (H : Host)

/-! ## Expressions -/

mutual

/-- The value of an expression. -/
def Expr.value : Expr → Run Value
  | .lit n v => recorded n (pure (.lit v))
  | .ident n x => recorded n (read x)
  | .binary n op l r => recorded n (binary H op l.value r.value)
  | .unary n op e => recorded n (do unary H op (← e.value))
  | .call n c => recorded n (do invoke H (← c.prepare))

/-- A call that is ready to be performed: its arguments are evaluated first to last. -/
def Call.prepare : Call → Run Invocation
  | ⟨f, args, _⟩ => do
    let vs ← values args
    let target ← callee f
    return ⟨f, target, ← pass vs target.params⟩

/-- The values of the expressions of a list, evaluated first to last. -/
def values : List Expr → Run (List Value)
  | [] => return []
  | e :: es => do
    let v ← e.value
    return v :: (← values es)

end

/-- The truth value of a condition. -/
def Expr.holds (e : Expr) : Run Bool := do condition (← e.value H)

/-- The truth value of a condition that may be missing; a missing condition holds. -/
def holdsOpt : Option Expr → Run Bool
  | none => return true
  | some e => e.holds H

/-- Declares a variable, with its initial value if one is given. -/
def VarDecl.exec (d : VarDecl) : Run Unit :=
  match d.init with
  | none => do declareVar d.name d.ty (H.initial d (← get))
  | some e => do declareVar d.name d.ty (← e.value H)

/-- Schedules a call after a delay, which is a number. -/
def execAfter (e : Expr) (c : Call) : Run Unit := do
  let delay ← e.value H
  let _ ← orMisuse .operand delay.number?
  let i ← c.prepare H
  modify (H.schedule delay i)

/-- The outcome of a return, with its value if there is one. -/
def execReturn : Option Expr → Run Outcome
  | none => return .returned none
  | some e => return .returned (some (← e.value H))

/-! ## Statements -/

mutual

/-- Runs a statement whose function has been declared. Loops in it run for at most `n` rounds. -/
def Stmt.exec (n : Nat) : Stmt → Run Outcome
  | .var _ d => do
    d.exec H
    return .normal
  | .func _ _ _ => return .normal
  | .assign _ x e => do
    assign x (← e.value H)
    return .normal
  | .call _ c => do
    let _ ← invoke H (← c.prepare H)
    return .normal
  | .after _ e c => do
    execAfter H e c
    return .normal
  | .block _ b => b.exec n
  | .ifChain _ arms o => execArms n arms (execBlockOpt n o)
  | .whileLoop _ e b => rounds (e.holds H) (b.exec n) (pure .normal) n
  | .forLoop _ i e u b => inFrame (andThen (execClause n i)
    (rounds (holdsOpt H e) (b.exec n) (inFrame (execClause n u)) n))
  | .jump _ j => return .jump j
  | .ret _ e => execReturn H e

/-- Runs the initializer or step of a loop, if there is one. -/
def execClause (n : Nat) : Option Stmt → Run Outcome
  | none => return .normal
  | some s => do
    hoist [s]
    s.exec n

/-- Runs the statements of a sequence whose functions have been declared. -/
def execAll (n : Nat) : List Stmt → Run Outcome
  | [] => return .normal
  | s :: ss => andThen (s.exec n) (execAll n ss)

/-- Runs a block in a frame of its own. -/
def Block.exec (n : Nat) : Block → Run Outcome
  | ⟨ss, _⟩ => inFrame (do
    hoist ss
    execAll n ss)

/-- Runs a block, if there is one. -/
def execBlockOpt (n : Nat) : Option Block → Run Outcome
  | none => return .normal
  | some b => b.exec n

/-- Runs the first block with a condition that holds, or else `otherwise`. -/
def execArms (n : Nat) : List Arm → Run Outcome → Run Outcome
  | [], otherwise => otherwise
  | ⟨e, b⟩ :: arms, otherwise => do
    if ← e.holds H then b.exec n else execArms n arms otherwise

end

/-- Runs a statement that stands by itself. -/
def Stmt.execAlone (n : Nat) (s : Stmt) : Run Outcome := do
  hoist [s]
  s.exec H n

/-- Runs a sequence in the frame that is in force. -/
def execSequence (n : Nat) (ss : List Stmt) : Run Outcome := do
  hoist ss
  execAll H n ss

end Procedural
