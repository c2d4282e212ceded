import Procedural.Syntax.Stmt
import Mathlib.Logic.Function.Basic

/-! # Names in force

The rules of the language speak about **names**: frames, innermost first, each saying what the names
declared in it stand for. An **environment** adds whether the rules stand inside a loop and what the
enclosing function returns. Both are plain data of their own, without source positions and without
reports. -/

namespace Procedural.Rules

/-- What a name stands for. -/
inductive Meaning where
  /-- A place that holds values: a variable or a parameter. -/
  | place (ty : Ty)
  /-- A function. -/
  | func (ty : Ty)

/-- The type of what a name stands for. -/
def Meaning.ty : Meaning → Ty
  | place t | func t => t

/-- A name together with what it is declared to stand for. -/
abbrev Decl := String × Meaning

/-- The names declared in one frame. -/
abbrev Frame := String → Option Meaning

/-- The names in force. -/
structure Names where
  /-- The innermost frame, which takes declarations. -/
  inner : Frame
  /-- The frames around it, innermost first. -/
  outer : List Frame

namespace Names

/-- No name is declared. -/
def empty : Names := ⟨fun _ => none, []⟩

/-- A new innermost frame is opened. -/
def push (Γ : Names) : Names := ⟨fun _ => none, Γ.inner :: Γ.outer⟩

/-- The name is not declared in the innermost frame. -/
def Fresh (Γ : Names) (x : String) : Prop := Γ.inner x = none

/-- The names after `x` is declared to stand for `m`. -/
def declare (Γ : Names) (x : String) (m : Meaning) : Names :=
  { Γ with inner := Function.update Γ.inner x (some m) }

/-- The names after several declarations, first to last. -/
def declareAll (Γ : Names) (ds : List Decl) : Names :=
  ds.foldl (fun Γ d => Γ.declare d.1 d.2) Γ

/-- Each name is fresh when it is declared, so no name is declared twice. -/
def FreshAll (Γ : Names) : List Decl → Prop
  | [] => True
  | (x, m) :: ds => Γ.Fresh x ∧ (Γ.declare x m).FreshAll ds

/-- What a name stands for: what it is declared to in the innermost frame that declares it. -/
def lookup (Γ : Names) (x : String) : Option Meaning :=
  (Γ.inner :: Γ.outer).findSome? fun frame => frame x

/-- A declaration changes what its own name stands for, and no other name. -/
theorem lookup_declare (Γ : Names) (x : String) (m : Meaning) (y : String) :
    (Γ.declare x m).lookup y = if y = x then some m else Γ.lookup y := by
  by_cases h : y = x
  · subst h
    simp [lookup, declare]
  · simp [lookup, declare, List.findSome?_cons, h]

end Names

/-- Where a statement stands. -/
structure Env where
  /-- The names in force. -/
  names : Names
  /-- The statement is inside a loop of its function. -/
  inLoop : Bool
  /-- The result type of the enclosing function, if there is one. -/
  returns : Option Ty

namespace Env

/-- The outermost sequence of a program starts without names, outside loops and functions. -/
def initial : Env := ⟨.empty, false, none⟩

/-- A new innermost frame is opened. -/
def push (Γ : Env) : Env := { Γ with names := Γ.names.push }

/-- The environment after several declarations, first to last. -/
def declareAll (Γ : Env) (ds : List Decl) : Env := { Γ with names := Γ.names.declareAll ds }

/-- Declarations in two parts. -/
theorem declareAll_append (Γ : Env) (ds ds' : List Decl) :
    Γ.declareAll (ds ++ ds') = (Γ.declareAll ds).declareAll ds' :=
  congrArg (Env.mk · Γ.inLoop Γ.returns) List.foldl_append

/-- Inside a loop. -/
def inside (Γ : Env) : Env := { Γ with inLoop := true }

/-- In the body of a function, which does not see the loops around the function. -/
def enter (Γ : Env) (result : Ty) : Env := ⟨Γ.names, false, some result⟩

end Env

/-! ## What statements declare -/

/-- The functions that a sequence declares. -/
def functions (ss : List Stmt) : List Decl :=
  (ss.filterMap Stmt.header?).map fun f => (f.name, .func f.ty)

/-- The parameters of a function. -/
def parameters (f : FuncHeader) : List Decl := f.params.map fun p => (p.name, .place p.ty)

/-- The variable that a statement declares. -/
def places : Stmt → List Decl
  | .var _ d => [(d.name, .place d.ty)]
  | _ => []

/-- The environment after a statement. -/
def Env.after (Γ : Env) (s : Stmt) : Env := Γ.declareAll (places s)

/-- The environment after a sequence, in which the functions are declared first. -/
def Env.afterAll (Γ : Env) (ss : List Stmt) : Env :=
  ss.foldl Env.after (Γ.declareAll (functions ss))

end Procedural.Rules
