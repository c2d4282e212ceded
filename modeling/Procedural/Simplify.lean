import Procedural.Folding
import Procedural.Syntax.Stmt

/-! # Simplification of statements

`Program.simplify` folds every expression, takes away what cannot run, and takes away blocks without
statements. It decides by literal conditions only:

* an arm whose condition is false goes, and everything after an arm whose condition is true;
* a loop whose condition is false becomes a block, of its initializer if it has one;
* with `cut`, whatever follows a jump or a return in its sequence goes, unless a function is
  declared there: it can be called from the whole sequence, and its body may use the declarations
  before it. -/

namespace Procedural

/-! ## Steps -/

/-- The sequence without what follows its first jump or return, unless functions are declared
there. -/
def cutTail : List Stmt → List Stmt
  | [] => []
  | s :: ss =>
    if s.isTerminator then
      if ss.any Stmt.isFunction then s :: ss else [s]
    else s :: cutTail ss

/-- The sequence without blocks that have no statements and, with `cut`, without dead tails. -/
def tidy (cut : Bool) (ss : List Stmt) : List Stmt :=
  let kept := ss.filter fun s => !s.isEmptyBlock
  if cut then cutTail kept else kept

/-- The arms that can be chosen and the block for when none is: an arm with a false condition is
never chosen, and an arm with a true condition is chosen if none before it is. -/
def choosable : List Arm → Option Block → List Arm × Option Block
  | [], o => ([], o)
  | a :: as, o =>
    match a.cond.bool? with
    | some false => choosable as o
    | some true => ([a], none)
    | none => (a :: (choosable as o).1, (choosable as o).2)

/-- The conditional statement with the given arms, or the block it amounts to when no choice is
left. -/
def choice (s : Span) (arms : List Arm) (o : Option Block) : Stmt :=
  match choosable arms o with
  | ([], none) => .block s (.empty s)
  | ([], some b) => .block s b
  | (a :: as, o) => if a.cond.bool? = some true then .block s a.body else .ifChain s (a :: as) o

/-- The loop with a test before each round, or a block when the test fails at once. -/
def roundsWhile (s : Span) (e : Expr) (b : Block) : Stmt :=
  if e.bool? = some false then .block s (.empty s) else .whileLoop s e b

/-- The loop with an initializer and a step, or a block of the initializer when the test fails at
once: the initializer is still run, in a scope of its own. -/
def roundsFor (s : Span) (i : Option Stmt) (e : Option Expr) (u : Option Stmt) (b : Block) : Stmt :=
  if e.bind Expr.bool? = some false then .block s ⟨i.toList, s⟩ else .forLoop s i e u b

/-- A variable declaration with its initial value folded. -/
def VarDecl.fold (d : VarDecl) : VarDecl := { d with init := d.init.map Expr.fold }

/-! ## Whole trees -/

mutual

/-- Simplifies a statement. -/
def Stmt.simplify (cut : Bool) : Stmt → Stmt
  | .var s d => .var s d.fold
  | .func s f b => .func s f (b.simplify cut)
  | .assign s x e => .assign s x e.fold
  | .call s c => .call s c.fold
  | .after s e c => .after s e.fold c.fold
  | .block s b => .block s (b.simplify cut)
  | .ifChain s arms o => choice s (simplifyArms cut arms) (simplifyBlockOpt cut o)
  | .whileLoop s e b => roundsWhile s e.fold (b.simplify cut)
  | .forLoop s i e u b =>
    roundsFor s (simplifyStmtOpt cut i) (e.map Expr.fold) (simplifyStmtOpt cut u) (b.simplify cut)
  | .jump s j => .jump s j
  | .ret s e => .ret s (e.map Expr.fold)

/-- Simplifies the initializer or step of a loop, if there is one. -/
def simplifyStmtOpt (cut : Bool) : Option Stmt → Option Stmt
  | none => none
  | some s => some (s.simplify cut)

/-- Simplifies each statement of a list. -/
def simplifyAll (cut : Bool) : List Stmt → List Stmt
  | [] => []
  | s :: ss => s.simplify cut :: simplifyAll cut ss

/-- Simplifies a block: its statements, and then the sequence of them. -/
def Block.simplify (cut : Bool) : Block → Block
  | ⟨ss, s⟩ => ⟨tidy cut (simplifyAll cut ss), s⟩

/-- Simplifies a block, if there is one. -/
def simplifyBlockOpt (cut : Bool) : Option Block → Option Block
  | none => none
  | some b => some (b.simplify cut)

/-- Simplifies the conditions and blocks of conditional arms. -/
def simplifyArms (cut : Bool) : List Arm → List Arm
  | [] => []
  | ⟨e, b⟩ :: arms => ⟨e.fold, b.simplify cut⟩ :: simplifyArms cut arms

end

/-- Simplifies a program: its statements, and then the sequence of them. -/
def Program.simplify (cut : Bool) (p : Program) : Program := ⟨tidy cut (simplifyAll cut p.stmts)⟩

/-! ## Lists and options -/

/-- Simplifying a list simplifies each statement of it. -/
@[simp] theorem simplifyAll_eq_map (cut : Bool) (ss : List Stmt) :
    simplifyAll cut ss = ss.map (Stmt.simplify cut) := by
  induction ss with
  | nil => rfl
  | cons s ss ih => simp [simplifyAll, ih]

/-- Simplifying a clause that may be missing simplifies it if it is there. -/
@[simp] theorem simplifyStmtOpt_eq_map (cut : Bool) (o : Option Stmt) :
    simplifyStmtOpt cut o = o.map (Stmt.simplify cut) := by
  cases o <;> rfl

/-- Simplifying a block that may be missing simplifies it if it is there. -/
@[simp] theorem simplifyBlockOpt_eq_map (cut : Bool) (o : Option Block) :
    simplifyBlockOpt cut o = o.map (Block.simplify cut) := by
  cases o <;> rfl

end Procedural
