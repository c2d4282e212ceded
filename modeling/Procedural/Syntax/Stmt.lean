import Procedural.Syntax.Expr

/-! # Statements and programs

A **sequence** is a list of statements that share one scope. A **block** is a sequence in a scope of
its own, a **program** the outermost sequence. -/

namespace Procedural

/-- Statements that go on elsewhere in the innermost loop. -/
inductive Jump where
  /-- Leave the loop. -/
  | breakOut
  /-- Go on with the next round of the loop. -/
  | continueNext
deriving DecidableEq, Repr, Inhabited

/-- Parameters of a function. -/
structure Param where
  /-- The name. -/
  name : String
  /-- The declared type. -/
  ty : Ty
  /-- Where the parameter stands. -/
  span : Span
deriving DecidableEq, Repr, Inhabited

/-- What a function declaration says before the body. -/
structure FuncHeader where
  /-- The name. -/
  name : String
  /-- The parameters, first to last. -/
  params : List Param
  /-- The declared result type. -/
  result : Ty
  /-- Where the declaration stands. -/
  span : Span
deriving DecidableEq, Repr, Inhabited

/-- The type of the declared function. -/
def FuncHeader.ty (f : FuncHeader) : Ty := .fn (f.params.map (·.ty)) f.result

/-- Declarations of a variable. -/
structure VarDecl where
  /-- The name. -/
  name : String
  /-- The declared type. -/
  ty : Ty
  /-- The initial value, if one is given. -/
  init : Option Expr
  /-- Where the declaration stands. -/
  span : Span

mutual

/-- Statements; `span` is where the statement stands. -/
inductive Stmt where
  /-- A variable declaration. -/
  | var (span : Span) (decl : VarDecl)
  /-- A function declaration. -/
  | func (span : Span) (header : FuncHeader) (body : Block)
  /-- `target = value`. -/
  | assign (span : Span) (target : String) (value : Expr)
  /-- A call whose result is not used. -/
  | call (span : Span) (call : Call)
  /-- A call scheduled to run once `delay` has elapsed; execution goes on at once. -/
  | after (span : Span) (delay : Expr) (call : Call)
  /-- A block. -/
  | block (span : Span) (body : Block)
  /-- Conditional arms, tried in order, and a block for when no condition holds. -/
  | ifChain (span : Span) (arms : List Arm) (otherwise : Option Block)
  /-- A loop that tests before each round. -/
  | whileLoop (span : Span) (cond : Expr) (body : Block)
  /-- A loop with an initializer, a test before each round and a step after it. -/
  | forLoop (span : Span) (init : Option Stmt) (cond : Option Expr) (step : Option Stmt)
      (body : Block)
  /-- A jump within the innermost loop. -/
  | jump (span : Span) (jump : Jump)
  /-- A return from the enclosing function. -/
  | ret (span : Span) (value : Option Expr)

/-- Sequences in a scope of their own. -/
structure Block where
  /-- The statements, first to last. -/
  stmts : List Stmt
  /-- Where the block stands. -/
  span : Span

/-- A condition and the block to run when it holds. -/
structure Arm where
  /-- The condition. -/
  cond : Expr
  /-- The block. -/
  body : Block

end

/-- The block without statements that stands at `s`. -/
def Block.empty (s : Span) : Block := ⟨[], s⟩

/-- The block has no statements. -/
def Block.isEmpty (b : Block) : Bool := b.stmts.isEmpty

namespace Stmt

/-- Where the statement stands. -/
def span : Stmt → Span
  | var s _ | func s _ _ | assign s _ _ | call s _ | after s _ _ | block s _ | ifChain s _ _
  | whileLoop s _ _ | forLoop s _ _ _ _ | jump s _ | ret s _ => s

/-- Nothing after the statement in its sequence is run: it is a jump or a return. -/
def isTerminator : Stmt → Bool
  | jump _ _ | ret _ _ => true
  | _ => false

/-- The statement declares a function. -/
def isFunction : Stmt → Bool
  | func _ _ _ => true
  | _ => false

/-- The header of a function declaration. -/
def header? : Stmt → Option FuncHeader
  | func _ f _ => some f
  | _ => none

/-- The headers in a sequence come from function declarations in it. -/
theorem exists_func_of_mem_headers {ss : List Stmt} {f : FuncHeader}
    (hf : f ∈ ss.filterMap header?) : ∃ s b, func s f b ∈ ss := by
  obtain ⟨s, hs, hheader⟩ := List.mem_filterMap.1 hf
  cases s with
  | func s g b =>
    obtain rfl := Option.some.inj hheader
    exact ⟨s, b, hs⟩
  | _ => nomatch hheader

/-- The name that the statement itself declares. -/
def declared? : Stmt → Option String
  | var _ d => some d.name
  | func _ f _ => some f.name
  | _ => none

/-- The statement is a block without statements. -/
def isEmptyBlock : Stmt → Bool
  | block _ b => b.isEmpty
  | _ => false

end Stmt

/-- Whole programs: a sequence in the outermost scope. -/
structure Program where
  /-- The statements, first to last. -/
  stmts : List Stmt

end Procedural
