import Procedural.Typing.Stmt

/-! # Trees with a gap

A tree can have a **gap** in place of a statement in one of its sequences, at any depth, or in place
of a loop's initializer or step. Filling the gap with a statement gives a tree. As long as no
declarations are filled in, the functions that the sequences of the tree declare are known
beforehand. -/

namespace Procedural

mutual

/-- Statements with a gap in them. -/
inductive Gap where
  /-- The gap itself. -/
  | here
  /-- A function with the gap in its body. -/
  | func (span : Span) (header : FuncHeader) (body : BlockGap)
  /-- A block with the gap in it. -/
  | block (span : Span) (body : BlockGap)
  /-- Conditional arms with the gap in one of them. -/
  | arm (span : Span) (before : List Arm) (cond : Expr) (body : BlockGap) (after : List Arm)
      (otherwise : Option Block)
  /-- Conditional arms with the gap in the block for when no condition holds. -/
  | otherwise (span : Span) (arms : List Arm) (body : BlockGap)
  /-- A loop with the gap in its body. -/
  | whileLoop (span : Span) (cond : Expr) (body : BlockGap)
  /-- A loop with an initializer and a step, and the gap in its body. -/
  | forLoop (span : Span) (init : Option Stmt) (cond : Option Expr) (step : Option Stmt)
      (body : BlockGap)
  /-- A loop with the gap in its initializer. -/
  | initializer (span : Span) (init : Gap) (cond : Option Expr) (step : Option Stmt)
      (body : Block)
  /-- A loop with the gap in its step. -/
  | step (span : Span) (init : Option Stmt) (cond : Option Expr) (step : Gap) (body : Block)

/-- Sequences with a gap. -/
structure SeqGap where
  /-- The statements before the one with the gap. -/
  before : List Stmt
  /-- The statement with the gap. -/
  gap : Gap
  /-- The statements after it. -/
  after : List Stmt

/-- Blocks with a gap. -/
structure BlockGap where
  /-- The statements. -/
  stmts : SeqGap
  /-- Where the block stands. -/
  span : Span

end

/-! ## Filling the gap -/

mutual

/-- The statement with `s` in the gap. -/
def Gap.fill : Gap → Stmt → Stmt
  | .here, s => s
  | .func sp f b, s => .func sp f (b.fill s)
  | .block sp b, s => .block sp (b.fill s)
  | .arm sp before e b after o, s => .ifChain sp (before ++ ⟨e, b.fill s⟩ :: after) o
  | .otherwise sp arms b, s => .ifChain sp arms (some (b.fill s))
  | .whileLoop sp e b, s => .whileLoop sp e (b.fill s)
  | .forLoop sp i e u b, s => .forLoop sp i e u (b.fill s)
  | .initializer sp i e u b, s => .forLoop sp (some (i.fill s)) e u b
  | .step sp i e u b, s => .forLoop sp i e (some (u.fill s)) b

/-- The sequence with `s` in the gap. -/
def SeqGap.fill : SeqGap → Stmt → List Stmt
  | ⟨before, g, after⟩, s => before ++ g.fill s :: after

/-- The block with `s` in the gap. -/
def BlockGap.fill : BlockGap → Stmt → Block
  | ⟨ss, sp⟩, s => ⟨ss.fill s, sp⟩

end

/-! ## Functions of a sequence -/

/-- The header of the function with the gap in its body. -/
def Gap.header? : Gap → Option FuncHeader
  | .func _ f _ => some f
  | _ => none

/-- The functions that the statement with the gap declares to the sequence that it stands in. -/
def Gap.functions (g : Gap) : List Binding := (g.header?.map FuncHeader.binding).toList

/-- The functions that the sequence declares. -/
def SeqGap.functions (g : SeqGap) : List Binding :=
  functionBindings g.before ++ (g.gap.functions ++ functionBindings g.after)

/-- Whatever fills the gap, a statement with a gap declares the same function. -/
theorem Gap.header?_fill {s : Stmt} (hs : s.declared? = none) (g : Gap) :
    (g.fill s).header? = g.header? := by
  cases g with
  | here => cases s <;> first | rfl | nomatch hs
  | _ => rfl

/-- The functions that a statement with a gap declares do not depend on what fills the gap. -/
theorem Gap.functionBindings_fill {s : Stmt} (hs : s.declared? = none) (g : Gap) :
    functionBindings [g.fill s] = g.functions := by
  rw [functions, ← header?_fill hs, functionBindings, List.filterMap_cons]
  cases (g.fill s).header? <;> rfl

/-- The functions that a sequence with a gap declares do not depend on what fills the gap. -/
theorem SeqGap.functionBindings_fill {s : Stmt} (hs : s.declared? = none) (g : SeqGap) :
    functionBindings (g.fill s) = g.functions := by
  obtain ⟨before, g, after⟩ := g
  rw [functions, ← Gap.functionBindings_fill hs]
  simp only [fill, functionBindings, ← List.map_append, ← List.filterMap_append,
    List.singleton_append]

end Procedural
