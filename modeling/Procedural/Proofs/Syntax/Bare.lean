import Procedural.Syntax.Stmt

/-! # Trees without types

The **bare** form of a tree records no types in its notes. Two trees have the same bare form when
they are the same except for the types found for their expressions. -/

namespace Procedural

/-- The note without a type. -/
def Note.bare (n : Note) : Note := { n with ty := none }

/-! ## Expressions -/

mutual

/-- The bare form of an expression. -/
def Expr.bare : Expr → Expr
  | .lit n v => .lit n.bare v
  | .ident n x => .ident n.bare x
  | .binary n op l r => .binary n.bare op l.bare r.bare
  | .unary n op e => .unary n.bare op e.bare
  | .call n c => .call n.bare c.bare

/-- The bare form of a call. -/
def Call.bare : Call → Call
  | ⟨f, args, s⟩ => ⟨f, Expr.bareAll args, s⟩

/-- The bare forms of the expressions of a list. -/
def Expr.bareAll : List Expr → List Expr
  | [] => []
  | e :: es => e.bare :: Expr.bareAll es

end

/-- The type of the root node is not part of the bare form. -/
@[simp] theorem Expr.bare_withTy (e : Expr) (t : Ty) : (e.withTy t).bare = e.bare := by
  cases e <;> rfl

/-! ## Statements -/

/-- The bare form of a variable declaration. -/
def VarDecl.bare (d : VarDecl) : VarDecl := { d with init := d.init.map Expr.bare }

mutual

/-- The bare form of a statement. -/
def Stmt.bare : Stmt → Stmt
  | .var s d => .var s d.bare
  | .func s f b => .func s f b.bare
  | .assign s x e => .assign s x e.bare
  | .call s c => .call s c.bare
  | .after s e c => .after s e.bare c.bare
  | .block s b => .block s b.bare
  | .ifChain s arms o => .ifChain s (Arm.bareAll arms) (Block.bareOpt o)
  | .whileLoop s e b => .whileLoop s e.bare b.bare
  | .forLoop s i e u b =>
    .forLoop s (Stmt.bareOpt i) (e.map Expr.bare) (Stmt.bareOpt u) b.bare
  | .jump s j => .jump s j
  | .ret s e => .ret s (e.map Expr.bare)

/-- The bare form of a statement that may be missing. -/
def Stmt.bareOpt : Option Stmt → Option Stmt
  | none => none
  | some s => some s.bare

/-- The bare forms of the statements of a list. -/
def Stmt.bareAll : List Stmt → List Stmt
  | [] => []
  | s :: ss => s.bare :: Stmt.bareAll ss

/-- The bare form of a block. -/
def Block.bare : Block → Block
  | ⟨ss, s⟩ => ⟨Stmt.bareAll ss, s⟩

/-- The bare form of a block that may be missing. -/
def Block.bareOpt : Option Block → Option Block
  | none => none
  | some b => some b.bare

/-- The bare forms of conditional arms. -/
def Arm.bareAll : List Arm → List Arm
  | [] => []
  | ⟨e, b⟩ :: arms => ⟨e.bare, b.bare⟩ :: Arm.bareAll arms

end

/-- The bare form of a program. -/
def Program.bare (p : Program) : Program := ⟨Stmt.bareAll p.stmts⟩

/-- The bare form of a list holds the bare form of each statement. -/
@[simp] theorem Stmt.bareAll_eq_map (ss : List Stmt) : Stmt.bareAll ss = ss.map Stmt.bare := by
  induction ss with
  | nil => rfl
  | cons s ss ih => simp [Stmt.bareAll, ih]

/-- The bare form of a clause that may be missing, as a list. -/
theorem Stmt.bareAll_toList (o : Option Stmt) :
    Stmt.bareAll o.toList = (Stmt.bareOpt o).toList := by
  cases o <;> rfl

/-- Which functions are declared does not depend on types found. -/
@[simp] theorem Stmt.header?_bare (s : Stmt) : s.bare.header? = s.header? := by
  cases s <;> rfl

end Procedural
