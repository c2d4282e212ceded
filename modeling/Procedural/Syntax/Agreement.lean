import Procedural.Syntax.Stmt

/-! # Agreement of trees

Two trees **agree** when they have the same shape, names, spans and notes, and their literals agree
(`Literal.agrees`). Reals are compared as numbers, so a tree with a NaN does not agree with itself
and the two zeros are not told apart. -/

namespace Procedural

mutual

/-- Agreement of expressions. -/
def Expr.agrees : Expr → Expr → Bool
  | .lit m v, .lit n w => m == n && v.agrees w
  | .ident m x, .ident n y => m == n && x == y
  | .binary m op l r, .binary n op' l' r' => m == n && op == op' && l.agrees l' && r.agrees r'
  | .unary m op e, .unary n op' e' => m == n && op == op' && e.agrees e'
  | .call m c, .call n d => m == n && c.agrees d
  | _, _ => false

/-- Agreement of calls. -/
def Call.agrees : Call → Call → Bool
  | ⟨f, as, s⟩, ⟨g, bs, t⟩ => f == g && Expr.agreesAll as bs && s == t

/-- Agreement of lists of expressions. -/
def Expr.agreesAll : List Expr → List Expr → Bool
  | [], [] => true
  | a :: as, b :: bs => a.agrees b && Expr.agreesAll as bs
  | _, _ => false

end

/-- Agreement of expressions that may be missing. -/
def Expr.agreesOpt : Option Expr → Option Expr → Bool
  | none, none => true
  | some a, some b => a.agrees b
  | _, _ => false

/-- Agreement of variable declarations. -/
def VarDecl.agrees (a b : VarDecl) : Bool :=
  a.name == b.name && a.ty == b.ty && Expr.agreesOpt a.init b.init && a.span == b.span

mutual

/-- Agreement of statements. -/
def Stmt.agrees : Stmt → Stmt → Bool
  | .var s d, .var t e => s == t && d.agrees e
  | .func s f b, .func t g c => s == t && f == g && b.agrees c
  | .assign s x e, .assign t y e' => s == t && x == y && e.agrees e'
  | .call s c, .call t d => s == t && c.agrees d
  | .after s e c, .after t e' d => s == t && e.agrees e' && c.agrees d
  | .block s b, .block t c => s == t && b.agrees c
  | .ifChain s as o, .ifChain t bs o' => s == t && Arm.agreesAll as bs && Block.agreesOpt o o'
  | .whileLoop s e b, .whileLoop t e' c => s == t && e.agrees e' && b.agrees c
  | .forLoop s i e u b, .forLoop t i' e' u' c =>
    s == t && Stmt.agreesOpt i i' && Expr.agreesOpt e e' && Stmt.agreesOpt u u' && b.agrees c
  | .jump s j, .jump t k => s == t && j == k
  | .ret s e, .ret t e' => s == t && Expr.agreesOpt e e'
  | _, _ => false

/-- Agreement of statements that may be missing. -/
def Stmt.agreesOpt : Option Stmt → Option Stmt → Bool
  | none, none => true
  | some a, some b => a.agrees b
  | _, _ => false

/-- Agreement of sequences. -/
def Stmt.agreesAll : List Stmt → List Stmt → Bool
  | [], [] => true
  | a :: as, b :: bs => a.agrees b && Stmt.agreesAll as bs
  | _, _ => false

/-- Agreement of blocks. -/
def Block.agrees : Block → Block → Bool
  | ⟨as, s⟩, ⟨bs, t⟩ => Stmt.agreesAll as bs && s == t

/-- Agreement of blocks that may be missing. -/
def Block.agreesOpt : Option Block → Option Block → Bool
  | none, none => true
  | some a, some b => a.agrees b
  | _, _ => false

/-- Agreement of lists of arms. -/
def Arm.agreesAll : List Arm → List Arm → Bool
  | [], [] => true
  | ⟨e, b⟩ :: as, ⟨e', b'⟩ :: bs => e.agrees e' && b.agrees b' && Arm.agreesAll as bs
  | _, _ => false

end

/-- Agreement of programs. -/
def Program.agrees (p q : Program) : Bool := Stmt.agreesAll p.stmts q.stmts

end Procedural
