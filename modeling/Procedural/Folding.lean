import Procedural.Syntax.Expr

/-! # Constant folding

`Expr.fold` works from the leaves to the root and replaces an operator on literals by the literal of
its result, wherever `Literal.unary?` and `Literal.binary?` give one. A logic operator with a
boolean literal on its left becomes one of its operands: the left one if that is decisive, since the
right one is then never evaluated, and the right one otherwise. -/

namespace Procedural

/-- A unary operator on a folded operand. -/
def foldUnary (n : Note) (op : UnaryOp) (e : Expr) : Expr :=
  match e.literal?.bind (Literal.unary? op) with
  | some v => .ofLiteral n.span v
  | none => .unary n op e

/-- A binary operator on operands that are not both literals: a boolean literal on the left of a
logic operator settles which operand is the result. -/
def shortCircuit (n : Note) (op : BinaryOp) (l r : Expr) : Expr :=
  match op, l.bool? with
  | .logic op, some b => if b = op.decisive then l else r
  | op, _ => .binary n op l r

/-- A binary operator on folded operands. -/
def foldBinary (n : Note) (op : BinaryOp) (l r : Expr) : Expr :=
  match l.literal?, r.literal? with
  | some v, some w =>
    match Literal.binary? op v w with
    | some u => .ofLiteral n.span u
    | none => .binary n op l r
  | _, _ => shortCircuit n op l r

mutual

/-- The expression with its constant parts evaluated. -/
def Expr.fold : Expr → Expr
  | .lit n v => .lit n v
  | .ident n x => .ident n x
  | .binary n op l r => foldBinary n op l.fold r.fold
  | .unary n op e => foldUnary n op e.fold
  | .call n c => .call n c.fold

/-- The call with every argument folded. -/
def Call.fold : Call → Call
  | ⟨f, args, s⟩ => ⟨f, foldAll args, s⟩

/-- Every expression of a list, folded. -/
def foldAll : List Expr → List Expr
  | [] => []
  | e :: es => e.fold :: foldAll es

end

/-- Folding a list folds its members. -/
@[simp] theorem foldAll_eq_map (es : List Expr) : foldAll es = es.map Expr.fold := by
  induction es with
  | nil => rfl
  | cons e es ih => simp [foldAll, ih]

end Procedural
