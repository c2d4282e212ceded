import Procedural.Literal
import Procedural.Span

/-! # Expressions

Trees of literals, names, operators and calls. Every node carries a **note**: where it stands in the
source and, once it has been analyzed, its type. Calls are a sort of their own, because statements
hold them too. -/

namespace Procedural

/-- What a tree node records besides its structure. -/
structure Note where
  /-- Where the node stands. -/
  span : Span
  /-- The type found for the node, absent until it has been analyzed. -/
  ty : Option Ty
deriving DecidableEq, Repr, Inhabited

mutual

/-- Expressions. -/
inductive Expr where
  /-- A value written out. -/
  | lit (note : Note) (value : Literal)
  /-- The value of a named variable or parameter. -/
  | ident (note : Note) (name : String)
  /-- A binary operator and its operands. -/
  | binary (note : Note) (op : BinaryOp) (left right : Expr)
  /-- A unary operator and its operand. -/
  | unary (note : Note) (op : UnaryOp) (operand : Expr)
  /-- The result of a call. -/
  | call (note : Note) (call : Call)

/-- Calls of a named function. -/
structure Call where
  /-- The name of the function. -/
  callee : String
  /-- The arguments, first to last. -/
  args : List Expr
  /-- Where the call stands. -/
  span : Span

end

namespace Expr

/-- The note of the root node. -/
def note : Expr → Note
  | lit n _ | ident n _ | binary n _ _ _ | unary n _ _ | call n _ => n

/-- Where the expression stands. -/
def span (e : Expr) : Span := e.note.span

/-- The type found for the expression, if it has been analyzed. -/
def ty? (e : Expr) : Option Ty := e.note.ty

/-- The expression with `t` as the type of its root node. -/
def withTy (t : Ty) : Expr → Expr
  | lit n v => lit { n with ty := some t } v
  | ident n x => ident { n with ty := some t } x
  | binary n op l r => binary { n with ty := some t } op l r
  | unary n op e => unary { n with ty := some t } op e
  | call n c => call { n with ty := some t } c

/-- The type that is recorded is the type found. -/
@[simp] theorem ty?_withTy (t : Ty) (e : Expr) : (e.withTy t).ty? = some t := by
  cases e <;> rfl

/-- Recording a type moves nothing. -/
@[simp] theorem span_withTy (t : Ty) (e : Expr) : (e.withTy t).span = e.span := by
  cases e <;> rfl

/-- The literal, of an expression that is one. -/
def literal? : Expr → Option Literal
  | lit _ v => some v
  | _ => none

/-- The truth value of an expression that is a boolean literal. -/
def bool? (e : Expr) : Option Bool := e.literal?.bind Literal.bool?

/-- The literal `v` standing at `s`, with its type. -/
def ofLiteral (s : Span) (v : Literal) : Expr := lit ⟨s, some v.ty⟩ v

end Expr

end Procedural
