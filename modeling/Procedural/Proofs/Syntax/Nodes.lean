import Procedural.Typing.Stmt
import Mathlib.Algebra.BigOperators.Group.Multiset.Basic
import Mathlib.Tactic.Abel

/-! # Nodes of a tree

The **nodes** of a tree are its statements, declarations, parameters, expressions and calls, at any
depth. `nodes` lists the expressions among them and `calls` the calls; `nodeSpans` counts the spans
of all of them with their multiplicity, so that they are without repetition when no two nodes stand
at the same place. -/

namespace Procedural

/-! ## Expressions -/

mutual

/-- The expressions in an expression, the expression itself first. -/
def Expr.nodes : Expr → List Expr
  | .lit n v => [.lit n v]
  | .ident n x => [.ident n x]
  | .binary n op l r => .binary n op l r :: (l.nodes ++ r.nodes)
  | .unary n op e => .unary n op e :: e.nodes
  | .call n c => .call n c :: c.nodes

/-- The expressions in a call. -/
def Call.nodes : Call → List Expr
  | ⟨_, args, _⟩ => Expr.nodesAll args

/-- The expressions in the expressions of a list. -/
def Expr.nodesAll : List Expr → List Expr
  | [] => []
  | e :: es => e.nodes ++ Expr.nodesAll es

end

mutual

/-- The calls in an expression, each before those in its arguments. -/
def Expr.calls : Expr → List Call
  | .lit _ _ | .ident _ _ => []
  | .binary _ _ l r => l.calls ++ r.calls
  | .unary _ _ e => e.calls
  | .call _ c => c :: c.calls

/-- The calls in the arguments of a call. -/
def Call.calls : Call → List Call
  | ⟨_, args, _⟩ => Expr.callsAll args

/-- The calls in the expressions of a list. -/
def Expr.callsAll : List Expr → List Call
  | [] => []
  | e :: es => e.calls ++ Expr.callsAll es

end

/-- The expressions in an expression that may be missing. -/
def Expr.nodesOpt : Option Expr → List Expr
  | none => []
  | some e => e.nodes

/-- The first node of an expression is the expression itself. -/
theorem Expr.nodes_eq_cons (e : Expr) : e.nodes = e :: e.nodes.tail := by
  cases e <;> rfl

/-- An expression is one of its nodes. -/
theorem Expr.mem_nodes (e : Expr) : e ∈ e.nodes := by
  rw [nodes_eq_cons]
  exact List.mem_cons_self

/-- The type of the root node is not seen from the nodes inside. -/
theorem Expr.nodes_withTy (t : Ty) (e : Expr) :
    (e.withTy t).nodes = e.withTy t :: e.nodes.tail := by
  cases e <;> rfl

mutual

/-- The spans of the nodes of an expression. -/
def Expr.nodeSpans : Expr → Multiset Span
  | .lit n _ | .ident n _ => {n.span}
  | .binary n _ l r => {n.span} + l.nodeSpans + r.nodeSpans
  | .unary n _ e => {n.span} + e.nodeSpans
  | .call n c => {n.span} + c.nodeSpans

/-- The spans of the nodes of a call. -/
def Call.nodeSpans : Call → Multiset Span
  | ⟨_, args, s⟩ => {s} + Expr.nodeSpansAll args

/-- The spans of the nodes of the expressions of a list. -/
def Expr.nodeSpansAll : List Expr → Multiset Span
  | [] => 0
  | e :: es => e.nodeSpans + Expr.nodeSpansAll es

end

/-- Recording a type moves no node. -/
theorem Expr.nodeSpans_withTy (t : Ty) (e : Expr) : (e.withTy t).nodeSpans = e.nodeSpans := by
  cases e <;> rfl

/-- The place of an expression is the place of one of its nodes. -/
theorem Expr.span_mem_nodeSpans (e : Expr) : e.span ∈ e.nodeSpans := by
  have hle : {e.span} ≤ e.nodeSpans := by
    cases e with
    | lit | ident => exact le_rfl
    | binary n op l r =>
      rw [nodeSpans, add_assoc]
      exact Multiset.le_add_right _ _
    | unary | call => exact Multiset.le_add_right _ _
  exact Multiset.singleton_le.1 hle

/-- The spans of the nodes of an expression that may be missing. -/
def Expr.nodeSpansOpt : Option Expr → Multiset Span
  | none => 0
  | some e => e.nodeSpans

/-! ## Statements -/

mutual

/-- The expressions in a statement, in the order in which they are analyzed. -/
def Stmt.nodes : Stmt → List Expr
  | .var _ d => Expr.nodesOpt d.init
  | .func _ _ b | .block _ b => b.nodes
  | .assign _ _ e => e.nodes
  | .call _ c => c.nodes
  | .after _ e c => e.nodes ++ c.nodes
  | .ifChain _ arms o => Arm.nodesAll arms ++ Block.nodesOpt o
  | .whileLoop _ e b => e.nodes ++ b.nodes
  | .forLoop _ i e u b =>
    Stmt.nodesOpt i ++ (Expr.nodesOpt e ++ (b.nodes ++ Stmt.nodesOpt u))
  | .jump _ _ => []
  | .ret _ e => Expr.nodesOpt e

/-- The expressions in a statement that may be missing. -/
def Stmt.nodesOpt : Option Stmt → List Expr
  | none => []
  | some s => s.nodes

/-- The expressions in the statements of a list. -/
def Stmt.nodesAll : List Stmt → List Expr
  | [] => []
  | s :: ss => s.nodes ++ Stmt.nodesAll ss

/-- The expressions in a block. -/
def Block.nodes : Block → List Expr
  | ⟨ss, _⟩ => Stmt.nodesAll ss

/-- The expressions in a block that may be missing. -/
def Block.nodesOpt : Option Block → List Expr
  | none => []
  | some b => b.nodes

/-- The expressions in conditional arms. -/
def Arm.nodesAll : List Arm → List Expr
  | [] => []
  | ⟨e, b⟩ :: arms => e.nodes ++ (b.nodes ++ Arm.nodesAll arms)

end

/-- The expressions in a program. -/
def Program.nodes (p : Program) : List Expr := Stmt.nodesAll p.stmts

/-- The spans of the nodes of a variable declaration. -/
def VarDecl.nodeSpans (d : VarDecl) : Multiset Span := {d.span} + Expr.nodeSpansOpt d.init

/-- The places that bindings are declared at. -/
def bindingSpans (bs : List Binding) : Multiset Span := (bs.map fun b => b.2.span : List Span)

/-- The spans of the parameters of a function. -/
def FuncHeader.paramSpans (f : FuncHeader) : Multiset Span :=
  bindingSpans (f.params.map Param.binding)

mutual

/-- The spans of the nodes of a statement. -/
def Stmt.nodeSpans : Stmt → Multiset Span
  | .var s d => {s} + d.nodeSpans
  | .func s f b => {s} + {f.span} + f.paramSpans + b.nodeSpans
  | .assign s _ e => {s} + e.nodeSpans
  | .call s c => {s} + c.nodeSpans
  | .after s e c => {s} + e.nodeSpans + c.nodeSpans
  | .block s b => {s} + b.nodeSpans
  | .ifChain s arms o => {s} + Arm.nodeSpansAll arms + Block.nodeSpansOpt o
  | .whileLoop s e b => {s} + e.nodeSpans + b.nodeSpans
  | .forLoop s i e u b =>
    {s} + Stmt.nodeSpansOpt i + Expr.nodeSpansOpt e + Stmt.nodeSpansOpt u + b.nodeSpans
  | .jump s _ => {s}
  | .ret s e => {s} + Expr.nodeSpansOpt e

/-- The spans of the nodes of a statement that may be missing. -/
def Stmt.nodeSpansOpt : Option Stmt → Multiset Span
  | none => 0
  | some s => s.nodeSpans

/-- The spans of the nodes of the statements of a list. -/
def Stmt.nodeSpansAll : List Stmt → Multiset Span
  | [] => 0
  | s :: ss => s.nodeSpans + Stmt.nodeSpansAll ss

/-- The spans of the nodes of a block; the block itself is not one of them. -/
def Block.nodeSpans : Block → Multiset Span
  | ⟨ss, _⟩ => Stmt.nodeSpansAll ss

/-- The spans of the nodes of a block that may be missing. -/
def Block.nodeSpansOpt : Option Block → Multiset Span
  | none => 0
  | some b => b.nodeSpans

/-- The spans of the nodes of conditional arms. -/
def Arm.nodeSpansAll : List Arm → Multiset Span
  | [] => 0
  | ⟨e, b⟩ :: arms => e.nodeSpans + b.nodeSpans + Arm.nodeSpansAll arms

end

/-- The spans of the nodes of a program. -/
def Program.nodeSpans (p : Program) : Multiset Span := Stmt.nodeSpansAll p.stmts

/-! ## Functions of a sequence -/

/-- The spans of the nodes of a statement except that of the function that it declares. -/
def Stmt.innerSpans : Stmt → Multiset Span
  | .func s f b => {s} + f.paramSpans + b.nodeSpans
  | s => s.nodeSpans

/-- The places in a statement are those of the function that it declares and those inside it. -/
theorem Stmt.nodeSpans_eq (s : Stmt) :
    s.nodeSpans = bindingSpans (functionBindings [s]) + s.innerSpans := by
  cases s with
  | func sp f b =>
    have hheader : bindingSpans (functionBindings [.func sp f b]) = {f.span} := rfl
    rw [hheader, nodeSpans, innerSpans]
    abel
  | _ => exact (zero_add _).symm

/-- The functions that a sequence declares stand at nodes of it, apart from all that is inside. -/
theorem Stmt.nodeSpansAll_eq (ss : List Stmt) :
    Stmt.nodeSpansAll ss =
      bindingSpans (functionBindings ss) + (ss.map Stmt.innerSpans).sum := by
  induction ss with
  | nil => rfl
  | cons s ss ih =>
    have hheaders : bindingSpans (functionBindings (s :: ss)) =
        bindingSpans (functionBindings [s]) + bindingSpans (functionBindings ss) := by
      rw [functionBindings, List.filterMap_cons]
      cases s <;> rfl
    rw [Stmt.nodeSpansAll, s.nodeSpans_eq, ih, hheaders, List.map_cons, List.sum_cons]
    abel

end Procedural
