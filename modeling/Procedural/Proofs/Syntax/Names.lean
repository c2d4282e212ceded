import Procedural.Typing.Stmt

/-! # Names in a tree

The names that occur in a tree, as what is read, assigned to, called or declared. -/

namespace Procedural

/-! ## Expressions -/

mutual

/-- The names that occur in an expression. -/
def Expr.names : Expr → List String
  | .lit _ _ => []
  | .ident _ x => [x]
  | .binary _ _ l r => l.names ++ r.names
  | .unary _ _ e => e.names
  | .call _ c => c.names

/-- The names that occur in a call. -/
def Call.names : Call → List String
  | ⟨f, args, _⟩ => f :: Expr.namesAll args

/-- The names that occur in the expressions of a list. -/
def Expr.namesAll : List Expr → List String
  | [] => []
  | e :: es => e.names ++ Expr.namesAll es

end

/-- The names that occur in an expression that may be missing. -/
def Expr.namesOpt : Option Expr → List String
  | none => []
  | some e => e.names

/-! ## Statements -/

/-- The names that occur in a variable declaration. -/
def VarDecl.names (d : VarDecl) : List String := d.name :: Expr.namesOpt d.init

/-- The names of a function and of its parameters. -/
def FuncHeader.names (f : FuncHeader) : List String := f.name :: f.params.map (·.name)

mutual

/-- The names that occur in a statement. -/
def Stmt.names : Stmt → List String
  | .var _ d => d.names
  | .func _ f b => f.names ++ b.names
  | .assign _ x e => x :: e.names
  | .call _ c => c.names
  | .after _ e c => e.names ++ c.names
  | .block _ b => b.names
  | .ifChain _ arms o => Arm.namesAll arms ++ Block.namesOpt o
  | .whileLoop _ e b => e.names ++ b.names
  | .forLoop _ i e u b => Stmt.namesOpt i ++ (Expr.namesOpt e ++ (b.names ++ Stmt.namesOpt u))
  | .jump _ _ => []
  | .ret _ e => Expr.namesOpt e

/-- The names that occur in a statement that may be missing. -/
def Stmt.namesOpt : Option Stmt → List String
  | none => []
  | some s => s.names

/-- The names that occur in the statements of a list. -/
def Stmt.namesAll : List Stmt → List String
  | [] => []
  | s :: ss => s.names ++ Stmt.namesAll ss

/-- The names that occur in a block. -/
def Block.names : Block → List String
  | ⟨ss, _⟩ => Stmt.namesAll ss

/-- The names that occur in a block that may be missing. -/
def Block.namesOpt : Option Block → List String
  | none => []
  | some b => b.names

/-- The names that occur in conditional arms. -/
def Arm.namesAll : List Arm → List String
  | [] => []
  | ⟨e, b⟩ :: arms => e.names ++ (b.names ++ Arm.namesAll arms)

end

/-! ## Declared names -/

/-- The names of parameters occur in the header of the function. -/
theorem mem_names_of_param {f : FuncHeader} {b : Binding}
    (hb : b ∈ f.params.map Param.binding) : b.1 ∈ f.names := by
  obtain ⟨q, hq, rfl⟩ := List.mem_map.1 hb
  exact List.mem_cons_of_mem _ (List.mem_map_of_mem hq)

/-- The names of the functions of a sequence occur in it. -/
theorem mem_namesAll_of_function {ss : List Stmt} {b : Binding}
    (hb : b ∈ functionBindings ss) : b.1 ∈ Stmt.namesAll ss := by
  obtain ⟨f, hf, rfl⟩ := List.mem_map.1 hb
  obtain ⟨sp, body, hs⟩ := Stmt.exists_func_of_mem_headers hf
  have hname : f.name ∈ (Stmt.func sp f body).names := List.mem_append_left _ List.mem_cons_self
  clear hb hf
  induction ss with
  | nil => cases hs
  | cons s' ss ih =>
    rcases List.mem_cons.1 hs with rfl | hs
    · exact List.mem_append_left _ hname
    · exact List.mem_append_right _ (ih hs)

end Procedural
