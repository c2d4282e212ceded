import Procedural.Compile
import Procedural.Proofs.Syntax.Bare

/-! # Analysis starts from bare trees

The types that an earlier analysis left in a tree are not read: a tree and its bare form are
analyzed in the same way. -/

namespace Procedural

/-! ## Expressions -/

mutual

/-- The bare form of an expression is analyzed as the expression is. -/
theorem Expr.analyze_bare : ∀ e : Expr, e.bare.analyze = e.analyze
  | .lit _ _ => rfl
  | .ident _ _ => rfl
  | .binary _ _ l r => by
    rw [Expr.bare, Expr.analyze, Expr.analyze, Expr.analyze_bare l, Expr.analyze_bare r]
    rfl
  | .unary _ _ e => by
    rw [Expr.bare, Expr.analyze, Expr.analyze, Expr.analyze_bare e]
    rfl
  | .call _ c => by
    rw [Expr.bare, Expr.analyze, Expr.analyze, Call.analyze_bare c]
    rfl

/-- The bare form of a call is analyzed as the call is. -/
theorem Call.analyze_bare : ∀ c : Call, c.bare.analyze = c.analyze
  | ⟨_, args, _⟩ => by
    rw [Call.bare, Call.analyze, Call.analyze, analyzeAll_bareAll args]

/-- The bare forms of several expressions are analyzed as the expressions are. -/
theorem analyzeAll_bareAll : ∀ es : List Expr, analyzeAll (Expr.bareAll es) = analyzeAll es
  | [] => rfl
  | e :: es => by
    rw [Expr.bareAll, analyzeAll, analyzeAll, Expr.analyze_bare e, analyzeAll_bareAll es]

end

/-- Bare forms have to meet demands as the expressions do. -/
theorem Expr.analyzeFor_bare (e : Expr) (d : Demand) : e.bare.analyzeFor d = e.analyzeFor d := by
  rw [Expr.analyzeFor, Expr.analyze_bare, Expr.analyzeFor]

/-- The bare form of an expression that may be missing has to meet the same demand. -/
theorem analyzeForOpt_bare (d : Demand) (o : Option Expr) :
    analyzeForOpt d (o.map Expr.bare) = analyzeForOpt d o := by
  cases o with
  | none => rfl
  | some e => rw [Option.map_some, analyzeForOpt, analyzeForOpt, Expr.analyzeFor_bare]

/-! ## Statements -/

/-- The bare form of a variable declaration is analyzed as the declaration is. -/
theorem VarDecl.analyze_bare (d : VarDecl) : d.bare.analyze = d.analyze := by
  rw [VarDecl.analyze, VarDecl.analyze, VarDecl.bare, analyzeForOpt_bare]
  rfl

/-- The bare form of a value is assigned as the value is. -/
theorem analyzeAssign_bare (x : String) (e : Expr) (s : Span) :
    analyzeAssign x e.bare s = analyzeAssign x e s := by
  rw [analyzeAssign, Expr.analyze_bare, analyzeAssign]

/-- The bare form of a value is returned as the value is. -/
theorem analyzeReturn_bare (o : Option Expr) (s : Span) :
    analyzeReturn (o.map Expr.bare) s = analyzeReturn o s := by
  cases o with
  | none => rfl
  | some e =>
    -- which branch is taken depends on the context, so the two are compared in each context
    refine congrArg (get >>= ·) (funext fun ctx => ?_)
    cases ctx.returns with
    | none => simp only [Option.map_some, Expr.analyze_bare]
    | some t => cases t <;> simp only [Option.map_some, Expr.analyze_bare, Expr.analyzeFor_bare]

/-- The functions of a sequence are those of its bare form. -/
theorem functionBindings_bareAll (ss : List Stmt) :
    functionBindings (Stmt.bareAll ss) = functionBindings ss := by
  have h : Stmt.header? ∘ Stmt.bare = Stmt.header? := funext Stmt.header?_bare
  rw [functionBindings, Stmt.bareAll_eq_map, List.filterMap_map, h, functionBindings]

mutual

/-- The bare form of a statement is analyzed as the statement is. -/
theorem Stmt.analyzeIn_bare (declared : Bool) :
    ∀ s : Stmt, s.bare.analyzeIn declared = s.analyzeIn declared
  | .var s d => by rw [Stmt.bare, Stmt.analyzeIn, Stmt.analyzeIn, VarDecl.analyze_bare]
  | .func s f ⟨body, t⟩ => by
    rw [Stmt.bare, Block.bare, Stmt.analyzeIn, Stmt.analyzeIn, functionBindings_bareAll,
      analyzeAllIn_bareAll body]
  | .assign s x e => by rw [Stmt.bare, Stmt.analyzeIn, Stmt.analyzeIn, analyzeAssign_bare]
  | .call s c => by rw [Stmt.bare, Stmt.analyzeIn, Stmt.analyzeIn, Call.analyze_bare]
  | .after s e c => by
    rw [Stmt.bare, Stmt.analyzeIn, Stmt.analyzeIn, Expr.analyzeFor_bare, Call.analyze_bare]
  | .block s b => by rw [Stmt.bare, Stmt.analyzeIn, Stmt.analyzeIn, Block.analyze_bare b]
  | .ifChain s arms o => by
    rw [Stmt.bare, Stmt.analyzeIn, Stmt.analyzeIn, analyzeArms_bareAll arms,
      analyzeBlockOpt_bareOpt o]
  | .whileLoop s e b => by
    rw [Stmt.bare, Stmt.analyzeIn, Stmt.analyzeIn, Expr.analyzeFor_bare, Block.analyze_bare b]
  | .forLoop s i e u b => by
    rw [Stmt.bare, Stmt.analyzeIn, Stmt.analyzeIn, analyzeStmtOpt_bareOpt i, analyzeForOpt_bare,
      analyzeStmtOpt_bareOpt u, Block.analyze_bare b]
  | .jump _ _ => rfl
  | .ret s e => by rw [Stmt.bare, Stmt.analyzeIn, Stmt.analyzeIn, analyzeReturn_bare]

/-- The bare form of a clause that may be missing is analyzed as the clause is. -/
theorem analyzeStmtOpt_bareOpt : ∀ o : Option Stmt,
    analyzeStmtOpt (Stmt.bareOpt o) = analyzeStmtOpt o
  | none => rfl
  | some s => by rw [Stmt.bareOpt, analyzeStmtOpt, analyzeStmtOpt, Stmt.analyzeIn_bare false s]

/-- The bare forms of several statements are analyzed as the statements are. -/
theorem analyzeAllIn_bareAll : ∀ ss : List Stmt, analyzeAllIn (Stmt.bareAll ss) = analyzeAllIn ss
  | [] => rfl
  | s :: ss => by
    rw [Stmt.bareAll, analyzeAllIn, analyzeAllIn, Stmt.analyzeIn_bare true s,
      analyzeAllIn_bareAll ss]

/-- The bare form of a block is analyzed as the block is. -/
theorem Block.analyze_bare : ∀ b : Block, b.bare.analyze = b.analyze
  | ⟨ss, s⟩ => by
    rw [Block.bare, Block.analyze, Block.analyze, functionBindings_bareAll,
      analyzeAllIn_bareAll ss]

/-- The bare form of a block that may be missing is analyzed as the block is. -/
theorem analyzeBlockOpt_bareOpt : ∀ o : Option Block,
    analyzeBlockOpt (Block.bareOpt o) = analyzeBlockOpt o
  | none => rfl
  | some b => by rw [Block.bareOpt, analyzeBlockOpt, analyzeBlockOpt, Block.analyze_bare b]

/-- The bare forms of conditional arms are analyzed as the arms are. -/
theorem analyzeArms_bareAll : ∀ arms : List Arm, analyzeArms (Arm.bareAll arms) = analyzeArms arms
  | [] => rfl
  | ⟨e, b⟩ :: arms => by
    rw [Arm.bareAll, analyzeArms, analyzeArms, Expr.analyzeFor_bare, Block.analyze_bare b,
      analyzeArms_bareAll arms]

end

/-- The bare form of a program is analyzed as the program is. -/
theorem Program.analyze_bare (p : Program) : p.bare.analyze = p.analyze := by
  rw [Program.analyze, Program.analyze, analyzeSequence, analyzeSequence, Program.bare,
    functionBindings_bareAll, analyzeAllIn_bareAll]

/-- The analysis of a program depends on its bare form alone. -/
theorem Program.analysis_bare (p : Program) : p.bare.analysis = p.analysis := by
  rw [Program.analysis, Program.analysis, Program.analyze_bare]

end Procedural
