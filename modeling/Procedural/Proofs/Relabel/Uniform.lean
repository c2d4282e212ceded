import Procedural.Proofs.Relabel.Analysis
import Procedural.Proofs.Simplify.Survivors

/-! # Names and places do not matter

Simplification looks at literals and at the shape of trees, never at names or places, so it commutes
with every relabeling. Together with the analysis of relabeled trees: what is done with a program is
the same for all choices of its names and places.

* `Relabeling.simplify_program`: simplifying a relabeled program.
* `analysis_and_simplify_relabeled`: the statement for the analysis and for simplification. -/

namespace Procedural

namespace Relabeling

variable (m : Relabeling)

/-! ## Folding -/

/-- Folding a unary operator does not depend on names and places. -/
theorem foldUnary_expr (n : Note) (op : UnaryOp) (e : Expr) :
    foldUnary (m.note n) op (m.expr e) = m.expr (foldUnary n op e) := by
  rw [foldUnary, literal?_expr, foldUnary]
  split <;> rfl

/-- A short circuit does not depend on names and places. -/
theorem shortCircuit_expr (n : Note) (op : BinaryOp) (l r : Expr) :
    shortCircuit (m.note n) op (m.expr l) (m.expr r) = m.expr (shortCircuit n op l r) := by
  rw [shortCircuit.eq_def, bool?_expr, shortCircuit.eq_def]
  cases op with
  | logic op =>
    cases l.bool? with
    | none => rfl
    | some b => exact (apply_ite m.expr (b = op.decisive) l r).symm
  | _ => rfl

/-- Folding a binary operator does not depend on names and places. -/
theorem foldBinary_expr (n : Note) (op : BinaryOp) (l r : Expr) :
    foldBinary (m.note n) op (m.expr l) (m.expr r) = m.expr (foldBinary n op l r) := by
  rw [foldBinary, literal?_expr, literal?_expr, shortCircuit_expr, foldBinary]
  cases l.literal? with
  | none => rfl
  | some v =>
    cases r.literal? with
    | none => rfl
    | some w =>
      dsimp only
      cases Literal.binary? op v w <;> rfl

mutual

/-- Folding does not look at names and places. -/
theorem fold_expr : ∀ e : Expr, (m.expr e).fold = m.expr e.fold
  | .lit _ _ => rfl
  | .ident _ _ => rfl
  | .binary n op l r => by
    rw [expr, Expr.fold, fold_expr l, fold_expr r, foldBinary_expr, Expr.fold]
  | .unary n op e => by rw [expr, Expr.fold, fold_expr e, foldUnary_expr, Expr.fold]
  | .call n c => by rw [expr, Expr.fold, fold_call c, Expr.fold, expr]

/-- Folding the relabeled call gives the folded call, relabeled. -/
theorem fold_call : ∀ c : Call, (m.call c).fold = m.call c.fold
  | ⟨f, args, s⟩ => by rw [call, Call.fold, foldAll_exprs args, Call.fold, call]

/-- Folding relabeled expressions gives the folded ones, relabeled. -/
theorem foldAll_exprs : ∀ es : List Expr, foldAll (m.exprs es) = m.exprs (foldAll es)
  | [] => rfl
  | e :: es => by rw [exprs, foldAll, fold_expr e, foldAll_exprs es, foldAll, exprs]

end

/-- Folding a relabeled optional expression gives the folded one, relabeled. -/
theorem map_fold_expr (o : Option Expr) :
    (o.map m.expr).map Expr.fold = (o.map Expr.fold).map m.expr := by
  cases o with
  | none => rfl
  | some e => exact congrArg some (m.fold_expr e)

/-- Folding a relabeled variable declaration gives the folded one, relabeled. -/
theorem fold_varDecl (d : VarDecl) : (m.varDecl d).fold = m.varDecl d.fold :=
  congrArg (VarDecl.mk (m.name d.name) d.ty · (m.place d.span)) (m.map_fold_expr d.init)

/-! ## Sequences -/

/-- A relabeled statement ends its sequence if the statement does. -/
theorem isTerminator_stmt (s : Stmt) : (m.stmt s).isTerminator = s.isTerminator := by
  cases s <;> rfl

/-- A relabeled statement is a function if the statement is. -/
theorem isFunction_stmt (s : Stmt) : (m.stmt s).isFunction = s.isFunction := by
  cases s <;> rfl

/-- A relabeled statement is an empty block if the statement is. -/
theorem isEmptyBlock_stmt (s : Stmt) : (m.stmt s).isEmptyBlock = s.isEmptyBlock := by
  cases s with
  | block _ b =>
    obtain ⟨ss, _⟩ := b
    cases ss <;> rfl
  | _ => rfl

/-- Tidying relabeled statements gives the tidied ones, relabeled. -/
theorem tidy_stmts (cut : Bool) (ss : List Stmt) :
    tidy cut (m.stmts ss) = m.stmts (tidy cut ss) := by
  rw [stmts_eq_map, stmts_eq_map]
  exact tidy_map m.isEmptyBlock_stmt m.isTerminator_stmt m.isFunction_stmt cut ss

/-! ## Choices and loops -/

/-- The arms that can be chosen are the same ones after relabeling. -/
theorem choosable_arms (as : List Arm) (o : Option Block) :
    choosable (m.arms as) (m.blockOpt o) =
      (m.arms (choosable as o).1, m.blockOpt (choosable as o).2) := by
  induction as with
  | nil => rfl
  | cons a as ih =>
    obtain ⟨e, b⟩ := a
    rw [arms, choosable, bool?_expr, ih, choosable]
    dsimp only
    cases e.bool? with
    | none => rfl
    | some value => cases value <;> rfl

/-- The choice among relabeled arms gives the choice, relabeled. -/
theorem choice_arms (s : Span) (as : List Arm) (o : Option Block) :
    choice (m.place s) (m.arms as) (m.blockOpt o) = m.stmt (choice s as o) := by
  rw [choice, choosable_arms, choice]
  -- which statement it becomes depends on the shape of what can be chosen
  generalize choosable as o = chosen
  obtain ⟨as, o⟩ := chosen
  cases as with
  | nil => cases o <;> rfl
  | cons a as =>
    obtain ⟨e, b⟩ := a
    show (if (m.expr e).bool? = some true then _ else _) =
      m.stmt (if e.bool? = some true then _ else _)
    rw [bool?_expr]
    split <;> rfl

/-- A relabeled loop is removed or kept as the loop is. -/
theorem roundsWhile_stmt (s : Span) (e : Expr) (b : Block) :
    roundsWhile (m.place s) (m.expr e) (m.block b) = m.stmt (roundsWhile s e b) := by
  rw [roundsWhile, bool?_expr, roundsWhile]
  split <;> rfl

/-- A relabeled loop with clauses is removed or kept as the loop is. -/
theorem roundsFor_stmt (s : Span) (i : Option Stmt) (e : Option Expr) (u : Option Stmt)
    (b : Block) :
    roundsFor (m.place s) (m.stmtOpt i) (e.map m.expr) (m.stmtOpt u) (m.block b) =
      m.stmt (roundsFor s i e u b) := by
  have hcond : (e.map m.expr).bind Expr.bool? = e.bind Expr.bool? := by
    cases e with
    | none => rfl
    | some e => exact m.bool?_expr e
  rw [roundsFor, hcond, roundsFor]
  split
  · cases i <;> rfl
  · rfl

/-! ## Whole trees -/

mutual

/-- Simplification does not look at names and places. -/
theorem simplify_stmt (cut : Bool) : ∀ s : Stmt, (m.stmt s).simplify cut = m.stmt (s.simplify cut)
  | .var _ d => congrArg (Stmt.var _) (m.fold_varDecl d)
  | .func _ _ b => congrArg (Stmt.func _ _) (simplify_block cut b)
  | .assign _ _ e => congrArg (Stmt.assign _ _) (m.fold_expr e)
  | .call _ c => congrArg (Stmt.call _) (m.fold_call c)
  | .after _ e c => congrArg₂ (Stmt.after _) (m.fold_expr e) (m.fold_call c)
  | .block _ b => congrArg (Stmt.block _) (simplify_block cut b)
  | .ifChain s as o => by
    rw [stmt, Stmt.simplify, simplify_arms cut as, simplify_blockOpt cut o, choice_arms,
      Stmt.simplify]
  | .whileLoop s e b => by
    rw [stmt, Stmt.simplify, fold_expr, simplify_block cut b, roundsWhile_stmt, Stmt.simplify]
  | .forLoop s i e u b => by
    rw [stmt, Stmt.simplify, simplify_stmtOpt cut i, map_fold_expr, simplify_stmtOpt cut u,
      simplify_block cut b, roundsFor_stmt, Stmt.simplify]
  | .jump _ _ => rfl
  | .ret _ e => congrArg (Stmt.ret _) (m.map_fold_expr e)

/-- Simplifying the relabeled initializer or step gives the simplified one, relabeled. -/
theorem simplify_stmtOpt (cut : Bool) : ∀ o : Option Stmt,
    simplifyStmtOpt cut (m.stmtOpt o) = m.stmtOpt (simplifyStmtOpt cut o)
  | none => rfl
  | some s => congrArg some (simplify_stmt cut s)

/-- Simplifying relabeled statements gives the simplified ones, relabeled. -/
theorem simplify_stmts (cut : Bool) : ∀ ss : List Stmt,
    simplifyAll cut (m.stmts ss) = m.stmts (simplifyAll cut ss)
  | [] => rfl
  | s :: ss => congrArg₂ List.cons (simplify_stmt cut s) (simplify_stmts cut ss)

/-- Simplifying the relabeled block gives the simplified block, relabeled. -/
theorem simplify_block (cut : Bool) : ∀ b : Block,
    (m.block b).simplify cut = m.block (b.simplify cut)
  | ⟨ss, s⟩ => by
    rw [block, Block.simplify, simplify_stmts cut ss, tidy_stmts, Block.simplify, block]

/-- Simplifying the relabeled optional block gives the simplified one, relabeled. -/
theorem simplify_blockOpt (cut : Bool) : ∀ o : Option Block,
    simplifyBlockOpt cut (m.blockOpt o) = m.blockOpt (simplifyBlockOpt cut o)
  | none => rfl
  | some b => congrArg some (simplify_block cut b)

/-- Simplifying relabeled conditional arms gives the simplified ones, relabeled. -/
theorem simplify_arms (cut : Bool) : ∀ as : List Arm,
    simplifyArms cut (m.arms as) = m.arms (simplifyArms cut as)
  | [] => rfl
  | ⟨e, b⟩ :: as =>
    congrArg₂ List.cons (congrArg₂ Arm.mk (m.fold_expr e) (simplify_block cut b))
      (simplify_arms cut as)

end

/-- A relabeled program is simplified as the program is. -/
theorem simplify_program (cut : Bool) (p : Program) :
    (m.program p).simplify cut = m.program (p.simplify cut) := by
  rw [program, Program.simplify, simplify_stmts, tidy_stmts]
  rfl

end Relabeling

/-! ## Main result -/

/-- For every program and all other names and places for it, the analysis gives the relabeled
annotated program and the relabeled diagnostics in the same order, and simplifying gives the
relabeled simplified program. -/
theorem analysis_and_simplify_relabeled (m : Relabeling) (p : Program) :
    (∃ a, p.analysis = .ok a ∧ (m.program p).analysis = .ok (m.analysis a)) ∧
      ∀ cut, (m.program p).simplify cut = m.program (p.simplify cut) := by
  obtain ⟨q, c, -, hok⟩ := p.analysis_ok
  exact ⟨⟨_, hok, m.analysis_relabeled hok⟩, fun cut => m.simplify_program cut p⟩

/-- The program `f(true); void f(int x) { return; rest }`, with `t` as the type of the argument. -/
def wrongArgument (t : Option Ty) (rest : List Stmt) : Program :=
  ⟨[.call ⟨0, 8⟩ ⟨"f", [.lit ⟨⟨2, 6⟩, t⟩ (.bool true)], ⟨0, 7⟩⟩,
    .func ⟨9, 40⟩ ⟨"f", [⟨"x", .int, ⟨16, 21⟩⟩], .void, ⟨9, 22⟩⟩
      ⟨.ret ⟨24, 31⟩ none :: rest, ⟨23, 40⟩⟩]⟩

/-- With the prefix `my` before all names and every place three bytes further on, the reports quote
the new names at the new places, and the same call is cut off. -/
theorem analysis_and_simplify_prefixed :
    let m := Relabeling.prefixed "my" 3
    let rest : List Stmt := [.call ⟨32, 36⟩ ⟨"g", [], ⟨32, 35⟩⟩]
    (m.program (wrongArgument none rest)).analysis =
        .ok ⟨m.program (wrongArgument (some .error) rest),
          [⟨.typeMismatch "argument 1 of 'myf'" .int .bool, some ⟨5, 9⟩⟩,
            ⟨.undeclaredIdentifier "myg", some ⟨35, 38⟩⟩]⟩ ∧
      (m.program (wrongArgument none rest)).simplify true =
        m.program (wrongArgument none []) := by
  intro m rest
  obtain ⟨⟨a, ha, hrelabeled⟩, hsimplify⟩ :=
    analysis_and_simplify_relabeled m (wrongArgument none rest)
  have hplain : (wrongArgument none rest).analysis = .ok ⟨wrongArgument (some .error) rest,
      [⟨.typeMismatch "argument 1 of 'f'" .int .bool, some ⟨2, 6⟩⟩,
        ⟨.undeclaredIdentifier "g", some ⟨32, 35⟩⟩]⟩ := rfl
  obtain rfl := Except.ok.inj (ha.symm.trans hplain)
  have hlog : m.log [⟨.typeMismatch "argument 1 of 'f'" .int .bool, some ⟨2, 6⟩⟩,
      ⟨.undeclaredIdentifier "g", some ⟨32, 35⟩⟩] =
    [⟨.typeMismatch "argument 1 of 'myf'" .int .bool, some ⟨5, 9⟩⟩,
      ⟨.undeclaredIdentifier "myg", some ⟨35, 38⟩⟩] := by decide
  rw [Relabeling.analysis, hlog] at hrelabeled
  exact ⟨hrelabeled, hsimplify true⟩

end Procedural
