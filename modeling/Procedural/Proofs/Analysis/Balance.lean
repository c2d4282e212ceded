import Procedural.Compile
import Procedural.Proofs.Analysis.Ends

/-! # Analysis leaves the context as it was

Every function of the analysis has a specification `Ends`, by recursion over the tree. So whatever
the tree looks like, its analysis ends without a fault and leaves the scopes, the loops and the
result type as they were, except that the innermost scope gains bindings of names that are declared
in the tree itself and not in a scope, a block or a function inside it. -/

namespace Procedural

variable {α : Type} {act : Check α} {ctx c : Context} {ds : List Binding} {P : α → Prop}

/-! ## Expressions -/

/-- The expression has been analyzed: its type is recorded. -/
def Expr.Analyzed (e : Expr) : Prop := ∃ t, e.ty? = some t

/-- An expression has been analyzed once a type is recorded. -/
theorem Expr.analyzed_withTy (t : Ty) (e : Expr) : (e.withTy t).Analyzed := ⟨t, e.ty?_withTy t⟩

/-- Reading the type of an analyzed expression changes nothing. -/
theorem ends_resolved {e : Expr} (he : e.Analyzed) : Ends [] e.resolved anyAnswer := by
  obtain ⟨t, ht⟩ := he
  intro ctx
  refine ⟨t, [], [], ?_, ⟨List.Sublist.refl _, trivial⟩, trivial⟩
  rw [Expr.resolved, ht, Context.bindAll_nil, Context.tell_nil]

/-- A demand on an analyzed expression is answered, and the expression keeps a type. -/
theorem ends_require {e : Expr} (he : e.Analyzed) (d : Demand) :
    Ends [] (e.require d) fun r => r.2.Analyzed := by
  refine (ends_resolved he).silent_bind fun found _ => ?_
  split
  · exact .pure he
  · split
    · exact .pure he
    · exact (ends_report _ _).bind_pure fun _ _ => e.analyzed_withTy .error

/-- A demand on two analyzed operands ends, and leaves both analyzed. -/
theorem ends_requireBoth (d : Demand) {l r : Expr} (hl : l.Analyzed) (hr : r.Analyzed) :
    Ends [] (requireBoth d l r) fun o => o.1.2.Analyzed ∧ o.2.2.Analyzed :=
  (ends_require hl d).silent_bind fun _ hl => (ends_require hr d).bind_pure fun _ hr => ⟨hl, hr⟩

/-- Checking a binary operator ends for analyzed operands. -/
theorem ends_checkBinary (op : BinaryOp) {l r : Expr} (hl : l.Analyzed) (hr : r.Analyzed) :
    Ends [] (checkBinary op l r) anyAnswer := by
  cases op with
  | arith op =>
    refine (ends_requireBoth _ hl hr).silent_bind fun ⟨⟨_, l⟩, _, r⟩ ⟨hl, hr⟩ => ?_
    exact (ends_resolved hl).silent_bind fun _ _ => (ends_resolved hr).bind_pure fun _ _ => trivial
  | order op => exact (ends_requireBoth _ hl hr).bind_pure fun _ _ => trivial
  | equality op =>
    refine (ends_resolved hl).silent_bind fun left _ => (ends_resolved hr).silent_bind ?_
    intro right _
    split
    · exact .pure trivial
    · exact (ends_require hr _).bind_pure fun _ _ => trivial
  | logic op => exact (ends_requireBoth _ hl hr).bind_pure fun _ _ => trivial

/-- Checking a unary operator ends for an analyzed operand. -/
theorem ends_checkUnary (op : UnaryOp) {e : Expr} (he : e.Analyzed) :
    Ends [] (checkUnary op e) anyAnswer := by
  cases op with
  | neg =>
    exact (ends_require he _).silent_bind fun _ he =>
      (ends_resolved he).bind_pure fun _ _ => trivial
  | not => exact (ends_require he _).bind_pure fun _ _ => trivial

/-- Checking a name that is used ends. -/
theorem ends_checkIdent (x : String) (s : Span) : Ends [] (checkIdent x s) anyAnswer := by
  refine (ends_resolve x s).silent_bind fun o _ => ?_
  cases o with
  | none => exact .pure trivial
  | some e =>
    show Ends [] (if e.isValue then _ else _) _
    split
    · exact .pure trivial
    · exact (ends_report _ _).bind_pure fun _ _ => trivial

/-- Checking analyzed arguments against parameters ends, however many there are of each. -/
theorem ends_requireArgs (f : String) (i : Nat) {es : List Expr} (hes : ∀ e ∈ es, e.Analyzed)
    (ts : List Ty) : Ends [] (requireArgs f i es ts) anyAnswer := by
  induction es generalizing i ts with
  | nil => exact .pure trivial
  | cons e es ih =>
    obtain ⟨he, hes⟩ := List.forall_mem_cons.1 hes
    cases ts with
    | nil => exact .pure trivial
    | cons t ts =>
      exact (ends_require he _).silent_bind fun _ _ =>
        (ih (i + 1) hes ts).bind_pure fun _ _ => trivial

/-- Checking a call ends for analyzed arguments, whatever its callee is. -/
theorem ends_checkCall (f : String) (s : Span) (o : Option Entity) {args : List Expr}
    (hargs : ∀ e ∈ args, e.Analyzed) : Ends [] (checkCall f s o args) anyAnswer := by
  unfold checkCall
  split
  · exact .pure trivial
  · split
    · exact (ends_requireArgs f 1 hargs _).bind_pure fun _ _ => trivial
    · exact (ends_report _ _).bind_pure fun _ _ => trivial
  · exact (ends_report _ _).bind_pure fun _ _ => trivial

mutual

/-- The analysis of an expression ends and records its type. -/
theorem ends_analyzeExpr : ∀ e : Expr, Ends [] e.analyze Expr.Analyzed
  | .lit _ v => .pure ⟨v.ty, rfl⟩
  | .ident n x => (ends_checkIdent x n.span).bind_pure fun t _ => ⟨t, rfl⟩
  | .binary _ op l r =>
    (ends_analyzeExpr l).silent_bind fun _ hl => (ends_analyzeExpr r).silent_bind fun _ hr =>
      (ends_checkBinary op hl hr).bind_pure fun ⟨t, _, _⟩ _ => ⟨t, rfl⟩
  | .unary _ op e =>
    (ends_analyzeExpr e).silent_bind fun _ he =>
      (ends_checkUnary op he).bind_pure fun ⟨t, _⟩ _ => ⟨t, rfl⟩
  | .call _ c => (ends_analyzeCall c).bind_pure fun ⟨t, _⟩ _ => ⟨t, rfl⟩

/-- The analysis of a call ends. -/
theorem ends_analyzeCall : ∀ c : Call, Ends [] c.analyze anyAnswer
  | ⟨f, args, s⟩ =>
    (ends_resolve f s).silent_bind fun o _ => (ends_analyzeExprs args).silent_bind fun _ hargs =>
      (ends_checkCall f s o hargs).bind_pure fun _ _ => trivial

/-- The analysis of a list of expressions ends and records their types. -/
theorem ends_analyzeExprs : ∀ es : List Expr,
    Ends [] (analyzeAll es) fun es => ∀ e ∈ es, e.Analyzed
  | [] => .pure (List.forall_mem_nil _)
  | e :: es =>
    (ends_analyzeExpr e).silent_bind fun _ he => (ends_analyzeExprs es).bind_pure fun _ hes =>
      List.forall_mem_cons.2 ⟨he, hes⟩

end

/-! ## Statements -/

/-- The analysis of an expression that has to meet a demand ends. -/
theorem ends_analyzeFor (e : Expr) (d : Demand) : Ends [] (e.analyzeFor d) anyAnswer :=
  (ends_analyzeExpr e).silent_bind fun _ he => (ends_require he d).bind_pure fun _ _ => trivial

/-- The analysis of an optional expression that has to meet a demand ends. -/
theorem ends_analyzeForOpt (d : Demand) : ∀ o : Option Expr, Ends [] (analyzeForOpt d o) anyAnswer
  | none => .pure trivial
  | some e => (ends_analyzeFor e d).bind_pure fun _ _ => trivial

/-- The analysis of a variable declaration ends, and binds the variable if it is new. -/
theorem ends_analyzeVar (d : VarDecl) : Ends [d.binding] d.analyze anyAnswer :=
  (ends_analyzeForOpt _ d.init).silent_bind fun _ _ =>
    (ends_declareAll [d.binding]).bind_pure fun _ _ => trivial

/-- The analysis of an assignment ends. -/
theorem ends_analyzeAssign (x : String) (e : Expr) (s : Span) :
    Ends [] (analyzeAssign x e s) anyAnswer := by
  refine (ends_resolve x s).silent_bind fun o _ => (ends_analyzeExpr e).silent_bind fun _ he => ?_
  cases o with
  | none => exact .pure trivial
  | some entity =>
    show Ends [] (if entity.isValue then _ else _) _
    split
    · exact (ends_require he _).bind_pure fun _ _ => trivial
    · exact (ends_report _ _).bind_pure fun _ _ => trivial

/-- The analysis of a return ends, wherever it stands. -/
theorem ends_analyzeReturn (o : Option Expr) (s : Span) :
    Ends [] (analyzeReturn o s) anyAnswer := by
  refine ends_get.silent_bind fun ctx _ => ?_
  -- outside functions, in procedures and in other functions, without and with a value
  split
  · exact (ends_report _ _).bind_pure fun _ _ => trivial
  · exact (ends_analyzeExpr _).silent_bind fun _ _ =>
      (ends_report _ _).bind_pure fun _ _ => trivial
  · exact .pure trivial
  · exact (ends_analyzeExpr _).silent_bind fun _ _ =>
      (ends_report _ _).bind_pure fun _ _ => trivial
  · exact (ends_report _ _).bind_pure fun _ _ => trivial
  · exact (ends_analyzeFor _ _).bind_pure fun _ _ => trivial

/-- Checking a jump ends. -/
theorem ends_checkJump (j : Jump) (s : Span) : Ends [] (checkJump j s) anyAnswer := by
  refine ends_get.silent_bind fun ctx _ => ?_
  split
  · exact .pure trivial
  · exact ends_report _ _

/-- A statement by itself declares its function before it is analyzed. -/
theorem analyzeIn_false (s : Stmt) :
    s.analyzeIn false = (declareAll (functionBindings [s]) >>= fun _ => s.analyzeIn true) := by
  cases s with
  | func s f b =>
    obtain ⟨body, t⟩ := b
    rfl
  | _ => rfl

mutual

/-- A statement of a sequence binds the variable that it declares. -/
theorem ends_analyzeStmt : ∀ s : Stmt, Ends s.bindings (s.analyzeIn true) anyAnswer
  | .var _ d => (ends_analyzeVar d).bind_pure fun _ _ => trivial
  | .func _ f ⟨body, _⟩ => by
    -- the parameters and what the body declares are bound in a scope that is left
    have hbody := Ends.inFunction f.result <| Ends.inScope <|
      (ends_declareAll (f.params.map Param.binding)).bind fun _ _ =>
      (ends_declareAll (functionBindings body)).bind fun _ _ => ends_analyzeStmts body
    exact hbody.bind_pure fun _ _ => trivial
  | .assign s x e => (ends_analyzeAssign x e s).bind_pure fun _ _ => trivial
  | .call _ c => (ends_analyzeCall c).bind_pure fun _ _ => trivial
  | .after _ e c =>
    (ends_analyzeFor e _).silent_bind fun _ _ => (ends_analyzeCall c).bind_pure fun _ _ => trivial
  | .block _ b => (ends_analyzeBlock b).bind_pure fun _ _ => trivial
  | .ifChain _ arms o =>
    (ends_analyzeArms arms).silent_bind fun _ _ =>
      (ends_analyzeBlockOpt o).bind_pure fun _ _ => trivial
  | .whileLoop _ e b =>
    (ends_analyzeFor e _).silent_bind fun _ _ =>
      (ends_analyzeBlock b).inLoop.bind_pure fun _ _ => trivial
  | .forLoop _ i e u b =>
    .inScope <| (ends_analyzeStmtOpt i).bind fun _ _ =>
      (ends_analyzeForOpt _ e).silent_bind fun _ _ =>
      (ends_analyzeBlock b).inLoop.silent_bind fun _ _ =>
      (ends_analyzeStmtOpt u).bind_pure fun _ _ => trivial
  | .jump s j => (ends_checkJump j s).bind_pure fun _ _ => trivial
  | .ret s e => (ends_analyzeReturn e s).bind_pure fun _ _ => trivial

/-- A loop clause binds what a sequence of that statement binds. -/
theorem ends_analyzeStmtOpt : ∀ o : Option Stmt,
    Ends (sequenceBindings o.toList) (analyzeStmtOpt o) anyAnswer
  | none => .pure trivial
  | some s => by
    have hs := (ends_declareAll (functionBindings [s])).bind fun _ _ => ends_analyzeStmt s
    rw [← analyzeIn_false] at hs
    have hbindings : sequenceBindings [s] = functionBindings [s] ++ s.bindings := by
      rw [sequenceBindings, List.flatMap_singleton]
    rw [Option.toList_some, hbindings]
    exact hs.bind_pure fun _ _ => trivial

/-- The analysis of a list of statements ends, and binds the variables that are new. -/
theorem ends_analyzeStmts : ∀ ss : List Stmt,
    Ends (ss.flatMap Stmt.bindings) (analyzeAllIn ss) anyAnswer
  | [] => .pure trivial
  | s :: ss => by
    rw [List.flatMap_cons]
    exact (ends_analyzeStmt s).bind fun _ _ =>
      (ends_analyzeStmts ss).bind_pure fun _ _ => trivial

/-- The analysis of a block ends, and binds nothing. -/
theorem ends_analyzeBlock : ∀ b : Block, Ends [] b.analyze anyAnswer
  | ⟨ss, _⟩ => by
    have hss := Ends.inScope <|
      (ends_declareAll (functionBindings ss)).bind fun _ _ => ends_analyzeStmts ss
    exact hss.bind_pure fun _ _ => trivial

/-- The analysis of an optional block ends, and binds nothing. -/
theorem ends_analyzeBlockOpt : ∀ o : Option Block, Ends [] (analyzeBlockOpt o) anyAnswer
  | none => .pure trivial
  | some b => (ends_analyzeBlock b).bind_pure fun _ _ => trivial

/-- The analysis of conditional arms ends, and binds nothing. -/
theorem ends_analyzeArms : ∀ arms : List Arm, Ends [] (analyzeArms arms) anyAnswer
  | [] => .pure trivial
  | ⟨e, b⟩ :: arms =>
    (ends_analyzeFor e _).silent_bind fun _ _ => (ends_analyzeBlock b).silent_bind fun _ _ =>
      (ends_analyzeArms arms).bind_pure fun _ _ => trivial

end

/-- A statement by itself also binds its function. -/
theorem ends_analyzeAlone (s : Stmt) :
    Ends (functionBindings [s] ++ s.bindings) s.analyze anyAnswer := by
  have hs := (ends_declareAll (functionBindings [s])).bind fun _ _ => ends_analyzeStmt s
  rwa [← analyzeIn_false] at hs

/-- The analysis of a sequence ends, and binds its functions and variables that are new. -/
theorem ends_analyzeSequence (ss : List Stmt) :
    Ends (sequenceBindings ss) (analyzeSequence ss) anyAnswer :=
  (ends_declareAll (functionBindings ss)).bind fun _ _ => ends_analyzeStmts ss

/-- The analysis of a program ends, and binds its functions and variables that are new. -/
theorem ends_analyzeProgram (p : Program) : Ends (sequenceBindings p.stmts) p.analyze anyAnswer :=
  (ends_analyzeSequence p.stmts).bind_pure fun _ _ => trivial

/-! ### Bodies -/

/-- Analyzes a sequence in the frame of the given parameters. -/
def analyzeBody (params : List Param) (ss : List Stmt) : Check (List Stmt) := do
  declareAll (params.map Param.binding)
  analyzeSequence ss

/-- A block is analyzed as a body without parameters, in a scope of its own. -/
theorem Block.analyze_eq (b : Block) :
    b.analyze = inScope (analyzeBody [] b.stmts) >>= fun ss => pure ⟨ss, b.span⟩ := by
  cases b
  rfl

/-- A program is analyzed as a body without parameters. -/
theorem Program.analyze_eq (p : Program) :
    p.analyze = analyzeBody [] p.stmts >>= fun ss => pure ⟨ss⟩ := rfl

/-- A function is analyzed as a body with its parameters, in a scope of its own. -/
theorem analyzeIn_func (s : Span) (f : FuncHeader) (b : Block) :
    (Stmt.func s f b).analyzeIn true =
      inFunction f.result (inScope (analyzeBody f.params b.stmts)) >>= fun ss =>
        pure (.func s f ⟨ss, b.span⟩) := by
  cases b
  rfl

/-- The analysis of a body ends, and binds what is new of its parameters, functions and variables.
-/
theorem ends_analyzeBody (params : List Param) (ss : List Stmt) :
    Ends (params.map Param.binding ++ sequenceBindings ss) (analyzeBody params ss) anyAnswer :=
  (ends_declareAll (params.map Param.binding)).bind fun _ _ => ends_analyzeSequence ss

/-! ## What an analysis leaves behind -/

/-- The frames around the innermost one. -/
def Scopes.outer (s : Scopes) : List Frame := (s.locals ++ [s.globals]).tail

/-- A new binding leaves the outer scopes. -/
theorem Scopes.outer_bind (s : Scopes) (b : Binding) : (s.bind b).outer = s.outer := by
  obtain ⟨globals, locals⟩ := s
  cases locals <;> rfl

/-- `ctx.Extends names c`: the context `c` is `ctx` with more reports and with more bindings of the
given names in the innermost scope. -/
structure Context.Extends (names : List String) (ctx c : Context) : Prop where
  /-- As many scopes are in force. -/
  depth : c.scopes.depth = ctx.scopes.depth
  /-- As many loops enclose the current statement. -/
  loops : c.loops = ctx.loops
  /-- The enclosing function has the same result type. -/
  returns : c.returns = ctx.returns
  /-- The frames around the innermost one are the same. -/
  outer : c.scopes.outer = ctx.scopes.outer
  /-- What has been reported stays, in front of what is reported now. -/
  log : ctx.log <+: c.log
  /-- Names keep what they stand for in the innermost frame. -/
  kept : ∀ y e, ctx.scopes.lookupLocal y = some e → c.scopes.lookupLocal y = some e
  /-- The innermost frame gains bindings of the given names only. -/
  gained : ∃ bs, c.scopes.innermost = bs ++ ctx.scopes.innermost ∧ ∀ b ∈ bs, b.1 ∈ names

namespace Context

variable {names : List String}

/-- What extends an extension of a context extends the context. -/
theorem Extends.trans {c' : Context} (h : ctx.Extends names c) (h' : c.Extends names c') :
    ctx.Extends names c' where
  depth := h'.depth.trans h.depth
  loops := h'.loops.trans h.loops
  returns := h'.returns.trans h.returns
  outer := h'.outer.trans h.outer
  log := h.log.trans h'.log
  kept y e he := h'.kept y e (h.kept y e he)
  gained := by
    obtain ⟨bs, hinner, hnames⟩ := h.gained
    obtain ⟨bs', hinner', hnames'⟩ := h'.gained
    refine ⟨bs' ++ bs, by rw [hinner', hinner, List.append_assoc], fun b hb => ?_⟩
    exact (List.mem_append.1 hb).elim (hnames' b) (hnames b)

/-- More reports are an extension. -/
theorem extends_tell (ctx : Context) (new : Log) : ctx.Extends names (ctx.tell new) where
  depth := rfl
  loops := rfl
  returns := rfl
  outer := rfl
  log := List.prefix_append _ _
  kept _ _ he := he
  gained := ⟨[], rfl, List.forall_mem_nil _⟩

/-- A binding of a fresh name is an extension. -/
theorem extends_bind {b : Binding} (hfresh : ctx.env.names.Fresh b.1) (hname : b.1 ∈ names) :
    ctx.Extends names (ctx.bind b) where
  depth := Scopes.depth_withInnermost ..
  loops := rfl
  returns := rfl
  outer := ctx.scopes.outer_bind b
  log := List.prefix_refl _
  kept y e he := by
    -- the name is new to the frame, so what the frame declares has another name
    have hy : (y == b.1) = false := by
      refine beq_eq_false_iff_ne.2 ?_
      rintro rfl
      rw [Scopes.fresh_names.1 hfresh] at he
      nomatch he
    show List.lookup y (ctx.scopes.withInnermost (b :: ctx.scopes.innermost)).innermost = some e
    rw [Scopes.innermost_withInnermost, List.lookup_cons, hy]
    exact he
  gained := ⟨[b], Scopes.innermost_withInnermost .., List.forall_mem_singleton.2 hname⟩

/-- New bindings of the given names extend a context. -/
theorem extends_bindAll {bs : List Binding} (hfresh : ctx.env.names.FreshAll (bs.map Binding.decl))
    (hnames : ∀ b ∈ bs, b.1 ∈ names) : ctx.Extends names (ctx.bindAll bs) := by
  induction bs generalizing ctx with
  | nil =>
    have h : ctx.Extends names (ctx.tell []) := ctx.extends_tell []
    rwa [tell_nil] at h
  | cons b bs ih =>
    obtain ⟨hb, hbs⟩ := List.forall_mem_cons.1 hnames
    have hone : (ctx.bind b).env = ctx.env.declareAll [b.decl] := ctx.env_bindAll [b]
    refine (extends_bind hfresh.1 hb).trans (ih ?_ hbs)
    rw [hone]
    exact hfresh.2

end Context

/-- A check with a specification extends the context by bindings of the names in it. -/
theorem Ends.extends {names : List String} (h : Ends ds act P) (hds : ∀ b ∈ ds, b.1 ∈ names)
    (ctx : Context) : ∃ a c, act ctx = .ok a c ∧ ctx.Extends names c := by
  obtain ⟨a, bs, new, hrun, ⟨hsub, hfresh⟩, -⟩ := h ctx
  refine ⟨a, _, hrun, ?_⟩
  exact (Context.extends_bindAll hfresh fun b hb => hds b (hsub.subset hb)).trans
    (Context.extends_tell ..)

/-- A statement binds only the name that it declares. -/
theorem mem_declared_of_mem_bindings {s : Stmt} {b : Binding}
    (hb : b ∈ functionBindings [s] ++ s.bindings) : b.1 ∈ s.declared? := by
  cases s with
  | var sp d =>
    obtain rfl := List.mem_singleton.1 hb
    rfl
  | func sp f body =>
    obtain rfl := List.mem_singleton.1 hb
    rfl
  | _ => nomatch hb

/-- A sequence binds what its statements declare. -/
theorem mem_declared_of_mem_sequenceBindings {ss : List Stmt} {b : Binding}
    (hb : b ∈ sequenceBindings ss) : b.1 ∈ ss.filterMap Stmt.declared? := by
  have hstmt : ∃ s ∈ ss, b ∈ functionBindings [s] ++ s.bindings := by
    rcases List.mem_append.1 hb with hb | hb
    · obtain ⟨g, hg, rfl⟩ := List.mem_map.1 hb
      obtain ⟨sp, body, hs⟩ := Stmt.exists_func_of_mem_headers hg
      exact ⟨.func sp g body, hs, List.mem_append_left _ (List.mem_singleton.2 rfl)⟩
    · obtain ⟨s, hs, hb⟩ := List.mem_flatMap.1 hb
      exact ⟨s, hs, List.mem_append_right _ hb⟩
  obtain ⟨s, hs, hb⟩ := hstmt
  exact List.mem_filterMap.2 ⟨s, hs, mem_declared_of_mem_bindings hb⟩

/-- Analyzing a program in a fresh context is never a fault. -/
theorem Program.analysis_ok (p : Program) :
    ∃ q c, p.analyze .initial = .ok q c ∧ p.analysis = .ok ⟨q, c.log⟩ := by
  obtain ⟨q, c, hrun, hext⟩ :=
    (ends_analyzeProgram p).extends (fun b => mem_declared_of_mem_sequenceBindings) .initial
  have hdepth : c.scopes.depth = 1 := hext.depth
  have hloops : c.isInLoop = false := by
    rw [Context.isInLoop, hext.loops]
    rfl
  refine ⟨q, c, hrun, ?_⟩
  rw [Program.analysis, hrun]
  simp only [hdepth, hloops]
  rfl

/-- The analysis of any tree in any context ends without a fault and leaves the context as it was,
except that the log grows and the innermost scope gains bindings of the names that the statement, or
the statements of the sequence, declare themselves. -/
theorem analysis_extends (ctx : Context) :
    (∀ e : Expr, ∃ e' c, e.analyze ctx = .ok e' c ∧ ctx.Extends [] c) ∧
    (∀ call : Call, ∃ answer c, call.analyze ctx = .ok answer c ∧ ctx.Extends [] c) ∧
    (∀ s : Stmt, ∃ s' c, s.analyze ctx = .ok s' c ∧ ctx.Extends s.declared?.toList c) ∧
    (∀ b : Block, ∃ b' c, b.analyze ctx = .ok b' c ∧ ctx.Extends [] c) ∧
    (∀ ss : List Stmt, ∃ ss' c, analyzeSequence ss ctx = .ok ss' c ∧
      ctx.Extends (ss.filterMap Stmt.declared?) c) ∧
    (∀ p : Program, ∃ q c, p.analyze ctx = .ok q c ∧
      ctx.Extends (p.stmts.filterMap Stmt.declared?) c) ∧
    ∀ p : Program, ∃ result, p.analysis = .ok result := by
  refine ⟨fun e => ?_, fun call => ?_, fun s => ?_, fun b => ?_, fun ss => ?_, fun p => ?_,
    fun p => ?_⟩
  · exact (ends_analyzeExpr e).extends (List.forall_mem_nil _) ctx
  · exact (ends_analyzeCall call).extends (List.forall_mem_nil _) ctx
  · refine (ends_analyzeAlone s).extends (fun b hb => ?_) ctx
    exact Option.mem_toList.2 (mem_declared_of_mem_bindings hb)
  · exact (ends_analyzeBlock b).extends (List.forall_mem_nil _) ctx
  · exact (ends_analyzeSequence ss).extends (fun b => mem_declared_of_mem_sequenceBindings) ctx
  · exact (ends_analyzeProgram p).extends (fun b => mem_declared_of_mem_sequenceBindings) ctx
  · obtain ⟨q, c, -, hok⟩ := p.analysis_ok
    exact ⟨_, hok⟩

end Procedural
