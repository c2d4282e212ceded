import Procedural.Proofs.Analysis.Balance
import Procedural.Proofs.Analysis.Erasure
import Procedural.Proofs.Syntax.Nodes
import Mathlib.Data.List.Forall2

/-! # Analysis records a type everywhere

What an analysis answers is the tree it was given, with a type recorded at every expression in it,
whatever is wrong with the tree. So each check finds a type at the expressions that it looks at. A
type that was recorded before is never read. Hence trees with the same bare form are analyzed in the
same way, and analyzing the answer again changes nothing.

* `Answers`: what is known of the answer of a check, in every context.
* `Filled`: a tree with all its types, beside the tree that it comes from.
* `analysis_annotates`: the statement for programs, blocks and statements. -/

namespace Procedural

variable {α β : Type} {x act : Check α} {f : α → Check β} {P : α → Prop} {Q : β → Prop}

/-! ## Answers -/

/-- `P` holds of whatever the check answers. -/
def Answers (act : Check α) (P : α → Prop) : Prop :=
  ∀ ⦃ctx : Context⦄ ⦃a : α⦄ ⦃c : Context⦄, act ctx = .ok a c → P a

namespace Answers

/-- Nothing is said of the answer. -/
theorem any (act : Check α) : Answers act anyAnswer := fun _ _ _ _ => trivial

/-- A check that only answers gives its answer. -/
theorem pure {a : α} (h : P a) : Answers (pure a) P := by
  intro ctx a' c hrun
  obtain ⟨rfl, -⟩ := of_pure_ok hrun
  exact h

/-- The second check goes on with an answer of the first. -/
theorem bind (hx : Answers x P) (hf : ∀ a, P a → Answers (f a) Q) : Answers (x >>= f) Q := by
  intro ctx b c hrun
  obtain ⟨a, c', hrun₁, hrun₂⟩ := of_bind_ok hrun
  exact hf a (hx hrun₁) hrun₂

/-- The answer of the last check is put together from one with a known property. -/
theorem bind_pure {g : α → β} (hx : Answers x P) (hg : ∀ a, P a → Q (g a)) :
    Answers (x >>= fun a => Pure.pure (g a)) Q :=
  hx.bind fun a ha => .pure (hg a ha)

/-- The answer does not depend on what is checked before. -/
theorem after (hf : ∀ a, Answers (f a) Q) : Answers (x >>= f) Q :=
  (any x).bind fun a _ => hf a

/-- A scope of its own does not change the answer. -/
theorem inScope (h : Answers act P) : Answers (inScope act) P := by
  intro ctx a c hrun
  obtain ⟨c', hact, -⟩ := of_inScope_ok hrun
  exact h hact

/-- Inside a loop the answer is that of the check. -/
theorem inLoop (h : Answers act P) : Answers (inLoop act) P := by
  intro ctx a c hrun
  obtain ⟨c', hact, -⟩ := of_inLoop_ok hrun
  exact h hact

/-- Inside a function the answer is that of the check. -/
theorem inFunction (t : Ty) (h : Answers act P) : Answers (inFunction t act) P := by
  intro ctx a c hrun
  obtain ⟨c', hact, -⟩ := of_inFunction_ok hrun
  exact h hact

end Answers

/-! ## Trees with all their types -/

/-- A type is recorded at each of the expressions. -/
def AllAnalyzed (es : List Expr) : Prop := ∀ e ∈ es, e.Analyzed

/-- Expressions with types in two lists. -/
theorem AllAnalyzed.append {es es' : List Expr} (h : AllAnalyzed es) (h' : AllAnalyzed es') :
    AllAnalyzed (es ++ es') := List.forall_mem_append.2 ⟨h, h'⟩

/-- One more expression with a type. -/
theorem AllAnalyzed.cons {e : Expr} {es : List Expr} (h : e.Analyzed) (hes : AllAnalyzed es) :
    AllAnalyzed (e :: es) := List.forall_mem_cons.2 ⟨h, hes⟩

/-- The tree `y` is the tree `x` with a type recorded at every expression in it; `bare` and `nodes`
give the bare form and the expressions of such trees. -/
structure Filled {T : Type} (bare : T → T) (nodes : T → List Expr) (x y : T) : Prop where
  /-- The trees differ in types only. -/
  bare_eq : bare y = bare x
  /-- No type is missing. -/
  all : AllAnalyzed (nodes y)

namespace Expr

/-- The expression with types at all its nodes. -/
abbrev Fills (e e' : Expr) : Prop := Filled Expr.bare Expr.nodes e e'

/-- The expression that may be missing, with types at all its nodes. -/
abbrev FillsOpt (o o' : Option Expr) : Prop := Filled (Option.map Expr.bare) Expr.nodesOpt o o'

/-- A filled expression is filled with any type at its root. -/
theorem Fills.withTy {e e' : Expr} (h : e.Fills e') (t : Ty) : e.Fills (e'.withTy t) where
  bare_eq := (e'.bare_withTy t).trans h.bare_eq
  all := by
    have hall := h.all
    rw [nodes_eq_cons] at hall
    rw [nodes_withTy]
    exact .cons (e'.analyzed_withTy t) (List.forall_mem_cons.1 hall).2

/-- Lists are filled member by member. -/
theorem filledAll {es es' : List Expr} (h : List.Forall₂ Fills es es') :
    Filled Expr.bareAll Expr.nodesAll es es' := by
  induction h with
  | nil => exact ⟨rfl, List.forall_mem_nil _⟩
  | cons he _ ih =>
    refine ⟨?_, he.all.append ih.all⟩
    rw [bareAll, bareAll, he.bare_eq, ih.bare_eq]

/-- A filled expression is filled where it may be missing. -/
theorem Fills.some {e e' : Expr} (h : e.Fills e') : FillsOpt (some e) (some e') :=
  ⟨congrArg Option.some h.bare_eq, h.all⟩

/-- Nothing is filled with nothing. -/
theorem FillsOpt.none : FillsOpt none none := ⟨rfl, List.forall_mem_nil _⟩

end Expr

/-! ## Demands -/

/-- After a demand the expression is what it was, except perhaps for the type of its root. -/
theorem answers_require {e₀ e : Expr} (h : e₀.Fills e) (d : Demand) :
    Answers (e.require d) fun r => e₀.Fills r.2 := by
  refine .after fun t => ?_
  split
  · exact .pure h
  · split
    · exact .pure h
    · exact .after fun _ => .pure (h.withTy .error)

/-- A demand on two operands leaves both filled. -/
theorem answers_requireBoth {l₀ l r₀ r : Expr} (hl : l₀.Fills l) (hr : r₀.Fills r) (d : Demand) :
    Answers (requireBoth d l r) fun o => l₀.Fills o.1.2 ∧ r₀.Fills o.2.2 :=
  (answers_require hl d).bind fun _ hl => (answers_require hr d).bind_pure fun _ hr => ⟨hl, hr⟩

/-- Checking the operands of a binary operator leaves both filled. -/
theorem answers_checkBinary {l₀ l r₀ r : Expr} (hl : l₀.Fills l) (hr : r₀.Fills r) (op : BinaryOp) :
    Answers (checkBinary op l r) fun o => l₀.Fills o.2.1 ∧ r₀.Fills o.2.2 := by
  cases op with
  | arith op =>
    refine (answers_requireBoth hl hr _).bind fun ⟨⟨_, l⟩, _, r⟩ h => ?_
    exact .after fun _ => .after fun _ => .pure h
  | order op => exact (answers_requireBoth hl hr _).bind_pure fun _ h => h
  | equality op =>
    refine .after fun left => .after fun right => ?_
    split
    · exact .pure ⟨hl, hr⟩
    · exact (answers_require hr _).bind_pure fun _ hr => ⟨hl, hr⟩
  | logic op => exact (answers_requireBoth hl hr _).bind_pure fun _ h => h

/-- Checking the operand of a unary operator leaves it filled. -/
theorem answers_checkUnary {e₀ e : Expr} (h : e₀.Fills e) (op : UnaryOp) :
    Answers (checkUnary op e) fun o => e₀.Fills o.2 := by
  cases op with
  | neg => exact (answers_require h _).bind fun _ h => .after fun _ => .pure h
  | not => exact (answers_require h _).bind_pure fun _ h => h

/-- Checking arguments against parameters leaves them filled. -/
theorem answers_requireArgs (g : String) (i : Nat) {es₀ es : List Expr}
    (h : List.Forall₂ Expr.Fills es₀ es) (ts : List Ty) :
    Answers (requireArgs g i es ts) fun es' => List.Forall₂ Expr.Fills es₀ es' := by
  induction h generalizing i ts with
  | nil => exact .pure .nil
  | cons he hes ih =>
    cases ts with
    | nil => exact .pure (.cons he hes)
    | cons t ts =>
      exact (answers_require he _).bind fun _ he => (ih (i + 1) ts).bind_pure fun _ hes =>
        .cons he hes

/-- Checking a call leaves its arguments filled. -/
theorem answers_checkCall (g : String) (s : Span) (o : Option Entity) {es₀ es : List Expr}
    (h : List.Forall₂ Expr.Fills es₀ es) :
    Answers (checkCall g s o es) fun r => List.Forall₂ Expr.Fills es₀ r.2 := by
  unfold checkCall
  split
  · exact .pure h
  · split
    · exact (answers_requireArgs g 1 h _).bind_pure fun _ h => h
    · exact .after fun _ => .pure h
  · exact .after fun _ => .pure h

/-! ## Expressions -/

mutual

/-- Analysis fills in the types of an expression. -/
theorem answers_analyzeExpr : ∀ e : Expr, Answers e.analyze e.Fills
  | .lit n v => by
    have hself : (Expr.lit n v).Fills ((Expr.lit n v).withTy v.ty) :=
      ⟨rfl, .cons ⟨v.ty, rfl⟩ (List.forall_mem_nil _)⟩
    exact .pure hself
  | .ident n y => by
    refine .after fun t => .pure ?_
    exact ⟨rfl, .cons ⟨t, rfl⟩ (List.forall_mem_nil _)⟩
  | .binary n op l r => by
    refine (answers_analyzeExpr l).bind fun l' hl => (answers_analyzeExpr r).bind fun r' hr => ?_
    refine (answers_checkBinary hl hr op).bind_pure fun ⟨t, l'', r''⟩ ⟨hl, hr⟩ => ⟨?_, ?_⟩
    · rw [Expr.bare_withTy, Expr.bare, Expr.bare, hl.bare_eq, hr.bare_eq]
    · exact .cons ⟨t, rfl⟩ (hl.all.append hr.all)
  | .unary n op e => by
    refine (answers_analyzeExpr e).bind fun e' he => ?_
    refine (answers_checkUnary he op).bind_pure fun ⟨t, e''⟩ he => ⟨?_, ?_⟩
    · rw [Expr.bare_withTy, Expr.bare, Expr.bare, he.bare_eq]
    · exact .cons ⟨t, rfl⟩ he.all
  | .call n c => by
    refine (answers_analyzeCall c).bind_pure fun ⟨t, c'⟩ hc => ⟨?_, ?_⟩
    · rw [Expr.bare_withTy, Expr.bare, Expr.bare, hc.bare_eq]
    · exact .cons ⟨t, rfl⟩ hc.all

/-- The analysis of a call fills its arguments. -/
theorem answers_analyzeCall : ∀ c : Call,
    Answers c.analyze fun r => Filled Call.bare Call.nodes c r.2
  | ⟨g, args, s⟩ => by
    refine .after fun o => (answers_analyzeExprs args).bind fun args' hargs => ?_
    refine (answers_checkCall g s o hargs).bind_pure fun ⟨t, args''⟩ hargs => ?_
    have hfilled := Expr.filledAll hargs
    refine ⟨?_, hfilled.all⟩
    rw [Call.bare, Call.bare, hfilled.bare_eq]

/-- The analysis of a list of expressions fills each of them. -/
theorem answers_analyzeExprs : ∀ es : List Expr,
    Answers (analyzeAll es) (List.Forall₂ Expr.Fills es)
  | [] => .pure .nil
  | e :: es =>
    (answers_analyzeExpr e).bind fun _ he => (answers_analyzeExprs es).bind_pure fun _ hes =>
      .cons he hes

end

/-! ## Statements -/

/-- The statements of a body are analyzed after its parameters and functions are declared. -/
theorem answers_analyzeBody (params : List Param) {ss : List Stmt} {P : List Stmt → Prop}
    (h : Answers (analyzeAllIn ss) P) : Answers (analyzeBody params ss) P :=
  .after fun _ => .after fun _ => h

/-- An expression that has to meet a demand is filled. -/
theorem answers_analyzeFor (e : Expr) (d : Demand) : Answers (e.analyzeFor d) e.Fills :=
  (answers_analyzeExpr e).bind fun _ he => (answers_require he d).bind_pure fun _ h => h

/-- An optional expression that has to meet a demand is filled. -/
theorem answers_analyzeForOpt (d : Demand) : ∀ o : Option Expr,
    Answers (analyzeForOpt d o) (Expr.FillsOpt o)
  | none => .pure .none
  | some e => (answers_analyzeFor e d).bind_pure fun _ he => he.some

/-- The analysis of a variable declaration fills its initial value. -/
theorem answers_analyzeVar (d : VarDecl) :
    Answers d.analyze (Filled VarDecl.bare (fun d => Expr.nodesOpt d.init) d) := by
  refine (answers_analyzeForOpt _ d.init).bind fun init h => .after fun _ => .pure ?_
  exact ⟨congrArg (fun o => { d with init := o }) h.bare_eq, h.all⟩

/-- The analysis of an assignment fills its value. -/
theorem answers_analyzeAssign (y : String) (e : Expr) (s : Span) :
    Answers (analyzeAssign y e s) e.Fills := by
  refine .after fun o => (answers_analyzeExpr e).bind fun e' he => ?_
  cases o with
  | none => exact .pure he
  | some entity =>
    show Answers (if entity.isValue then _ else _) _
    split
    · exact (answers_require he _).bind_pure fun _ h => h
    · exact .after fun _ => .pure he

/-- The analysis of a return fills its value. -/
theorem answers_analyzeReturn (o : Option Expr) (s : Span) :
    Answers (analyzeReturn o s) (Expr.FillsOpt o) := by
  refine .after fun ctx => ?_
  -- outside functions, in procedures and in other functions, without and with a value
  split
  · exact .after fun _ => .pure .none
  · exact (answers_analyzeExpr _).bind fun _ he => .after fun _ => .pure he.some
  · exact .pure .none
  · exact (answers_analyzeExpr _).bind fun _ he => .after fun _ => .pure he.some
  · exact .after fun _ => .pure .none
  · exact (answers_analyzeFor _ _).bind_pure fun _ he => he.some

mutual

/-- Analysis fills in the types of a statement of a sequence. -/
theorem answers_analyzeStmt : ∀ s : Stmt,
    Answers (s.analyzeIn true) (Filled Stmt.bare Stmt.nodes s)
  | .var s d => by
    refine (answers_analyzeVar d).bind_pure fun d' hd => ⟨?_, hd.all⟩
    rw [Stmt.bare, Stmt.bare, hd.bare_eq]
  | .func s f ⟨body, t⟩ => by
    rw [analyzeIn_func]
    have hbody := answers_analyzeBody f.params (answers_analyzeStmts body)
    refine (hbody.inScope.inFunction f.result).bind_pure fun body' h => ⟨?_, h.all⟩
    rw [Stmt.bare, Stmt.bare, Block.bare, Block.bare, h.bare_eq]
  | .assign s y e => by
    refine (answers_analyzeAssign y e s).bind_pure fun e' he => ⟨?_, he.all⟩
    rw [Stmt.bare, Stmt.bare, he.bare_eq]
  | .call s c => by
    refine (answers_analyzeCall c).bind_pure fun ⟨_, c'⟩ hc => ⟨?_, hc.all⟩
    rw [Stmt.bare, Stmt.bare, hc.bare_eq]
  | .after s e c => by
    refine (answers_analyzeFor e _).bind fun e' he => ?_
    refine (answers_analyzeCall c).bind_pure fun ⟨_, c'⟩ hc => ⟨?_, he.all.append hc.all⟩
    rw [Stmt.bare, Stmt.bare, he.bare_eq, hc.bare_eq]
  | .block s b => by
    refine (answers_analyzeBlock b).bind_pure fun b' hb => ⟨?_, hb.all⟩
    rw [Stmt.bare, Stmt.bare, hb.bare_eq]
  | .ifChain s arms o => by
    refine (answers_analyzeArms arms).bind fun arms' harms => ?_
    refine (answers_analyzeBlockOpt o).bind_pure fun o' ho => ⟨?_, harms.all.append ho.all⟩
    rw [Stmt.bare, Stmt.bare, harms.bare_eq, ho.bare_eq]
  | .whileLoop s e b => by
    refine (answers_analyzeFor e _).bind fun e' he => ?_
    refine (answers_analyzeBlock b).inLoop.bind_pure fun b' hb => ⟨?_, he.all.append hb.all⟩
    rw [Stmt.bare, Stmt.bare, he.bare_eq, hb.bare_eq]
  | .forLoop s i e u b => by
    refine .inScope <| (answers_analyzeStmtOpt i).bind fun i' hi => ?_
    refine (answers_analyzeForOpt _ e).bind fun e' he => ?_
    refine (answers_analyzeBlock b).inLoop.bind fun b' hb => ?_
    refine (answers_analyzeStmtOpt u).bind_pure fun u' hu => ⟨?_, ?_⟩
    · rw [Stmt.bare, Stmt.bare, hi.bare_eq, he.bare_eq, hb.bare_eq, hu.bare_eq]
    · exact hi.all.append (he.all.append (hb.all.append hu.all))
  | .jump s j => .after fun _ => .pure ⟨rfl, List.forall_mem_nil _⟩
  | .ret s e => by
    refine (answers_analyzeReturn e s).bind_pure fun e' he => ⟨?_, he.all⟩
    rw [Stmt.bare, Stmt.bare]
    exact congrArg (Stmt.ret s) he.bare_eq

/-- The analysis of a clause that may be missing fills it. -/
theorem answers_analyzeStmtOpt : ∀ o : Option Stmt,
    Answers (analyzeStmtOpt o) (Filled Stmt.bareOpt Stmt.nodesOpt o)
  | none => .pure ⟨rfl, List.forall_mem_nil _⟩
  | some s => by
    rw [analyzeStmtOpt, analyzeIn_false]
    have hs : Answers (declareAll (functionBindings [s]) >>= fun _ => s.analyzeIn true) _ :=
      .after fun _ => answers_analyzeStmt s
    exact hs.bind_pure fun _ hs => ⟨congrArg Option.some hs.bare_eq, hs.all⟩

/-- The analysis of a list of statements fills each of them. -/
theorem answers_analyzeStmts : ∀ ss : List Stmt,
    Answers (analyzeAllIn ss) (Filled Stmt.bareAll Stmt.nodesAll ss)
  | [] => .pure ⟨rfl, List.forall_mem_nil _⟩
  | s :: ss => by
    refine (answers_analyzeStmt s).bind fun s' hs => ?_
    refine (answers_analyzeStmts ss).bind_pure fun ss' hss => ⟨?_, hs.all.append hss.all⟩
    rw [Stmt.bareAll, Stmt.bareAll, hs.bare_eq, hss.bare_eq]

/-- The analysis of a block fills its statements. -/
theorem answers_analyzeBlock : ∀ b : Block, Answers b.analyze (Filled Block.bare Block.nodes b)
  | ⟨ss, s⟩ => by
    rw [Block.analyze_eq]
    have hbody := answers_analyzeBody [] (answers_analyzeStmts ss)
    refine hbody.inScope.bind_pure fun ss' h => ⟨?_, h.all⟩
    rw [Block.bare, Block.bare, h.bare_eq]

/-- The analysis of a block that may be missing fills it. -/
theorem answers_analyzeBlockOpt : ∀ o : Option Block,
    Answers (analyzeBlockOpt o) (Filled Block.bareOpt Block.nodesOpt o)
  | none => .pure ⟨rfl, List.forall_mem_nil _⟩
  | some b => (answers_analyzeBlock b).bind_pure fun _ hb =>
      ⟨congrArg Option.some hb.bare_eq, hb.all⟩

/-- The analysis of conditional arms fills their conditions and blocks. -/
theorem answers_analyzeArms : ∀ arms : List Arm,
    Answers (analyzeArms arms) (Filled Arm.bareAll Arm.nodesAll arms)
  | [] => .pure ⟨rfl, List.forall_mem_nil _⟩
  | ⟨e, b⟩ :: arms => by
    refine (answers_analyzeFor e _).bind fun e' he => ?_
    refine (answers_analyzeBlock b).bind fun b' hb => ?_
    refine (answers_analyzeArms arms).bind_pure fun arms' harms => ⟨?_, ?_⟩
    · rw [Arm.bareAll, Arm.bareAll, he.bare_eq, hb.bare_eq, harms.bare_eq]
    · exact he.all.append (hb.all.append harms.all)

end

/-! ## Main result -/

/-- In every context, trees with the same bare form are analyzed with the same reports and the same
answer. The answer has their bare form, and a type is recorded at every expression in it. -/
def Annotates {T : Type} (bare : T → T) (nodes : T → List Expr) (analyze : T → Check T) : Prop :=
  ∀ (ctx : Context) (x x' : T), bare x = bare x' → ∃ y c,
    analyze x ctx = .ok y c ∧ analyze x' ctx = .ok y c ∧ bare y = bare x ∧
      ∀ e ∈ nodes y, e.Analyzed

/-- An analysis annotates trees if it starts from their bare forms, always ends without a fault, and
fills in the types. -/
theorem annotates_of_answers {T : Type} {bare : T → T} {nodes : T → List Expr}
    {analyze : T → Check T} {ds : T → List Binding} (hbare : ∀ x, analyze (bare x) = analyze x)
    (hends : ∀ x, Ends (ds x) (analyze x) anyAnswer)
    (hfill : ∀ x, Answers (analyze x) (Filled bare nodes x)) : Annotates bare nodes analyze := by
  intro ctx x x' h
  have hsame : analyze x = analyze x' := by
    rw [← hbare x, h, hbare x']
  obtain ⟨y, bs, new, hrun, -, -⟩ := hends x ctx
  have hy := hfill x hrun
  refine ⟨y, _, hrun, ?_, hy.bare_eq, hy.all⟩
  rw [← hsame]
  exact hrun

/-- A sequence is analyzed as its bare form is. -/
theorem analyzeSequence_bareAll (ss : List Stmt) :
    analyzeSequence (Stmt.bareAll ss) = analyzeSequence ss := by
  rw [analyzeSequence, analyzeSequence, functionBindings_bareAll, analyzeAllIn_bareAll]

/-- The analysis of a sequence fills its statements. -/
theorem answers_analyzeSequence (ss : List Stmt) :
    Answers (analyzeSequence ss) (Filled Stmt.bareAll Stmt.nodesAll ss) :=
  .after fun _ => answers_analyzeStmts ss

/-- The analysis of a program fills it. -/
theorem answers_analyzeProgram (p : Program) :
    Answers p.analyze (Filled Program.bare Program.nodes p) :=
  (answers_analyzeSequence p.stmts).bind_pure fun _ h =>
    ⟨congrArg Program.mk h.bare_eq, h.all⟩

/-- The analysis of a statement on its own fills it. -/
theorem answers_analyzeAlone (s : Stmt) : Answers s.analyze (Filled Stmt.bare Stmt.nodes s) := by
  rw [Stmt.analyze, analyzeIn_false]
  exact .after fun _ => answers_analyzeStmt s

/-- Programs, sequences, blocks and statements are annotated in every context, and what the analysis
of a program gives is analyzed again with the same reports and without changes. -/
theorem analysis_annotates :
    Annotates Program.bare Program.nodes Program.analyze ∧
    Annotates Stmt.bareAll Stmt.nodesAll analyzeSequence ∧
    Annotates Block.bare Block.nodes Block.analyze ∧
    Annotates Stmt.bare Stmt.nodes Stmt.analyze ∧
    ∀ p : Program, ∃ q log, p.analysis = .ok ⟨q, log⟩ ∧ q.analysis = .ok ⟨q, log⟩ := by
  refine ⟨?_, ?_, ?_, ?_, fun p => ?_⟩
  · exact annotates_of_answers Program.analyze_bare ends_analyzeProgram answers_analyzeProgram
  · exact annotates_of_answers analyzeSequence_bareAll ends_analyzeSequence answers_analyzeSequence
  · exact annotates_of_answers Block.analyze_bare ends_analyzeBlock answers_analyzeBlock
  · exact annotates_of_answers (Stmt.analyzeIn_bare false) ends_analyzeAlone answers_analyzeAlone
  · obtain ⟨q, c, hrun, hok⟩ := p.analysis_ok
    have hbare : q.bare = p.bare := (answers_analyzeProgram p hrun).bare_eq
    have hagain : q.analysis = p.analysis := by
      rw [← q.analysis_bare, hbare, p.analysis_bare]
    exact ⟨q, c.log, hok, hagain.trans hok⟩

/-- A program with a misplaced return of a call that is not declared: `return f(true);`, with `t` as
the type that is recorded everywhere in it. -/
def misplacedReturn (t : Option Ty) : Program :=
  let s : Span := ⟨0, 0⟩
  ⟨[.ret s (some (.call ⟨s, t⟩ ⟨"f", [.lit ⟨s, t⟩ (.bool true)], s⟩))]⟩

/-- The types recorded before do not matter, even where they are wrong. -/
theorem annotates_misplacedReturn : ∃ q c,
    (misplacedReturn none).analyze .initial = .ok q c ∧
    (misplacedReturn (some .str)).analyze .initial = .ok q c ∧
    q.bare = (misplacedReturn none).bare ∧ ∀ e ∈ q.nodes, e.Analyzed :=
  analysis_annotates.1 .initial (misplacedReturn none) (misplacedReturn (some .str)) rfl

end Procedural
