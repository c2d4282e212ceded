import Procedural.Proofs.Analysis.Balance
import Procedural.Proofs.Findings.Basic

/-! # Analysis reports the findings

`Finds σ act τ found P` says of a check that is run in the surroundings `σ` that it leaves the
surroundings `τ`, that it reports `found` apart from problems with types, and that its answer obeys
`P`. The analysis of a tree has such a specification: it reports the findings of the tree, takes
the bindings that the tree makes, and answers the tree with other types recorded in it. -/

namespace Procedural

variable {α β : Type} {x act : Check α} {f : α → Check β} {σ τ υ : Surroundings}
  {found found' : Log} {P : α → Prop} {Q : β → Prop}

/-! ## The specification -/

/-- If the check ends without a fault, then it ends in `τ`, what it reports other than about types
is `found`, and `P` holds of its answer. -/
def Finds (σ : Surroundings) (act : Check α) (τ : Surroundings) (found : Log) (P : α → Prop) :
    Prop :=
  ∀ ⦃ctx : Context⦄ ⦃a : α⦄ ⦃c : Context⦄, ctx.surroundings = σ → act ctx = .ok a c →
    c.surroundings = τ ∧ (∃ new, c.log = ctx.log ++ new ∧ new.untyped = found) ∧ P a

namespace Finds

/-- Returning an answer finds nothing and moves nowhere. -/
theorem pure {a : α} (h : P a) : Finds σ (Pure.pure a) σ [] P := by
  intro ctx a' c hctx hrun
  obtain ⟨rfl, rfl⟩ := of_pure_ok hrun
  exact ⟨hctx, ⟨[], (List.append_nil _).symm, rfl⟩, h⟩

/-- Two checks in a row find what the one finds and then what the other finds from there. -/
theorem bind (hx : Finds σ x τ found P) (hf : ∀ a, P a → Finds τ (f a) υ found' Q) :
    Finds σ (x >>= f) υ (found ++ found') Q := by
  intro ctx b c hctx hrun
  obtain ⟨a, c', hrun₁, hrun₂⟩ := of_bind_ok hrun
  obtain ⟨hc', ⟨new, hlog, rfl⟩, ha⟩ := hx hctx hrun₁
  obtain ⟨hc, ⟨new', hlog', rfl⟩, hb⟩ := hf a ha hc' hrun₂
  refine ⟨hc, ⟨new ++ new', ?_, Log.untyped_append ..⟩, hb⟩
  rw [hlog', hlog, List.append_assoc]

/-- The first check finds nothing. -/
theorem silent_bind (hx : Finds σ x τ [] P) (hf : ∀ a, P a → Finds τ (f a) υ found Q) :
    Finds σ (x >>= f) υ found Q :=
  hx.bind hf

/-- The checks after the first one find nothing. -/
theorem bind_silent (hx : Finds σ x τ found P) (hf : ∀ a, P a → Finds τ (f a) υ [] Q) :
    Finds σ (x >>= f) υ found Q := by
  have h := hx.bind hf
  rwa [List.append_nil] at h

/-- The answer of the last check is put together from those of the checks before it. -/
theorem bind_pure {g : α → β} (hx : Finds σ x τ found P) (hg : ∀ a, P a → Q (g a)) :
    Finds σ (x >>= fun a => Pure.pure (g a)) τ found Q :=
  hx.bind_silent fun a ha => .pure (hg a ha)

/-- A check that binds nothing. -/
theorem binds_nothing (h : Finds σ act σ found P) : Finds σ act (σ.offerAll []) found P := by
  rwa [Surroundings.offerAll_nil]

/-! ### Brackets -/

/-- A scope ends where it began, and what its content finds is found. -/
theorem inScope {bs : List Binding} (h : Finds σ.push act (σ.push.offerAll bs) found P) :
    Finds σ (inScope act) σ found P := by
  intro ctx a c hctx hrun
  obtain ⟨c', hact, hexit⟩ := of_inScope_ok hrun
  have hpush : ctx.push.surroundings = σ.push := by rw [← hctx]; rfl
  obtain ⟨hc', ⟨new, hlog, hnew⟩, ha⟩ := h hpush hact
  have hscopes : c'.scopes = (σ.push.offerAll bs).scopes := congrArg Surroundings.scopes hc'
  refine ⟨?_, ⟨new, (log_of_exitScope hexit).trans hlog, hnew⟩, ha⟩
  -- the bindings have gone into the scope that is left
  have hpop : c'.scopes.pop? = some σ.scopes := by rw [hscopes]; rfl
  rw [exitScope, hpop] at hexit
  cases hexit
  have hloops : c'.loops = σ.loops := congrArg Surroundings.loops hc'
  have hreturns : c'.returns = σ.returns := congrArg Surroundings.returns hc'
  rw [Context.surroundings, hloops, hreturns]

/-- A loop ends where it began, and what its content finds one loop deeper is found. -/
theorem inLoop (h : Finds σ.inside act σ.inside found P) : Finds σ (inLoop act) σ found P := by
  intro ctx a c hctx hrun
  obtain ⟨c', hact, hexit⟩ := of_inLoop_ok hrun
  have hinside : ctx.inside.surroundings = σ.inside := by rw [← hctx]; rfl
  obtain ⟨hc', ⟨new, hlog, hnew⟩, ha⟩ := h hinside hact
  obtain ⟨hsame, -⟩ := of_exitLoop_ok hexit
  refine ⟨?_, ⟨new, hsame.trans hlog, hnew⟩, ha⟩
  have hloops : c'.loops = σ.loops + 1 := congrArg Surroundings.loops hc'
  rw [exitLoop, hloops] at hexit
  cases hexit
  have hscopes : c'.scopes = σ.scopes := congrArg Surroundings.scopes hc'
  have hreturns : c'.returns = σ.returns := congrArg Surroundings.returns hc'
  rw [Context.surroundings, hscopes, hreturns]

/-- A function body ends where it began, and what its content finds inside is found. -/
theorem inFunction (t : Ty) (h : Finds (σ.enter t) act (σ.enter t) found P) :
    Finds σ (inFunction t act) σ found P := by
  intro ctx a c hctx hrun
  obtain ⟨c', hact, rfl⟩ := of_inFunction_ok hrun
  have henter : (ctx.enter t).surroundings = σ.enter t := by rw [← hctx]; rfl
  obtain ⟨hc', hnew, ha⟩ := h henter hact
  refine ⟨?_, hnew, ha⟩
  have hscopes : c'.scopes = σ.scopes := congrArg Surroundings.scopes hc'
  rw [Context.surroundings, hscopes, ← hctx]
  rfl

end Finds

/-! ## Reports and names -/

/-- A report is found unless it is about types. -/
theorem finds_report (p : Problem) (s : Option Span) :
    Finds σ (report p s) σ (Log.untyped [⟨p, s⟩]) anyAnswer := by
  intro ctx a c hctx hrun
  cases hrun
  exact ⟨hctx, ⟨[⟨p, s⟩], rfl, rfl⟩, trivial⟩

/-- A problem with a jump or a return. -/
theorem finds_control {p : Problem} (hp : p.kind = .control) (s : Option Span) :
    Finds σ (report p s) σ [⟨p, s⟩] anyAnswer := by
  have h := finds_report (σ := σ) p s
  rwa [Log.untyped, List.filter_cons_of_pos (by simp [hp])] at h

/-- A declaration is offered to the innermost frame, and its refusal is found. -/
theorem finds_declare (x : String) (e : Entity) :
    Finds σ (declare x e) (σ.offerAll [(x, e)]) (σ.refusals [(x, e)]) anyAnswer := by
  rintro ctx a c rfl hrun
  have hframe : ctx.surroundings.frame.lookup x = ctx.scopes.lookupLocal x := rfl
  cases hlocal : ctx.scopes.lookupLocal x with
  | none =>
    rw [hlocal] at hframe
    rw [declare, Scopes.define, hlocal] at hrun
    cases hrun
    refine ⟨?_, ⟨[], (List.append_nil _).symm, ?_⟩, trivial⟩
    · simp [Surroundings.offerAll, Frame.offerAll, Frame.offer, hframe]
      rfl
    · simp [Surroundings.refusals, Frame.refusals, Frame.refusal, hframe]
      rfl
  | some old =>
    rw [hlocal] at hframe
    rw [declare, Scopes.define, hlocal] at hrun
    cases hrun
    refine ⟨?_, ⟨[⟨.duplicateDeclaration x old.span, some e.span⟩], rfl, ?_⟩, trivial⟩
    · -- a frame that has the name does not take the binding
      have hsame : ctx.surroundings.offerAll [(x, e)] = ctx.surroundings.offerAll [] := by
        simp only [Surroundings.offerAll, Frame.offerAll, List.foldl_cons, List.foldl_nil,
          Frame.offer, hframe]
        rfl
      rw [hsame, Surroundings.offerAll_nil]
      rfl
    · simp [Surroundings.refusals, Frame.refusals, Frame.refusal, hframe]
      rfl

/-- Declarations are offered to the innermost frame in order, and their refusals are found. -/
theorem finds_declareAll (bs : List Binding) :
    Finds σ (declareAll bs) (σ.offerAll bs) (σ.refusals bs) anyAnswer := by
  induction bs generalizing σ with
  | nil =>
    rw [Surroundings.offerAll_nil]
    exact .pure trivial
  | cons b bs ih =>
    rw [← List.singleton_append, Surroundings.offerAll_append, Surroundings.refusals_append]
    exact (finds_declare b.1 b.2).bind fun _ _ => ih

/-- Resolving a name answers its declaration and finds if it has none. -/
theorem finds_resolve (x : String) (s : Span) :
    Finds σ (resolve x s) σ (σ.scopes.unresolved x s) fun o => o = σ.scopes.lookup x := by
  rintro ctx o c rfl hrun
  show _ ∧ (∃ new, _ ∧ _ = ctx.scopes.unresolved x s) ∧ o = ctx.scopes.lookup x
  rw [Scopes.unresolved]
  cases hlookup : ctx.scopes.lookup x with
  | none =>
    rw [resolve, hlookup] at hrun
    cases hrun
    exact ⟨rfl, ⟨_, rfl, rfl⟩, rfl⟩
  | some e =>
    rw [resolve, hlookup] at hrun
    cases hrun
    exact ⟨rfl, ⟨[], (List.append_nil _).symm, rfl⟩, rfl⟩

/-- A declared name that has to stand for a value. -/
theorem finds_value {a' : α} {y : String} {s : Span} {k : Entity → Check α}
    (hk : ∀ e, Finds σ (k e) σ [] P) (ha : P a') :
    Finds σ (match σ.scopes.lookup y with
      | none => pure a'
      | some e => if e.isValue then k e else report (.notAVariable y) (some s) >>= fun _ => pure a')
      σ (σ.scopes.valueless y s) P := by
  rw [Scopes.valueless]
  cases σ.scopes.lookup y with
  | none => exact .pure ha
  | some e =>
    show Finds σ (if e.isValue then _ else _) σ (if e.isValue then _ else _) P
    split
    · exact hk e
    · exact (finds_report _ _).bind_pure fun _ _ => ha

/-! ## Demands -/

/-- Looking at the type of a checked expression finds nothing. -/
theorem finds_resolved (e : Expr) : Finds σ e.resolved σ [] anyAnswer := by
  intro ctx t c hctx hrun
  obtain ⟨-, rfl⟩ := of_resolved_ok hrun
  exact ⟨hctx, ⟨[], (List.append_nil _).symm, rfl⟩, trivial⟩

/-- A demand that is not met is reported as a problem with types. -/
theorem finds_require (e : Expr) (d : Demand) :
    Finds σ (e.require d) σ [] fun r => r.2.bare = e.bare := by
  refine (finds_resolved e).silent_bind fun t _ => ?_
  split
  · exact .pure rfl
  · split
    · exact .pure rfl
    · have hnone : Log.untyped [⟨d.problem t, some e.span⟩] = [] := by
        simp [Log.untyped, d.kind_problem]
      have hreport := finds_report (σ := σ) (d.problem t) (some e.span)
      rw [hnone] at hreport
      exact hreport.bind_pure fun _ _ => e.bare_withTy .error

/-- Demanding the same of both operands finds nothing and changes types at most. -/
theorem finds_requireBoth (d : Demand) (l r : Expr) :
    Finds σ (requireBoth d l r) σ [] fun o => o.1.2.bare = l.bare ∧ o.2.2.bare = r.bare :=
  (finds_require l d).silent_bind fun _ hl => (finds_require r d).bind_pure fun _ hr => ⟨hl, hr⟩

/-- Checking the operands of a binary operator finds nothing and changes types at most. -/
theorem finds_checkBinary (op : BinaryOp) (l r : Expr) :
    Finds σ (checkBinary op l r) σ [] fun o => o.2.1.bare = l.bare ∧ o.2.2.bare = r.bare := by
  cases op with
  | arith op =>
    refine (finds_requireBoth _ l r).silent_bind fun ⟨⟨_, l⟩, _, r⟩ h => ?_
    exact (finds_resolved l).silent_bind fun _ _ => (finds_resolved r).bind_pure fun _ _ => h
  | order op => exact (finds_requireBoth _ l r).bind_pure fun _ h => h
  | equality op =>
    refine (finds_resolved l).silent_bind fun _ _ => (finds_resolved r).silent_bind fun _ _ => ?_
    split
    · exact .pure ⟨rfl, rfl⟩
    · exact (finds_require r _).bind_pure fun _ h => ⟨rfl, h⟩
  | logic op => exact (finds_requireBoth _ l r).bind_pure fun _ h => h

/-- Checking the operand of a unary operator finds nothing and changes types at most. -/
theorem finds_checkUnary (op : UnaryOp) (e : Expr) :
    Finds σ (checkUnary op e) σ [] fun o => o.2.bare = e.bare := by
  cases op with
  | neg =>
    exact (finds_require e _).silent_bind fun ⟨_, e⟩ h =>
      (finds_resolved e).bind_pure fun _ _ => h
  | not => exact (finds_require e _).bind_pure fun _ h => h

/-- Checking a name in an expression finds if it has no declaration or no value. -/
theorem finds_checkIdent (y : String) (s : Span) :
    Finds σ (checkIdent y s) σ (σ.scopes.unresolved y s ++ σ.scopes.valueless y s) anyAnswer := by
  refine (finds_resolve y s).bind ?_
  rintro o rfl
  exact finds_value (fun _ => .pure trivial) trivial

/-- Demanding the parameter types of the arguments finds nothing and changes types at most. -/
theorem finds_requireArgs (g : String) (i : Nat) (es : List Expr) (ts : List Ty) :
    Finds σ (requireArgs g i es ts) σ [] fun es' => Expr.bareAll es' = Expr.bareAll es := by
  induction es generalizing i ts with
  | nil => exact .pure rfl
  | cons e es ih =>
    cases ts with
    | nil => exact .pure rfl
    | cons t ts =>
      exact (finds_require e _).silent_bind fun _ he => (ih (i + 1) ts).bind_pure fun _ hes =>
        congrArg₂ List.cons he hes

/-- Checking a call finds if the declaration does not fit it. -/
theorem finds_checkCall (g : String) (s : Span) (args : List Expr) :
    Finds σ (checkCall g s (σ.scopes.lookup g) args) σ (σ.scopes.uncallable g args.length s)
      fun r => Expr.bareAll r.2 = Expr.bareAll args := by
  rw [Scopes.uncallable]
  cases σ.scopes.lookup g with
  | none => exact .pure rfl
  | some e =>
    obtain ⟨role, ty, span⟩ := e
    cases ty with
    | fn params result =>
      show Finds σ (if _ then _ else _) σ (if _ then _ else _) _
      split
      · exact (finds_requireArgs g 1 args _).bind_pure fun _ h => h
      · exact (finds_report _ _).bind_pure fun _ _ => rfl
    | _ => exact (finds_report _ _).bind_pure fun _ _ => rfl

/-! ## Expressions -/

mutual

/-- Analyzing an expression finds its findings and changes types at most. -/
theorem finds_analyzeExpr : ∀ e : Expr,
    Finds σ e.analyze σ (e.findings σ.scopes) fun e' => e'.bare = e.bare
  | .lit _ _ => .pure rfl
  | .ident n y => (finds_checkIdent y n.span).bind_pure fun _ _ => rfl
  | .binary _ op l r =>
    (finds_analyzeExpr l).bind fun l hl => (finds_analyzeExpr r).bind_silent fun r hr =>
      (finds_checkBinary op l r).bind_pure fun ⟨_, l', r'⟩ ⟨hl', hr'⟩ => by
        simp [Expr.withTy, Expr.bare, Note.bare, hl'.trans hl, hr'.trans hr]
  | .unary _ op e =>
    (finds_analyzeExpr e).bind_silent fun e he =>
      (finds_checkUnary op e).bind_pure fun ⟨_, e'⟩ he' => by
        simp [Expr.withTy, Expr.bare, Note.bare, he'.trans he]
  | .call _ c =>
    (finds_analyzeCall c).bind_pure fun ⟨_, c'⟩ hc => by
      simp [Expr.withTy, Expr.bare, Note.bare, hc]

/-- Analyzing a call finds its findings and changes types at most. -/
theorem finds_analyzeCall : ∀ c : Call,
    Finds σ c.analyze σ (c.findings σ.scopes) fun r => r.2.bare = c.bare
  | ⟨g, args, s⟩ => by
    refine (finds_resolve g s).bind ?_
    rintro o rfl
    refine (finds_analyzeExprs args).bind fun args' hargs => ?_
    have hlength : args'.length = args.length := by
      rw [← Expr.length_bareAll args', hargs, Expr.length_bareAll]
    rw [← hlength]
    exact (finds_checkCall g s args').bind_pure fun ⟨_, args''⟩ hargs' => by
      simp [Call.bare, hargs'.trans hargs]

/-- Analyzing a list of expressions finds their findings and changes types at most. -/
theorem finds_analyzeExprs : ∀ es : List Expr,
    Finds σ (analyzeAll es) σ (Expr.findingsAll σ.scopes es)
      fun es' => Expr.bareAll es' = Expr.bareAll es
  | [] => .pure rfl
  | e :: es =>
    (finds_analyzeExpr e).bind fun _ he => (finds_analyzeExprs es).bind_pure fun _ hes =>
      congrArg₂ List.cons he hes

end

/-! ## Statements -/

/-- Analyzing an expression of which something is demanded finds what the expression does. -/
theorem finds_analyzeFor (e : Expr) (d : Demand) :
    Finds σ (e.analyzeFor d) σ (e.findings σ.scopes) fun e' => e'.bare = e.bare :=
  (finds_analyzeExpr e).bind_silent fun e he => (finds_require e d).bind_pure fun _ he' =>
    he'.trans he

/-- Analyzing an optional expression of which something is demanded finds what it does. -/
theorem finds_analyzeForOpt (d : Demand) : ∀ o : Option Expr,
    Finds σ (analyzeForOpt d o) σ (Expr.findingsOpt σ.scopes o)
      fun o' => o'.map Expr.bare = o.map Expr.bare
  | none => .pure rfl
  | some e => (finds_analyzeFor e d).bind_pure fun _ he => congrArg some he

/-- A variable is declared after its initializer has been searched. -/
theorem finds_analyzeVar (d : VarDecl) :
    Finds σ d.analyze (σ.offerAll [d.binding])
      (Expr.findingsOpt σ.scopes d.init ++ σ.refusals [d.binding]) fun d' => d'.bare = d.bare :=
  (finds_analyzeForOpt _ d.init).bind fun _ hinit =>
    (finds_declareAll [d.binding]).bind_pure fun _ _ => by simp [VarDecl.bare, hinit]

/-- An assignment finds an undeclared target before the value and a wrong one after it. -/
theorem finds_analyzeAssign (y : String) (e : Expr) (s : Span) :
    Finds σ (analyzeAssign y e s) σ
      (σ.scopes.unresolved y s ++ (e.findings σ.scopes ++ σ.scopes.valueless y s))
      fun e' => e'.bare = e.bare := by
  refine (finds_resolve y s).bind ?_
  rintro o rfl
  refine (finds_analyzeExpr e).bind fun e he => ?_
  exact finds_value (fun _ => (finds_require e _).bind_pure fun _ h => h.trans he) he

/-- The context is asked for what surrounds the statement. -/
theorem finds_get_bind {k : Context → Check α}
    (hk : ∀ ctx, ctx.surroundings = σ → Finds σ (k ctx) τ found P) :
    Finds σ (get >>= k) τ found P := by
  intro ctx a c hctx hrun
  obtain ⟨ctx', c', hget, hrest⟩ := of_bind_ok hrun
  cases hget
  exact hk ctx hctx hctx hrest

/-- A jump is found exactly outside of loops. -/
theorem finds_checkJump (j : Jump) (s : Span) :
    Finds σ (checkJump j s) σ (if σ.looped then [] else [⟨j.problem, some s⟩]) anyAnswer := by
  refine finds_get_bind fun ctx hctx => ?_
  have hloop : ctx.isInLoop = σ.looped := by rw [← hctx]; rfl
  rw [hloop]
  split
  · exact .pure trivial
  · exact finds_control j.kind_problem _

/-- A return finds what its value does and then what is wrong with its place. -/
theorem finds_analyzeReturn (o : Option Expr) (s : Span) :
    Finds σ (analyzeReturn o s) σ
      (Expr.findingsOpt σ.scopes o ++
        ((returnProblem? σ.returns o.isSome).map (⟨·, some s⟩)).toList)
      fun o' => o'.map Expr.bare = o.map Expr.bare := by
  have halone {p : Problem} (hp : p.kind = .control) :
      Finds σ (report p (some s) >>= fun _ => Pure.pure none) σ [⟨p, some s⟩]
        fun o' : Option Expr => o'.map Expr.bare = none :=
    (finds_control hp _).bind_pure fun _ _ => rfl
  have hvalue {p : Problem} (hp : p.kind = .control) (e : Expr) :
      Finds σ (e.analyze >>= fun e => report p (some s) >>= fun _ => Pure.pure (some e)) σ
        (e.findings σ.scopes ++ [⟨p, some s⟩]) fun o' => o'.map Expr.bare = some e.bare :=
    (finds_analyzeExpr e).bind fun _ he => (finds_control hp _).bind_pure fun _ _ =>
      congrArg some he
  refine finds_get_bind fun ctx hctx => ?_
  have hreturns : ctx.returns = σ.returns := by rw [← hctx]; rfl
  rw [hreturns]
  -- outside functions, in procedures and in other functions, without and with a value
  split <;> rename_i h <;> rw [h]
  · exact halone rfl
  · exact hvalue rfl _
  · exact .pure rfl
  · exact hvalue rfl _
  · rename_i t hvoid
    rw [returnProblem?_function hvoid]
    exact halone rfl
  · rename_i t e hvoid
    rw [returnProblem?_function hvoid]
    show Finds σ _ σ (e.findings σ.scopes ++ []) _
    rw [List.append_nil]
    exact (finds_analyzeFor e _).bind_pure fun _ he => congrArg some he

/-! ### Bodies -/

/-- In a body the parameters are declared first, then the functions, and each variable in its
turn. -/
theorem Finds.body {ss : List Stmt} {P : List Stmt → Prop} (σ : Surroundings) (params : List Param)
    (h : ∀ τ, Finds τ (analyzeAllIn ss) (τ.offerAll (ss.flatMap Stmt.bindings))
      (Stmt.findingsAll τ ss) P) :
    Finds σ (analyzeBody params ss)
      (σ.offerAll (params.map Param.binding ++ sequenceBindings ss))
      (σ.refusals (params.map Param.binding) ++
        Stmt.findingsSeq (σ.offerAll (params.map Param.binding)) ss) P := by
  rw [sequenceBindings, Surroundings.offerAll_append, Surroundings.offerAll_append]
  exact (finds_declareAll _).bind fun _ _ => (finds_declareAll _).bind fun _ _ => h _

mutual

/-- In a sequence the function of a statement has been declared before the statement is analyzed. -/
theorem finds_analyzeStmt : ∀ (σ : Surroundings) (s : Stmt),
    Finds σ (s.analyzeIn true) (σ.offerAll s.bindings) (s.findings σ) fun s' => s'.bare = s.bare
  | _, .var s d => (finds_analyzeVar d).bind_pure fun _ hd => congrArg (Stmt.var s) hd
  | σ, .func s f ⟨body, t⟩ => by
    have hbody := Finds.body (σ.enter f.result).push f.params
      fun τ => finds_analyzeStmts τ body
    rw [analyzeIn_func]
    exact .binds_nothing <| (hbody.inScope.inFunction f.result).bind_pure fun _ hss =>
      congrArg (Stmt.func s f ⟨·, t⟩) hss
  | _, .assign s y e =>
    .binds_nothing <| (finds_analyzeAssign y e s).bind_pure fun _ he =>
      congrArg (Stmt.assign s y) he
  | _, .call s c =>
    .binds_nothing <| (finds_analyzeCall c).bind_pure fun _ hc => congrArg (Stmt.call s) hc
  | _, .after s e c =>
    .binds_nothing <| (finds_analyzeFor e _).bind fun _ he =>
      (finds_analyzeCall c).bind_pure fun _ hc => congrArg₂ (Stmt.after s) he hc
  | σ, .block s b =>
    .binds_nothing <| (finds_analyzeBlock σ b).bind_pure fun _ hb => congrArg (Stmt.block s) hb
  | σ, .ifChain s arms o =>
    .binds_nothing <| (finds_analyzeArms σ arms).bind fun _ harms =>
      (finds_analyzeBlockOpt σ o).bind_pure fun _ ho => congrArg₂ (Stmt.ifChain s) harms ho
  | σ, .whileLoop s e b =>
    .binds_nothing <| (finds_analyzeFor e _).bind fun _ he =>
      (finds_analyzeBlock σ.inside b).inLoop.bind_pure fun _ hb =>
        congrArg₂ (Stmt.whileLoop s) he hb
  | σ, .forLoop s i e u b => by
    have hi := finds_analyzeStmtOpt σ.push i
    have hu := finds_analyzeStmtOpt (σ.push.offerAll (sequenceBindings i.toList)) u
    -- the initializer and the step share the scope of the loop
    rw [← Surroundings.offerAll_append] at hu
    refine .binds_nothing <| .inScope <| hi.bind fun _ hi =>
      (finds_analyzeForOpt _ e).bind fun _ he => (finds_analyzeBlock _ b).inLoop.bind fun _ hb =>
      hu.bind_pure fun _ hu => ?_
    simp [Stmt.bare, hi, he, hb, hu]
  | _, .jump s j => .binds_nothing <| (finds_checkJump j s).bind_pure fun _ _ => rfl
  | _, .ret s e =>
    .binds_nothing <| (finds_analyzeReturn e s).bind_pure fun _ he => congrArg (Stmt.ret s) he

/-- The initializer or step of a loop finds its findings and declares its own bindings. -/
theorem finds_analyzeStmtOpt : ∀ (σ : Surroundings) (o : Option Stmt),
    Finds σ (analyzeStmtOpt o) (σ.offerAll (sequenceBindings o.toList)) (Stmt.findingsOpt σ o)
      fun o' => Stmt.bareOpt o' = Stmt.bareOpt o
  | _, none => Finds.binds_nothing (.pure rfl)
  | σ, some s => by
    have hs := (finds_declareAll (σ := σ) (functionBindings [s])).bind fun _ _ =>
      finds_analyzeStmt _ s
    rw [← analyzeIn_false, ← Surroundings.offerAll_append, ← List.flatMap_singleton
      Stmt.bindings s] at hs
    exact hs.bind_pure fun _ hs => congrArg some hs

/-- The statements of a sequence find their findings in order. -/
theorem finds_analyzeStmts : ∀ (σ : Surroundings) (ss : List Stmt),
    Finds σ (analyzeAllIn ss) (σ.offerAll (ss.flatMap Stmt.bindings)) (Stmt.findingsAll σ ss)
      fun ss' => Stmt.bareAll ss' = Stmt.bareAll ss
  | _, [] => Finds.binds_nothing (.pure rfl)
  | σ, s :: ss => by
    rw [List.flatMap_cons, Surroundings.offerAll_append]
    exact (finds_analyzeStmt σ s).bind fun _ hs =>
      (finds_analyzeStmts _ ss).bind_pure fun _ hss => congrArg₂ List.cons hs hss

/-- A block finds its findings and declares nothing outside. -/
theorem finds_analyzeBlock : ∀ (σ : Surroundings) (b : Block),
    Finds σ b.analyze σ (b.findings σ) fun b' => b'.bare = b.bare
  | σ, ⟨ss, s⟩ => by
    rw [Block.analyze_eq]
    have hbody := Finds.body σ.push [] fun τ => finds_analyzeStmts τ ss
    rw [List.map_nil, Surroundings.offerAll_nil] at hbody
    exact hbody.inScope.bind_pure fun _ hss => congrArg (Block.mk · s) hss

/-- An optional block finds its findings and declares nothing outside. -/
theorem finds_analyzeBlockOpt : ∀ (σ : Surroundings) (o : Option Block),
    Finds σ (analyzeBlockOpt o) σ (Block.findingsOpt σ o)
      fun o' => Block.bareOpt o' = Block.bareOpt o
  | _, none => .pure rfl
  | σ, some b => (finds_analyzeBlock σ b).bind_pure fun _ hb => congrArg some hb

/-- The arms of a conditional find their findings in order and declare nothing outside. -/
theorem finds_analyzeArms : ∀ (σ : Surroundings) (arms : List Arm),
    Finds σ (analyzeArms arms) σ (Arm.findingsAll σ arms)
      fun arms' => Arm.bareAll arms' = Arm.bareAll arms
  | _, [] => .pure rfl
  | σ, ⟨e, b⟩ :: arms =>
    (finds_analyzeFor e _).bind fun _ he => (finds_analyzeBlock σ b).bind fun _ hb =>
      (finds_analyzeArms σ arms).bind_pure fun _ harms =>
        congrArg₂ List.cons (congrArg₂ Arm.mk he hb) harms

end

/-- A function body declares its parameters and its functions and then finds as a sequence. -/
theorem finds_analyzeBody (σ : Surroundings) (params : List Param) (ss : List Stmt) :
    Finds σ (analyzeBody params ss)
      (σ.offerAll (params.map Param.binding ++ sequenceBindings ss))
      (σ.refusals (params.map Param.binding) ++
        Stmt.findingsSeq (σ.offerAll (params.map Param.binding)) ss)
      fun ss' => Stmt.bareAll ss' = Stmt.bareAll ss :=
  .body σ params fun τ => finds_analyzeStmts τ ss

/-- Analyzing a program in a fresh context reports what can be found about it, apart from problems
with types, and answers the program with other types recorded in it. -/
theorem Program.analysis_findings (p : Program) :
    ∃ q log, p.analysis = .ok ⟨q, log⟩ ∧ log.untyped = p.findings ∧ q.bare = p.bare := by
  obtain ⟨q, c, hrun, hanalysis⟩ := p.analysis_ok
  rw [p.analyze_eq] at hrun
  have hprogram := (finds_analyzeBody .initial [] p.stmts).bind_pure (g := Program.mk)
    (Q := fun q => q.bare = p.bare) fun _ hss => congrArg Program.mk hss
  obtain ⟨-, ⟨new, hlog, hnew⟩, hbare⟩ := hprogram rfl hrun
  have hnil : c.log = new := hlog
  refine ⟨q, c.log, hanalysis, ?_, hbare⟩
  rw [hnil, hnew, List.map_nil, Surroundings.offerAll_nil]
  rfl

end Procedural
