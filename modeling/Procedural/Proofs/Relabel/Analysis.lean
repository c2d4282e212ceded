import Procedural.Proofs.Analysis.Balance
import Procedural.Proofs.Relabel.Basic

/-! # The analysis of a relabeled tree

A relabeled tree is analyzed, in a relabeled context, as the tree itself is: the answer, the context
in the end and the reports are those of the tree, relabeled. `Follows` says so of two checks. It is
kept by sequencing and by the brackets of a context, so it passes from the checks that look at names
and places to those of whole trees. -/

namespace Procedural

variable {α β γ δ : Type} {m : Relabeling} {g : α → β} {h : γ → δ} {x act : Check α}
  {x' act' : Check β} {f : α → Check γ} {f' : β → Check δ}

namespace Relabeling

/-! ## Two runs in step -/

/-- The result of a run of new names and places; `g` acts on the answer. -/
def result (m : Relabeling) (g : α → β) :
    EStateM.Result Fault Context α → EStateM.Result Fault Context β
  | .ok a c => .ok (g a) (m.context c)
  | .error e c => .error e (m.context c)

/-- In relabeled contexts, `act'` does what `act` does, relabeled. -/
def Follows (m : Relabeling) (g : α → β) (act : Check α) (act' : Check β) : Prop :=
  ∀ ctx, act' (m.context ctx) = m.result g (act ctx)

namespace Follows

/-- Answers at once are relabeled as they are. -/
theorem pure (m : Relabeling) (g : α → β) (a : α) : m.Follows g (pure a) (pure (g a)) :=
  fun _ => rfl

/-- Two relabeled checks in a row do what the two checks do, relabeled. -/
theorem bind (hx : m.Follows g x x') (hf : ∀ a, m.Follows h (f a) (f' (g a))) :
    m.Follows h (x >>= f) (x' >>= f') := by
  intro ctx
  show EStateM.bind x' f' (m.context ctx) = m.result h (EStateM.bind x f ctx)
  rw [EStateM.bind, EStateM.bind, hx ctx]
  -- a fault of the first check is the fault of both in a row
  cases x ctx with
  | ok a c => exact hf a c
  | error e c => rfl

/-- The answer of the last check is put together from those of the checks before it. -/
theorem bind_pure {k : α → γ} {k' : β → δ} (hx : m.Follows g x x')
    (hk : ∀ a, k' (g a) = h (k a)) :
    m.Follows h (x >>= fun a => Pure.pure (k a)) (x' >>= fun b => Pure.pure (k' b)) := by
  refine hx.bind fun a => ?_
  rw [hk a]
  exact .pure m h (k a)

/-! ### Brackets -/

/-- Entering a scope does not depend on names. -/
theorem enterScope (m : Relabeling) : m.Follows id enterScope enterScope := fun _ => rfl

/-- Leaving a scope does not depend on names. -/
theorem exitScope (m : Relabeling) : m.Follows id exitScope exitScope := by
  intro ctx
  have hpop : (m.context ctx).scopes.pop? = ctx.scopes.pop?.map m.scopes :=
    m.pop?_scopes ctx.scopes
  unfold Procedural.exitScope
  rw [hpop]
  cases ctx.scopes.pop? <;> rfl

/-- A scope does what it does, relabeled, if its content does. -/
theorem inScope (hact : m.Follows g act act') : m.Follows g (inScope act) (inScope act') :=
  (enterScope m).bind fun _ => hact.bind fun a => (exitScope m).bind fun _ => .pure m g a

/-- Entering a loop does not depend on names. -/
theorem enterLoop (m : Relabeling) : m.Follows id enterLoop enterLoop := fun _ => rfl

/-- Leaving a loop does not depend on names. -/
theorem exitLoop (m : Relabeling) : m.Follows id exitLoop exitLoop := by
  intro ctx
  obtain ⟨scopes, loops, returns, log⟩ := ctx
  cases loops <;> rfl

/-- A loop does what it does, relabeled, if its content does. -/
theorem inLoop (hact : m.Follows g act act') : m.Follows g (inLoop act) (inLoop act') :=
  (enterLoop m).bind fun _ => hact.bind fun a => (exitLoop m).bind fun _ => .pure m g a

/-- A look at the context sees the relabeled context. -/
theorem get (m : Relabeling) : m.Follows m.context (get : Check Context) get := fun _ => rfl

/-- A function body does what it does, relabeled, if its content does. -/
theorem inFunction (t : Ty) (hact : m.Follows g act act') :
    m.Follows g (inFunction t act) (inFunction t act') := by
  refine (get m).bind fun outer => ?_
  have hset : m.Follows id (set { outer with returns := some t, loops := 0 } : Check PUnit)
      (set { m.context outer with returns := some t, loops := 0 }) := fun _ => rfl
  refine hset.bind fun _ => hact.bind fun a => ?_
  -- the loops and the result type around the function are the same in both contexts
  have hback : m.Follows id
      (modify fun c => { c with returns := outer.returns, loops := outer.loops } : Check PUnit)
      (modify fun c => { c with returns := outer.returns, loops := outer.loops }) := fun _ => rfl
  exact hback.bind fun _ => .pure m g a

end Follows

variable (m)

/-! ## Reports and names -/

/-- A relabeled report is added to the relabeled log. -/
theorem context_report (ctx : Context) (p : Problem) (s : Option Span) :
    (m.context ctx).report (m.problem p) (s.map m.place) = m.context (ctx.report p s) := by
  have hlog : m.log (ctx.log ++ [⟨p, s⟩]) = m.log ctx.log ++ [m.diagnostic ⟨p, s⟩] :=
    List.map_append
  show Context.mk _ _ _ _ = Context.mk _ _ _ (m.log (ctx.log ++ [⟨p, s⟩]))
  rw [hlog]
  rfl

/-- A relabeled binding is added to the relabeled scopes. -/
theorem context_bind (ctx : Context) (b : Binding) :
    (m.context ctx).bind (m.binding b) = m.context (ctx.bind b) := by
  have hbind : (m.scopes ctx.scopes).bind (m.binding b) = m.scopes (ctx.scopes.bind b) := by
    rw [Scopes.bind, innermost_scopes, Scopes.bind, ← withInnermost_scopes]
    rfl
  exact congrArg (fun s => { m.context ctx with scopes := s }) hbind

/-- Reports follow the names and places in them. -/
theorem follows_report (p : Problem) (s : Option Span) :
    m.Follows id (report p s) (report (m.problem p) (s.map m.place)) :=
  fun ctx => congrArg (EStateM.Result.ok ()) (m.context_report ctx p s)

/-- The new name can be declared where the old one can. -/
theorem follows_declare (x : String) (e : Entity) :
    m.Follows id (declare x e) (declare (m.name x) (m.entity e)) := by
  intro ctx
  have hlocal : (m.context ctx).scopes.lookupLocal (m.name x) =
      (ctx.scopes.lookupLocal x).map m.entity := m.lookupLocal_scopes ctx.scopes x
  rw [declare, declare, Scopes.define, Scopes.define, hlocal]
  cases ctx.scopes.lookupLocal x with
  | none => exact congrArg (EStateM.Result.ok true) (m.context_bind ctx (x, e))
  | some old =>
    exact congrArg (EStateM.Result.ok false)
      (m.context_report ctx (.duplicateDeclaration x old.span) (some e.span))

/-- Declarations follow, as a name is taken in the relabeled frame exactly if it was taken. -/
theorem follows_declareAll (bs : List Binding) :
    m.Follows id (declareAll bs) (declareAll (bs.map m.binding)) := by
  induction bs with
  | nil => exact .pure m id ()
  | cons b bs ih => exact (m.follows_declare b.1 b.2).bind fun _ => ih

/-- The new name stands for what the old one stands for. -/
theorem follows_resolve (x : String) (s : Span) :
    m.Follows (Option.map m.entity) (resolve x s) (resolve (m.name x) (m.place s)) := by
  intro ctx
  have hlookup : (m.context ctx).scopes.lookup (m.name x) =
      (ctx.scopes.lookup x).map m.entity := m.lookup_scopes ctx.scopes x
  rw [resolve, resolve, hlookup]
  cases ctx.scopes.lookup x with
  | none =>
    exact congrArg (EStateM.Result.ok none)
      (m.context_report ctx (.undeclaredIdentifier x) (some s))
  | some e => rfl

/-! ## Demands -/

/-- The demand of a construct that may quote a name. -/
def demand : Demand → Demand
  | .arithmetic c => .arithmetic (m.construct c)
  | .boolean c => .boolean (m.construct c)
  | .assignable c t => .assignable (m.construct c) t

/-- A relabeled demand admits the same types. -/
theorem admits_demand (d : Demand) (t : Ty) : (m.demand d).admits t = d.admits t := by
  cases d <;> rfl

/-- A relabeled demand complains with the relabeled problem. -/
theorem problem_demand (d : Demand) (t : Ty) :
    (m.demand d).problem t = m.problem (d.problem t) := by
  cases d <;> rfl

/-- The demands of an operator quote no name. -/
theorem quoteMark_notMem_symbol (op : BinaryOp) : quoteMark ∉ op.symbol.toList := by
  cases op with
  | arith op => cases op <;> decide
  | order op => cases op <;> decide
  | equality op => cases op <;> decide
  | logic op => cases op <;> decide

/-- The demand for a number quotes no name if its construct has no quote mark. -/
theorem demand_arithmetic {c : String} (hc : quoteMark ∉ c.toList) :
    m.demand (.arithmetic c) = .arithmetic c :=
  congrArg Demand.arithmetic (m.construct_plain hc)

/-- The demand for a truth value quotes no name if its construct has no quote mark. -/
theorem demand_boolean {c : String} (hc : quoteMark ∉ c.toList) :
    m.demand (.boolean c) = .boolean c :=
  congrArg Demand.boolean (m.construct_plain hc)

/-- The demand for an assignable value quotes no name if its construct has no quote mark. -/
theorem demand_assignable {c : String} (hc : quoteMark ∉ c.toList) (t : Ty) :
    m.demand (.assignable c t) = .assignable c t :=
  congrArg (Demand.assignable · t) (m.construct_plain hc)

/-- Demands of constructs that quote a name quote the new name. -/
theorem demand_quoted {c : String} (hc : quoteMark ∉ c.toList) (y : String) (t : Ty) :
    m.demand (.assignable (c ++ Problem.quoted y) t) =
      .assignable (c ++ Problem.quoted (m.name y)) t :=
  congrArg (Demand.assignable · t) (m.construct_quoted hc y)

/-- The number in the label of an argument is no quotation. -/
theorem quoteMark_notMem_argument (i : Nat) :
    quoteMark ∉ ("argument " ++ toString i ++ " of ").toList := by
  have hnum : quoteMark ∉ (toString i).toList := by
    intro hmem
    rw [Nat.toString_eq_repr, Nat.repr, String.toList_ofList] at hmem
    have hdigit := Nat.isDigit_of_mem_toDigits (by decide) (by decide) hmem
    exact absurd hdigit (by decide)
  rw [String.toList_append, String.toList_append, List.mem_append, List.mem_append]
  rintro ((hmem | hmem) | hmem)
  · exact absurd hmem (by decide)
  · exact hnum hmem
  · exact absurd hmem (by decide)

/-- The demand on an argument quotes the name of the called function only. -/
theorem demand_argument (g : String) (i : Nat) (t : Ty) :
    m.demand (.assignable (argumentLabel g i) t) = .assignable (argumentLabel (m.name g) i) t :=
  m.demand_quoted (quoteMark_notMem_argument i) g t

/-- Looking at the type of a checked expression does not depend on names. -/
theorem follows_resolved (e : Expr) : m.Follows id e.resolved (m.expr e).resolved := by
  intro ctx
  rw [Expr.resolved, Expr.resolved, ty?_expr]
  cases e.ty? <;> rfl

/-- A demand is met where its relabeling is. -/
theorem follows_require {d d' : Demand} (hd : m.demand d = d') (e : Expr) :
    m.Follows (Prod.map id m.expr) (e.require d) ((m.expr e).require d') := by
  subst hd
  refine (m.follows_resolved e).bind fun t => ?_
  show m.Follows _ (if t.isError then _ else if d.admits t then _ else _)
    (if t.isError then _ else if (m.demand d).admits t then _ else _)
  rw [admits_demand]
  split
  · exact .pure m _ (false, e)
  · split
    · exact .pure m _ (true, e)
    · rw [problem_demand, span_expr]
      refine (m.follows_report (d.problem t) (some e.span)).bind_pure fun _ => ?_
      rw [Prod.map_apply, expr_withTy]
      rfl

/-- A demand on both operands follows if the demand is relabeled. -/
theorem follows_requireBoth {d d' : Demand} (hd : m.demand d = d') (l r : Expr) :
    m.Follows (Prod.map (Prod.map id m.expr) (Prod.map id m.expr)) (requireBoth d l r)
      (requireBoth d' (m.expr l) (m.expr r)) :=
  (m.follows_require hd l).bind fun _ => (m.follows_require hd r).bind_pure fun _ => rfl

/-- Checking a binary operator follows, as its constructs quote no names. -/
theorem follows_checkBinary (op : BinaryOp) (l r : Expr) :
    m.Follows (Prod.map id (Prod.map m.expr m.expr)) (checkBinary op l r)
      (checkBinary op (m.expr l) (m.expr r)) := by
  -- operator symbols hold no quote mark, so the constructs of these demands quote nothing
  have hplain := quoteMark_notMem_symbol op
  cases op with
  | arith op =>
    refine (m.follows_requireBoth (m.demand_arithmetic hplain) l r).bind fun ⟨⟨_, l⟩, _, r⟩ => ?_
    exact (m.follows_resolved l).bind fun _ => (m.follows_resolved r).bind_pure fun _ => rfl
  | order op =>
    exact (m.follows_requireBoth (m.demand_arithmetic hplain) l r).bind_pure fun _ => rfl
  | equality op =>
    refine (m.follows_resolved l).bind fun left => (m.follows_resolved r).bind fun right => ?_
    -- types are not relabeled, so both analyses decide alike
    show m.Follows _ (if left.isError || right.comparable left then _ else _)
      (if left.isError || right.comparable left then _ else _)
    split
    · exact .pure m _ (Ty.bool, l, r)
    · exact (m.follows_require (m.demand_assignable hplain left) r).bind_pure fun _ => rfl
  | logic op =>
    exact (m.follows_requireBoth (m.demand_boolean hplain) l r).bind_pure fun _ => rfl

/-- Checking a unary operator follows, as its construct quotes no name. -/
theorem follows_checkUnary (op : UnaryOp) (e : Expr) :
    m.Follows (Prod.map id m.expr) (checkUnary op e) (checkUnary op (m.expr e)) := by
  cases op with
  | neg =>
    refine (m.follows_require (m.demand_arithmetic (by decide)) e).bind fun ⟨_, e⟩ => ?_
    exact (m.follows_resolved e).bind_pure fun _ => rfl
  | not => exact (m.follows_require (m.demand_boolean (by decide)) e).bind_pure fun _ => rfl

/-- What is done with a name that has to stand for a value. -/
theorem follows_ofEntity {y : String} {s : Span} {a a' : α} {k : Entity → Check α}
    {k' : Entity → Check β} (hk : ∀ e, m.Follows g (k e) (k' (m.entity e))) :
    ∀ o : Option Entity, m.Follows g
      (match o with
      | none => pure a
      | some e => if e.isValue then k e else report (.notAVariable y) (some s) >>= fun _ => pure a')
      (match o.map m.entity with
      | none => pure (g a)
      | some e =>
        if e.isValue then k' e
        else report (.notAVariable (m.name y)) (some (m.place s)) >>= fun _ => pure (g a'))
  | none => .pure m g a
  | some e => by
    show m.Follows g (if e.isValue then _ else _) (if e.isValue then _ else _)
    split
    · exact hk e
    · exact (m.follows_report (.notAVariable y) (some s)).bind_pure fun _ => rfl

/-- Checking a name in an expression follows. -/
theorem follows_checkIdent (x : String) (s : Span) :
    m.Follows id (checkIdent x s) (checkIdent (m.name x) (m.place s)) :=
  (m.follows_resolve x s).bind <| m.follows_ofEntity fun e => .pure m id e.ty

/-- Demands on arguments follow, with the new name of the function in their constructs. -/
theorem follows_requireArgs (g : String) (i : Nat) (es : List Expr) (ts : List Ty) :
    m.Follows m.exprs (requireArgs g i es ts) (requireArgs (m.name g) i (m.exprs es) ts) := by
  induction es generalizing i ts with
  | nil => exact .pure m m.exprs []
  | cons e es ih =>
    cases ts with
    | nil => exact .pure m m.exprs (e :: es)
    | cons t ts =>
      exact (m.follows_require (m.demand_argument g i t) e).bind fun _ =>
        (ih (i + 1) ts).bind_pure fun _ => rfl

/-- Checking a call follows, with the declaration relabeled. -/
theorem follows_checkCall (g : String) (s : Span) (o : Option Entity) (args : List Expr) :
    m.Follows (Prod.map id m.exprs) (checkCall g s o args)
      (checkCall (m.name g) (m.place s) (o.map m.entity) (m.exprs args)) := by
  -- the argument count in the report is that of the relabeled arguments
  have hlength : (m.exprs args).length = args.length := by
    rw [exprs_eq_map, List.length_map]
  cases o with
  | none => exact .pure m _ (Ty.error, args)
  | some e =>
    obtain ⟨role, t, place⟩ := e
    have hnot := m.follows_report (.notCallable g) (some s)
    cases t with
    | fn params result =>
      show m.Follows _ (if params.length = args.length then _ else _)
        (if params.length = (m.exprs args).length then _ else _)
      rw [hlength]
      split
      · exact (m.follows_requireArgs g 1 args params).bind_pure fun _ => rfl
      · have hcount := m.follows_report (.wrongArgumentCount g params.length args.length) (some s)
        exact hcount.bind_pure fun _ => rfl
    | _ => exact hnot.bind_pure fun _ => rfl

/-! ## Expressions -/

mutual

/-- A relabeled expression is analyzed as the expression is. -/
theorem follows_analyzeExpr : ∀ e : Expr, m.Follows m.expr e.analyze (m.expr e).analyze
  | .lit n v => .pure m m.expr ((Expr.lit n v).withTy v.ty)
  | .ident n y => (m.follows_checkIdent y n.span).bind_pure fun _ => rfl
  | .binary _ op l r =>
    (follows_analyzeExpr l).bind fun l => (follows_analyzeExpr r).bind fun r =>
      (m.follows_checkBinary op l r).bind_pure fun _ => rfl
  | .unary _ op e =>
    (follows_analyzeExpr e).bind fun e => (m.follows_checkUnary op e).bind_pure fun _ => rfl
  | .call _ c => (follows_analyzeCall c).bind_pure fun _ => rfl

/-- The analysis of a relabeled call is that of the call, relabeled. -/
theorem follows_analyzeCall : ∀ c : Call,
    m.Follows (Prod.map id m.call) c.analyze (m.call c).analyze
  | ⟨g, args, s⟩ =>
    (m.follows_resolve g s).bind fun o => (follows_analyzeExprs args).bind fun args =>
      (m.follows_checkCall g s o args).bind_pure fun _ => rfl

/-- The analysis of relabeled expressions is that of the expressions, relabeled. -/
theorem follows_analyzeExprs : ∀ es : List Expr,
    m.Follows m.exprs (analyzeAll es) (analyzeAll (m.exprs es))
  | [] => .pure m m.exprs []
  | e :: es =>
    (follows_analyzeExpr e).bind fun _ => (follows_analyzeExprs es).bind_pure fun _ => rfl

end

/-! ## Statements -/

/-- The analysis of an expression of which something is demanded follows. -/
theorem follows_analyzeFor {d d' : Demand} (hd : m.demand d = d') (e : Expr) :
    m.Follows m.expr (e.analyzeFor d) ((m.expr e).analyzeFor d') :=
  (m.follows_analyzeExpr e).bind fun e => (m.follows_require hd e).bind_pure fun _ => rfl

/-- The analysis of an optional expression of which something is demanded follows. -/
theorem follows_analyzeForOpt {d d' : Demand} (hd : m.demand d = d') : ∀ o : Option Expr,
    m.Follows (Option.map m.expr) (analyzeForOpt d o) (analyzeForOpt d' (o.map m.expr))
  | none => .pure m _ none
  | some e => (m.follows_analyzeFor hd e).bind_pure fun _ => rfl

/-- The analysis of a relabeled variable declaration is that of the declaration, relabeled. -/
theorem follows_analyzeVar (d : VarDecl) : m.Follows m.varDecl d.analyze (m.varDecl d).analyze := by
  have hlabel := m.demand_quoted (by decide : quoteMark ∉ "declaration of ".toList) d.name d.ty
  refine (m.follows_analyzeForOpt hlabel d.init).bind fun _ => ?_
  exact (m.follows_declareAll [d.binding]).bind_pure fun _ => rfl

/-- The analysis of a relabeled assignment is that of the assignment, relabeled. -/
theorem follows_analyzeAssign (y : String) (e : Expr) (s : Span) :
    m.Follows m.expr (analyzeAssign y e s)
      (analyzeAssign (m.name y) (m.expr e) (m.place s)) := by
  refine (m.follows_resolve y s).bind fun o => (m.follows_analyzeExpr e).bind fun e => ?_
  refine m.follows_ofEntity (fun entity => ?_) o
  have hlabel := m.demand_quoted (by decide : quoteMark ∉ "assignment to ".toList) y entity.ty
  exact (m.follows_require hlabel e).bind_pure fun _ => rfl

/-- The place of a jump does not depend on names. -/
theorem follows_checkJump (j : Jump) (s : Span) :
    m.Follows id (checkJump j s) (checkJump j (m.place s)) := by
  have hproblem : m.problem j.problem = j.problem := by
    cases j <;> rfl
  refine (Follows.get m).bind fun ctx => ?_
  show m.Follows id (if ctx.isInLoop then _ else _) (if ctx.isInLoop then _ else _)
  split
  · exact .pure m id ()
  · have hreport := m.follows_report j.problem (some s)
    rw [hproblem] at hreport
    exact hreport

/-- The analysis of a relabeled return is that of the return, relabeled. -/
theorem follows_analyzeReturn (o : Option Expr) (s : Span) :
    m.Follows (Option.map m.expr) (analyzeReturn o s)
      (analyzeReturn (o.map m.expr) (m.place s)) := by
  refine (Follows.get m).bind fun ctx => ?_
  obtain ⟨scopes, loops, returns, log⟩ := ctx
  have houtside := m.follows_report .returnOutsideFunction (some s)
  have hunexpected := m.follows_report .unexpectedReturnValue (some s)
  -- outside functions, in procedures and in other functions, without and with a value
  cases returns with
  | none =>
    cases o with
    | none => exact houtside.bind_pure fun _ => rfl
    | some e => exact (m.follows_analyzeExpr e).bind fun _ => houtside.bind_pure fun _ => rfl
  | some t =>
    have hmissing := m.follows_report (.missingReturnValue t) (some s)
    cases o with
    | none =>
      cases t with
      | void => exact .pure m _ none
      | _ => exact hmissing.bind_pure fun _ => rfl
    | some e =>
      have hlabel := m.demand_assignable (by decide : quoteMark ∉ "return".toList) t
      have hvalue := m.follows_analyzeFor hlabel e
      cases t with
      | void =>
        exact (m.follows_analyzeExpr e).bind fun _ => hunexpected.bind_pure fun _ => rfl
      | _ => exact hvalue.bind_pure fun _ => rfl

/-- The functions of a relabeled sequence are declared as those of the sequence, relabeled. -/
theorem follows_functions (ss : List Stmt) :
    m.Follows id (declareAll (functionBindings ss))
      (declareAll (functionBindings (m.stmts ss))) := by
  rw [functionBindings_stmts]
  exact m.follows_declareAll (functionBindings ss)

/-- Bodies follow when their statements do. -/
theorem follows_analyzeBody (params : List Param) {ss : List Stmt}
    (hss : m.Follows m.stmts (analyzeAllIn ss) (analyzeAllIn (m.stmts ss))) :
    m.Follows m.stmts (analyzeBody params ss) (analyzeBody (params.map m.param) (m.stmts ss)) := by
  have hparams := m.follows_declareAll (params.map Param.binding)
  rw [← bindings_params] at hparams
  exact hparams.bind fun _ => (m.follows_functions ss).bind fun _ => hss

/-- A statement by itself follows when it does in a sequence. -/
theorem follows_alone {s : Stmt}
    (hs : m.Follows m.stmt (s.analyzeIn true) ((m.stmt s).analyzeIn true)) :
    m.Follows m.stmt (s.analyzeIn false) ((m.stmt s).analyzeIn false) := by
  rw [analyzeIn_false, analyzeIn_false]
  exact (m.follows_functions [s]).bind fun _ => hs

mutual

/-- A relabeled statement is analyzed as the statement is. -/
theorem follows_analyzeStmt : ∀ s : Stmt,
    m.Follows m.stmt (s.analyzeIn true) ((m.stmt s).analyzeIn true)
  | .var _ d => (m.follows_analyzeVar d).bind_pure fun _ => rfl
  | .func s f ⟨body, t⟩ => by
    have hbody := m.follows_analyzeBody f.params (follows_analyzeStmts body)
    rw [stmt, analyzeIn_func, analyzeIn_func]
    exact (hbody.inScope.inFunction f.result).bind_pure fun _ => rfl
  | .assign s y e => (m.follows_analyzeAssign y e s).bind_pure fun _ => rfl
  | .call _ c => (m.follows_analyzeCall c).bind_pure fun _ => rfl
  | .after _ e c =>
    (m.follows_analyzeFor (m.demand_arithmetic (by decide)) e).bind fun _ =>
      (m.follows_analyzeCall c).bind_pure fun _ => rfl
  | .block _ b => (follows_analyzeBlock b).bind_pure fun _ => rfl
  | .ifChain _ arms o =>
    (follows_analyzeArms arms).bind fun _ =>
      (follows_analyzeBlockOpt o).bind_pure fun _ => rfl
  | .whileLoop _ e b =>
    (m.follows_analyzeFor (m.demand_boolean (by decide)) e).bind fun _ =>
      (follows_analyzeBlock b).inLoop.bind_pure fun _ => rfl
  | .forLoop _ i e u b =>
    .inScope <| (follows_analyzeStmtOpt i).bind fun _ =>
      (m.follows_analyzeForOpt (m.demand_boolean (by decide)) e).bind fun _ =>
      (follows_analyzeBlock b).inLoop.bind fun _ =>
      (follows_analyzeStmtOpt u).bind_pure fun _ => rfl
  | .jump s j => (m.follows_checkJump j s).bind_pure fun _ => rfl
  | .ret s e => (m.follows_analyzeReturn e s).bind_pure fun _ => rfl

/-- The analysis of a relabeled initializer or step follows. -/
theorem follows_analyzeStmtOpt : ∀ o : Option Stmt,
    m.Follows m.stmtOpt (analyzeStmtOpt o) (analyzeStmtOpt (m.stmtOpt o))
  | none => .pure m m.stmtOpt none
  | some s => (m.follows_alone (follows_analyzeStmt s)).bind_pure fun _ => rfl

/-- The analysis of relabeled statements is that of the statements, relabeled. -/
theorem follows_analyzeStmts : ∀ ss : List Stmt,
    m.Follows m.stmts (analyzeAllIn ss) (analyzeAllIn (m.stmts ss))
  | [] => .pure m m.stmts []
  | s :: ss =>
    (follows_analyzeStmt s).bind fun _ => (follows_analyzeStmts ss).bind_pure fun _ => rfl

/-- The analysis of a relabeled block is that of the block, relabeled. -/
theorem follows_analyzeBlock : ∀ b : Block, m.Follows m.block b.analyze (m.block b).analyze
  | ⟨ss, s⟩ => by
    have hbody := m.follows_analyzeBody [] (follows_analyzeStmts ss)
    rw [Block.analyze_eq, Block.analyze_eq]
    exact hbody.inScope.bind_pure fun _ => rfl

/-- The analysis of a relabeled optional block is that of the block, relabeled. -/
theorem follows_analyzeBlockOpt : ∀ o : Option Block,
    m.Follows m.blockOpt (analyzeBlockOpt o) (analyzeBlockOpt (m.blockOpt o))
  | none => .pure m m.blockOpt none
  | some b => (follows_analyzeBlock b).bind_pure fun _ => rfl

/-- The analysis of relabeled conditional arms is that of the arms, relabeled. -/
theorem follows_analyzeArms : ∀ as : List Arm,
    m.Follows m.arms (analyzeArms as) (analyzeArms (m.arms as))
  | [] => .pure m m.arms []
  | ⟨e, b⟩ :: as =>
    (m.follows_analyzeFor (m.demand_boolean (by decide)) e).bind fun _ =>
      (follows_analyzeBlock b).bind fun _ =>
      (follows_analyzeArms as).bind_pure fun _ => rfl

end

/-- A relabeled program is analyzed as the program is. -/
theorem follows_analyzeProgram (p : Program) :
    m.Follows m.program p.analyze (m.program p).analyze := by
  have hbody := m.follows_analyzeBody [] (m.follows_analyzeStmts p.stmts)
  rw [Program.analyze_eq, Program.analyze_eq]
  exact hbody.bind_pure fun _ => rfl

/-- The analysis of a relabeled program is that of the program, relabeled. -/
theorem analysis_relabeled {p : Program} {a : Analysis} (ha : p.analysis = .ok a) :
    (m.program p).analysis = .ok (m.analysis a) := by
  obtain ⟨q, c, hrun, hok⟩ := p.analysis_ok
  obtain ⟨q', c', hrun', hok'⟩ := (m.program p).analysis_ok
  obtain rfl := Except.ok.inj (hok.symm.trans ha)
  -- the initial context has no names, so it is its own relabeling
  have hfollows : (m.program p).analyze .initial = .ok (m.program q) (m.context c) := by
    have h := m.follows_analyzeProgram p .initial
    rwa [hrun] at h
  rw [hfollows] at hrun'
  cases hrun'
  exact hok'

end Relabeling

end Procedural
