import Procedural.Proofs.Analysis.Balance
import Procedural.Proofs.Syntax.Nodes

/-! # Every unknown type is explained

An expression whose type could not be found out is silent about it when it is used. That is right
because the reason has been reported where it arose: among what the analysis of a tree reports there
is, for every expression of unknown type in the tree, a report about that expression or about
something inside it. Only declarations could bring in an unknown type without a report, so the
declared types have to be known. -/

namespace Procedural

open Rules

variable {α β : Type} {x act : Check α} {f : α → Check β} {ctx : Context} {old new : Log}
  {Q Q' : α → Log → Prop} {R : β → Log → Prop}

/-! ## Explanations -/

namespace Log

/-- A report blames one of the places. -/
def Blames (log : Log) (places : Multiset Span) : Prop := ∃ d ∈ log, ∃ s ∈ places, d.span = some s

/-- For each of the expressions that has an unknown type, a report blames a node in it. -/
def Explains (log : Log) (es : List Expr) : Prop :=
  ∀ e ∈ es, e.ty? = some .error → log.Blames e.nodeSpans

/-- What is blamed in some reports and places is blamed in more of them. -/
theorem Blames.mono {places places' : Multiset Span} (h : old.Blames places) (hlog : old ⊆ new)
    (hplaces : places ≤ places') : new.Blames places' := by
  obtain ⟨d, hd, s, hs, hspan⟩ := h
  exact ⟨d, hlog hd, s, Multiset.mem_of_le hplaces hs, hspan⟩

/-- What some reports explain is explained by more of them. -/
theorem Explains.mono {es : List Expr} (h : old.Explains es) (hlog : old ⊆ new) :
    new.Explains es :=
  fun e he hty => (h e he hty).mono hlog le_rfl

/-- Without expressions there is nothing to explain. -/
theorem explains_nil (log : Log) : log.Explains [] := List.forall_mem_nil _

/-- Expressions in two lists are explained if those in each list are. -/
theorem explains_append {es es' : List Expr} :
    new.Explains (es ++ es') ↔ new.Explains es ∧ new.Explains es' :=
  List.forall_mem_append

/-- What is explained by earlier and by later reports is explained by all of them. -/
theorem Explains.append {es es' : List Expr} (h : old.Explains es) (h' : new.Explains es') :
    (old ++ new).Explains (es ++ es') :=
  explains_append.2 ⟨h.mono (List.subset_append_left _ _), h'.mono (List.subset_append_right _ _)⟩

/-- The root and what is inside are explained separately. -/
theorem explains_cons {e : Expr} {es : List Expr} :
    new.Explains (e :: es) ↔ (e.ty? = some .error → new.Blames e.nodeSpans) ∧ new.Explains es :=
  List.forall_mem_cons

/-- An expression of unknown type is explained with its nodes. -/
theorem Explains.self {e : Expr} (h : new.Explains e.nodes) :
    e.ty? = some .error → new.Blames e.nodeSpans :=
  h e e.mem_nodes

/-- Giving the root another type asks for an explanation of that type only. -/
theorem Explains.withTy {e : Expr} {t : Ty} (h : new.Explains e.nodes.tail)
    (ht : t = .error → new.Blames e.nodeSpans) : new.Explains (e.withTy t).nodes := by
  rw [Expr.nodes_withTy, explains_cons, Expr.ty?_withTy, Expr.nodeSpans_withTy]
  exact ⟨fun hty => ht (Option.some.inj hty), h⟩

end Log

/-! ## What a check adds to the log -/

/-- Among names of known types the check keeps them known, and `Q` holds of its answer and of what
it reports. -/
def Adds (act : Check α) (Q : α → Log → Prop) : Prop :=
  ∀ ⦃ctx : Context⦄ ⦃a : α⦄ ⦃c : Context⦄, ctx.env.names.Known → act ctx = .ok a c →
    c.env.names.Known ∧ ∃ new, c.log = ctx.log ++ new ∧ Q a new

namespace Adds

/-- A check that only answers reports nothing. -/
theorem pure {a : α} (h : Q a []) : Adds (pure a) Q := by
  intro ctx a' c hctx hrun
  obtain ⟨rfl, rfl⟩ := of_pure_ok hrun
  exact ⟨hctx, [], (List.append_nil _).symm, h⟩

/-- The second check knows what the first one reported. -/
theorem bind (hx : Adds x Q)
    (hf : ∀ a new, Q a new → Adds (f a) fun b new' => R b (new ++ new')) : Adds (x >>= f) R := by
  intro ctx b c hctx hrun
  obtain ⟨a, c', hrun₁, hrun₂⟩ := of_bind_ok hrun
  obtain ⟨hc', new, hlog, ha⟩ := hx hctx hrun₁
  obtain ⟨hc, new', hlog', hb⟩ := hf a new ha hc' hrun₂
  exact ⟨hc, new ++ new', by rw [hlog', hlog, List.append_assoc], hb⟩

/-- The answer of the last check is put together from those of the checks before it. -/
theorem bind_pure {g : α → β} (hx : Adds x Q) (hg : ∀ a new, Q a new → R (g a) new) :
    Adds (x >>= fun a => Pure.pure (g a)) R :=
  hx.bind fun a new ha => .pure (by rw [List.append_nil]; exact hg a new ha)

/-- A weaker statement about the answer and the reports. -/
theorem mono (h : Adds act Q) (hQ : ∀ a new, Q a new → Q' a new) : Adds act Q' := by
  intro ctx a c hctx hrun
  obtain ⟨hc, new, hlog, ha⟩ := h hctx hrun
  exact ⟨hc, new, hlog, hQ a new ha⟩

/-- What the last check reports explains what it answers, whatever was reported before it. -/
theorem bind_last {nodes : β → List Expr} (hx : Adds x Q)
    (hf : ∀ a, Adds (f a) fun b new => new.Explains (nodes b)) :
    Adds (x >>= f) fun b new => new.Explains (nodes b) :=
  hx.bind fun a _ _ => (hf a).mono fun _ _ h => h.mono (List.subset_append_right _ _)

/-! ### Brackets -/

/-- A scope is left with the names that were in force before it. -/
theorem inScope {P : α → Prop} (h : Adds act Q) (hends : Ends [] (inScope act) P) :
    Adds (inScope act) Q := by
  intro ctx a c hctx hrun
  obtain ⟨told, hc⟩ := hends.eq_tell hrun
  obtain ⟨c', hact, hexit⟩ := of_inScope_ok hrun
  -- a new scope brings no names with it
  have hpush : ctx.push.env.names.Known := by
    rw [Context.env_push]
    exact hctx.push
  obtain ⟨-, new, hnew, ha⟩ := h hpush hact
  refine ⟨?_, new, (log_of_exitScope hexit).trans hnew, ha⟩
  rw [hc, Context.env_tell]
  exact hctx

/-- Inside a loop a check adds the same reports. -/
theorem inLoop (h : Adds act Q) : Adds (inLoop act) Q := by
  intro ctx a c hctx hrun
  obtain ⟨c', hact, hexit⟩ := of_inLoop_ok hrun
  obtain ⟨hlog, hscopes⟩ := of_exitLoop_ok hexit
  have hinside : ctx.inside.env.names.Known := hctx
  obtain ⟨hc', new, hnew, ha⟩ := h hinside hact
  refine ⟨?_, new, hlog.trans hnew, ha⟩
  show c.scopes.names.Known
  rw [hscopes]
  exact hc'

/-- Inside a function a check adds the same reports. -/
theorem inFunction (t : Ty) (h : Adds act Q) : Adds (inFunction t act) Q := by
  intro ctx a c hctx hrun
  obtain ⟨c', hact, rfl⟩ := of_inFunction_ok hrun
  have henter : (ctx.enter t).env.names.Known := hctx
  have hadds := h henter hact
  exact hadds

end Adds

/-- A check that binds names of known types. -/
theorem Ends.adds {ds : List Binding} {P : α → Prop} (h : Ends ds act P)
    (hds : ∀ b ∈ ds, b.2.ty.Known) : Adds act fun a _ => P a := by
  intro ctx a c hctx hrun
  have hknown := h.known hds hctx hrun
  obtain ⟨bs, new, rfl, -, ha⟩ := h.of_ok hrun
  exact ⟨hknown, new, congrArg (· ++ new) (ctx.log_bindAll bs), ha⟩

/-! ## Reports and names -/

/-- A report blames its place. -/
theorem adds_report (p : Problem) (s : Span) :
    Adds (report p (some s)) fun _ new => new.Blames {s} := by
  intro ctx a c hctx hrun
  cases hrun
  exact ⟨hctx, [⟨p, some s⟩], rfl, _, List.mem_singleton_self _, s, Multiset.mem_singleton_self s,
    rfl⟩

/-- A name is not declared and blamed, or it stands for something of a known type. -/
theorem adds_resolve (y : String) (s : Span) : Adds (resolve y s) fun o new =>
    (o = none → new.Blames {s}) ∧ ∀ e, o = some e → e.ty.Known := by
  intro ctx o c hctx hrun
  cases hlookup : ctx.scopes.lookup y with
  | none =>
    rw [resolve, hlookup] at hrun
    cases hrun
    refine ⟨hctx, [⟨.undeclaredIdentifier y, some s⟩], rfl, fun _ => ?_,
      fun _ h => absurd h.symm (Option.some_ne_none _)⟩
    exact ⟨_, List.mem_singleton_self _, s, Multiset.mem_singleton_self s, rfl⟩
  | some e =>
    rw [resolve, hlookup] at hrun
    cases hrun
    refine ⟨hctx, [], (List.append_nil _).symm, fun h => absurd h (Option.some_ne_none e),
      fun e' he => ?_⟩
    obtain rfl := Option.some.inj he
    -- what is found is one of the names in force, whose types are known
    have hnames : ctx.env.names.lookup y = some e.meaning := by
      show ctx.scopes.names.lookup y = _
      rw [Scopes.lookup_names, hlookup]
      rfl
    rw [← e.ty_meaning]
    exact hctx y _ hnames

/-! ## Demands -/

/-- What goes on with the type of an expression goes on with the recorded one. -/
theorem adds_resolved_bind {e : Expr} {k : Ty → Check α}
    (hk : ∀ t, e.ty? = some t → Adds (k t) Q) : Adds (e.resolved >>= k) Q := by
  intro ctx a c hctx hrun
  obtain ⟨t, c', hres, hrest⟩ := of_bind_ok hrun
  obtain ⟨ht, rfl⟩ := of_resolved_ok hres
  exact hk t ht hctx hrest

/-- After a demand the expression is explained if it was before, and a demand that is not met leaves
an expression of unknown type. -/
theorem adds_require {e : Expr} (d : Demand) (he : old.Explains e.nodes) :
    Adds (e.require d) fun r new =>
      (old ++ new).Explains r.2.nodes ∧ (r.1 = false → r.2.ty? = some .error) := by
  refine adds_resolved_bind fun t ht => ?_
  split
  · rename_i herror
    obtain rfl := Ty.isError_iff.1 herror
    exact .pure ⟨he.mono (List.subset_append_left _ _), fun _ => ht⟩
  · split
    · exact .pure ⟨he.mono (List.subset_append_left _ _), fun h => nomatch h⟩
    · refine (adds_report _ e.span).bind_pure fun _ new hnew => ⟨?_, fun _ => e.ty?_withTy _⟩
      -- the report blames the expression itself, whose type it makes unknown
      rw [Expr.nodes_eq_cons, Log.explains_cons] at he
      refine (he.2.mono (List.subset_append_left _ _)).withTy fun _ => ?_
      exact hnew.mono (List.subset_append_right _ _) (Multiset.singleton_le.2 e.span_mem_nodeSpans)

/-- After a demand on two operands both are explained if they were before. -/
theorem adds_requireBoth {l r : Expr} (d : Demand) (hl : old.Explains l.nodes)
    (hr : old.Explains r.nodes) : Adds (requireBoth d l r) fun o new =>
      ((old ++ new).Explains o.1.2.nodes ∧ (o.1.1 = false → o.1.2.ty? = some .error)) ∧
      (old ++ new).Explains o.2.2.nodes ∧ (o.2.1 = false → o.2.2.ty? = some .error) := by
  refine (adds_require d hl).bind fun p new hp => ?_
  refine (adds_require d (hr.mono (List.subset_append_left _ new))).bind_pure fun q new' hq => ?_
  rw [← List.append_assoc]
  exact ⟨⟨hp.1.mono (List.subset_append_left _ _), hp.2⟩, hq⟩

/-- Arithmetic has an unknown type only where an operand has. -/
theorem Ty.arithmeticResult_eq_error {s t : Ty} (h : s.arithmeticResult t = .error) :
    s = .error ∨ t = .error := by
  unfold arithmeticResult at h
  split at h
  · rename_i herror
    exact (Bool.or_eq_true _ _ ▸ herror).imp isError_iff.1 isError_iff.1
  · split at h <;> nomatch h

/-- An operation has an unknown type only where an operand has. -/
theorem adds_checkBinary (op : BinaryOp) {l r : Expr} (hl : old.Explains l.nodes)
    (hr : old.Explains r.nodes) : Adds (checkBinary op l r) fun o new =>
      ((old ++ new).Explains o.2.1.nodes ∧ (old ++ new).Explains o.2.2.nodes) ∧
      (o.1 = .error → o.2.1.ty? = some .error ∨ o.2.2.ty? = some .error) := by
  cases op with
  | arith op =>
    refine (adds_requireBoth _ hl hr).bind fun ⟨⟨_, l⟩, _, r⟩ new ⟨⟨hl, _⟩, hr, _⟩ => ?_
    refine adds_resolved_bind fun s hs => adds_resolved_bind fun t ht => .pure ?_
    rw [List.append_nil]
    refine ⟨⟨hl, hr⟩, fun herror => ?_⟩
    obtain rfl | rfl := Ty.arithmeticResult_eq_error herror
    · exact .inl hs
    · exact .inr ht
  | order op =>
    exact (adds_requireBoth _ hl hr).bind_pure fun ⟨⟨_, l⟩, _, r⟩ new ⟨⟨hl, _⟩, hr, _⟩ =>
      ⟨⟨hl, hr⟩, nofun⟩
  | equality op =>
    refine adds_resolved_bind fun left _ => adds_resolved_bind fun right _ => ?_
    split
    · refine .pure ⟨⟨?_, ?_⟩, nofun⟩
      · exact hl.mono (List.subset_append_left _ _)
      · exact hr.mono (List.subset_append_left _ _)
    · refine (adds_require _ hr).bind_pure fun ⟨_, r⟩ new ⟨hr, _⟩ => ⟨⟨?_, hr⟩, nofun⟩
      exact hl.mono (List.subset_append_left _ _)
  | logic op =>
    refine (adds_requireBoth _ hl hr).bind_pure ?_
    rintro ⟨⟨leftOk, l⟩, rightOk, r⟩ new ⟨⟨hl, hleft⟩, hr, hright⟩
    refine ⟨⟨hl, hr⟩, fun herror => ?_⟩
    -- an operand that is no truth value has no type any more
    cases leftOk with
    | false => exact .inl (hleft rfl)
    | true =>
      cases rightOk with
      | false => exact .inr (hright rfl)
      | true => nomatch herror

/-- An operation on one operand has an unknown type only where the operand has. -/
theorem adds_checkUnary (op : UnaryOp) {e : Expr} (he : old.Explains e.nodes) :
    Adds (checkUnary op e) fun o new =>
      (old ++ new).Explains o.2.nodes ∧ (o.1 = .error → o.2.ty? = some .error) := by
  cases op with
  | neg =>
    refine (adds_require _ he).bind fun ⟨_, e⟩ new ⟨he, _⟩ => ?_
    refine adds_resolved_bind fun t ht => .pure ?_
    rw [List.append_nil]
    exact ⟨he, fun herror => herror ▸ ht⟩
  | not =>
    refine (adds_require _ he).bind_pure fun ⟨ok, e⟩ new ⟨he, hok⟩ => ⟨he, fun herror => ?_⟩
    cases ok with
    | false => exact hok rfl
    | true => nomatch herror

/-- A name is blamed itself if it has an unknown type. -/
theorem adds_checkIdent (y : String) (s : Span) :
    Adds (checkIdent y s) fun t new => t = .error → new.Blames {s} := by
  refine (adds_resolve y s).bind fun o new ⟨hnone, hknown⟩ => ?_
  cases o with
  | none => exact .pure fun _ => by simpa using hnone rfl
  | some e =>
    show Adds (if e.isValue then _ else _) _
    split
    · exact .pure fun herror => absurd herror (hknown e rfl).ne_error
    · exact (adds_report _ s).bind_pure fun _ new' hnew _ =>
        hnew.mono (List.subset_append_right _ _) le_rfl

/-- After their checks arguments are explained if they were before. -/
theorem adds_requireArgs (g : String) (i : Nat) {es : List Expr} (ts : List Ty)
    (hes : old.Explains (Expr.nodesAll es)) :
    Adds (requireArgs g i es ts) fun es' new => (old ++ new).Explains (Expr.nodesAll es') := by
  induction es generalizing i ts old with
  | nil => exact .pure (Log.explains_nil _)
  | cons e es ih =>
    cases ts with
    | nil => exact .pure (hes.mono (List.subset_append_left _ _))
    | cons t ts =>
      rw [Expr.nodesAll, Log.explains_append] at hes
      obtain ⟨he, hes⟩ := hes
      refine (adds_require _ he).bind fun ⟨_, e⟩ new ⟨he, _⟩ => ?_
      refine (ih (i + 1) ts (hes.mono (List.subset_append_left _ new))).bind_pure ?_
      intro es' new' hes'
      rw [← List.append_assoc, Expr.nodesAll, Log.explains_append]
      exact ⟨he.mono (List.subset_append_left _ _), hes'⟩

/-- A call is blamed itself if its result has an unknown type. -/
theorem adds_checkCall (g : String) (s : Span) {o : Option Entity} {args : List Expr}
    (hnone : o = none → old.Blames {s}) (hknown : ∀ e, o = some e → e.ty.Known)
    (hargs : old.Explains (Expr.nodesAll args)) : Adds (checkCall g s o args) fun r new =>
      (old ++ new).Explains (Expr.nodesAll r.2) ∧ (r.1 = .error → (old ++ new).Blames {s}) := by
  unfold checkCall
  split
  · refine .pure ⟨hargs.mono (List.subset_append_left _ _), fun _ => ?_⟩
    exact (hnone rfl).mono (List.subset_append_left _ _) le_rfl
  · -- a declared function has a known result type, so an unknown one comes from a report
    have hresult := (Ty.known_fn.1 (hknown _ rfl)).2
    split
    · exact (adds_requireArgs g 1 _ hargs).bind_pure fun args new hargs =>
        ⟨hargs, fun herror => absurd herror hresult.ne_error⟩
    · exact (adds_report _ s).bind_pure fun _ new _ =>
        ⟨hargs.mono (List.subset_append_left _ _), fun herror => absurd herror hresult.ne_error⟩
  · refine (adds_report _ s).bind_pure fun _ new hnew => ⟨?_, fun _ => ?_⟩
    · exact hargs.mono (List.subset_append_left _ _)
    · exact hnew.mono (List.subset_append_right _ _) le_rfl

/-! ## Expressions -/

mutual

/-- What the analysis of an expression reports explains all its nodes. -/
theorem adds_analyzeExpr : ∀ e : Expr, Adds e.analyze fun e' new => new.Explains e'.nodes
  | .lit n v => .pure <| (Log.explains_nil _).withTy fun h => by cases v <;> nomatch h
  | .ident n y =>
    (adds_checkIdent y n.span).bind_pure fun _ new h => (Log.explains_nil new).withTy h
  | .binary n op l r => by
      refine (adds_analyzeExpr l).bind fun l new hl => ?_
      refine (adds_analyzeExpr r).bind fun r new' hr => ?_
      refine (adds_checkBinary op (hl.mono (List.subset_append_left new new'))
        (hr.mono (List.subset_append_right _ _))).bind_pure ?_
      rintro ⟨t, l, r⟩ new'' ⟨⟨hl, hr⟩, herror⟩
      rw [← List.append_assoc]
      refine (Log.explains_append.2 ⟨hl, hr⟩).withTy fun ht => ?_
      rw [Expr.nodeSpans, add_assoc]
      -- the type is unknown because an operand's is, and that operand is explained
      rcases herror ht with h | h
      · refine (hl.self h).mono (List.Subset.refl _) ?_
        exact (Multiset.le_add_right _ _).trans (Multiset.le_add_left _ _)
      · refine (hr.self h).mono (List.Subset.refl _) ?_
        exact (Multiset.le_add_left _ _).trans (Multiset.le_add_left _ _)
  | .unary n op e => by
      refine (adds_analyzeExpr e).bind fun e new he => ?_
      refine (adds_checkUnary op he).bind_pure fun ⟨t, e⟩ new' ⟨he, herror⟩ => ?_
      refine he.withTy fun ht => ?_
      exact (he.self (herror ht)).mono (List.Subset.refl _) (Multiset.le_add_left _ _)
  | .call n c =>
    (adds_analyzeCall c).bind_pure fun _ new ⟨hc, herror⟩ => hc.withTy fun ht =>
      (herror ht).mono (List.Subset.refl _) (Multiset.le_add_left _ _)

/-- What the analysis of a call reports explains its arguments and an unknown type of its result. -/
theorem adds_analyzeCall : ∀ c : Call, Adds c.analyze fun r new =>
    new.Explains r.2.nodes ∧ (r.1 = .error → new.Blames r.2.nodeSpans)
  | ⟨g, args, s⟩ => by
      refine (adds_resolve g s).bind fun o new ⟨hnone, hknown⟩ => ?_
      refine (adds_analyzeExprs args).bind fun args new' hargs => ?_
      refine (adds_checkCall g s (fun h => (hnone h).mono (List.subset_append_left new new') le_rfl)
        hknown (hargs.mono (List.subset_append_right _ _))).bind_pure ?_
      rintro ⟨t, args⟩ new'' ⟨hargs, herror⟩
      rw [← List.append_assoc]
      exact ⟨hargs, fun ht => (herror ht).mono (List.Subset.refl _) (Multiset.le_add_right _ _)⟩

/-- What the analysis of a list of expressions reports explains all their nodes. -/
theorem adds_analyzeExprs : ∀ es : List Expr,
    Adds (analyzeAll es) fun es' new => new.Explains (Expr.nodesAll es')
  | [] => .pure (Log.explains_nil _)
  | e :: es =>
    (adds_analyzeExpr e).bind fun _ _ he => (adds_analyzeExprs es).bind_pure fun _ _ hes =>
      he.append hes

end

/-! ## Statements -/

/-- The reports about an expression that has to meet a demand explain all its nodes. -/
theorem adds_analyzeFor (e : Expr) (d : Demand) :
    Adds (e.analyzeFor d) fun e' new => new.Explains e'.nodes :=
  (adds_analyzeExpr e).bind fun _ _ he => (adds_require d he).bind_pure fun _ _ h => h.1

/-- The reports about an expression that may be missing explain all its nodes. -/
theorem adds_analyzeForOpt (d : Demand) : ∀ o : Option Expr,
    Adds (analyzeForOpt d o) fun o' new => new.Explains (Expr.nodesOpt o')
  | none => .pure (Log.explains_nil _)
  | some e => (adds_analyzeFor e d).bind_pure fun _ _ h => h

/-- The reports about a variable declaration explain all nodes of its initial value. -/
theorem adds_analyzeVar (d : VarDecl) (hd : d.ty.Known) :
    Adds d.analyze fun d' new => new.Explains (Expr.nodesOpt d'.init) := by
  have hbinding : ∀ b ∈ [d.binding], b.2.ty.Known := List.forall_mem_singleton.2 hd
  exact (adds_analyzeForOpt _ d.init).bind fun _ _ h =>
    ((ends_declareAll [d.binding]).adds hbinding).bind_pure fun _ _ _ =>
      h.mono (List.subset_append_left _ _)

/-- The reports about an assignment explain all nodes of its value. -/
theorem adds_analyzeAssign (y : String) (e : Expr) (s : Span) :
    Adds (analyzeAssign y e s) fun e' new => new.Explains e'.nodes := by
  refine (adds_resolve y s).bind fun o new _ => (adds_analyzeExpr e).bind fun e new' he => ?_
  replace he : (new ++ new').Explains e.nodes := he.mono (List.subset_append_right _ _)
  simp only [← List.append_assoc]
  cases o with
  | none => exact .pure (he.mono (List.subset_append_left _ _))
  | some entity =>
    show Adds (if entity.isValue then _ else _) _
    split
    · exact (adds_require _ he).bind_pure fun _ _ h => h.1
    · exact (adds_report _ s).bind_pure fun _ _ _ => he.mono (List.subset_append_left _ _)

/-- The reports about a return explain all nodes of its value. -/
theorem adds_analyzeReturn (o : Option Expr) (s : Span) :
    Adds (analyzeReturn o s) fun o' new => new.Explains (Expr.nodesOpt o') := by
  have halone (p : Problem) : Adds (report p (some s) >>= fun _ => Pure.pure none)
      fun o' new => new.Explains (Expr.nodesOpt o') :=
    (adds_report p s).bind_pure fun _ new _ => Log.explains_nil new
  have hvalue (p : Problem) (e : Expr) :
      Adds (e.analyze >>= fun e => report p (some s) >>= fun _ => Pure.pure (some e))
        fun o' new => new.Explains (Expr.nodesOpt o') :=
    (adds_analyzeExpr e).bind fun _ _ he => (adds_report p s).bind_pure fun _ _ _ =>
      he.mono (List.subset_append_left _ _)
  refine (ends_get.adds (List.forall_mem_nil _)).bind_last fun ctx => ?_
  -- outside functions, in procedures and in other functions, without and with a value
  split
  · exact halone _
  · exact hvalue _ _
  · exact .pure (Log.explains_nil _)
  · exact hvalue _ _
  · exact halone _
  · exact (adds_analyzeFor _ _).bind_pure fun _ _ h => h

/-- The functions of a sequence with known types are declared with known types. -/
theorem adds_functions {ss : List Stmt} (h : ∀ s ∈ ss, s.DeclaresKnown) :
    Adds (declareAll (functionBindings ss)) fun _ _ => True :=
  (ends_declareAll _).adds (known_functionBindings h)

/-- A statement by itself declares its function first. -/
theorem adds_alone {s : Stmt} (hs : s.DeclaresKnown)
    (h : Adds (s.analyzeIn true) fun s' new => new.Explains s'.nodes) :
    Adds (s.analyzeIn false) fun s' new => new.Explains s'.nodes := by
  rw [analyzeIn_false]
  exact (adds_functions (List.forall_mem_singleton.2 hs)).bind_last fun _ => h

mutual

/-- The reports about a statement of known declared types explain all its nodes. -/
theorem adds_analyzeStmt : ∀ s : Stmt, s.DeclaresKnown →
    Adds (s.analyzeIn true) fun s' new => new.Explains s'.nodes
  | .var _ d, h =>
    (adds_analyzeVar d (h.self _ List.mem_cons_self)).bind_pure fun _ _ hd => hd
  | .func s f ⟨body, t⟩, h => by
      have hparams := known_paramBindings h
      have hstmts : ∀ x ∈ body, x.DeclaresKnown := h.block List.mem_cons_self
      have hends := (ends_declareAll (f.params.map Param.binding)).bind fun _ _ =>
        (ends_declareAll (functionBindings body)).bind fun _ _ => ends_analyzeStmts body
      have hbody := Adds.inFunction f.result <| Adds.inScope
        (((ends_declareAll (f.params.map Param.binding)).adds hparams).bind_last fun _ =>
        (adds_functions hstmts).bind_last fun _ => adds_analyzeStmts body hstmts) hends.inScope
      exact hbody.bind_pure fun _ _ hbody => hbody
  | .assign s y e, _ => (adds_analyzeAssign y e s).bind_pure fun _ _ he => he
  | .call _ c, _ => (adds_analyzeCall c).bind_pure fun _ _ hc => hc.1
  | .after _ e c, _ =>
    (adds_analyzeFor e _).bind fun _ _ he => (adds_analyzeCall c).bind_pure fun _ _ hc =>
      he.append hc.1
  | .block _ b, h =>
    (adds_analyzeBlock b (h.block List.mem_cons_self)).bind_pure fun _ _ hb => hb
  | .ifChain _ arms o, h =>
    (adds_analyzeArms arms fun _ ha => h.block (Stmt.mem_blocks_of_arm ha)).bind fun _ _ harms =>
    (adds_analyzeBlockOpt o fun _ hb => h.block (Stmt.mem_blocks_of_else hb)).bind_pure
      fun _ _ ho => harms.append ho
  | .whileLoop _ e b, h =>
    (adds_analyzeFor e _).bind fun _ _ he =>
      (adds_analyzeBlock b (h.block List.mem_cons_self)).inLoop.bind_pure fun _ _ hb =>
      he.append hb
  | .forLoop s i e u b, h =>
    .inScope ((adds_analyzeStmtOpt i fun _ hx =>
        h.child (Stmt.mem_children_of_init hx)).bind fun _ _ hi =>
      (adds_analyzeForOpt _ e).bind fun _ _ he =>
      (adds_analyzeBlock b (h.block List.mem_cons_self)).inLoop.bind fun _ _ hb =>
      (adds_analyzeStmtOpt u fun _ hx =>
        h.child (Stmt.mem_children_of_step hx)).bind_pure fun _ _ hu =>
      hi.append (he.append (hb.append hu))) (ends_analyzeStmt (.forLoop s i e u b))
  | .jump s j, _ =>
    ((ends_checkJump j s).adds (List.forall_mem_nil _)).bind_pure fun _ new _ =>
      Log.explains_nil new
  | .ret s o, _ => (adds_analyzeReturn o s).bind_pure fun _ _ ho => ho

/-- The reports about a clause that may be missing explain all its nodes. -/
theorem adds_analyzeStmtOpt : ∀ o : Option Stmt, (∀ s ∈ o, s.DeclaresKnown) →
    Adds (analyzeStmtOpt o) fun o' new => new.Explains (Stmt.nodesOpt o')
  | none, _ => .pure (Log.explains_nil _)
  | some s, h =>
    (adds_alone (h s rfl) (adds_analyzeStmt s (h s rfl))).bind_pure fun _ _ hs => hs

/-- The reports about a list of statements explain all their nodes. -/
theorem adds_analyzeStmts : ∀ ss : List Stmt, (∀ s ∈ ss, s.DeclaresKnown) →
    Adds (analyzeAllIn ss) fun ss' new => new.Explains (Stmt.nodesAll ss')
  | [], _ => .pure (Log.explains_nil _)
  | s :: ss, h =>
    (adds_analyzeStmt s (h s List.mem_cons_self)).bind fun _ _ hs =>
      (adds_analyzeStmts ss fun x hx => h x (List.mem_cons_of_mem _ hx)).bind_pure fun _ _ hss =>
        hs.append hss

/-- The reports about a block explain all its nodes. -/
theorem adds_analyzeBlock : ∀ b : Block, (∀ s ∈ b.stmts, s.DeclaresKnown) →
    Adds b.analyze fun b' new => new.Explains b'.nodes
  | ⟨ss, _⟩, h => by
      have hends := (ends_declareAll (functionBindings ss)).bind fun _ _ => ends_analyzeStmts ss
      have hss := Adds.inScope
        ((adds_functions h).bind_last fun _ => adds_analyzeStmts ss h) hends.inScope
      exact hss.bind_pure fun _ _ hss => hss

/-- The reports about a block that may be missing explain all its nodes. -/
theorem adds_analyzeBlockOpt : ∀ o : Option Block,
    (∀ b ∈ o, ∀ s ∈ b.stmts, s.DeclaresKnown) →
    Adds (analyzeBlockOpt o) fun o' new => new.Explains (Block.nodesOpt o')
  | none, _ => .pure (Log.explains_nil _)
  | some b, h => (adds_analyzeBlock b (h b rfl)).bind_pure fun _ _ hb => hb

/-- The reports about conditional arms explain all nodes of their conditions and blocks. -/
theorem adds_analyzeArms : ∀ arms : List Arm, (∀ a ∈ arms, ∀ s ∈ a.body.stmts, s.DeclaresKnown) →
    Adds (analyzeArms arms) fun arms' new => new.Explains (Arm.nodesAll arms')
  | [], _ => .pure (Log.explains_nil _)
  | ⟨e, b⟩ :: arms, h =>
    (adds_analyzeFor e _).bind fun _ _ he =>
      (adds_analyzeBlock b (h ⟨e, b⟩ List.mem_cons_self)).bind fun _ _ hb =>
      (adds_analyzeArms arms fun a ha => h a (List.mem_cons_of_mem _ ha)).bind_pure fun _ _ harms =>
        he.append (hb.append harms)

end

/-- The reports about a program of known declared types explain all its nodes. -/
theorem adds_analyzeProgram {p : Program} (hp : p.DeclaresKnown) :
    Adds p.analyze fun q new => new.Explains q.nodes :=
  ((adds_functions hp.stmt).bind_last fun _ => adds_analyzeStmts p.stmts hp.stmt).bind_pure
    fun _ _ hss => hss

/-- A check that always ends adds what is said of it. -/
theorem Adds.of_ends {ds : List Binding} {P : α → Prop} (h : Adds act Q) (hends : Ends ds act P)
    (hctx : ctx.env.names.Known) :
    ∃ a c new, act ctx = .ok a c ∧ c.log = ctx.log ++ new ∧ Q a new := by
  obtain ⟨a, bs, told, hrun, -, -⟩ := hends ctx
  obtain ⟨-, new, hlog, ha⟩ := h hctx hrun
  exact ⟨a, _, new, hrun, hlog, ha⟩

/-- If the names in force and the declarations in a tree have known types, then the analysis reports
an explanation for every expression of the tree whose type it does not find: a diagnostic that
blames the expression or a node inside it. So where nothing is reported, no type is unknown. -/
theorem analysis_explained (hctx : ctx.env.names.Known) :
    (∀ s : Stmt, s.DeclaresKnown → ∃ s' c new, s.analyze ctx = .ok s' c ∧
      c.log = ctx.log ++ new ∧ new.Explains s'.nodes) ∧
    (∀ b : Block, (∀ s ∈ b.stmts, s.DeclaresKnown) → ∃ b' c new, b.analyze ctx = .ok b' c ∧
      c.log = ctx.log ++ new ∧ new.Explains b'.nodes) ∧
    (∀ p : Program, p.DeclaresKnown → ∃ q c new, p.analyze ctx = .ok q c ∧
      c.log = ctx.log ++ new ∧ new.Explains q.nodes) ∧
    ∀ p q : Program, p.DeclaresKnown → p.analysis = .ok ⟨q, []⟩ →
      ∀ e ∈ q.nodes, e.ty? ≠ some .error := by
  refine ⟨fun s hs => ?_, fun b hb => ?_, fun p hp => ?_, fun p q hp hq e he herror => ?_⟩
  · exact (adds_alone hs (adds_analyzeStmt s hs)).of_ends (ends_analyzeAlone s) hctx
  · exact (adds_analyzeBlock b hb).of_ends (ends_analyzeBlock b) hctx
  · exact (adds_analyzeProgram hp).of_ends (ends_analyzeProgram p) hctx
  · obtain ⟨q', c, hrun, hanalysis⟩ := p.analysis_ok
    rw [hq] at hanalysis
    obtain ⟨rfl, hempty⟩ := Analysis.mk.inj (Except.ok.inj hanalysis)
    have hinitial : Context.initial.env.names.Known := Names.Known.empty
    obtain ⟨-, new, hlog, hexplains⟩ := adds_analyzeProgram hp hinitial hrun
    -- nothing has been reported, so there is no explanation
    obtain rfl : [] = new := hempty.trans hlog
    obtain ⟨d, hd, -⟩ := hexplains e he herror
    nomatch hd

/-- The declaration `int n = -m`, where `m` is not declared. -/
def strayInitial : Stmt :=
  .var ⟨0, 10⟩ ⟨"n", .int, some (.unary ⟨⟨8, 10⟩, none⟩ .neg (.ident ⟨⟨9, 10⟩, none⟩ "m")), ⟨0, 9⟩⟩

/-- The negation has no type because the name in it has none. -/
theorem explained_strayInitial : Context.initial.env.names.Known ∧ strayInitial.DeclaresKnown ∧
    ∃ s' c new, strayInitial.analyze .initial = .ok s' c ∧ c.log = Context.initial.log ++ new ∧
      new.Explains s'.nodes := by
  have hctx : Context.initial.env.names.Known := Names.Known.empty
  have hs : strayInitial.DeclaresKnown :=
    Stmt.declaresKnown_of_leaf rfl (List.forall_mem_singleton.2 rfl)
  exact ⟨hctx, hs, (analysis_explained hctx).1 _ hs⟩

end Procedural
