import Procedural.Proofs.Analysis.Operands
import Procedural.Proofs.Syntax.Nesting

/-! # Well-formed trees are analyzed without reports

Where the rules derive a tree, its analysis reports nothing, changes the context by the bindings
that the tree makes, and gives back the tree itself if every note in it records the type of its
expression already. -/

namespace Procedural

open Rules

variable {M : Note → Ty → Prop} {ctx : Context}

/-- The notes in a tree record types. -/
def Rules.RecordsType (M : Note → Ty → Prop) : Prop := ∀ n t, M n t → n.ty = some t

/-- A note that has to record the type records it. -/
theorem Rules.recordsType_typedNote : RecordsType typedNote := fun _ _ h => h

/-- A type that is recorded already does not change the tree. -/
theorem Expr.withTy_eq {e : Expr} {t : Ty} (h : e.ty? = some t) : e.withTy t = e := by
  have hnote : { e.note with ty := some t } = e.note := by rw [← h]; rfl
  cases e <;> simp only [Expr.note] at hnote <;> rw [Expr.withTy, hnote]

/-! ## Expressions -/

mutual

/-- An expression that has a type is analyzed without reports. -/
theorem analyzeExpr_complete : ∀ {e : Expr} {t : Ty}, HasType M ctx.env.names e t →
    ∃ e', e.analyze ctx = .ok e' ctx ∧ e'.ty? = some t ∧ (RecordsType M → e' = e)
  | .lit n v, _, .lit hn =>
    ⟨(Expr.lit n v).withTy v.ty, rfl, Expr.ty?_withTy .., fun hM => Expr.withTy_eq (hM n _ hn)⟩
  | .ident n x, t, .ident hx hn => by
    refine ⟨(Expr.ident n x).withTy t, ?_, Expr.ty?_withTy .., fun hM => Expr.withTy_eq (hM n _ hn)⟩
    rw [Expr.analyze, bind_of_ok (checkIdent_complete hx)]
    rfl
  | .binary n op l r, t, .binary hl hr hop hn => by
    obtain ⟨l', hrun₁, hl', hsame₁⟩ := analyzeExpr_complete hl
    obtain ⟨r', hrun₂, hr', hsame₂⟩ := analyzeExpr_complete hr
    refine ⟨(Expr.binary n op l' r').withTy t, ?_, Expr.ty?_withTy .., fun hM => ?_⟩
    · rw [Expr.analyze, bind_of_ok hrun₁, bind_of_ok hrun₂,
        bind_of_ok (checkBinary_complete hl' hr' hop)]
      rfl
    · rw [hsame₁ hM, hsame₂ hM]
      exact Expr.withTy_eq (hM n t hn)
  | .unary n op e, t, .unary he hop hn => by
    obtain ⟨e', hrun, he', hsame⟩ := analyzeExpr_complete he
    refine ⟨(Expr.unary n op e').withTy t, ?_, Expr.ty?_withTy .., fun hM => ?_⟩
    · rw [Expr.analyze, bind_of_ok hrun, bind_of_ok (checkUnary_complete he' hop)]
      rfl
    · rw [hsame hM]
      exact Expr.withTy_eq (hM n t hn)
  | .call n c, t, .call hc hn => by
    obtain ⟨c', hrun, hsame⟩ := analyzeCall_complete hc
    refine ⟨(Expr.call n c').withTy t, ?_, Expr.ty?_withTy .., fun hM => ?_⟩
    · rw [Expr.analyze, bind_of_ok hrun]
      rfl
    · rw [hsame hM]
      exact Expr.withTy_eq (hM n t hn)

/-- A well-typed call is analyzed without reports and without changes of the context. -/
theorem analyzeCall_complete : ∀ {c : Call} {t : Ty}, CallType M ctx.env.names c t →
    ∃ c', c.analyze ctx = .ok (t, c') ctx ∧ (RecordsType M → c' = c)
  | ⟨f, args, s⟩, t, .intro hf hty hargs => by
    obtain ⟨entity, rfl, hres⟩ := resolve_complete (s := s) hf
    obtain ⟨args', ss, hrun, hss, hfits, hsame⟩ := analyzeExprs_complete hargs
    refine ⟨⟨f, args', s⟩, ?_, fun hM => by rw [hsame hM]⟩
    rw [Call.analyze, bind_of_ok hres, bind_of_ok hrun,
      bind_of_ok (checkCall_complete hss (entity.ty_meaning ▸ hty) hfits)]
    rfl

/-- Well-typed arguments are analyzed without reports, and get types that fit the parameters. -/
theorem analyzeExprs_complete : ∀ {es : List Expr} {ts : List Ty}, ArgsFit M ctx.env.names es ts →
    ∃ es' ss, analyzeAll es ctx = .ok es' ctx ∧ List.Forall₂ (fun e s => e.ty? = some s) es' ss ∧
      List.Forall₂ Fits ss ts ∧ (RecordsType M → es' = es)
  | [], _, .nil => ⟨[], [], rfl, .nil, .nil, fun _ => rfl⟩
  | e :: es, _, .cons (s := s) he hfits hes => by
    obtain ⟨e', hrun₁, he', hsame₁⟩ := analyzeExpr_complete he
    obtain ⟨es', ss, hrun₂, hss, hfits', hsame₂⟩ := analyzeExprs_complete hes
    refine ⟨e' :: es', s :: ss, ?_, .cons he' hss, .cons hfits hfits', fun hM => ?_⟩
    · rw [analyzeAll, bind_of_ok hrun₁, bind_of_ok hrun₂]
      rfl
    · rw [hsame₁ hM, hsame₂ hM]

end

/-- A well-typed expression that meets a demand is analyzed without reports. -/
theorem analyzeFor_complete {e : Expr} {t : Ty} {d : Demand} (he : HasType M ctx.env.names e t)
    (hd : d.admits t = true) :
    ∃ e', e.analyzeFor d ctx = .ok e' ctx ∧ (RecordsType M → e' = e) := by
  obtain ⟨e', hrun, he', hsame⟩ := analyzeExpr_complete he
  refine ⟨e', ?_, hsame⟩
  rw [Expr.analyzeFor, bind_of_ok hrun, bind_of_ok (require_complete he' hd)]
  rfl

/-- An expression that may be missing meets a demand where the expression meets it. -/
theorem analyzeForOpt_complete {o : Option Expr} {d : Demand}
    (h : ∀ e ∈ o, ∃ t, HasType M ctx.env.names e t ∧ d.admits t = true) :
    ∃ o', analyzeForOpt d o ctx = .ok o' ctx ∧ (RecordsType M → o' = o) := by
  cases o with
  | none => exact ⟨none, rfl, fun _ => rfl⟩
  | some e =>
    obtain ⟨t, he, hd⟩ := h e rfl
    obtain ⟨e', hrun, hsame⟩ := analyzeFor_complete he hd
    refine ⟨some e', ?_, fun hM => by rw [hsame hM]⟩
    rw [analyzeForOpt, bind_of_ok hrun]
    rfl

/-! ## Statements and sequences -/

/-- Wherever the statement is well formed, it is analyzed without reports. -/
def Stmt.CompletelyAnalyzed (M : Note → Ty → Prop) (s : Stmt) : Prop :=
  ∀ ⦃ctx : Context⦄, Ok M ctx.env s →
    ∃ s', s.analyzeIn true ctx = .ok s' (ctx.bindAll s.bindings) ∧ (RecordsType M → s' = s)

/-- A well-formed list of statements is analyzed without reports, and binds its variables. -/
theorem analyzeAllIn_complete {ss : List Stmt} (hss : ∀ s ∈ ss, s.CompletelyAnalyzed M)
    (h : AllOk M ctx.env ss) :
    ∃ ss', analyzeAllIn ss ctx = .ok ss' (ctx.bindAll (ss.flatMap Stmt.bindings)) ∧
      (RecordsType M → ss' = ss) := by
  induction ss generalizing ctx with
  | nil => exact ⟨[], rfl, fun _ => rfl⟩
  | cons s ss ih =>
    obtain - | ⟨hs, hrest⟩ := h
    obtain ⟨hs_complete, hss⟩ := List.forall_mem_cons.1 hss
    -- the rest of the sequence sees what this statement binds
    rw [← Context.env_bindings] at hrest
    obtain ⟨s', hrun₁, hsame₁⟩ := hs_complete hs
    obtain ⟨ss', hrun₂, hsame₂⟩ := ih hss hrest
    refine ⟨s' :: ss', ?_, fun hM => by rw [hsame₁ hM, hsame₂ hM]⟩
    rw [analyzeAllIn, bind_of_ok hrun₁, bind_of_ok hrun₂, List.flatMap_cons, Context.bindAll_append]
    rfl

/-- A well-formed sequence is analyzed without reports, and binds its functions and variables. -/
theorem analyzeSequence_complete {ss : List Stmt} (hss : ∀ s ∈ ss, s.CompletelyAnalyzed M)
    (h : SeqOk M ctx.env ss) :
    ∃ ss', analyzeSequence ss ctx = .ok ss' (ctx.bindAll (sequenceBindings ss)) ∧
      (RecordsType M → ss' = ss) := by
  obtain ⟨hfresh, hall⟩ := h
  rw [← map_decl_functionBindings] at hfresh hall
  rw [← Context.env_bindAll] at hall
  obtain ⟨ss', hrun, hsame⟩ := analyzeAllIn_complete hss hall
  refine ⟨ss', ?_, hsame⟩
  rw [analyzeSequence, bind_of_ok (declareAll_complete hfresh), hrun, sequenceBindings,
    Context.bindAll_append]

/-- A well-formed block is analyzed without reports. -/
theorem analyzeBlock_complete {b : Block} (hss : ∀ s ∈ b.stmts, s.CompletelyAnalyzed M)
    (h : SeqOk M ctx.env.push b.stmts) :
    ∃ b', b.analyze ctx = .ok b' ctx ∧ (RecordsType M → b' = b) := by
  obtain ⟨ss, s⟩ := b
  rw [← Context.env_push] at h
  obtain ⟨ss', hrun, hsame⟩ := analyzeSequence_complete hss h
  refine ⟨⟨ss', s⟩, ?_, fun hM => by rw [hsame hM]⟩
  refine (bind_of_ok (inScope_of_ok hrun)).trans ?_
  rfl

/-- The block of a loop is analyzed without reports inside the loop. -/
theorem analyzeRounds_complete {b : Block} (hss : ∀ s ∈ b.stmts, s.CompletelyAnalyzed M)
    (h : SeqOk M ctx.env.inside.push b.stmts) :
    ∃ b', inLoop b.analyze ctx = .ok b' ctx ∧ (RecordsType M → b' = b) := by
  rw [← Context.env_inside] at h
  obtain ⟨b', hrun, hsame⟩ := analyzeBlock_complete hss h
  exact ⟨b', inLoop_of_ok hrun, hsame⟩

/-- A well-formed clause is analyzed without reports, and binds what it declares. -/
theorem analyzeStmtOpt_complete {o : Option Stmt} (hss : ∀ s ∈ o, s.CompletelyAnalyzed M)
    (h : SeqOk M ctx.env o.toList) :
    ∃ o', analyzeStmtOpt o ctx = .ok o' (ctx.bindAll (sequenceBindings o.toList)) ∧
      (RecordsType M → o' = o) := by
  obtain ⟨ss', hrun, hsame⟩ :=
    analyzeSequence_complete (fun s hs => hss s (Option.mem_toList.1 hs)) h
  -- the answer is the one statement of the sequence, if there is one
  refine ⟨ss'.head?, ?_, fun hM => ?_⟩
  · rw [analyzeStmtOpt_eq]
    exact (bind_of_ok hrun).trans rfl
  · rw [hsame hM]
    cases o <;> rfl

/-- A well-formed block that may be missing is analyzed without reports. -/
theorem analyzeBlockOpt_complete {o : Option Block}
    (hss : ∀ b ∈ o, ∀ s ∈ b.stmts, s.CompletelyAnalyzed M)
    (h : ∀ b ∈ o, SeqOk M ctx.env.push b.stmts) :
    ∃ o', analyzeBlockOpt o ctx = .ok o' ctx ∧ (RecordsType M → o' = o) := by
  cases o with
  | none => exact ⟨none, rfl, fun _ => rfl⟩
  | some b =>
    obtain ⟨b', hrun, hsame⟩ := analyzeBlock_complete (hss b rfl) (h b rfl)
    refine ⟨some b', ?_, fun hM => by rw [hsame hM]⟩
    rw [analyzeBlockOpt, bind_of_ok hrun]
    rfl

/-- Well-formed conditional arms are analyzed without reports. -/
theorem analyzeArms_complete {arms : List Arm}
    (hss : ∀ a ∈ arms, ∀ s ∈ a.body.stmts, s.CompletelyAnalyzed M)
    (hcond : ∀ a ∈ arms, HasType M ctx.env.names a.cond .bool)
    (hbody : ∀ a ∈ arms, SeqOk M ctx.env.push a.body.stmts) :
    ∃ arms', analyzeArms arms ctx = .ok arms' ctx ∧ (RecordsType M → arms' = arms) := by
  induction arms with
  | nil => exact ⟨[], rfl, fun _ => rfl⟩
  | cons a arms ih =>
    obtain ⟨e, b⟩ := a
    obtain ⟨hb_complete, hss⟩ := List.forall_mem_cons.1 hss
    obtain ⟨he, hcond⟩ := List.forall_mem_cons.1 hcond
    obtain ⟨hb, hbody⟩ := List.forall_mem_cons.1 hbody
    obtain ⟨e', hrun₁, hsame₁⟩ := analyzeFor_complete he (Demand.admits_boolean.2 rfl)
    obtain ⟨b', hrun₂, hsame₂⟩ := analyzeBlock_complete hb_complete hb
    obtain ⟨arms', hrun₃, hsame₃⟩ := ih hss hcond hbody
    refine ⟨⟨e', b'⟩ :: arms', ?_, fun hM => ?_⟩
    · rw [analyzeArms, bind_of_ok hrun₁, bind_of_ok hrun₂, bind_of_ok hrun₃]
      rfl
    · rw [hsame₁ hM, hsame₂ hM, hsame₃ hM]

/-- The demand on a value where `t` is declared is met by an expression that fits. -/
theorem Rules.FitsIn.admits {e : Expr} {t : Ty} {label : String} {Γ : Names}
    (h : FitsIn M Γ e t) :
    ∃ s, HasType M Γ e s ∧ (Demand.assignable label t).admits s = true := by
  obtain ⟨s, he, hfits⟩ := h
  exact ⟨s, he, Demand.admits_of_fits hfits⟩

/-! ## Parts of statements -/

/-- A well-formed variable declaration is analyzed without reports, and binds the variable. -/
theorem analyzeVar_complete {d : VarDecl} (hinit : ∀ e ∈ d.init, FitsIn M ctx.env.names e d.ty)
    (hfresh : ctx.env.names.Fresh d.name) :
    ∃ d', d.analyze ctx = .ok d' (ctx.bindAll [d.binding]) ∧ (RecordsType M → d' = d) := by
  obtain ⟨init, hrun, hsame⟩ := analyzeForOpt_complete
    (d := .assignable ("declaration of " ++ Problem.quoted d.name) d.ty)
    fun e he => (hinit e he).admits
  have hdecl : declareAll [d.binding] ctx = .ok () (ctx.bindAll [d.binding]) :=
    declareAll_complete ⟨hfresh, trivial⟩
  refine ⟨{ d with init }, ?_, fun hM => by rw [hsame hM]⟩
  rw [VarDecl.analyze, bind_of_ok hrun, bind_of_ok hdecl]
  rfl

/-- A well-formed assignment is analyzed without reports. -/
theorem analyzeAssign_complete {x : String} {e : Expr} {s : Span} {t : Ty}
    (hx : ctx.env.names.lookup x = some (.place t)) (he : FitsIn M ctx.env.names e t) :
    ∃ e', analyzeAssign x e s ctx = .ok e' ctx ∧ (RecordsType M → e' = e) := by
  obtain ⟨entity, hentity, hres⟩ := resolve_complete (s := s) hx
  obtain ⟨hvalue, rfl⟩ := Entity.meaning_eq_place_iff.1 hentity
  obtain ⟨t', he, hfits⟩ := he
  obtain ⟨e', hrun, he', hsame⟩ := analyzeExpr_complete he
  refine ⟨e', ?_, hsame⟩
  rw [analyzeAssign, bind_of_ok hres, bind_of_ok hrun]
  show (if entity.isValue then _ else _ : Check Expr) ctx = _
  rw [if_pos hvalue]
  exact (bind_of_ok (require_complete he' (Demand.admits_of_fits hfits))).trans rfl

/-- A well-formed return is analyzed without reports. -/
theorem analyzeReturn_complete {o : Option Expr} {s : Span} (h : Ok M ctx.env (.ret s o)) :
    ∃ o', analyzeReturn o s ctx = .ok o' ctx ∧ (RecordsType M → o' = o) := by
  cases h with
  | @retValue _ _ e t hret hvoid he =>
    obtain ⟨t', he, hfits⟩ := he
    obtain ⟨e', hrun, hsame⟩ := analyzeFor_complete (d := .assignable "return" t) he
      (Demand.admits_of_fits hfits)
    refine ⟨some e', ?_, fun hM => by rw [hsame hM]⟩
    exact (analyzeReturn_value hret hvoid (some e)).trans ((bind_of_ok hrun).trans rfl)
  | retNone hret => exact ⟨none, analyzeReturn_void hret none, fun _ => rfl⟩

/-- A jump inside a loop is checked without reports. -/
theorem checkJump_complete {j : Jump} {s : Span} (h : ctx.env.inLoop = true) :
    checkJump j s ctx = .ok () ctx := by
  have hloop : ctx.isInLoop = true := h
  show (if ctx.isInLoop then _ else _ : Check Unit) ctx = _
  rw [if_pos hloop]
  rfl

/-- The body of a function is analyzed without reports in one scope with the parameters. -/
theorem analyzeFunc_complete {f : FuncHeader} {body : List Stmt}
    (hss : ∀ s ∈ body, s.CompletelyAnalyzed M)
    (hparams : (ctx.env.enter f.result).push.names.FreshAll (parameters f))
    (hbody : SeqOk M ((ctx.env.enter f.result).push.declareAll (parameters f)) body) :
    ∃ body', inFunction f.result (inScope (do
      declareAll (f.params.map Param.binding)
      analyzeSequence body)) ctx = .ok body' ctx ∧ (RecordsType M → body' = body) := by
  -- the rules are carried over to the context in which the body is analyzed
  rw [← map_decl_params, ← Context.env_enter, ← Context.env_push] at hparams hbody
  rw [← Context.env_bindAll] at hbody
  obtain ⟨body', hrun, hsame⟩ := analyzeSequence_complete hss hbody
  have hact := (bind_of_ok (f := fun _ => analyzeSequence body)
    (declareAll_complete hparams)).trans hrun
  -- parameters and body are bound in one scope, which is left as a whole
  rw [← Context.bindAll_append] at hact
  exact ⟨body', inFunction_of_ok (inScope_of_ok hact), hsame⟩

/-- The parts of a well-formed loop are analyzed without reports in the scope of the loop. -/
theorem analyzeClauses_complete {s : Span} {i u : Option Stmt} {e : Option Expr} {b : Block}
    (hinit : ∀ x ∈ i, x.CompletelyAnalyzed M) (hstep : ∀ x ∈ u, x.CompletelyAnalyzed M)
    (hblock : ∀ x ∈ b.stmts, x.CompletelyAnalyzed M) (h : Ok M ctx.env (.forLoop s i e u b)) :
    ∃ s', analyzeClauses s i e u b ctx.push = .ok s'
        (ctx.push.bindAll (sequenceBindings i.toList ++ sequenceBindings u.toList)) ∧
      (RecordsType M → s' = .forLoop s i e u b) := by
  cases h with
  | forLoop hi he hb hu =>
    rw [← Context.env_push] at hi he hb hu
    -- condition, block and step see what the initializer binds
    rw [← Context.env_sequenceBindings] at he hb hu
    obtain ⟨i', hrun₁, hsame₁⟩ := analyzeStmtOpt_complete hinit hi
    obtain ⟨e', hrun₂, hsame₂⟩ := analyzeForOpt_complete (d := .boolean "for")
      fun c hc => ⟨_, he c hc, Demand.admits_boolean.2 rfl⟩
    obtain ⟨b', hrun₃, hsame₃⟩ := analyzeRounds_complete hblock hb
    obtain ⟨u', hrun₄, hsame₄⟩ := analyzeStmtOpt_complete hstep hu
    rw [← Context.bindAll_append] at hrun₄
    refine ⟨.forLoop s i' e' u' b', ?_,
      fun hM => by rw [hsame₁ hM, hsame₂ hM, hsame₃ hM, hsame₄ hM]⟩
    rw [analyzeClauses, bind_of_ok hrun₁, bind_of_ok hrun₂, bind_of_ok hrun₃, bind_of_ok hrun₄]
    rfl

/-! ## All statements -/

/-- A statement that is analyzed by analyzing one part of it is analyzed without reports if the part
is. -/
theorem exists_analyzed_around {α : Type} {act : Check α} {k : α → Stmt} {a a' : α} {c : Context}
    (hstmt : (k a).analyzeIn true = act >>= fun x => pure (k x)) (hrun : act ctx = .ok a' c)
    (hsame : RecordsType M → a' = a) :
    ∃ s', (k a).analyzeIn true ctx = .ok s' c ∧ (RecordsType M → s' = k a) := by
  refine ⟨k a', ?_, fun hM => by rw [hsame hM]⟩
  rw [hstmt, bind_of_ok hrun]
  rfl

/-- Wherever the rules derive a statement, its analysis reports nothing. -/
theorem completelyAnalyzed (s : Stmt) : s.CompletelyAnalyzed M := by
  induction s using Stmt.induct with
  | step s ih =>
    intro ctx h
    -- the statements of its blocks are analyzed completely, whatever the context they stand in
    have hblocks : ∀ b ∈ s.blocks, ∀ x ∈ b.stmts, x.CompletelyAnalyzed M := by
      intro b hb x hx
      exact ih x (Stmt.mem_children_of_block hb hx)
    -- one rule for each kind of statement; the analysis runs the parts in the order of the premises
    cases h with
    | @var _ sp d hinit hfresh =>
      obtain ⟨d', hrun, hsame⟩ := analyzeVar_complete hinit hfresh
      exact exists_analyzed_around (k := .var sp) rfl hrun hsame
    | @func _ sp f b hparams hbody =>
      obtain ⟨body, t⟩ := b
      obtain ⟨body', hrun, hsame⟩ :=
        analyzeFunc_complete (hblocks _ List.mem_cons_self) hparams hbody
      exact exists_analyzed_around (k := fun ss => .func sp f ⟨ss, t⟩) rfl hrun hsame
    | @assign _ sp x e t hx he =>
      obtain ⟨e', hrun, hsame⟩ := analyzeAssign_complete (s := sp) hx he
      exact exists_analyzed_around (k := .assign sp x) rfl hrun hsame
    | @call _ sp call t hcall =>
      obtain ⟨call', hrun, hsame⟩ := analyzeCall_complete hcall
      refine ⟨.call sp call', ?_, fun hM => by rw [hsame hM]⟩
      rw [Stmt.analyzeIn, bind_of_ok hrun]
      rfl
    | @after _ sp e call t t' he hnum hcall =>
      obtain ⟨e', hrun₁, hsame₁⟩ := analyzeFor_complete (d := .arithmetic "after") he
        (Demand.admits_arithmetic.2 hnum)
      obtain ⟨call', hrun₂, hsame₂⟩ := analyzeCall_complete hcall
      refine ⟨.after sp e' call', ?_, fun hM => by rw [hsame₁ hM, hsame₂ hM]⟩
      rw [Stmt.analyzeIn, bind_of_ok hrun₁, bind_of_ok hrun₂]
      rfl
    | @block _ sp b hb =>
      obtain ⟨b', hrun, hsame⟩ := analyzeBlock_complete (hblocks b List.mem_cons_self) hb
      exact exists_analyzed_around (k := .block sp) rfl hrun hsame
    | @ifChain _ sp arms o hcond hbody ho =>
      obtain ⟨arms', hrun₁, hsame₁⟩ :=
        analyzeArms_complete (fun a ha => hblocks _ (Stmt.mem_blocks_of_arm ha)) hcond hbody
      obtain ⟨o', hrun₂, hsame₂⟩ :=
        analyzeBlockOpt_complete (fun b hb => hblocks b (Stmt.mem_blocks_of_else hb)) ho
      refine ⟨.ifChain sp arms' o', ?_, fun hM => by rw [hsame₁ hM, hsame₂ hM]⟩
      rw [Stmt.analyzeIn, bind_of_ok hrun₁, bind_of_ok hrun₂]
      rfl
    | @whileLoop _ sp e b he hb =>
      obtain ⟨e', hrun₁, hsame₁⟩ := analyzeFor_complete (d := .boolean "while") he
        (Demand.admits_boolean.2 rfl)
      obtain ⟨b', hrun₂, hsame₂⟩ := analyzeRounds_complete (hblocks b List.mem_cons_self) hb
      refine ⟨.whileLoop sp e' b', ?_, fun hM => by rw [hsame₁ hM, hsame₂ hM]⟩
      rw [Stmt.analyzeIn, bind_of_ok hrun₁, bind_of_ok hrun₂]
      rfl
    | @forLoop _ sp i e u b hi he hb hu =>
      obtain ⟨s', hrun, hsame⟩ := analyzeClauses_complete
        (fun x hx => ih x (Stmt.mem_children_of_init hx))
        (fun x hx => ih x (Stmt.mem_children_of_step hx))
        (hblocks b List.mem_cons_self) (.forLoop hi he hb hu)
      refine ⟨s', ?_, hsame⟩
      rw [analyzeIn_forLoop]
      exact inScope_of_ok hrun
    | @jump _ sp j hloop =>
      refine ⟨.jump sp j, ?_, fun _ => rfl⟩
      rw [Stmt.analyzeIn, bind_of_ok (checkJump_complete hloop)]
      rfl
    | @retValue _ sp e t hret hvoid he =>
      obtain ⟨o', hrun, hsame⟩ := analyzeReturn_complete (.retValue (s := sp) hret hvoid he)
      exact exists_analyzed_around (k := .ret sp) rfl hrun hsame
    | @retNone _ sp hret =>
      obtain ⟨o', hrun, hsame⟩ := analyzeReturn_complete (.retNone (M := M) (s := sp) hret)
      exact exists_analyzed_around (k := .ret sp) rfl hrun hsame

end Procedural
