import Procedural.Proofs.Analysis.Sound.Expr

/-! # Statements without reports are well formed

If the analysis of a statement or a sequence reports nothing, the rules derive it, and they derive
what the analysis makes of it with every note recording the type of its expression. Nothing but
types changes in it, and the context changes by the bindings it makes. -/

namespace Procedural

open Rules

variable {ctx c : Context}

/-! ## Trees with the same bare form -/

/-- The variable that a statement declares does not depend on types found. -/
theorem places_bare (s : Stmt) : places s.bare = places s := by
  cases s <;> rfl

/-- Statements with the same bare form declare the same variable. -/
theorem places_eq_of_bare {s s' : Stmt} (h : s'.bare = s.bare) : places s' = places s := by
  rw [← places_bare s', h, places_bare]

/-- The functions that a sequence declares do not depend on types found. -/
theorem functions_bareAll (ss : List Stmt) : functions (Stmt.bareAll ss) = functions ss := by
  have h : Stmt.header? ∘ Stmt.bare = Stmt.header? := funext Stmt.header?_bare
  rw [functions, Stmt.bareAll_eq_map, List.filterMap_map, h, functions]

/-- Sequences with the same bare form declare the same functions. -/
theorem functions_eq_of_bare {ss ss' : List Stmt} (h : Stmt.bareAll ss' = Stmt.bareAll ss) :
    functions ss' = functions ss := by
  rw [← functions_bareAll ss', h, functions_bareAll]

/-- Statements that differ in types found leave the same names in force. -/
theorem after_eq_of_bare {Γ : Env} {s s' : Stmt} (h : s'.bare = s.bare) :
    Γ.after s' = Γ.after s := by
  rw [Env.after, places_eq_of_bare h, Env.after]

/-- Sequences that differ in types found leave the same names in force. -/
theorem afterAll_eq_of_bare {Γ : Env} : ∀ {ss ss' : List Stmt},
    Stmt.bareAll ss' = Stmt.bareAll ss → Γ.afterAll ss' = Γ.afterAll ss := by
  intro ss ss' h
  -- the names in force change from statement to statement, so the induction is over all of them
  have hfold : ∀ Γ : Env, ss'.foldl Env.after Γ = ss.foldl Env.after Γ := by
    clear Γ
    induction ss generalizing ss' with
    | nil =>
      cases ss' with
      | nil => exact fun _ => rfl
      | cons => nomatch h
    | cons s ss ih =>
      cases ss' with
      | nil => nomatch h
      | cons s' ss' =>
        obtain ⟨hs, hss⟩ := List.cons.inj h
        intro Γ
        rw [List.foldl_cons, List.foldl_cons, after_eq_of_bare hs, ih hss]
  rw [Env.afterAll, functions_eq_of_bare h, hfold, Env.afterAll]

/-! ## Known contexts -/

/-- All names in force stand for something of a known type, and the result type of the enclosing
function is known. -/
structure Context.Known (ctx : Context) : Prop where
  /-- The names in force. -/
  names : ctx.env.names.Known
  /-- The result type of the enclosing function. -/
  returns : ∀ t ∈ ctx.returns, t.Known

namespace Context.Known

/-- The fresh context has known types. -/
theorem initial : Context.initial.Known := ⟨Names.Known.empty, fun _ h => nomatch h⟩

/-- A new scope brings in no types. -/
theorem push (h : ctx.Known) : ctx.push.Known := by
  refine ⟨?_, h.returns⟩
  rw [env_push]
  exact h.names.push

/-- A loop brings in no types. -/
theorem inside (h : ctx.Known) : ctx.inside.Known := by
  refine ⟨?_, h.returns⟩
  rw [env_inside]
  exact h.names

/-- A function brings in its result type. -/
theorem enter (h : ctx.Known) {t : Ty} (ht : t.Known) : (ctx.enter t).Known := by
  refine ⟨h.names, ?_⟩
  rintro _ ⟨⟩
  exact ht

/-- Bindings of known types leave known types. -/
theorem bindAll (h : ctx.Known) {bs : List Binding}
    (hbs : ∀ d ∈ bs.map Binding.decl, d.2.ty.Known) : (ctx.bindAll bs).Known := by
  constructor
  · rw [env_bindAll]
    exact h.names.declareAll hbs
  · rw [returns_bindAll]
    exact h.returns

/-- The functions of a sequence have known types if its declared types are known. -/
theorem functions (h : ctx.Known) {ss : List Stmt} (hss : ∀ s ∈ ss, s.DeclaresKnown) :
    (ctx.bindAll (functionBindings ss)).Known := by
  refine h.bindAll ?_
  rw [map_decl_functionBindings]
  exact known_functions hss

/-- The variable of a statement has a known type if its declared types are known. -/
theorem bindings (h : ctx.Known) {s : Stmt} (hs : s.DeclaresKnown) :
    (ctx.bindAll s.bindings).Known := by
  refine h.bindAll ?_
  rw [map_decl_bindings]
  exact known_places hs

/-- After a sequence in which declared types are known, the context is known. -/
theorem sequence (h : ctx.Known) {ss : List Stmt} (hss : ∀ s ∈ ss, s.DeclaresKnown) :
    (ctx.bindAll (sequenceBindings ss)).Known := by
  rw [sequenceBindings, bindAll_append]
  -- the functions come first; from there the induction goes statement by statement
  have hfuns := h.functions hss
  generalize ctx.bindAll (functionBindings ss) = ctx at hfuns
  clear h
  induction ss generalizing ctx with
  | nil => exact hfuns
  | cons s ss ih =>
    obtain ⟨hs, hss⟩ := List.forall_mem_cons.1 hss
    rw [List.flatMap_cons, bindAll_append]
    exact ih hss _ (hfuns.bindings hs)

end Context.Known

/-! ## Parts of statements -/

/-- What an analysis without reports says of an expression and of its annotated form, it says where
the expression may be missing. -/
theorem analyzeForOpt_sound {d : Demand} {o o' : Option Expr} {P Q : Expr → Prop}
    (hone : ∀ {e e' : Expr}, e.analyzeFor d ctx = .ok e' c →
      c = ctx ∧ e'.bare = e.bare ∧ P e ∧ Q e')
    (h : analyzeForOpt d o ctx = .ok o' c) :
    c = ctx ∧ o'.map Expr.bare = o.map Expr.bare ∧ (∀ e ∈ o, P e) ∧ ∀ e ∈ o', Q e := by
  cases o with
  | none =>
    cases h
    exact ⟨rfl, rfl, nofun, nofun⟩
  | some e =>
    obtain ⟨e', c₁, he, h⟩ := of_bind_ok h
    cases h
    obtain ⟨rfl, hbare, hplain, hnoted⟩ := hone he
    refine ⟨rfl, congrArg some hbare, ?_, ?_⟩
    · rintro _ ⟨⟩
      exact hplain
    · rintro _ ⟨⟩
      exact hnoted

/-- A condition that may be missing and is analyzed without reports is a truth value. -/
theorem analyzeForOpt_boolean_sound {o o' : Option Expr} {label : String}
    (hctx : ctx.env.names.Known) (h : analyzeForOpt (.boolean label) o ctx = .ok o' c)
    (hlog : c.log.length ≤ ctx.log.length) :
    c = ctx ∧ o'.map Expr.bare = o.map Expr.bare ∧
      (∀ e ∈ o, HasType anyNote ctx.env.names e .bool) ∧
      ∀ e ∈ o', HasType typedNote ctx.env.names e .bool := by
  refine analyzeForOpt_sound (fun {e e'} hrun => ?_) h
  obtain ⟨rfl, he⟩ := analyzeFor_boolean_sound hctx hrun hlog
  exact ⟨rfl, he.bare, he.plain, he.noted⟩

/-- An initial value that may be missing and is analyzed without reports fits the declared type. -/
theorem analyzeForOpt_assignable_sound {o o' : Option Expr} {label : String} {t : Ty}
    (hctx : ctx.env.names.Known) (ht : t.Known)
    (h : analyzeForOpt (.assignable label t) o ctx = .ok o' c)
    (hlog : c.log.length ≤ ctx.log.length) :
    c = ctx ∧ o'.map Expr.bare = o.map Expr.bare ∧
      (∀ e ∈ o, FitsIn anyNote ctx.env.names e t) ∧
      ∀ e ∈ o', FitsIn typedNote ctx.env.names e t :=
  analyzeForOpt_sound (fun hrun => analyzeFor_assignable_sound hctx ht hrun hlog) h

/-- A variable declaration that is analyzed without reports is well formed. -/
theorem analyzeVar_sound {d d' : VarDecl} (hctx : ctx.env.names.Known) (hd : d.ty.Known)
    (h : d.analyze ctx = .ok d' c) (hlog : c.log.length ≤ ctx.log.length) (s : Span) :
    c = ctx.bindAll [d.binding] ∧ d'.bare = d.bare ∧ Ok anyNote ctx.env (.var s d) ∧
      Ok typedNote ctx.env (.var s d') := by
  obtain ⟨init, c₁, hinit, h⟩ := of_bind_ok h
  obtain ⟨_, c₂, hdecl, h⟩ := of_bind_ok h
  cases h
  have hgrow₁ := (ends_analyzeForOpt _ d.init).length_le hinit
  have hgrow₂ := (ends_declareAll _).length_le hdecl
  have hquiet₁ : c₁.log.length ≤ ctx.log.length := by omega
  have hquiet₂ : c.log.length ≤ c₁.log.length := by omega
  obtain ⟨rfl, hbare, hplain, hnoted⟩ := analyzeForOpt_assignable_sound hctx hd hinit hquiet₁
  obtain ⟨rfl, hfresh, -⟩ := declareAll_sound hdecl hquiet₂
  refine ⟨rfl, ?_, .var hplain hfresh, .var hnoted hfresh⟩
  rw [VarDecl.bare, VarDecl.bare, hbare]

/-- An assignment that is analyzed without reports is well formed. -/
theorem analyzeAssign_sound {x : String} {e e' : Expr} {s : Span} (hctx : ctx.env.names.Known)
    (h : analyzeAssign x e s ctx = .ok e' c) (hlog : c.log.length ≤ ctx.log.length) :
    c = ctx ∧ e'.bare = e.bare ∧ Ok anyNote ctx.env (.assign s x e) ∧
      Ok typedNote ctx.env (.assign s x e') := by
  obtain ⟨o, c₁, hx, h⟩ := of_bind_ok h
  obtain ⟨e₁, c₂, he, hrest⟩ := of_bind_ok h
  -- no step takes reports away, so none of them reports if the whole does not
  have hgrow₁ := (ends_resolve x s).length_le hx
  have hgrow₂ := (ends_analyzeExpr e).length_le he
  have hgrow₃ : c₂.log.length ≤ c.log.length := by
    refine (grows_ofEntity (fun entity => ?_) o).length_le hrest
    exact .bind (grows_require ..) fun ⟨_, _⟩ => .pure _
  have hquiet₁ : c₁.log.length ≤ ctx.log.length := by omega
  have hquiet₂ : c₂.log.length ≤ c₁.log.length := by omega
  obtain ⟨rfl, entity, rfl, hlookup⟩ := resolve_sound hx hquiet₁
  obtain ⟨rfl, t, htyped⟩ := analyzeExpr_sound e hctx he hquiet₂
  dsimp only at hrest
  split at hrest
  · rename_i hvalue
    obtain ⟨⟨ok, e₂⟩, c₃, hreq, hend⟩ := of_bind_ok hrest
    cases hend
    have ht := htyped.noted.known hctx
    obtain ⟨rfl, rfl, -, hd⟩ := require_sound htyped.noted.ty?_eq ht hreq hlog
    have hfits := fits_of_accepts ht (entity.ty_meaning ▸ hctx x _ hlookup) hd
    rw [Entity.meaning_eq_place_iff.2 ⟨hvalue, rfl⟩] at hlookup
    exact ⟨rfl, htyped.bare, .assign hlookup ⟨t, htyped.plain, hfits⟩,
      .assign hlookup ⟨t, htyped.noted, hfits⟩⟩
  · cases hrest
    exact absurd hlog (Context.not_quiet_report (Nat.le_refl _))

/-- A return that is analyzed without reports is well formed. -/
theorem analyzeReturn_sound {o o' : Option Expr} {s : Span} (hctx : ctx.Known)
    (h : analyzeReturn o s ctx = .ok o' c) (hlog : c.log.length ≤ ctx.log.length) :
    c = ctx ∧ o'.map Expr.bare = o.map Expr.bare ∧ Ok anyNote ctx.env (.ret s o) ∧
      Ok typedNote ctx.env (.ret s o') := by
  obtain ⟨hret, rfl, rfl, rfl⟩ | ⟨t, e, e', ⟨hret, hvoid⟩, rfl, rfl, he⟩ :=
    analyzeReturn_quiet h hlog
  · exact ⟨rfl, rfl, .retNone hret, .retNone hret⟩
  · obtain ⟨rfl, hbare, hplain, hnoted⟩ :=
      analyzeFor_assignable_sound hctx.names (hctx.returns t hret) he hlog
    exact ⟨rfl, congrArg some hbare, .retValue hret hvoid hplain, .retValue hret hvoid hnoted⟩

/-- A jump that is checked without reports is inside a loop. -/
theorem checkJump_sound {j : Jump} {s : Span} (h : checkJump j s ctx = .ok () c)
    (hlog : c.log.length ≤ ctx.log.length) : c = ctx ∧ ctx.env.inLoop = true := by
  obtain ⟨ctx', c₁, hget, h⟩ := of_bind_ok h
  cases hget
  split at h
  · rename_i hloop
    cases h
    exact ⟨rfl, hloop⟩
  · cases h
    exact absurd hlog (Context.not_quiet_report (Nat.le_refl _))

/-! ## Statements and sequences -/

/-- The declared types in the statement are known, and if its analysis in a known context reports
nothing, the statement is well formed before and after it. -/
structure Stmt.SoundlyAnalyzed (s : Stmt) : Prop where
  /-- The declared types are known. -/
  known : s.DeclaresKnown
  /-- An analysis without reports is right. -/
  sound : ∀ ⦃s' : Stmt⦄ ⦃ctx c : Context⦄, ctx.Known → s.analyzeIn true ctx = .ok s' c →
    c.log.length ≤ ctx.log.length →
    c = ctx.bindAll s.bindings ∧ s'.bare = s.bare ∧ Ok anyNote ctx.env s ∧ Ok typedNote ctx.env s'

/-- Statements that are analyzed without reports are well formed one after the other. -/
theorem analyzeAllIn_sound {ss ss' : List Stmt} (hss : ∀ s ∈ ss, s.SoundlyAnalyzed)
    (hctx : ctx.Known) (h : analyzeAllIn ss ctx = .ok ss' c)
    (hlog : c.log.length ≤ ctx.log.length) :
    c = ctx.bindAll (ss.flatMap Stmt.bindings) ∧ Stmt.bareAll ss' = Stmt.bareAll ss ∧
      AllOk anyNote ctx.env ss ∧ AllOk typedNote ctx.env ss' := by
  induction ss generalizing ss' ctx with
  | nil =>
    cases h
    exact ⟨rfl, rfl, .nil, .nil⟩
  | cons s ss ih =>
    obtain ⟨s', c₁, hs, hrest⟩ := of_bind_ok h
    obtain ⟨ss', c₂, hall, hend⟩ := of_bind_ok hrest
    cases hend
    have hgrow₁ := (ends_analyzeStmt s).length_le hs
    have hgrow₂ := (ends_analyzeStmts ss).length_le hall
    obtain ⟨hs_sound, hss⟩ := List.forall_mem_cons.1 hss
    have hquiet₁ : c₁.log.length ≤ ctx.log.length := by omega
    have hquiet₂ : c.log.length ≤ c₁.log.length := by omega
    obtain ⟨rfl, hbare, hplain, hnoted⟩ := hs_sound.sound hctx hs hquiet₁
    obtain ⟨rfl, hbares, hplains, hnoteds⟩ :=
      ih hss (hctx.bindings hs_sound.known) hall hquiet₂
    -- the other statements are well formed after the first one
    rw [Context.env_bindings] at hplains hnoteds
    refine ⟨?_, ?_, .cons hplain hplains, .cons hnoted (after_eq_of_bare hbare ▸ hnoteds)⟩
    · rw [List.flatMap_cons, Context.bindAll_append]
    · rw [Stmt.bareAll, Stmt.bareAll, hbare, hbares]

/-- A sequence that is analyzed without reports is well formed. -/
theorem analyzeSequence_sound {ss ss' : List Stmt} (hss : ∀ s ∈ ss, s.SoundlyAnalyzed)
    (hctx : ctx.Known) (h : analyzeSequence ss ctx = .ok ss' c)
    (hlog : c.log.length ≤ ctx.log.length) :
    c = ctx.bindAll (sequenceBindings ss) ∧ Stmt.bareAll ss' = Stmt.bareAll ss ∧
      SeqOk anyNote ctx.env ss ∧ SeqOk typedNote ctx.env ss' := by
  obtain ⟨_, c₁, hdecl, hall⟩ := of_bind_ok h
  have hgrow₁ := (ends_declareAll _).length_le hdecl
  have hgrow₂ := (ends_analyzeStmts ss).length_le hall
  have hquiet₁ : c₁.log.length ≤ ctx.log.length := by omega
  have hquiet₂ : c.log.length ≤ c₁.log.length := by omega
  obtain ⟨rfl, hfresh⟩ := declareAll_sound hdecl hquiet₁
  obtain ⟨rfl, hbare, hplain, hnoted⟩ := analyzeAllIn_sound hss
    (hctx.functions fun s hs => (hss s hs).known) hall hquiet₂
  -- bindings in the context are declarations in its environment
  rw [Context.env_bindAll, map_decl_functionBindings] at hplain hnoted
  rw [map_decl_functionBindings] at hfresh
  have hfun := functions_eq_of_bare hbare
  refine ⟨?_, hbare, .intro hfresh hplain, .intro (hfun ▸ hfresh) (hfun ▸ hnoted)⟩
  rw [sequenceBindings, Context.bindAll_append]

/-- A block that is analyzed without reports is well formed. -/
theorem analyzeBlock_sound {b b' : Block} (hss : ∀ s ∈ b.stmts, s.SoundlyAnalyzed)
    (hctx : ctx.Known) (h : b.analyze ctx = .ok b' c)
    (hlog : c.log.length ≤ ctx.log.length) :
    c = ctx ∧ b'.bare = b.bare ∧ SeqOk anyNote ctx.env.push b.stmts ∧
      SeqOk typedNote ctx.env.push b'.stmts := by
  obtain ⟨ss, s⟩ := b
  obtain ⟨ss', c₁, hscope, hend⟩ := of_bind_ok h
  cases hend
  obtain ⟨c', hseq, hquiet, hback⟩ := inScope_sound hscope hlog
  obtain ⟨hc', hbare, hplain, hnoted⟩ := analyzeSequence_sound hss hctx.push hseq hquiet
  rw [Context.env_push] at hplain hnoted
  refine ⟨hback _ hc', ?_, hplain, hnoted⟩
  rw [Block.bare, Block.bare, hbare]

/-- The block of a loop is analyzed inside the loop. -/
theorem analyzeRounds_sound {b b' : Block} (hss : ∀ s ∈ b.stmts, s.SoundlyAnalyzed)
    (hctx : ctx.Known) (h : inLoop b.analyze ctx = .ok b' c)
    (hlog : c.log.length ≤ ctx.log.length) :
    c = ctx ∧ b'.bare = b.bare ∧ SeqOk anyNote ctx.env.inside.push b.stmts ∧
      SeqOk typedNote ctx.env.inside.push b'.stmts := by
  obtain ⟨c', hb, hquiet, hback⟩ := inLoop_sound h hlog
  obtain ⟨hc', hbare, hplain, hnoted⟩ := analyzeBlock_sound hss hctx.inside hb hquiet
  rw [Context.env_inside] at hplain hnoted
  exact ⟨hback hc', hbare, hplain, hnoted⟩

/-- A clause that may be missing and is analyzed without reports is well formed. -/
theorem analyzeStmtOpt_sound {o o' : Option Stmt} (hss : ∀ s ∈ o, s.SoundlyAnalyzed)
    (hctx : ctx.Known) (h : analyzeStmtOpt o ctx = .ok o' c)
    (hlog : c.log.length ≤ ctx.log.length) :
    c = ctx.bindAll (sequenceBindings o.toList) ∧ Stmt.bareOpt o' = Stmt.bareOpt o ∧
      SeqOk anyNote ctx.env o.toList ∧ SeqOk typedNote ctx.env o'.toList := by
  rw [analyzeStmtOpt_eq] at h
  obtain ⟨ss, c₁, hseq, hend⟩ := of_bind_ok h
  cases hend
  obtain ⟨rfl, hbare, hplain, hnoted⟩ :=
    analyzeSequence_sound (fun s hs => hss s (Option.mem_toList.1 hs)) hctx hseq hlog
  -- the sequence has as many statements as before, so at most one
  have hhead : ss = ss.head?.toList ∧ Stmt.bareOpt ss.head? = Stmt.bareOpt o := by
    cases o with
    | none =>
      cases ss with
      | nil => exact ⟨rfl, rfl⟩
      | cons => nomatch hbare
    | some s =>
      obtain _ | ⟨s', _ | ⟨s'', ss⟩⟩ := ss
      · nomatch hbare
      · exact ⟨rfl, congrArg some (List.cons.inj hbare).1⟩
      · nomatch (List.cons.inj hbare).2
  exact ⟨rfl, hhead.2, hplain, hhead.1 ▸ hnoted⟩

/-- A block that may be missing and is analyzed without reports is well formed. -/
theorem analyzeBlockOpt_sound {o o' : Option Block}
    (hss : ∀ b ∈ o, ∀ s ∈ b.stmts, s.SoundlyAnalyzed)
    (hctx : ctx.Known) (h : analyzeBlockOpt o ctx = .ok o' c)
    (hlog : c.log.length ≤ ctx.log.length) :
    c = ctx ∧ Block.bareOpt o' = Block.bareOpt o ∧
      (∀ b ∈ o, SeqOk anyNote ctx.env.push b.stmts) ∧
      ∀ b ∈ o', SeqOk typedNote ctx.env.push b.stmts := by
  cases o with
  | none =>
    cases h
    exact ⟨rfl, rfl, nofun, nofun⟩
  | some b =>
    obtain ⟨b', c₁, hb, hend⟩ := of_bind_ok h
    cases hend
    obtain ⟨rfl, hbare, hplain, hnoted⟩ := analyzeBlock_sound (hss b rfl) hctx hb hlog
    refine ⟨rfl, congrArg some hbare, ?_, ?_⟩
    · rintro _ ⟨⟩
      exact hplain
    · rintro _ ⟨⟩
      exact hnoted

/-- Conditional arms that are analyzed without reports have truth values and well-formed blocks. -/
theorem analyzeArms_sound {arms arms' : List Arm}
    (hss : ∀ a ∈ arms, ∀ s ∈ a.body.stmts, s.SoundlyAnalyzed)
    (hctx : ctx.Known) (h : analyzeArms arms ctx = .ok arms' c)
    (hlog : c.log.length ≤ ctx.log.length) :
    c = ctx ∧ Arm.bareAll arms' = Arm.bareAll arms ∧
      (∀ a ∈ arms, HasType anyNote ctx.env.names a.cond .bool ∧
        SeqOk anyNote ctx.env.push a.body.stmts) ∧
      ∀ a ∈ arms', HasType typedNote ctx.env.names a.cond .bool ∧
        SeqOk typedNote ctx.env.push a.body.stmts := by
  induction arms generalizing arms' ctx with
  | nil =>
    cases h
    exact ⟨rfl, rfl, nofun, nofun⟩
  | cons a arms ih =>
    obtain ⟨e, b⟩ := a
    obtain ⟨e', c₁, he, hrest⟩ := of_bind_ok h
    obtain ⟨b', c₂, hb, hrest'⟩ := of_bind_ok hrest
    obtain ⟨arms', c₃, harms, hend⟩ := of_bind_ok hrest'
    cases hend
    -- the log only grows and did not grow in all, so no arm adds to it
    have hgrow₁ := (ends_analyzeFor e _).length_le he
    have hgrow₂ := (ends_analyzeBlock b).length_le hb
    have hgrow₃ := (ends_analyzeArms arms).length_le harms
    obtain ⟨hb_sound, hss⟩ := List.forall_mem_cons.1 hss
    have hquiet₁ : c₁.log.length ≤ ctx.log.length := by omega
    have hquiet₂ : c₂.log.length ≤ c₁.log.length := by omega
    have hquiet₃ : c.log.length ≤ c₂.log.length := by omega
    obtain ⟨rfl, he⟩ := analyzeFor_boolean_sound hctx.names he hquiet₁
    obtain ⟨rfl, hbare, hplain, hnoted⟩ := analyzeBlock_sound hb_sound hctx hb hquiet₂
    obtain ⟨rfl, hbares, hplains, hnoteds⟩ := ih hss hctx harms hquiet₃
    refine ⟨rfl, ?_, List.forall_mem_cons.2 ⟨⟨he.plain, hplain⟩, hplains⟩,
      List.forall_mem_cons.2 ⟨⟨he.noted, hnoted⟩, hnoteds⟩⟩
    rw [Arm.bareAll, Arm.bareAll, he.bare, hbare, hbares]

/-- The body of a function is analyzed as a sequence, in one scope with the parameters. -/
theorem analyzeFunc_sound {f : FuncHeader} {body body' : List Stmt} {ctx c : Context}
    (hss : ∀ s ∈ body, s.SoundlyAnalyzed) (hparams : ∀ d ∈ parameters f, d.2.ty.Known)
    (hresult : f.result.Known) (hctx : ctx.Known)
    (h : inFunction f.result (inScope (do
      declareAll (f.params.map Param.binding)
      analyzeSequence body)) ctx = .ok body' c) (hlog : c.log.length ≤ ctx.log.length) :
    c = ctx ∧ Stmt.bareAll body' = Stmt.bareAll body ∧
      (ctx.env.enter f.result).push.names.FreshAll (parameters f) ∧
      SeqOk anyNote ((ctx.env.enter f.result).push.declareAll (parameters f)) body ∧
      SeqOk typedNote ((ctx.env.enter f.result).push.declareAll (parameters f)) body' := by
  -- from the outside in: the function, its scope, the parameters, and the statements
  obtain ⟨c₁, hscope, hquiet₁, hback₁⟩ := inFunction_sound h hlog
  obtain ⟨c₂, hact, hquiet₂, hback₂⟩ := inScope_sound hscope hquiet₁
  obtain ⟨_, c₃, hdecl, hseq⟩ := of_bind_ok hact
  have hgrow₁ := (ends_declareAll _).length_le hdecl
  have hgrow₂ := (ends_analyzeSequence body).length_le hseq
  have hquiet₃ : c₃.log.length ≤ (ctx.enter f.result).push.log.length := by omega
  have hquiet₄ : c₂.log.length ≤ c₃.log.length := by omega
  obtain ⟨rfl, hfresh⟩ := declareAll_sound hdecl hquiet₃
  rw [map_decl_params, Context.env_push, Context.env_enter] at hfresh
  have hcontext : ((ctx.enter f.result).push.bindAll (f.params.map Param.binding)).env =
      (ctx.env.enter f.result).push.declareAll (parameters f) := by
    rw [Context.env_bindAll, map_decl_params, Context.env_push, Context.env_enter]
  have hbody_known : ((ctx.enter f.result).push.bindAll (f.params.map Param.binding)).Known := by
    refine (hctx.enter hresult).push.bindAll ?_
    rw [map_decl_params]
    exact hparams
  obtain ⟨rfl, hbare, hplain, hnoted⟩ :=
    analyzeSequence_sound hss hbody_known hseq hquiet₄
  rw [hcontext] at hplain hnoted
  rw [← Context.bindAll_append] at hback₂
  exact ⟨hback₁ (hback₂ _ rfl), hbare, hfresh, hplain, hnoted⟩

/-- The parts of a loop with an initializer and a step, in the scope of the loop. -/
theorem analyzeClauses_sound {sp : Span} {i u : Option Stmt} {e : Option Expr} {b : Block}
    {s' : Stmt} (hinit : ∀ x ∈ i, x.SoundlyAnalyzed) (hstep : ∀ x ∈ u, x.SoundlyAnalyzed)
    (hblock : ∀ x ∈ b.stmts, x.SoundlyAnalyzed) (hctx : ctx.Known)
    (h : analyzeClauses sp i e u b ctx.push = .ok s' c)
    (hlog : c.log.length ≤ ctx.push.log.length) :
    ∃ bs, c = ctx.push.bindAll bs ∧ s'.bare = (Stmt.forLoop sp i e u b).bare ∧
      Ok anyNote ctx.env (.forLoop sp i e u b) ∧ Ok typedNote ctx.env s' := by
  obtain ⟨i', c₁, hi, hrest₁⟩ := of_bind_ok h
  obtain ⟨e', c₂, he, hrest₂⟩ := of_bind_ok hrest₁
  obtain ⟨b', c₃, hb, hrest₃⟩ := of_bind_ok hrest₂
  obtain ⟨u', c₄, hu, hend⟩ := of_bind_ok hrest₃
  cases hend
  have hgrow₁ := (ends_analyzeStmtOpt i).length_le hi
  have hgrow₂ := (ends_analyzeForOpt _ e).length_le he
  have hgrow₃ := (ends_analyzeBlock b).inLoop.length_le hb
  have hgrow₄ := (ends_analyzeStmtOpt u).length_le hu
  have hquiet₁ : c₁.log.length ≤ ctx.push.log.length := by omega
  have hquiet₂ : c₂.log.length ≤ c₁.log.length := by omega
  have hquiet₃ : c₃.log.length ≤ c₂.log.length := by omega
  have hquiet₄ : c.log.length ≤ c₃.log.length := by omega
  obtain ⟨hc₁, hbare₁, hplain₁, hnoted₁⟩ := analyzeStmtOpt_sound hinit hctx.push hi hquiet₁
  -- from here on the context is the one after the initializer
  have hctx₁ : c₁.Known := by
    rw [hc₁]
    exact hctx.push.sequence fun x hx => (hinit x (Option.mem_toList.1 hx)).known
  have henv₁ : c₁.env = ctx.env.push.afterAll i.toList := by
    rw [hc₁, Context.env_sequenceBindings, Context.env_push]
  obtain ⟨hc₂, hbare₂, hplain₂, hnoted₂⟩ := analyzeForOpt_boolean_sound hctx₁.names he hquiet₂
  subst hc₂
  obtain ⟨hc₃, hbare₃, hplain₃, hnoted₃⟩ := analyzeRounds_sound hblock hctx₁ hb hquiet₃
  subst hc₃
  obtain ⟨hc₄, hbare₄, hplain₄, hnoted₄⟩ := analyzeStmtOpt_sound hstep hctx₁ hu hquiet₄
  rw [Context.env_push] at hplain₁ hnoted₁
  rw [henv₁] at hplain₂ hnoted₂ hplain₃ hnoted₃ hplain₄ hnoted₄
  -- the analyzed initializer declares what the initializer declares
  have hafter : ctx.env.push.afterAll i'.toList = ctx.env.push.afterAll i.toList := by
    refine afterAll_eq_of_bare ?_
    rw [Stmt.bareAll_toList, Stmt.bareAll_toList, hbare₁]
  rw [← hafter] at hnoted₂ hnoted₃ hnoted₄
  refine ⟨sequenceBindings i.toList ++ sequenceBindings u.toList, ?_, ?_,
    .forLoop hplain₁ hplain₂ hplain₃ hplain₄, .forLoop hnoted₁ hnoted₂ hnoted₃ hnoted₄⟩
  · rw [hc₄, hc₁, Context.bindAll_append]
  · rw [Stmt.bare, Stmt.bare, hbare₁, hbare₂, hbare₃, hbare₄]

/-- If the declared types in a statement are known, the rules derive it wherever its analysis
reports nothing. -/
theorem soundlyAnalyzed (s : Stmt) : s.DeclaresKnown → s.SoundlyAnalyzed := by
  induction s using Stmt.induct with
  | step s ih =>
    intro hknown
    refine ⟨hknown, fun s' ctx c hctx h hlog => ?_⟩
    -- the two parts of the hypothesis go down to the children together
    have hchild : ∀ x ∈ s.children, x.SoundlyAnalyzed := by
      intro x hx
      exact ih x hx (hknown.child hx)
    have hblock : ∀ b ∈ s.blocks, ∀ x ∈ b.stmts, x.SoundlyAnalyzed := by
      intro b hb x hx
      exact hchild x (Stmt.mem_children_of_block hb hx)
    cases s with
    | var sp d =>
      obtain ⟨d', c₁, hd, hend⟩ := of_bind_ok h
      cases hend
      have hty : d.ty.Known := hknown.self _ (List.mem_singleton.2 rfl)
      obtain ⟨hc, hbare, hplain, hnoted⟩ := analyzeVar_sound hctx.names hty hd hlog sp
      exact ⟨hc, congrArg (Stmt.var sp) hbare, hplain, hnoted⟩
    | func sp f b =>
      obtain ⟨body, t⟩ := b
      obtain ⟨body', c₁, hbody, hend⟩ := of_bind_ok h
      cases hend
      obtain ⟨hresult, -⟩ := List.forall_mem_cons.1 hknown.self
      obtain ⟨rfl, hbare, hfresh, hplain, hnoted⟩ := analyzeFunc_sound (hblock _ List.mem_cons_self)
        (known_parameters hknown) hresult hctx hbody hlog
      refine ⟨rfl, ?_, .func hfresh hplain, .func hfresh hnoted⟩
      rw [Stmt.bare, Stmt.bare, Block.bare, Block.bare, hbare]
    | assign sp x e =>
      obtain ⟨e', c₁, he, hend⟩ := of_bind_ok h
      cases hend
      obtain ⟨rfl, hbare, hplain, hnoted⟩ := analyzeAssign_sound (s := sp) hctx.names he hlog
      exact ⟨rfl, congrArg (Stmt.assign sp x) hbare, hplain, hnoted⟩
    | call sp call =>
      obtain ⟨⟨t, call'⟩, c₁, hcall, hend⟩ := of_bind_ok h
      cases hend
      obtain ⟨rfl, hbare, hplain, hnoted⟩ := analyzeCall_sound call hctx.names hcall hlog
      exact ⟨rfl, congrArg (Stmt.call sp) hbare, .call hplain, .call hnoted⟩
    | after sp e call =>
      obtain ⟨e', c₁, he, hrest⟩ := of_bind_ok h
      obtain ⟨⟨t, call'⟩, c₂, hcall, hend⟩ := of_bind_ok hrest
      cases hend
      have hgrow₁ := (ends_analyzeFor e _).length_le he
      have hgrow₂ := (ends_analyzeCall call).length_le hcall
      have hquiet₁ : c₁.log.length ≤ ctx.log.length := by omega
      have hquiet₂ : c.log.length ≤ c₁.log.length := by omega
      obtain ⟨rfl, t', htyped, hnum⟩ := analyzeFor_sound hctx.names he hquiet₁
      obtain ⟨rfl, hbare, hplain, hnoted⟩ := analyzeCall_sound call hctx.names hcall hquiet₂
      have hnum := Demand.admits_arithmetic.1 hnum
      refine ⟨rfl, ?_, .after htyped.plain hnum hplain, .after htyped.noted hnum hnoted⟩
      rw [Stmt.bare, Stmt.bare, htyped.bare, hbare]
    | block sp b =>
      obtain ⟨b', c₁, hb, hend⟩ := of_bind_ok h
      cases hend
      obtain ⟨rfl, hbare, hplain, hnoted⟩ :=
        analyzeBlock_sound (hblock b List.mem_cons_self) hctx hb hlog
      exact ⟨rfl, congrArg (Stmt.block sp) hbare, .block hplain, .block hnoted⟩
    | ifChain sp arms o =>
      obtain ⟨arms', c₁, harms, hrest⟩ := of_bind_ok h
      obtain ⟨o', c₂, ho, hend⟩ := of_bind_ok hrest
      cases hend
      have hgrow₁ := (ends_analyzeArms arms).length_le harms
      have hgrow₂ := (ends_analyzeBlockOpt o).length_le ho
      have hquiet₁ : c₁.log.length ≤ ctx.log.length := by omega
      have hquiet₂ : c.log.length ≤ c₁.log.length := by omega
      obtain ⟨rfl, hbare₁, hplain₁, hnoted₁⟩ := analyzeArms_sound
        (fun a ha => hblock _ (Stmt.mem_blocks_of_arm ha)) hctx harms hquiet₁
      obtain ⟨rfl, hbare₂, hplain₂, hnoted₂⟩ := analyzeBlockOpt_sound
        (fun b hb => hblock b (Stmt.mem_blocks_of_else hb)) hctx ho hquiet₂
      refine ⟨rfl, ?_,
        .ifChain (fun a ha => (hplain₁ a ha).1) (fun a ha => (hplain₁ a ha).2) hplain₂,
        .ifChain (fun a ha => (hnoted₁ a ha).1) (fun a ha => (hnoted₁ a ha).2) hnoted₂⟩
      rw [Stmt.bare, Stmt.bare, hbare₁, hbare₂]
    | whileLoop sp e b =>
      obtain ⟨e', c₁, he, hrest⟩ := of_bind_ok h
      obtain ⟨b', c₂, hb, hend⟩ := of_bind_ok hrest
      cases hend
      have hgrow₁ := (ends_analyzeFor e _).length_le he
      have hgrow₂ := (ends_analyzeBlock b).inLoop.length_le hb
      have hquiet₁ : c₁.log.length ≤ ctx.log.length := by omega
      have hquiet₂ : c.log.length ≤ c₁.log.length := by omega
      obtain ⟨rfl, hcond⟩ := analyzeFor_boolean_sound hctx.names he hquiet₁
      obtain ⟨rfl, hbare, hplain, hnoted⟩ :=
        analyzeRounds_sound (hblock b List.mem_cons_self) hctx hb hquiet₂
      refine ⟨rfl, ?_, .whileLoop hcond.plain hplain, .whileLoop hcond.noted hnoted⟩
      rw [Stmt.bare, Stmt.bare, hcond.bare, hbare]
    | forLoop sp i e u b =>
      rw [analyzeIn_forLoop] at h
      obtain ⟨c', hscope, hquiet, hback⟩ := inScope_sound h hlog
      obtain ⟨bs, hc', hbare, hplain, hnoted⟩ := analyzeClauses_sound
        (fun x hx => hchild x (Stmt.mem_children_of_init hx))
        (fun x hx => hchild x (Stmt.mem_children_of_step hx))
        (hblock b List.mem_cons_self) hctx hscope hquiet
      exact ⟨hback bs hc', hbare, hplain, hnoted⟩
    | jump sp j =>
      obtain ⟨_, c₁, hj, hend⟩ := of_bind_ok h
      cases hend
      obtain ⟨rfl, hloop⟩ := checkJump_sound hj hlog
      exact ⟨rfl, rfl, .jump hloop, .jump hloop⟩
    | ret sp o =>
      obtain ⟨o', c₁, ho, hend⟩ := of_bind_ok h
      cases hend
      obtain ⟨rfl, hbare, hplain, hnoted⟩ := analyzeReturn_sound (s := sp) hctx ho hlog
      exact ⟨rfl, congrArg (Stmt.ret sp) hbare, hplain, hnoted⟩

end Procedural
