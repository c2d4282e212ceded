import Procedural.Proofs.Analysis.Sound.Stmt
import Procedural.Proofs.Guarded.Stmt

/-! # What checks settle that report nothing

`Settles act Q` says that a check among names of known types binds `ds` and that `Q` holds of where
it started, of its answer and of `ds`, if it reports nothing. Checks of expressions settle the types
of the analyzed expressions, and the check of a return settles that it runs without misuse, also
where the result type of the enclosing function is not known. -/

namespace Procedural.Guarded

open Rules

variable {α β : Type} {act x : Check α} {f : α → Check β} {H : Host}

/-! ## What a check without reports settles -/

/-- Among names of known types, the check keeps them known and takes nothing away from the log; if
it reports nothing, it makes declarations `ds` and `Q` holds. -/
def Settles (act : Check α) (Q : Env → α → List Decl → Prop) : Prop :=
  ∀ ⦃ctx : Context⦄ ⦃a : α⦄ ⦃c : Context⦄, ctx.env.names.Known → act ctx = .ok a c →
    (c.env.names.Known ∧ ctx.log.length ≤ c.log.length) ∧
      (c.log.length ≤ ctx.log.length → ∃ ds, c.env = ctx.env.declareAll ds ∧ Q ctx.env a ds)

namespace Settles

variable {P Q : Env → α → List Decl → Prop} {R : Env → β → List Decl → Prop}

/-- An answer at once settles what holds of it everywhere. -/
theorem pure {a : α} (h : ∀ Γ, Q Γ a []) : Settles (pure a) Q := by
  intro ctx a' c hctx hrun
  obtain ⟨rfl, rfl⟩ := of_pure_ok hrun
  exact ⟨⟨hctx, Nat.le_refl _⟩, fun _ => ⟨[], rfl, h _⟩⟩

/-- If two checks in a row report nothing, then neither of them does, and the second one starts from
the declarations of the first. -/
theorem bind (hx : Settles x P) (hf : ∀ a, Settles (f a) fun Γ' b ds' =>
    ∀ Γ ds, Γ' = Γ.declareAll ds → P Γ a ds → R Γ b (ds ++ ds')) : Settles (x >>= f) R := by
  intro ctx b c hctx hrun
  obtain ⟨a, c₁, hrun₁, hrun₂⟩ := of_bind_ok hrun
  obtain ⟨⟨hknown₁, hgrow₁⟩, hquiet₁⟩ := hx hctx hrun₁
  obtain ⟨⟨hknown₂, hgrow₂⟩, hquiet₂⟩ := hf a hknown₁ hrun₂
  refine ⟨⟨hknown₂, Nat.le_trans hgrow₁ hgrow₂⟩, fun hlog => ?_⟩
  -- The log only grows, so one that ends as it began was still at that length between the two
  -- steps.
  obtain ⟨ds, henv, hP⟩ := hquiet₁ (Nat.le_trans hgrow₂ hlog)
  obtain ⟨ds', henv', hR⟩ := hquiet₂ (Nat.le_trans hlog hgrow₁)
  refine ⟨ds ++ ds', ?_, hR ctx.env ds henv hP⟩
  rw [henv', henv, Env.declareAll_append]

/-- The first check makes no declarations. -/
theorem silent_bind {S : Env → α → Prop} (hx : Settles x fun Γ a ds => ds = [] ∧ S Γ a)
    (hf : ∀ a, Settles (f a) fun Γ b ds => S Γ a → R Γ b ds) : Settles (x >>= f) R := by
  refine hx.bind fun a => ?_
  intro ctx b c hctx hrun
  obtain ⟨hgrow, hquiet⟩ := hf a hctx hrun
  refine ⟨hgrow, fun hlog => ?_⟩
  obtain ⟨ds', henv, hR⟩ := hquiet hlog
  refine ⟨ds', henv, ?_⟩
  rintro Γ _ hΓ ⟨rfl, ha⟩
  obtain rfl : ctx.env = Γ := hΓ
  exact hR ha

/-- What is settled can be weakened. -/
theorem mono (h : Settles act P) (hPQ : ∀ Γ a ds, P Γ a ds → Q Γ a ds) : Settles act Q := by
  intro ctx a c hctx hrun
  obtain ⟨hgrow, hquiet⟩ := h hctx hrun
  refine ⟨hgrow, fun hlog => ?_⟩
  obtain ⟨ds, henv, hP⟩ := hquiet hlog
  exact ⟨ds, henv, hPQ _ _ _ hP⟩

/-- The answer of the last check is put together from those of the checks before it. -/
theorem bind_pure {g : α → β} (hx : Settles x P) (hg : ∀ Γ a ds, P Γ a ds → R Γ (g a) ds) :
    Settles (x >>= fun a => Pure.pure (g a)) R := by
  refine hx.bind fun a => .pure fun Γ' Γ ds _ ha => ?_
  rw [List.append_nil]
  exact hg Γ a ds ha

end Settles

/-- A check that binds nothing settles what it ensures when it reports nothing. -/
theorem settles_of_ends {P : α → Prop} {S : Env → α → Prop} (h : Ends [] act P)
    (hS : ∀ ⦃ctx a c⦄, ctx.env.names.Known → act ctx = .ok a c →
      c.log.length ≤ ctx.log.length → S ctx.env a) :
    Settles act fun Γ a ds => ds = [] ∧ S Γ a := by
  intro ctx a c hctx hrun
  refine ⟨⟨h.known (List.forall_mem_nil _) hctx hrun, h.length_le hrun⟩, fun hlog => ?_⟩
  obtain ⟨new, rfl⟩ := h.eq_tell hrun
  exact ⟨[], rfl, rfl, hS hctx hrun hlog⟩

/-- Declarations of things of known types are all made. -/
theorem settles_declareAll {bs : List Binding} (hbs : ∀ b ∈ bs, b.2.ty.Known) :
    Settles (declareAll bs) fun _ _ ds => ds = bs.map Binding.decl := by
  intro ctx a c hctx hrun
  refine ⟨⟨(ends_declareAll bs).known hbs hctx hrun, (ends_declareAll bs).length_le hrun⟩,
    fun hlog => ⟨_, ?_, rfl⟩⟩
  obtain ⟨rfl, -⟩ := declareAll_sound hrun hlog
  exact ctx.env_bindAll bs

/-! ## Brackets -/

section Brackets

variable {P : α → Prop} {Q : Env → α → List Decl → Prop}

/-- What is checked in a scope of its own is settled in a new frame. -/
theorem Settles.inScope (h : Settles act Q) (hends : Ends [] (inScope act) P) :
    Settles (inScope act) fun Γ a ds => ds = [] ∧ ∃ ds', Q Γ.push a ds' := by
  refine settles_of_ends hends fun ctx a c hctx hrun hlog => ?_
  obtain ⟨c', hact, hquiet, -⟩ := inScope_sound hrun hlog
  have hpush : ctx.push.env.names.Known := by
    rw [Context.env_push]
    exact hctx.push
  obtain ⟨ds', -, ha⟩ := (h hpush hact).2 hquiet
  rw [Context.env_push] at ha
  exact ⟨ds', ha⟩

/-- What is settled inside a loop is settled of the loop, and no declaration gets out. -/
theorem Settles.inLoop (h : Settles act Q) (hends : Ends [] (inLoop act) P) :
    Settles (inLoop act) fun Γ a ds => ds = [] ∧ ∃ ds', Q Γ.inside a ds' := by
  refine settles_of_ends hends fun ctx a c hctx hrun hlog => ?_
  obtain ⟨c', hact, hquiet, -⟩ := inLoop_sound hrun hlog
  have hinside : ctx.inside.env.names.Known := hctx
  obtain ⟨ds', -, ha⟩ := (h hinside hact).2 hquiet
  rw [Context.env_inside] at ha
  exact ⟨ds', ha⟩

/-- What is settled inside a function is settled of the function, and no declaration gets out. -/
theorem Settles.inFunction {t : Ty} (h : Settles act Q) (hends : Ends [] (inFunction t act) P) :
    Settles (inFunction t act) fun Γ a ds => ds = [] ∧ ∃ ds', Q (Γ.enter t) a ds' := by
  refine settles_of_ends hends fun ctx a c hctx hrun hlog => ?_
  obtain ⟨c', hact, hquiet, -⟩ := inFunction_sound hrun hlog
  have henter : (ctx.enter t).env.names.Known := hctx
  obtain ⟨ds', -, ha⟩ := (h henter hact).2 hquiet
  exact ⟨ds', ha⟩

end Brackets

/-! ## Expressions -/

/-- An expression of which something is demanded has a type that the demand admits. -/
theorem settles_analyzeFor (e : Expr) (d : Demand) : Settles (e.analyzeFor d) fun Γ e' ds =>
    ds = [] ∧ ∃ t, HasType typedNote Γ.names e' t ∧ d.admits t = true :=
  settles_of_ends (ends_analyzeFor e d) fun _ _ _ hctx hrun hlog => by
    obtain ⟨-, t, he, hd⟩ := analyzeFor_sound hctx hrun hlog
    exact ⟨t, he.noted, hd⟩

/-- A condition is a truth value. -/
theorem settles_condition (e : Expr) (label : String) :
    Settles (e.analyzeFor (.boolean label)) fun Γ e' ds =>
      ds = [] ∧ HasType typedNote Γ.names e' .bool :=
  settles_of_ends (ends_analyzeFor e _) fun _ _ _ hctx hrun hlog =>
    (analyzeFor_boolean_sound hctx hrun hlog).2.noted

/-- An optional condition is a truth value. -/
theorem settles_conditionOpt (o : Option Expr) (label : String) :
    Settles (analyzeForOpt (.boolean label) o) fun Γ o' ds =>
      ds = [] ∧ ∀ e ∈ o', HasType typedNote Γ.names e .bool :=
  settles_of_ends (ends_analyzeForOpt _ o) fun _ _ _ hctx hrun hlog =>
    (analyzeForOpt_boolean_sound hctx hrun hlog).2.2.2

/-- The initial value of a variable fits its declared type. -/
theorem settles_initial (o : Option Expr) {label : String} {t : Ty} (ht : t.Known) :
    Settles (analyzeForOpt (.assignable label t) o) fun Γ o' ds =>
      ds = [] ∧ ∀ e ∈ o', FitsIn typedNote Γ.names e t :=
  settles_of_ends (ends_analyzeForOpt _ o) fun _ _ _ hctx hrun hlog =>
    (analyzeForOpt_assignable_sound hctx ht hrun hlog).2.2.2

/-- A call that is analyzed without reports is well typed. -/
theorem settles_call (call : Call) : Settles call.analyze fun Γ r ds =>
    ds = [] ∧ CallType typedNote Γ.names r.2 r.1 :=
  settles_of_ends (ends_analyzeCall call) fun _ _ _ hctx hrun hlog =>
    (analyzeCall_sound call hctx hrun hlog).2.2.2

/-! ## Simple statements -/

/-- What is assigned to is a variable, and the value fits its declared type. -/
theorem settles_assign (x : String) (e : Expr) (s : Span) :
    Settles (analyzeAssign x e s) fun Γ e' ds =>
      ds = [] ∧ ∃ t, Γ.names.lookup x = some (.place t) ∧ FitsIn typedNote Γ.names e' t :=
  settles_of_ends (ends_analyzeAssign x e s) fun _ _ _ hctx hrun hlog => by
    obtain ⟨-, -, -, hok⟩ := analyzeAssign_sound hctx hrun hlog
    cases hok with
    | assign hx he => exact ⟨_, hx, he⟩

/-- A jump that is analyzed without reports is in a loop. -/
theorem settles_jump (j : Jump) (s : Span) :
    Settles (checkJump j s) fun Γ _ ds => ds = [] ∧ Γ.inLoop = true :=
  settles_of_ends (ends_checkJump j s) fun _ _ _ _ hrun hlog => (checkJump_sound hrun hlog).2

/-- A return stays, whatever the enclosing function returns. -/
theorem settles_return (hH : H.Conforms) (o : Option Expr) (s : Span) :
    Settles (analyzeReturn o s) fun Γ o' ds => ds = [] ∧ Stays Γ (execReturn H o') := by
  refine settles_of_ends (ends_analyzeReturn o s) fun ctx o' c hctx hrun hlog => ?_
  obtain ⟨hret, -, rfl, -⟩ | ⟨t, e, e', ⟨hret, hvoid⟩, -, rfl, he⟩ := analyzeReturn_quiet hrun hlog
  · exact .pure hret
  · obtain ⟨-, u, hu, hadmits⟩ := analyzeFor_sound hctx he hlog
    have hfits := error_or_fits_of_accepts (hu.noted.known hctx) hadmits
    exact .returnValue hH hret hvoid hu.noted hfits

/-- A variable declaration runs with the declaration of its variable. -/
theorem settles_var (hH : H.Conforms) {d : VarDecl} (hd : d.ty.Known) :
    Settles d.analyze fun Γ d' ds => Runs Γ (do
      d'.exec H
      return .normal) ds := by
  refine (settles_initial d.init hd).silent_bind fun init => ?_
  have hbinding : ∀ b ∈ [d.binding], b.2.ty.Known := List.forall_mem_singleton.2 hd
  refine (settles_declareAll hbinding).bind_pure ?_
  rintro Γ _ _ rfl hinit
  have hd' : (VarDecl.mk d.name d.ty init d.span).ty.Known := hd
  exact .var hH hd' hinit

end Procedural.Guarded
