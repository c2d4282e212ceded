import Procedural.Proofs.Analysis.Env

/-! # Runs of checks

How a check that ends without a fault is put together from the checks in it, and that no check takes
anything away from the log. -/

namespace Procedural

variable {α β : Type} {x : Check α} {f : α → Check β} {act : Check α} {ctx c : Context} {a : α}
  {b : β}

/-! ## Sequencing -/

/-- A check goes on where the check before it ended. -/
theorem bind_of_ok (h : x ctx = .ok a c) : (x >>= f) ctx = f a c := by
  show EStateM.bind x f ctx = f a c
  rw [EStateM.bind, h]

/-- If two checks in a row end without a fault, each of them does. -/
theorem of_bind_ok (h : (x >>= f) ctx = .ok b c) :
    ∃ a c', x ctx = .ok a c' ∧ f a c' = .ok b c := by
  change EStateM.bind x f ctx = .ok b c at h
  unfold EStateM.bind at h
  split at h
  · exact ⟨_, _, ‹_›, h⟩
  · nomatch h

/-- A check that only answers leaves the context as it is. -/
theorem of_pure_ok {a' : α} (h : (pure a : Check α) ctx = .ok a' c) : a' = a ∧ c = ctx := by
  cases h
  exact ⟨rfl, rfl⟩

/-- An expression that is asked for its type has one. -/
theorem of_resolved_ok {e : Expr} {t : Ty} (h : e.resolved ctx = .ok t c) :
    e.ty? = some t ∧ c = ctx := by
  unfold Expr.resolved at h
  split at h <;> cases h
  exact ⟨‹_›, rfl⟩

/-! ## Brackets -/

/-- What is checked in a scope of its own starts in a new scope, which is left in the end. -/
theorem of_inScope_ok (h : inScope act ctx = .ok a c) :
    ∃ c', act ctx.push = .ok a c' ∧ exitScope c' = .ok () c := by
  obtain ⟨_, c₁, henter, h⟩ := of_bind_ok h
  cases henter
  obtain ⟨a', c', hact, h⟩ := of_bind_ok h
  obtain ⟨_, c₂, hexit, h⟩ := of_bind_ok h
  obtain ⟨rfl, rfl⟩ := of_pure_ok h
  exact ⟨c', hact, hexit⟩

/-- Leaving a scope is not reported. -/
theorem log_of_exitScope {u : Unit} (h : exitScope ctx = .ok u c) : c.log = ctx.log := by
  unfold exitScope at h
  split at h <;> cases h
  rfl

/-- What runs inside a loop has run inside one more loop, and has left it. -/
theorem of_inLoop_ok (h : inLoop act ctx = .ok a c) :
    ∃ c', act ctx.inside = .ok a c' ∧ exitLoop c' = .ok () c := by
  obtain ⟨_, c₁, henter, h⟩ := of_bind_ok h
  cases henter
  obtain ⟨a', c', hact, h⟩ := of_bind_ok h
  obtain ⟨_, c₂, hexit, h⟩ := of_bind_ok h
  obtain ⟨rfl, rfl⟩ := of_pure_ok h
  exact ⟨c', hact, hexit⟩

/-- Leaving a loop is not reported either, and it changes no scope. -/
theorem of_exitLoop_ok {u : Unit} (h : exitLoop ctx = .ok u c) :
    c.log = ctx.log ∧ c.scopes = ctx.scopes := by
  unfold exitLoop at h
  split at h <;> cases h
  exact ⟨rfl, rfl⟩

/-- What is checked in the body of a function sees its result type and no loops; afterwards both are
as they were. -/
theorem of_inFunction_ok {t : Ty} (h : inFunction t act ctx = .ok a c) :
    ∃ c', act (ctx.enter t) = .ok a c' ∧
      c = { c' with returns := ctx.returns, loops := ctx.loops } := by
  obtain ⟨outer, c₀, hget, h⟩ := of_bind_ok h
  cases hget
  obtain ⟨_, c₁, hset, h⟩ := of_bind_ok h
  cases hset
  obtain ⟨a', c', hact, h⟩ := of_bind_ok h
  obtain ⟨_, c₂, hmodify, h⟩ := of_bind_ok h
  cases hmodify
  obtain ⟨rfl, rfl⟩ := of_pure_ok h
  exact ⟨c', hact, rfl⟩

/-- A scope of its own keeps the bindings made in it from what follows. -/
theorem inScope_of_ok {bs : List Binding} (h : act ctx.push = .ok a (ctx.push.bindAll bs)) :
    inScope act ctx = .ok a ctx := by
  have hexit : exitScope (ctx.push.bindAll bs) = .ok () ctx := by
    rw [exitScope, Context.pop?_bindAll]
    obtain ⟨scopes, loops, returns, log⟩ := ctx
    simp [Context.push]
  have henter : enterScope ctx = .ok () ctx.push := rfl
  rw [inScope, bind_of_ok henter, bind_of_ok h, bind_of_ok hexit]
  rfl

/-- What changes nothing inside a loop changes nothing as a loop. -/
theorem inLoop_of_ok (h : act ctx.inside = .ok a ctx.inside) : inLoop act ctx = .ok a ctx := by
  have henter : enterLoop ctx = .ok () ctx.inside := rfl
  rw [inLoop, bind_of_ok henter, bind_of_ok h]
  rfl

/-- What changes nothing inside a function changes nothing as a function. -/
theorem inFunction_of_ok {t : Ty} (h : act (ctx.enter t) = .ok a (ctx.enter t)) :
    inFunction t act ctx = .ok a ctx := by
  have hget : (get : Check Context) ctx = .ok ctx ctx := rfl
  have hset : (set (ctx.enter t) : Check PUnit) ctx = .ok ⟨⟩ (ctx.enter t) := rfl
  rw [inFunction, bind_of_ok hget]
  refine (bind_of_ok hset).trans ?_
  rw [bind_of_ok h]
  rfl

/-! ## The log grows -/

/-- The check keeps what has been reported and adds its own reports. -/
def Grows (act : Check α) : Prop :=
  ∀ ⦃ctx : Context⦄ ⦃a : α⦄ ⦃c : Context⦄, act ctx = .ok a c → ctx.log <+: c.log

namespace Grows

/-- A check that only answers adds nothing to the log. -/
theorem pure (a : α) : Grows (Pure.pure a) := by
  intro ctx a' c h
  obtain ⟨-, rfl⟩ := of_pure_ok h
  exact List.prefix_refl _

/-- Two checks in a row only add to the log if each does. -/
theorem bind (hx : Grows x) (hf : ∀ a, Grows (f a)) : Grows (x >>= f) := by
  intro ctx b c h
  obtain ⟨a, c', h₁, h₂⟩ := of_bind_ok h
  exact (hx h₁).trans (hf a h₂)

/-- A check that never changes the log. -/
theorem of_log_eq (h : ∀ ⦃ctx a c⦄, act ctx = .ok a c → c.log = ctx.log) : Grows act :=
  fun _ _ _ hrun => h hrun ▸ List.prefix_refl _

/-- No check ends with fewer reports than it began with. -/
theorem length_le (hact : Grows act) (h : act ctx = .ok a c) : ctx.log.length ≤ c.log.length :=
  (hact h).length_le

end Grows

/-- A report adds to the log. -/
theorem grows_report (p : Problem) (s : Option Span) : Grows (report p s) := by
  intro ctx a c h
  cases h
  exact List.prefix_append _ _

/-- A report shows in the length of the log, whatever has been reported before it. -/
theorem Context.not_quiet_report {p : Problem} {s : Option Span}
    (h : ctx.log.length ≤ c.log.length) : ¬(c.report p s).log.length ≤ ctx.log.length := by
  have hlen : (c.report p s).log.length = c.log.length + 1 := List.length_append
  omega

/-- A declaration only adds to the log. -/
theorem grows_declare (x : String) (e : Entity) : Grows (declare x e) := by
  intro ctx a c h
  unfold declare at h
  split at h <;> cases h
  · exact List.prefix_refl _
  · exact List.prefix_append _ _

/-- Declarations only add to the log. -/
theorem grows_declareAll (bs : List Binding) : Grows (declareAll bs) := by
  induction bs with
  | nil => exact .pure ()
  | cons b bs ih => exact .bind (grows_declare b.1 b.2) fun _ => ih

/-- Leaving a scope only adds to the log. -/
theorem grows_exitScope : Grows exitScope := .of_log_eq fun _ _ _ => log_of_exitScope

/-- Leaving a loop only adds to the log. -/
theorem grows_exitLoop : Grows exitLoop := .of_log_eq fun _ _ _ h => (of_exitLoop_ok h).1

/-! ## Brackets without reports -/

/-- What is checked in a scope of its own without reports comes back to where it was entered, if
bindings are all that happens in it. -/
theorem inScope_sound (h : inScope act ctx = .ok a c) (hlog : c.log.length ≤ ctx.log.length) :
    ∃ c', act ctx.push = .ok a c' ∧ c'.log.length ≤ ctx.push.log.length ∧
      ∀ bs, c' = ctx.push.bindAll bs → c = ctx := by
  obtain ⟨c', hact, hexit⟩ := of_inScope_ok h
  -- leaving the scope reports nothing either, so the log was no longer before that
  have hgrow := grows_exitScope.length_le hexit
  refine ⟨c', hact, Nat.le_trans hgrow hlog, ?_⟩
  rintro bs rfl
  rw [exitScope, Context.pop?_bindAll] at hexit
  cases hexit
  obtain ⟨scopes, loops, returns, log⟩ := ctx
  simp [Context.push]

/-- A loop without reports has run without reports inside, and changes nothing if that does not. -/
theorem inLoop_sound (h : inLoop act ctx = .ok a c) (hlog : c.log.length ≤ ctx.log.length) :
    ∃ c', act ctx.inside = .ok a c' ∧ c'.log.length ≤ ctx.inside.log.length ∧
      (c' = ctx.inside → c = ctx) := by
  obtain ⟨c', hact, hexit⟩ := of_inLoop_ok h
  have hgrow := grows_exitLoop.length_le hexit
  refine ⟨c', hact, Nat.le_trans hgrow hlog, ?_⟩
  rintro rfl
  cases hexit
  rfl

/-- A function without reports has run without reports inside, and changes nothing if that does not.
-/
theorem inFunction_sound {t : Ty} (h : inFunction t act ctx = .ok a c)
    (hlog : c.log.length ≤ ctx.log.length) :
    ∃ c', act (ctx.enter t) = .ok a c' ∧ c'.log.length ≤ (ctx.enter t).log.length ∧
      (c' = ctx.enter t → c = ctx) := by
  obtain ⟨c', hact, rfl⟩ := of_inFunction_ok h
  refine ⟨c', hact, hlog, ?_⟩
  rintro rfl
  rfl

/-! ## Declarations without reports -/

/-- Declarations that report nothing declare fresh names. -/
theorem declareAll_sound {bs : List Binding} (h : declareAll bs ctx = .ok () c)
    (hlog : c.log.length ≤ ctx.log.length) :
    c = ctx.bindAll bs ∧ ctx.env.names.FreshAll (bs.map Binding.decl) := by
  induction bs generalizing ctx with
  | nil =>
    cases h
    exact ⟨rfl, trivial⟩
  | cons b bs ih =>
    obtain ⟨ok, c₁, hdecl, h⟩ := of_bind_ok h
    have hgrow₁ := (grows_declare _ _).length_le hdecl
    have hgrow₂ := (grows_declareAll bs).length_le h
    have hquiet : c.log.length ≤ c₁.log.length := by omega
    have hfresh : ctx.scopes.lookupLocal b.1 = none ∧ c₁ = ctx.bind b := by
      unfold declare Scopes.define at hdecl
      cases hlocal : ctx.scopes.lookupLocal b.1 with
      | none =>
        rw [hlocal] at hdecl
        cases hdecl
        exact ⟨rfl, rfl⟩
      | some old =>
        -- a second declaration is reported, and what is declared after it keeps the report
        rw [hlocal] at hdecl
        cases hdecl
        exact absurd (Nat.le_trans hgrow₂ hlog) (Context.not_quiet_report (Nat.le_refl _))
    obtain ⟨hlocal, rfl⟩ := hfresh
    obtain ⟨rfl, hrest⟩ := ih h hquiet
    have henv : (ctx.bind b).env = ctx.env.declareAll [b.decl] := ctx.env_bindAll [b]
    rw [henv] at hrest
    exact ⟨rfl, Scopes.fresh_names.2 hlocal, hrest⟩

/-- Fresh names are declared without reports. -/
theorem declareAll_complete {bs : List Binding}
    (h : ctx.env.names.FreshAll (bs.map Binding.decl)) :
    declareAll bs ctx = .ok () (ctx.bindAll bs) := by
  induction bs generalizing ctx with
  | nil => rfl
  | cons b bs ih =>
    obtain ⟨hfresh, hrest⟩ := h
    have hdecl : declare b.1 b.2 ctx = .ok true (ctx.bind b) := by
      unfold declare Scopes.define
      rw [Scopes.fresh_names.1 hfresh]
      rfl
    have henv : (ctx.bind b).env = ctx.env.declareAll [b.decl] := ctx.env_bindAll [b]
    refine (bind_of_ok hdecl).trans (ih ?_)
    rw [henv]
    exact hrest

end Procedural
