import Procedural.Proofs.Guarded.Expr

/-! # Runs of statements without misuse

`Runs Γ act ds` is what is said of a run of a statement where `Γ` is in force: from every store that
models the names it does not misuse anything, it comes to an outcome that `Γ` allows, and if it is
through, the store models the names together with the declarations `ds`. `Stays Γ act` says the same
of a run that leaves the store as it is, except for the values of variables. The rules for blocks
and loops derive such statements from those about their parts. -/

namespace Procedural.Guarded

open Rules

variable {Γ : Env} {act : Run Outcome} {ds ds' : List Decl} {H : Host}

/-- The outcome makes sense where `Γ` is in force: a jump is inside a loop, and a return yields what
the enclosing function returns. -/
def Outcome.Allowed (Γ : Env) : Outcome → Prop
  | .normal => True
  | .jump _ => Γ.inLoop = true
  | .returned none => Γ.returns = some .void
  | .returned (some v) =>
    ∃ t, Γ.returns = some t ∧ t ≠ .void ∧ (t = .error ∨ (v.widen t).ty = t)

/-- Outside loops and functions a run can only be through. -/
@[simp] theorem Outcome.allowed_initial {o : Outcome} : o.Allowed .initial ↔ o = .normal := by
  obtain _ | j | _ | v := o <;> simp [Allowed, Env.initial]

/-- From every store that models the names in force the run is without misuse. It comes to an
outcome that is allowed and keeps the frames around the innermost one; if it is through, the names
stand together with `ds`. -/
def Runs (Γ : Env) (act : Run Outcome) (ds : List Decl) : Prop :=
  ∀ ⦃m : Store⦄, m.Models Γ.names → Safely act m fun o m' =>
    (m.pop.Keeps m'.pop ∧ o.Allowed Γ) ∧ (o = .normal → m'.Models (Γ.declareAll ds).names)

/-- From every store that models the names in force the run is without misuse. It comes to an
outcome that is allowed and keeps the store. -/
def Stays (Γ : Env) (act : Run Outcome) : Prop :=
  ∀ ⦃m : Store⦄, m.Models Γ.names → Safely act m fun o m' => m.Keeps m' ∧ o.Allowed Γ

/-! ## Sequencing -/

/-- What keeps the store runs without declarations. -/
theorem Stays.runs (h : Stays Γ act) : Runs Γ act [] :=
  fun _ hm => (h hm).mono fun _ _ ho => ⟨⟨ho.1.pop, ho.2⟩, fun _ => hm.keeps ho.1⟩

/-- A run that stays, after others that have kept the store. -/
theorem Stays.later (h : Stays Γ act) {m m' : Store} (hm : m.Models Γ.names)
    (hkeeps : m.Keeps m') : Safely act m' fun o m'' => m.Keeps m'' ∧ o.Allowed Γ :=
  (h (hm.keeps hkeeps)).mono fun _ _ ho => ⟨hkeeps.trans ho.1, ho.2⟩

/-- An outcome that is given ends the run at once. -/
theorem Stays.pure {o : Outcome} (h : o.Allowed Γ) : Stays Γ (Pure.pure o) :=
  fun m _ => .pure ⟨.refl m, h⟩

/-- A run that does nothing. -/
theorem Stays.normal : Stays Γ (Pure.pure .normal) := .pure trivial

/-- Two runs in a row make the declarations of both. -/
theorem Runs.andThen {x y : Run Outcome} (hx : Runs Γ x ds) (hy : Runs (Γ.declareAll ds) y ds') :
    Runs Γ (andThen x y) (ds ++ ds') := by
  intro m hm
  refine (hx hm).bind fun o m₁ ⟨⟨hkeeps, hallowed⟩, hmodels⟩ => ?_
  cases o with
  | normal =>
    refine (hy (hmodels rfl)).mono fun o m₂ ⟨⟨hkeeps', hallowed'⟩, hmodels'⟩ => ?_
    refine ⟨⟨hkeeps.trans hkeeps', hallowed'⟩, fun ho => ?_⟩
    rw [Env.declareAll_append]
    exact hmodels' ho
  | jump j => exact .pure ⟨⟨hkeeps, hallowed⟩, nofun⟩
  | returned v => exact .pure ⟨⟨hkeeps, hallowed⟩, nofun⟩

/-- The functions of a sequence are declared before its statements are run. -/
theorem Runs.hoist {ss : List Stmt} (h : Runs (Γ.declareAll (functions ss)) act ds) :
    Runs Γ (hoist ss >>= fun _ => act) (functions ss ++ ds) := by
  intro m hm
  refine .modify_bind ((h (hm.declareFuncs _)).mono fun o m' ⟨⟨hkeeps, ho⟩, hmodels⟩ => ?_)
  rw [Store.pop_declareFuncs] at hkeeps
  refine ⟨⟨hkeeps, ho⟩, fun hnormal => ?_⟩
  rw [Env.declareAll_append]
  exact hmodels hnormal

/-- A run in a frame of its own. The new frame hides no name. -/
theorem Runs.inFrame (h : Runs Γ act ds) : Stays Γ (inFrame act) := by
  intro m hm
  refine .modify_bind ((h hm.push).bind fun o m' ⟨⟨hkeeps, ho⟩, _⟩ => ?_)
  exact .modify_bind (.pure ⟨hkeeps, ho⟩)

/-- In a frame that declares nothing the same names are in force. -/
theorem Stays.of_push (h : Stays Γ.push act) : Stays Γ act := h

/-! ## Loops -/

/-- A loop stays as its test, its body and its step do. Jumps in the body are taken care of, so the
body may jump where the loop may not. -/
theorem Stays.rounds {test : Run Bool} {body step : Run Outcome}
    (htest : ∀ ⦃m : Store⦄, m.Models Γ.names → Safely test m fun _ m' => m.Keeps m')
    (hbody : Stays Γ.inside body) (hstep : Stays Γ step) (n : Nat) :
    Stays Γ (rounds test body step n) := by
  induction n with
  | zero => exact fun _ _ => .unfinished
  | succ n ih =>
    intro m hm
    refine (htest hm).bind fun b m₁ hkeeps₁ => ?_
    cases b with
    | false => exact .pure ⟨hkeeps₁, trivial⟩
    | true =>
      refine (hbody.later hm hkeeps₁).bind fun o m₂ ⟨hkeeps₂, ho⟩ => ?_
      -- what follows a round that goes on
      have hnext : Safely (Guarded.andThen step (Guarded.rounds test body step n)) m₂
          fun o m' => m.Keeps m' ∧ o.Allowed Γ := by
        refine (hstep.later hm hkeeps₂).bind fun o m₃ ⟨hkeeps₃, ho⟩ => ?_
        cases o with
        | normal => exact ih.later hm hkeeps₃
        | jump j => exact .pure ⟨hkeeps₃, ho⟩
        | returned v => exact .pure ⟨hkeeps₃, ho⟩
      cases o with
      | normal => exact hnext
      | jump j =>
        cases j with
        | breakOut => exact .pure ⟨hkeeps₂, trivial⟩
        | continueNext => exact hnext
      | returned v => cases v <;> exact .pure ⟨hkeeps₂, ho⟩

/-- The condition of a loop may be missing. -/
theorem safely_holdsOpt (hH : H.Conforms) {o : Option Expr}
    (ho : ∀ e ∈ o, HasType typedNote Γ.names e .bool) ⦃m : Store⦄ (hm : m.Models Γ.names) :
    Safely (holdsOpt H o) m fun _ m' => m.Keeps m' := by
  cases o with
  | none => exact .pure (.refl m)
  | some e => exact safely_holds hH (ho e rfl) hm

/-! ## Conditional statements -/

/-- Conditional arms whose blocks keep the store keep it, whichever is chosen. -/
theorem Stays.arms (hH : H.Conforms) {n : Nat} {arms : List Arm} {otherwise : Run Outcome}
    (harms : ∀ a ∈ arms, HasType typedNote Γ.names a.cond .bool ∧ Stays Γ (a.body.exec H n))
    (hotherwise : Stays Γ otherwise) : Stays Γ (execArms H n arms otherwise) := by
  induction arms with
  | nil => exact hotherwise
  | cons a arms ih =>
    obtain ⟨e, b⟩ := a
    obtain ⟨⟨hcond, hbody⟩, hrest⟩ := List.forall_mem_cons.1 harms
    intro m hm
    refine (safely_holds hH hcond hm).bind fun c m₁ hkeeps => ?_
    cases c with
    | true => exact hbody.later hm hkeeps
    | false => exact (ih hrest).later hm hkeeps

/-! ## Simple statements -/

/-- A value that fits the type of a variable is stored as one of that type. -/
theorem safely_declareVar {x : String} {s t : Ty} {v : Value} {m : Store} (hv : v.ty = s)
    (h : Fits s t) : Safely (declareVar x t v) m fun _ m' =>
      ∃ w : Value, w.ty = t ∧ m' = m.declare x (.var t w) := by
  refine (safely_fit hv h).bind ?_
  rintro w _ ⟨hw, rfl⟩
  exact .modify ⟨w, hw, rfl⟩

/-- A variable starts with a value of its declared type. -/
theorem Runs.var (hH : H.Conforms) {d : VarDecl} (hd : d.ty.Known)
    (hinit : ∀ e ∈ d.init, FitsIn typedNote Γ.names e d.ty) :
    Runs Γ (do
      d.exec H
      return .normal) [(d.name, .place d.ty)] := by
  intro m hm
  -- the initializer may change the store before the variable is declared
  have hexec : Safely (d.exec H) m fun _ m' => ∃ (m₁ : Store) (w : Value), m.Keeps m₁ ∧
      w.ty = d.ty ∧ m' = m₁.declare d.name (.var d.ty w) := by
    unfold VarDecl.exec
    cases hinit' : d.init with
    | none =>
      refine .get_bind ((safely_declareVar (hH.initial m hd) .same).mono ?_)
      rintro _ m' ⟨w, hw, rfl⟩
      exact ⟨m, w, .refl m, hw, rfl⟩
    | some e =>
      obtain ⟨s, he, hfits⟩ := hinit e hinit'
      refine (safely_value hH he hm).bind fun v m₁ hv => ?_
      refine (safely_declareVar hv.1 hfits).mono ?_
      rintro _ m' ⟨w, hw, rfl⟩
      exact ⟨m₁, w, hv.2, hw, rfl⟩
  refine hexec.bind_pure ?_
  rintro _ _ ⟨m₁, w, hkeeps, hw, rfl⟩
  rw [Store.pop_declare]
  exact ⟨⟨hkeeps.pop, trivial⟩, fun _ => (hm.keeps hkeeps).declare (.place hw)⟩

/-- A value is assigned where it fits. -/
theorem Stays.assign (hH : H.Conforms) {x : String} {e : Expr} {t : Ty}
    (hx : Γ.names.lookup x = some (.place t)) (he : FitsIn typedNote Γ.names e t) :
    Stays Γ (do
      Guarded.assign x (← e.value H)
      return .normal) := by
  obtain ⟨s, he, hfits⟩ := he
  intro m hm
  refine (safely_value hH he hm).bind fun v m' hv => ?_
  exact (safely_assign (hm.keeps hv.2) hx hv.1 hfits).bind_pure fun _ _ h =>
    ⟨hv.2.trans h, trivial⟩

/-- A call as a statement keeps the store. -/
theorem Stays.call (hH : H.Conforms) {c : Call} {t : Ty} (hc : CallType typedNote Γ.names c t) :
    Stays Γ (do
      let _ ← invoke H (← c.prepare H)
      return .normal) :=
  fun _ hm => (safely_prepare hH hc hm).bind fun _ _ hi =>
    (safely_invoke hH hi.1.1).bind_pure fun _ _ hv => ⟨hi.2.trans hv.2, trivial⟩

/-- A call is scheduled after a delay that is a number. -/
theorem Stays.after (hH : H.Conforms) {e : Expr} {c : Call} {t t' : Ty}
    (he : HasType typedNote Γ.names e t) (ht : Numeric t) (hc : CallType typedNote Γ.names c t') :
    Stays Γ (do
      execAfter H e c
      return .normal) := by
  intro m hm
  have hafter : Safely (execAfter H e c) m fun _ m' => m.Keeps m' := by
    refine (safely_value hH he hm).bind fun v m₁ hv => ?_
    obtain ⟨a, ha, -⟩ := Value.number?_of_numeric (hv.1.symm ▸ ht)
    refine .orMisuse_bind ha ((safely_prepare hH hc (hm.keeps hv.2)).bind fun i m₂ hi => ?_)
    exact .modify ((hv.2.trans hi.2).trans (hH.schedule v i m₂))
  exact hafter.bind_pure fun _ _ hkeeps => ⟨hkeeps, trivial⟩

/-- A function returns a value that fits its result type, if that type is known. -/
theorem Stays.returnValue (hH : H.Conforms) {e : Expr} {s t : Ty} (hret : Γ.returns = some t)
    (hvoid : t ≠ .void) (he : HasType typedNote Γ.names e s) (hfits : t = .error ∨ Fits s t) :
    Stays Γ (execReturn H (some e)) := by
  intro m hm
  refine (safely_value hH he hm).bind_pure fun v m' hv => ?_
  exact ⟨hv.2, t, hret, hvoid, hfits.imp id fun h => Value.ty_widen_of_fits hv.1 h⟩

end Procedural.Guarded
