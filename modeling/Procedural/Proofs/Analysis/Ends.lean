import Procedural.Proofs.Analysis.Run
import Procedural.Proofs.Rules.Known

/-! # Analysis ends and only adds

`Ends ds act P` is the specification of a check that never ends in a fault, adds to the log and, in
the innermost scope, some of the bindings `ds`, and changes nothing else in the context. Every
analysis has such a specification, whatever tree it is given: an expression or a block binds
nothing, a statement binds at most what it declares itself, a sequence at most what its statements
declare. -/

namespace Procedural

variable {α β : Type} {x act : Check α} {f : α → Check β} {ctx c : Context} {a : α}
  {bs ds ds' : List Binding} {P : α → Prop} {Q : β → Prop} {new new' : Log}

/-! ## Additions to a context -/

namespace Rules.Names

/-- Declarations are fresh in a row if the later ones are fresh after the earlier ones. -/
theorem freshAll_append {Γ : Names} {es es' : List Decl} :
    Γ.FreshAll (es ++ es') ↔ Γ.FreshAll es ∧ (Γ.declareAll es).FreshAll es' := by
  induction es generalizing Γ with
  | nil => exact (Iff.of_eq (true_and _)).symm
  | cons d es ih =>
    obtain ⟨y, m⟩ := d
    have hcons : Γ.declareAll ((y, m) :: es) = (Γ.declare y m).declareAll es := rfl
    rw [List.cons_append, FreshAll, FreshAll, ih, hcons, and_assoc]

end Rules.Names

namespace Context

/-- The context with more reports in its log. -/
def tell (ctx : Context) (new : Log) : Context := { ctx with log := ctx.log ++ new }

/-- No report changes nothing. -/
@[simp] theorem tell_nil (ctx : Context) : ctx.tell [] = ctx := by
  simp [tell]

/-- Reports one after the other. -/
@[simp] theorem tell_tell (ctx : Context) (new new' : Log) :
    (ctx.tell new).tell new' = ctx.tell (new ++ new') := by
  simp [tell]

/-- Reports do not change the names in force. -/
@[simp] theorem env_tell (ctx : Context) (new : Log) : (ctx.tell new).env = ctx.env := rfl

/-- It does not matter whether bindings or reports are added first. -/
theorem bindAll_tell (ctx : Context) (new : Log) (bs : List Binding) :
    (ctx.tell new).bindAll bs = (ctx.bindAll bs).tell new := by
  induction bs generalizing ctx with
  | nil => rfl
  | cons b bs ih => exact ih (ctx.bind b)

/-- Additions one after the other. -/
theorem tell_bindAll_tell (ctx : Context) (bs bs' : List Binding) (new new' : Log) :
    (((ctx.bindAll bs).tell new).bindAll bs').tell new' =
      (ctx.bindAll (bs ++ bs')).tell (new ++ new') := by
  rw [bindAll_tell, tell_tell, bindAll_append]

/-- The log is added to by reports only, not by bindings. -/
theorem log_bindAll_tell (ctx : Context) (bs : List Binding) (new : Log) :
    ((ctx.bindAll bs).tell new).log = ctx.log ++ new :=
  congrArg (· ++ new) (ctx.log_bindAll bs)

/-- Bindings made inside a loop are the bindings made around it. -/
theorem bindAll_inside (ctx : Context) (bs : List Binding) :
    ctx.inside.bindAll bs = (ctx.bindAll bs).inside := by
  induction bs generalizing ctx with
  | nil => rfl
  | cons b bs ih => exact ih (ctx.bind b)

/-- Bindings made inside a function are the bindings made around it. -/
theorem bindAll_enter (ctx : Context) (t : Ty) (bs : List Binding) :
    (ctx.enter t).bindAll bs = (ctx.bindAll bs).enter t := by
  induction bs generalizing ctx with
  | nil => rfl
  | cons b bs ih => exact ih (ctx.bind b)

end Context

/-! ### Additions inside brackets -/

/-- A scope of its own keeps the bindings made in it from what follows, but not the reports. -/
theorem inScope_adds (h : act ctx.push = .ok a ((ctx.push.bindAll bs).tell new)) :
    inScope act ctx = .ok a (ctx.tell new) := by
  have hpop : ((ctx.push.bindAll bs).tell new).scopes.pop? = some ctx.scopes :=
    Context.pop?_bindAll ctx bs
  have hexit : exitScope ((ctx.push.bindAll bs).tell new) = .ok () (ctx.tell new) := by
    rw [exitScope, hpop]
    simp [Context.tell, Context.push]
  have henter : enterScope ctx = .ok () ctx.push := rfl
  rw [inScope, bind_of_ok henter, bind_of_ok h, bind_of_ok hexit]
  rfl

/-- A loop keeps the bindings and the reports made in it. -/
theorem inLoop_adds (h : act ctx.inside = .ok a ((ctx.inside.bindAll bs).tell new)) :
    inLoop act ctx = .ok a ((ctx.bindAll bs).tell new) := by
  rw [Context.bindAll_inside] at h
  have henter : enterLoop ctx = .ok () ctx.inside := rfl
  rw [inLoop, bind_of_ok henter, bind_of_ok h]
  rfl

/-- A function keeps the bindings and the reports made in it. -/
theorem inFunction_adds {t : Ty}
    (h : act (ctx.enter t) = .ok a (((ctx.enter t).bindAll bs).tell new)) :
    inFunction t act ctx = .ok a ((ctx.bindAll bs).tell new) := by
  rw [Context.bindAll_enter] at h
  have hget : (get : Check Context) ctx = .ok ctx ctx := rfl
  have hset : (set (ctx.enter t) : Check PUnit) ctx = .ok ⟨⟩ (ctx.enter t) := rfl
  rw [inFunction, bind_of_ok hget]
  refine (bind_of_ok hset).trans ?_
  rw [bind_of_ok h]
  -- the bindings did not change the loops and the result type around the function
  have hloops := ctx.loops_bindAll bs
  have hreturns := ctx.returns_bindAll bs
  have hsame : (ctx.bindAll bs).tell new =
      { ((ctx.bindAll bs).enter t).tell new with loops := ctx.loops, returns := ctx.returns } := by
    rw [← hloops, ← hreturns]
    rfl
  rw [hsame]
  rfl

/-! ## The specification -/

/-- In every context the check ends without a fault, with an answer of which `P` holds. In the
innermost scope it binds some of `ds`, in their order and with fresh names, and it adds reports to
the log; it changes nothing else. -/
def Ends (ds : List Binding) (act : Check α) (P : α → Prop) : Prop :=
  ∀ ctx : Context, ∃ a bs new, act ctx = .ok a ((ctx.bindAll bs).tell new) ∧
    (bs.Sublist ds ∧ ctx.env.names.FreshAll (bs.map Binding.decl)) ∧ P a

/-- Any answer will do. -/
def anyAnswer (_ : α) : Prop := True

namespace Ends

/-- A check that only answers changes nothing. -/
theorem pure (h : P a) : Ends [] (pure a) P :=
  fun ctx => ⟨a, [], [], by rw [Context.bindAll_nil, Context.tell_nil]; rfl,
    ⟨List.Sublist.refl _, trivial⟩, h⟩

/-- Two checks in a row bind some of what either may bind. -/
theorem bind (hx : Ends ds x P) (hf : ∀ a, P a → Ends ds' (f a) Q) :
    Ends (ds ++ ds') (x >>= f) Q := by
  intro ctx
  obtain ⟨a, bs, new, hrun, ⟨hsub, hfresh⟩, ha⟩ := hx ctx
  obtain ⟨b, bs', new', hrun', ⟨hsub', hfresh'⟩, hb⟩ := hf a ha ((ctx.bindAll bs).tell new)
  refine ⟨b, bs ++ bs', new ++ new', ?_, ⟨hsub.append hsub', ?_⟩, hb⟩
  · rw [bind_of_ok hrun, hrun', Context.tell_bindAll_tell]
  · rw [Context.env_tell, Context.env_bindAll] at hfresh'
    rw [List.map_append]
    exact Rules.Names.freshAll_append.2 ⟨hfresh, hfresh'⟩

/-- The first check binds nothing. -/
theorem silent_bind (hx : Ends [] x P) (hf : ∀ a, P a → Ends ds (f a) Q) : Ends ds (x >>= f) Q :=
  hx.bind hf

/-- The checks after the first one bind nothing. -/
theorem bind_silent (hx : Ends ds x P) (hf : ∀ a, P a → Ends [] (f a) Q) :
    Ends ds (x >>= f) Q := by
  have h := hx.bind hf
  rwa [List.append_nil] at h

/-- The answer of the last check is put together from those of the checks before it. -/
theorem bind_pure {g : α → β} (hx : Ends ds x P) (hg : ∀ a, P a → Q (g a)) :
    Ends ds (x >>= fun a => Pure.pure (g a)) Q :=
  hx.bind_silent fun a ha => .pure (hg a ha)

/-! ### What is left behind -/

/-- How a check with a specification ends. -/
theorem of_ok (h : Ends ds act P) (hrun : act ctx = .ok a c) :
    ∃ bs new, c = (ctx.bindAll bs).tell new ∧
      (bs.Sublist ds ∧ ctx.env.names.FreshAll (bs.map Binding.decl)) ∧ P a := by
  obtain ⟨a', bs, new, hrun', hbs, ha⟩ := h ctx
  rw [hrun'] at hrun
  cases hrun
  exact ⟨bs, new, rfl, hbs, ha⟩

/-- A check that binds nothing only adds to the log. -/
theorem eq_tell (h : Ends [] act P) (hrun : act ctx = .ok a c) : ∃ new, c = ctx.tell new := by
  obtain ⟨bs, new, rfl, ⟨hsub, -⟩, -⟩ := h.of_ok hrun
  obtain rfl := List.sublist_nil.1 hsub
  exact ⟨new, rfl⟩

/-- A check with a specification only adds to the log. -/
theorem grows (h : Ends ds act P) : Grows act := by
  intro ctx a c hrun
  obtain ⟨bs, new, rfl, -, -⟩ := h.of_ok hrun
  rw [Context.log_bindAll_tell]
  exact List.prefix_append _ _

/-- Names of known types stay so when bindings of known types are made. -/
theorem known (h : Ends ds act P) (hds : ∀ b ∈ ds, b.2.ty.Known) (hctx : ctx.env.names.Known)
    (hrun : act ctx = .ok a c) : c.env.names.Known := by
  obtain ⟨bs, new, rfl, ⟨hsub, -⟩, -⟩ := h.of_ok hrun
  rw [Context.env_tell, Context.env_bindAll]
  refine hctx.declareAll fun d hd => ?_
  obtain ⟨b, hb, rfl⟩ := List.mem_map.1 hd
  rw [Binding.decl, Entity.ty_meaning]
  exact hds b (hsub.subset hb)

/-- The log is no shorter at the end of a check with a specification. -/
theorem length_le (h : Ends ds act P) (hrun : act ctx = .ok a c) :
    ctx.log.length ≤ c.log.length :=
  h.grows.length_le hrun

/-! ### Brackets -/

/-- A scope of its own takes the bindings back. -/
theorem inScope (h : Ends ds act P) : Ends [] (inScope act) P := by
  intro ctx
  obtain ⟨a, bs, new, hrun, -, ha⟩ := h ctx.push
  exact ⟨a, [], new, inScope_adds hrun, ⟨List.Sublist.refl _, trivial⟩, ha⟩

/-- A loop leaves as many loops around it as there were. -/
theorem inLoop (h : Ends [] act P) : Ends [] (inLoop act) P := by
  intro ctx
  obtain ⟨a, bs, new, hrun, ⟨hsub, -⟩, ha⟩ := h ctx.inside
  obtain rfl := List.sublist_nil.1 hsub
  exact ⟨a, [], new, inLoop_adds hrun, ⟨List.Sublist.refl _, trivial⟩, ha⟩

/-- A function leaves the loops and the result type around it as they were. -/
theorem inFunction (t : Ty) (h : Ends [] act P) : Ends [] (inFunction t act) P := by
  intro ctx
  obtain ⟨a, bs, new, hrun, ⟨hsub, -⟩, ha⟩ := h (ctx.enter t)
  obtain rfl := List.sublist_nil.1 hsub
  exact ⟨a, [], new, inFunction_adds hrun, ⟨List.Sublist.refl _, trivial⟩, ha⟩

end Ends

/-! ## Reports and names -/

/-- Looking at the context changes nothing. -/
theorem ends_get : Ends [] (get : Check Context) anyAnswer :=
  fun ctx => ⟨ctx, [], [], by rw [Context.bindAll_nil, Context.tell_nil]; rfl,
    ⟨List.Sublist.refl _, trivial⟩, trivial⟩

/-- A report ends without a fault. -/
theorem ends_report (p : Problem) (s : Option Span) : Ends [] (report p s) anyAnswer :=
  fun _ => ⟨(), [], [⟨p, s⟩], rfl, ⟨List.Sublist.refl _, trivial⟩, trivial⟩

/-- A declaration makes its binding, or it is refused with a report. -/
theorem ends_declare (x : String) (e : Entity) : Ends [(x, e)] (declare x e) anyAnswer := by
  intro ctx
  cases hlocal : ctx.scopes.lookupLocal x with
  | none =>
    refine ⟨true, [(x, e)], [], ?_, ⟨List.Sublist.refl _, Scopes.fresh_names.2 hlocal, trivial⟩,
      trivial⟩
    rw [Context.tell_nil, declare, Scopes.define, hlocal]
    rfl
  | some old =>
    refine ⟨false, [], [⟨.duplicateDeclaration x old.span, some e.span⟩], ?_,
      ⟨List.nil_sublist _, trivial⟩, trivial⟩
    rw [declare, Scopes.define, hlocal]
    rfl

/-- Declarations end without a fault, and bind what is new. -/
theorem ends_declareAll (bs : List Binding) : Ends bs (declareAll bs) anyAnswer := by
  induction bs with
  | nil => exact .pure trivial
  | cons b bs ih => exact (ends_declare b.1 b.2).bind fun _ _ => ih

/-- Bindings of what has known types have known types. -/
theorem known_of_map_decl (h : ∀ d ∈ bs.map Binding.decl, d.2.ty.Known) :
    ∀ b ∈ bs, b.2.ty.Known := by
  intro b hb
  rw [← b.2.ty_meaning]
  exact h _ (List.mem_map_of_mem hb)

/-- The functions of a sequence in which declared types are known are bound with known types. -/
theorem known_functionBindings {ss : List Stmt} (h : ∀ s ∈ ss, s.DeclaresKnown) :
    ∀ b ∈ functionBindings ss, b.2.ty.Known := by
  refine known_of_map_decl ?_
  rw [map_decl_functionBindings]
  exact Rules.known_functions h

/-- The parameters of a function in which declared types are known are bound with known types. -/
theorem known_paramBindings {s : Span} {f : FuncHeader} {b : Block}
    (h : (Stmt.func s f b).DeclaresKnown) : ∀ d ∈ f.params.map Param.binding, d.2.ty.Known := by
  refine known_of_map_decl ?_
  rw [map_decl_params]
  exact Rules.known_parameters h

/-- Resolving a name ends without a fault, whether it stands for something or not. -/
theorem ends_resolve (x : String) (s : Span) : Ends [] (resolve x s) anyAnswer := by
  intro ctx
  cases hlookup : ctx.scopes.lookup x with
  | none =>
    refine ⟨none, [], [⟨.undeclaredIdentifier x, some s⟩], ?_, ⟨List.Sublist.refl _, trivial⟩,
      trivial⟩
    rw [resolve, hlookup]
    rfl
  | some e =>
    refine ⟨some e, [], [], ?_, ⟨List.Sublist.refl _, trivial⟩, trivial⟩
    rw [resolve, hlookup, Context.bindAll_nil, Context.tell_nil]

end Procedural
