import Procedural.Context.Script
import Procedural.Proofs.Analysis.Operands

/-! # Demands on one expression

Constructs place demands on an expression one after the other, of any kind and in any order. The
expression's type is all that they share: a demand that is met leaves it alone, the first one that
is refused is reported and takes the type away, and without a known type every demand fails
silently. So a run of demands goes through at most one report, wherever it stands
(`demandAll_complains_once`). -/

namespace Procedural

/-- The type that a problem says was found. -/
def Problem.found? : Problem → Option Ty
  | nonArithmeticOperand _ found | nonBooleanOperand _ found | typeMismatch _ _ found => some found
  | _ => none

/-- A refused demand says which type was found. -/
@[simp] theorem Demand.found?_problem (d : Demand) (t : Ty) : (d.problem t).found? = some t := by
  cases d <;> rfl

/-- A type other than the unknown one does not count as unknown. -/
theorem Ty.isError_of_ne {t : Ty} (ht : t ≠ .error) : t.isError = false :=
  Bool.eq_false_iff.2 (mt Ty.isError_iff.1 ht)

section Steps

variable {e : Expr} {d : Demand} {t : Ty} {ctx : Context}

/-! ## One demand -/

/-- A demand on an expression without a type is a fault. -/
theorem require_of_untyped (he : e.ty? = none) : e.require d ctx = .error .notAnalyzed ctx := by
  have hfault : e.resolved ctx = .error .notAnalyzed ctx := by
    rw [Expr.resolved, he]
  show EStateM.bind e.resolved _ ctx = _
  rw [EStateM.bind, hfault]

/-- A demand on an expression of unknown type is refused silently. -/
theorem require_of_error (he : e.ty? = some .error) : e.require d ctx = .ok (false, e) ctx := by
  rw [Expr.require, bind_of_ok (resolved_of_ty? he)]
  rfl

/-- A demand that admits the type of the expression changes nothing. -/
theorem require_of_admits (he : e.ty? = some t) (ht : t ≠ .error) (hd : d.admits t = true) :
    e.require d ctx = .ok (true, e) ctx := by
  rw [require_complete he hd, Ty.isError_of_ne ht]
  rfl

/-- A demand that does not admit the type of the expression is reported where the expression stands,
and the type is not known any longer. -/
theorem require_of_refuses (he : e.ty? = some t) (ht : t ≠ .error) (hd : d.admits t = false) :
    e.require d ctx =
      .ok (false, e.withTy .error) (ctx.report (d.problem t) (some e.span)) := by
  rw [Expr.require, bind_of_ok (resolved_of_ty? he), Ty.isError_of_ne ht, hd]
  rfl

end Steps

namespace Context

variable {e : Expr} {t : Ty} {ds : List Demand} {ctx : Context}

/-! ## Runs of demands -/

/-- Demands in two parts: the second part is placed on what the first one leaves. -/
theorem demandAll_append (e : Expr) (ds ds' : List Demand) (ctx : Context) :
    demandAll e (ds ++ ds') ctx =
      ((demandAll e ds ctx).1 ++
          (demandAll (demandAll e ds ctx).2.1 ds' (demandAll e ds ctx).2.2).1,
        (demandAll (demandAll e ds ctx).2.1 ds' (demandAll e ds ctx).2.2).2) := by
  induction ds generalizing e ctx with
  | nil => rfl
  | cons d ds ih =>
    rw [List.cons_append, demandAll, demandAll]
    cases e.require d ctx with
    | ok r c =>
      obtain ⟨ok, e'⟩ := r
      simp only [ih, List.cons_append]
    | error f c => simp only [ih, List.cons_append]

/-- Without a type every demand is a fault. -/
theorem demandAll_of_untyped (he : e.ty? = none) :
    demandAll e ds ctx = (ds.map fun _ => .fault .notAnalyzed, e, ctx) := by
  induction ds with
  | nil => rfl
  | cons d ds ih =>
    rw [demandAll, require_of_untyped he]
    simp only [ih, List.map_cons]

/-- With an unknown type every demand is refused silently. -/
theorem demandAll_of_error (he : e.ty? = some .error) :
    demandAll e ds ctx = (ds.map fun _ => .judged false .error, e, ctx) := by
  induction ds with
  | nil => rfl
  | cons d ds ih =>
    rw [demandAll, require_of_error he]
    simp only [ih, List.map_cons, he, Option.getD_some]

/-- Demands that admit the type of the expression are all met. -/
theorem demandAll_of_admits (he : e.ty? = some t) (ht : t ≠ .error)
    (hds : ∀ d ∈ ds, d.admits t = true) :
    demandAll e ds ctx = (ds.map fun _ => .judged true t, e, ctx) := by
  induction ds with
  | nil => rfl
  | cons d ds ih =>
    obtain ⟨hd, hds⟩ := List.forall_mem_cons.1 hds
    rw [demandAll, require_of_admits he ht hd]
    simp only [ih hds, List.map_cons, he, Option.getD_some]

/-- The first demand that does not admit the type of the expression is the only one that is
reported. -/
theorem demandAll_of_refuses {met : List Demand} {d : Demand} (he : e.ty? = some t)
    (ht : t ≠ .error) (hmet : ∀ d ∈ met, d.admits t = true) (hd : d.admits t = false)
    (after : List Demand) :
    demandAll e (met ++ d :: after) ctx =
      (met.map (fun _ => .judged true t) ++ (d :: after).map fun _ => .judged false .error,
        e.withTy .error, ctx.report (d.problem t) (some e.span)) := by
  have hrest : demandAll e (d :: after) ctx =
      ((d :: after).map fun _ => .judged false .error, e.withTy .error,
        ctx.report (d.problem t) (some e.span)) := by
    rw [demandAll, require_of_refuses he ht hd]
    simp only [demandAll_of_error (e.ty?_withTy .error), Expr.ty?_withTy, Option.getD_some,
      List.map_cons]
  rw [demandAll_append, demandAll_of_admits he ht hmet, hrest]

/-- Demands that admit a type come first, up to one that does not. -/
theorem exists_first_refused (ds : List Demand) (t : Ty) :
    ∃ met refused, ds = met ++ refused ∧ (∀ d ∈ met, d.admits t = true) ∧
      ∀ d ∈ refused.head?, d.admits t = false := by
  induction ds with
  | nil => exact ⟨[], [], rfl, List.forall_mem_nil _, fun _ hd => nomatch hd⟩
  | cons d ds ih =>
    cases hd : d.admits t with
    | true =>
      obtain ⟨met, refused, rfl, hmet, hrefused⟩ := ih
      exact ⟨d :: met, refused, rfl, List.forall_mem_cons.2 ⟨hd, hmet⟩, hrefused⟩
    | false =>
      refine ⟨[], d :: ds, rfl, List.forall_mem_nil _, fun d' hd' => ?_⟩
      obtain rfl := Option.some.inj hd'
      exact hd

/-- Demands on one expression lead to one report at most. -/
theorem exists_reports_demandAll (e : Expr) (ds : List Demand) (ctx : Context) :
    ∃ reports, (demandAll e ds ctx).2.2 = ctx.tell reports ∧ reports.length ≤ 1 := by
  have hsilent : (demandAll e ds ctx).2.2 = ctx →
      ∃ reports, (demandAll e ds ctx).2.2 = ctx.tell reports ∧ reports.length ≤ 1 :=
    fun h => ⟨[], h.trans ctx.tell_nil.symm, Nat.zero_le 1⟩
  cases he : e.ty? with
  | none => exact hsilent (by rw [demandAll_of_untyped he])
  | some t =>
    by_cases ht : t = .error
    · rw [ht] at he
      exact hsilent (by rw [demandAll_of_error he])
    · -- only the first refusal is reported
      obtain ⟨met, refused, rfl, hmet, hhead⟩ := exists_first_refused ds t
      cases refused with
      | nil =>
        rw [List.append_nil] at hsilent ⊢
        exact hsilent (by rw [demandAll_of_admits he ht hmet])
      | cons d after =>
        refine ⟨[⟨d.problem t, some e.span⟩], ?_, Nat.le_refl 1⟩
        rw [demandAll_of_refuses he ht hmet (hhead d rfl)]
        rfl

/-- How any demands go that are placed on an expression one after the other. Without a type each is
a fault, and nothing changes. With an unknown type each is refused without a report, and nothing
changes. Otherwise all are met, and nothing changes, up to the first that does not admit the type:
this one is reported where the expression stands, with the type that was found, and it and all later
ones are refused and leave the type unknown, the later ones without a report. So there is at most
one report. -/
theorem demandAll_complains_once (e : Expr) (ds : List Demand) (ctx : Context) :
    (e.ty? = none → demandAll e ds ctx = (ds.map fun _ => .fault .notAnalyzed, e, ctx)) ∧
    (e.ty? = some .error → demandAll e ds ctx = (ds.map fun _ => .judged false .error, e, ctx)) ∧
    (∀ t, e.ty? = some t → t ≠ .error → ∃ met refused, ds = met ++ refused ∧
      (∀ d ∈ met, d.admits t = true) ∧ (∀ d ∈ refused.head?, d.admits t = false) ∧
      demandAll e met ctx = (met.map fun _ => .judged true t, e, ctx) ∧
      ∀ d after, refused = d :: after →
        (d.problem t).found? = some t ∧
        demandAll e (met ++ [d]) ctx =
          (met.map (fun _ => .judged true t) ++ [.judged false .error], e.withTy .error,
            ctx.report (d.problem t) (some e.span)) ∧
        demandAll e ds ctx =
          (met.map (fun _ => .judged true t) ++ refused.map fun _ => .judged false .error,
            e.withTy .error, ctx.report (d.problem t) (some e.span))) ∧
    ∃ reports, (demandAll e ds ctx).2.2 = ctx.tell reports ∧ reports.length ≤ 1 := by
  refine ⟨demandAll_of_untyped, demandAll_of_error, fun t he ht => ?_,
    exists_reports_demandAll e ds ctx⟩
  obtain ⟨met, refused, rfl, hmet, hhead⟩ := exists_first_refused ds t
  refine ⟨met, refused, rfl, hmet, hhead, demandAll_of_admits he ht hmet, ?_⟩
  rintro d after rfl
  have hd : d.admits t = false := hhead d rfl
  refine ⟨d.found?_problem t, ?_, ?_⟩
  · exact demandAll_of_refuses he ht hmet hd []
  · exact demandAll_of_refuses he ht hmet hd after

/-- A variable that is to be assigned to a real, used as a condition and used as a delay. Before it
is analyzed every demand is a fault, and when its type is unknown every demand is refused silently.
When it is an integer, the first demand is met, the second one is reported with the type found, and
the third one is refused although it asks for a number. -/
theorem complains_once_variable :
    let ds : List Demand := [.assignable "return" .real, .boolean "if", .arithmetic "after"]
    let x (t : Option Ty) : Expr := .ident ⟨⟨3, 4⟩, t⟩ "x"
    ((x none).ty? = none ∧ demandAll (x none) ds .initial =
      ([.fault .notAnalyzed, .fault .notAnalyzed, .fault .notAnalyzed], x none, .initial)) ∧
    ((x (some .error)).ty? = some .error ∧ demandAll (x (some .error)) ds .initial =
      ([.judged false .error, .judged false .error, .judged false .error], x (some .error),
        .initial)) ∧
    ((x (some .int)).ty? = some .int ∧ Ty.int ≠ .error ∧
      (Demand.boolean "if").admits .int = false ∧
      ((Demand.boolean "if").problem .int).found? = some .int ∧
      demandAll (x (some .int)) ds .initial =
        ([.judged true .int, .judged false .error, .judged false .error], x (some .error),
          Context.initial.report (.nonBooleanOperand "if" .int) (some ⟨3, 4⟩))) := by
  intro ds x
  refine ⟨⟨rfl, (demandAll_complains_once (x none) ds .initial).1 rfl⟩,
    ⟨rfl, (demandAll_complains_once (x (some .error)) ds .initial).2.1 rfl⟩, rfl, by decide, ?_⟩
  obtain ⟨met, refused, hds, hmet, hhead, -, hrefused⟩ :=
    (demandAll_complains_once (x (some .int)) ds .initial).2.2.1 .int rfl (by decide)
  -- the demand for a truth value is the first that an integer does not meet
  cases met with
  | nil =>
    obtain rfl : refused = ds := hds.symm
    nomatch hhead _ rfl
  | cons d met =>
    obtain ⟨rfl, hrest⟩ := List.cons.inj hds
    cases met with
    | nil =>
      obtain rfl := hrest
      obtain ⟨hfound, -, hall⟩ := hrefused _ _ rfl
      exact ⟨hhead _ rfl, hfound, hall⟩
    | cons d met =>
      obtain ⟨rfl, -⟩ := List.cons.inj hrest
      nomatch hmet (.boolean "if") (List.mem_cons_of_mem _ List.mem_cons_self)

end Context

end Procedural
