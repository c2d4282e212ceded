import Procedural.Proofs.Analysis.Sound.Expr
import Procedural.Proofs.Folding.Meaning
import Procedural.Proofs.Folding.Stable
import Procedural.Proofs.Semantics.Laws
import Procedural.Proofs.Syntax.Nodes

/-! # Folding an analyzed expression

An expression whose analysis reports nothing keeps its type when it is folded, and so do the
arguments of the calls that are left in it; and it evaluates as before, with the types found or
without them. All names in force have to stand for something of a known type, because no check
complains about the unknown type. -/

namespace Procedural

open Semantics Rules

/-! ## Calls -/

mutual

/-- The calls that are left in a folded expression are calls of the expression, folded, in the same
order. -/
theorem Expr.calls_fold : ∀ e : Expr, e.fold.calls.Sublist (e.calls.map Call.fold)
  | .lit _ _ | .ident _ _ => .refl _
  | .binary _ _ l r => by
    rw [Expr.calls, List.map_append]
    have hargs := l.calls_fold.append r.calls_fold
    exact (sublist_foldBinary Expr.calls (fun _ => rfl) rfl).trans hargs
  | .unary _ _ e => (sublist_foldUnary Expr.calls (fun _ => rfl) rfl).trans e.calls_fold
  | .call _ c => c.calls_fold.cons_cons c.fold

/-- The calls left in the arguments of a folded call are folded calls of the arguments. -/
theorem Call.calls_fold : ∀ c : Call, c.fold.calls.Sublist (c.calls.map Call.fold)
  | ⟨_, args, _⟩ => callsAll_foldAll args

/-- The calls left in a folded list are folded calls of the list, in the same order. -/
theorem callsAll_foldAll : ∀ es : List Expr,
    (Expr.callsAll (foldAll es)).Sublist ((Expr.callsAll es).map Call.fold)
  | [] => .refl _
  | e :: es => by
    rw [Expr.callsAll, List.map_append]
    exact e.calls_fold.append (callsAll_foldAll es)

end

namespace Rules

variable {M : Note → Ty → Prop} {Γ : Names}

mutual

/-- Every call in a well-typed expression is well typed. -/
theorem HasType.of_mem_calls : ∀ {e : Expr} {t : Ty}, HasType M Γ e t → ∀ c ∈ e.calls,
    ∃ t', CallType M Γ c t'
  | .lit _ _, _, _, c, hc | .ident _ _, _, _, c, hc => nomatch hc
  | .binary _ _ _ _, _, .binary hl hr _ _, c, hc =>
    (List.mem_append.1 hc).elim (hl.of_mem_calls c) (hr.of_mem_calls c)
  | .unary _ _ _, _, .unary he _ _, c, hc => he.of_mem_calls c hc
  | .call _ _, _, .call h _, c, hc => by
    rcases List.mem_cons.1 hc with rfl | hc
    · exact ⟨_, h⟩
    · exact h.of_mem_calls c hc

/-- Every call in the arguments of a well-typed call is well typed. -/
theorem CallType.of_mem_calls : ∀ {d : Call} {t : Ty}, CallType M Γ d t → ∀ c ∈ d.calls,
    ∃ t', CallType M Γ c t'
  | ⟨_, _, _⟩, _, .intro _ _ hargs, c, hc => hargs.of_mem_calls c hc

/-- Every call in arguments that fit is well typed. -/
theorem ArgsFit.of_mem_calls : ∀ {es : List Expr} {ts : List Ty}, ArgsFit M Γ es ts →
    ∀ c ∈ Expr.callsAll es, ∃ t', CallType M Γ c t'
  | [], _, _, _, hc => nomatch hc
  | _ :: _, _, .cons he _ hes, c, hc =>
    (List.mem_append.1 hc).elim (he.of_mem_calls c) (hes.of_mem_calls c)

end

/-- An annotated expression records the same type when it is folded. -/
theorem HasType.ty?_fold {e : Expr} {t : Ty} (h : HasType typedNote Γ e t) :
    e.ty? = some t ∧ e.fold.ty? = some t :=
  ⟨h.ty?_eq, (h.fold allowsTyped_typedNote).ty?_eq⟩

/-- Annotated arguments record the same types when they are folded. -/
theorem ArgsFit.ty?_fold {es : List Expr} {ts : List Ty} (h : ArgsFit typedNote Γ es ts) :
    ∃ ss : List Ty, es.map Expr.ty? = ss.map some ∧
      (Procedural.foldAll es).map Expr.ty? = ss.map some := by
  induction es generalizing ts with
  | nil => exact ⟨[], rfl, rfl⟩
  | cons e es ih =>
    cases h with
    | @cons _ _ s _ _ he _ hes =>
      obtain ⟨ss, hbefore, hafter⟩ := ih hes
      refine ⟨s :: ss, ?_, ?_⟩
      · rw [List.map_cons, List.map_cons, he.ty?_fold.1, hbefore]
      · rw [Procedural.foldAll, List.map_cons, List.map_cons, he.ty?_fold.2, hafter]

end Rules

/-! ## Main results -/

/-- If the names in force have known types and the analysis of an expression reports nothing, then
the type found for the expression is recorded also when it is folded. The calls that are left are
calls of the expression, folded, and the same holds of the arguments of each of them. -/
theorem ty?_fold_of_analyze {ctx c : Context} {e e' : Expr} (hctx : ctx.env.names.Known)
    (h : e.analyze ctx = .ok e' c) (hlog : c.log = ctx.log) :
    (∃ t, e'.ty? = some t ∧ e'.fold.ty? = some t) ∧
      e'.fold.calls.Sublist (e'.calls.map Call.fold) ∧
      ∀ d ∈ e'.calls, ∃ ts : List Ty, d.args.map Expr.ty? = ts.map some ∧
        d.fold.args.map Expr.ty? = ts.map some := by
  obtain ⟨-, t, he⟩ := analyzeExpr_sound e hctx h (Nat.le_of_eq (congrArg List.length hlog))
  refine ⟨⟨t, he.noted.ty?_fold⟩, e'.calls_fold, fun d hd => ?_⟩
  obtain ⟨t', hcall⟩ := he.noted.of_mem_calls d hd
  cases hcall with
  | intro _ _ hargs => exact hargs.ty?_fold

/-- The expression `true && x == f(1 + 2) / (3 - 3)` for a real `x` and a function `f` from reals to
integers, with types recorded as `t` has it. -/
def guardedQuotient (t : Ty → Option Ty) : Expr :=
  let s : Span := ⟨0, 0⟩
  let number (v : Int64) : Expr := .lit ⟨s, t .int⟩ (.int v)
  let sum : Expr := .binary ⟨s, t .int⟩ (.arith .add) (number 1) (number 2)
  let zero : Expr := .binary ⟨s, t .int⟩ (.arith .sub) (number 3) (number 3)
  let quotient : Expr :=
    .binary ⟨s, t .int⟩ (.arith .div) (.call ⟨s, t .int⟩ ⟨"f", [sum], s⟩) zero
  .binary ⟨s, t .bool⟩ (.logic .and) (.lit ⟨s, t .bool⟩ (.bool true))
    (.binary ⟨s, t .bool⟩ (.equality .eq) (.ident ⟨s, t .real⟩ "x") quotient)

/-- What is left of the expression: `x == f(3) / 0`. -/
def unguardedQuotient : Expr :=
  let s : Span := ⟨0, 0⟩
  let number (v : Int64) : Expr := .lit ⟨s, some .int⟩ (.int v)
  .binary ⟨s, some .bool⟩ (.equality .eq) (.ident ⟨s, some .real⟩ "x")
    (.binary ⟨s, some .int⟩ (.arith .div) (.call ⟨s, some .int⟩ ⟨"f", [number 3], s⟩) (number 0))

/-- A context in which `x` and `f` are declared. -/
def quotientContext : Context :=
  Context.initial.bindAll [("x", ⟨.var, .real, ⟨0, 0⟩⟩), ("f", ⟨.func, .fn [.real] .int, ⟨0, 0⟩⟩)]

/-- The types of `x` and `f` are known. -/
theorem known_quotientContext : quotientContext.env.names.Known := by
  rw [quotientContext, Context.env_bindAll]
  refine Names.Known.empty.declareAll ?_
  exact List.forall_mem_cons.2 ⟨rfl, List.forall_mem_singleton.2 rfl⟩

/-- The analysis reports nothing about the expression and records all its types. -/
theorem analyze_guardedQuotient : (guardedQuotient fun _ => none).analyze quotientContext =
    .ok (guardedQuotient some) quotientContext := rfl

/-- Folding removes the conjunction and the sum, but not the division by zero. -/
theorem fold_guardedQuotient : (guardedQuotient some).fold = unguardedQuotient := rfl

/-- What is left has the type of the expression, and its argument the type of the sum. -/
theorem ty?_fold_guardedQuotient : unguardedQuotient.ty? = some .bool ∧
    ∀ d ∈ (guardedQuotient some).calls, ∃ ts : List Ty, d.args.map Expr.ty? = ts.map some ∧
      d.fold.args.map Expr.ty? = ts.map some := by
  obtain ⟨⟨t, hbefore, hafter⟩, -, hargs⟩ :=
    ty?_fold_of_analyze known_quotientContext analyze_guardedQuotient rfl
  rw [fold_guardedQuotient] at hafter
  exact ⟨hafter.trans (hbefore.symm.trans rfl), hargs⟩

/-- If the names in force have known types and the analysis of an expression reports nothing, then
the expression evaluates as before when it is folded, with the types found or without them: from
every state to the same answer or in the same way to none, with the same store and the same trace,
whatever calls do and whatever becomes of operations without a result. -/
theorem eval_fold_of_analyze {ctx c : Context} {e e' : Expr} (hctx : ctx.env.names.Known)
    (h : e.analyze ctx = .ok e' c) (hlog : c.log = ctx.log) (I : Interp) (m : State) :
    e'.fold.eval I m = e.eval I m ∧ e.fold.eval I m = e.eval I m := by
  obtain ⟨-, t, he⟩ := analyzeExpr_sound e hctx h (Nat.le_of_eq (congrArg List.length hlog))
  refine ⟨?_, ?_⟩
  · rw [eval_fold allowsTyped_typedNote he.noted, Expr.eval_eq_of_bare he.bare]
  · rw [eval_fold allowsTyped_anyNote he.plain]

/-- What is left calls `f` with the sum and then divides by zero, as the expression does. -/
theorem eval_fold_guardedQuotient : quotientContext.env.names.Known ∧
    (guardedQuotient fun _ => none).analyze quotientContext =
      .ok (guardedQuotient some) quotientContext ∧
    ∀ (I : Interp) (m : State),
      unguardedQuotient.eval I m = (guardedQuotient fun _ => none).eval I m :=
  ⟨known_quotientContext, analyze_guardedQuotient, fun I m =>
    (eval_fold_of_analyze known_quotientContext analyze_guardedQuotient rfl I m).1⟩

end Procedural
