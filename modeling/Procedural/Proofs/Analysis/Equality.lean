import Procedural.Proofs.Analysis.Demands
import Procedural.Proofs.Analysis.Reorder
import Procedural.Proofs.Analysis.Sound.Expr

/-! # Tests for equality

A test for equality takes two values of one type, or two numbers. Whether two types can be compared
is one question, and whether a value of the one can be stored where the other is declared is
another; the test asks the first and reports through the second. Since whatever is accepted is
comparable, a pair of types that **clash** is reported in either order, and always once
(`analysis_equality`). -/

namespace Procedural

open Rules

variable {a b : Ty} {l r e : Expr} {ctx : Context}

/-! ## Types that clash -/

namespace Ty

/-- The types are known, and values of them cannot be tested for equality: the types are neither the
same nor both those of numbers. -/
def Clashes (a b : Ty) : Prop :=
  (a ≠ error ∧ b ≠ error) ∧ a ≠ b ∧ ¬(a.isArithmetic = true ∧ b.isArithmetic = true)

instance (a b : Ty) : Decidable (a.Clashes b) := inferInstanceAs (Decidable (_ ∧ _))

/-- Types that clash do so in both orders. -/
theorem Clashes.symm (h : a.Clashes b) : b.Clashes a :=
  ⟨h.1.symm, h.2.1.symm, fun hnumbers => h.2.2 hnumbers.symm⟩

/-- Whether types clash does not depend on their order. -/
theorem clashes_comm : a.Clashes b ↔ b.Clashes a := ⟨Clashes.symm, Clashes.symm⟩

/-- Types are not comparable if they differ and are not both types of numbers. -/
theorem comparable_eq_false_iff :
    a.comparable b = false ↔ a ≠ b ∧ ¬(a.isArithmetic = true ∧ b.isArithmetic = true) := by
  rw [← Bool.not_eq_true, comparable, Bool.or_eq_true, Bool.and_eq_true, beq_iff_eq, not_or,
    and_comm]

/-- Types do not clash if one of them is unknown or if they are comparable. -/
theorem not_clashes_iff : ¬ a.Clashes b ↔ a = error ∨ b = error ∨ a.comparable b = true := by
  rw [Clashes, ← comparable_eq_false_iff, not_and_or, not_and_or, not_ne_iff, not_ne_iff,
    Bool.not_eq_false, or_assoc]

/-- What clashes is not accepted, either: whatever is accepted among known types can be compared. -/
theorem Clashes.accepts (h : a.Clashes b) : a.accepts b = false := by
  obtain ⟨⟨ha, hb⟩, hne, hnumbers⟩ := h
  rw [Ty.accepts, isError_of_ne ha, isError_of_ne hb, Bool.false_or, Bool.false_or,
    Bool.or_eq_false_iff]
  refine ⟨?_, beq_eq_false_iff_ne.2 hne⟩
  by_contra hwiden
  rw [Bool.not_eq_false, Bool.and_eq_true, beq_iff_eq, beq_iff_eq] at hwiden
  obtain ⟨rfl, rfl⟩ := hwiden
  exact hnumbers ⟨rfl, rfl⟩

end Ty

/-- The report of a test that compares a value of type `a` with one of type `b` that stands at `s`:
there is one if the types clash. -/
def EqualityOp.mismatch (op : EqualityOp) (a b : Ty) (s : Span) : Log :=
  if a.Clashes b then [⟨.typeMismatch op.symbol a b, some s⟩] else []

/-- Nothing is reported about types that do not clash, and something about types that do. -/
theorem EqualityOp.mismatch_eq_nil_iff {op : EqualityOp} {s : Span} :
    op.mismatch a b s = [] ↔ ¬ a.Clashes b := by
  rw [mismatch]
  split <;> simp_all

/-! ## The check of the operands -/

/-- A test blames its right operand if the types of the two clash, which takes away the type of this
operand; otherwise it changes nothing. -/
theorem checkBinary_equality (op : EqualityOp) (hl : l.ty? = some a) (hr : r.ty? = some b) :
    checkBinary (.equality op) l r ctx =
      .ok (.bool, l, if a.Clashes b then r.withTy .error else r)
        (ctx.tell (op.mismatch a b r.span)) := by
  rw [checkBinary]
  rw [bind_of_ok (resolved_of_ty? hl), bind_of_ok (resolved_of_ty? hr), EqualityOp.mismatch]
  by_cases h : a.Clashes b
  · -- the demand is placed, and what clashes does not meet it
    have hasked : (a.isError || b.comparable a) = false := by
      rw [Ty.isError_of_ne h.1.1, Ty.comparable_comm, Bool.false_or]
      exact Ty.comparable_eq_false_iff.2 h.2
    have hrefused : (Demand.assignable op.symbol a).admits b = false := h.accepts
    rw [hasked, if_pos h, if_pos h]
    exact bind_of_ok (require_of_refuses hr h.1.2 hrefused)
  · rw [if_neg h, if_neg h, Context.tell_nil]
    rcases Ty.not_clashes_iff.1 h with rfl | rfl | hcomp
    · rfl
    · -- a demand on an operand of unknown type is silent
      split
      · rfl
      · exact bind_of_ok (require_of_error hr)
    · rw [Ty.comparable_comm, hcomp, Bool.or_true]
      rfl

/-! ## The analysis of the operands -/

/-- The bare form of an expression stands where the expression stands. -/
theorem Expr.span_bare (e : Expr) : e.bare.span = e.span := by
  cases e <;> rfl

/-- The analysis of an expression finds a type for it where it stands, and what it reports does not
depend on what has been reported before. -/
theorem analyzeExpr_runs (e : Expr) (ctx : Context) :
    ∃ e' t new, e'.ty? = some t ∧ e'.span = e.span ∧
      ∀ before, e.analyze (ctx.tell before) = .ok e' (ctx.tell (before ++ new)) := by
  obtain ⟨e', bs, new, ⟨t, ht⟩, hbs, hrun⟩ :=
    (dependsOn_analyzeExpr e (List.Subset.refl _)).runs (ends_analyzeExpr e) ctx
  obtain rfl := List.subset_nil.1 hbs
  have hruns (before : Log) : e.analyze (ctx.tell before) = .ok e' (ctx.tell (before ++ new)) := by
    rw [hrun _ (Context.Alike.tell_self _ ctx before), Context.bindAll_nil, Context.tell_tell]
  refine ⟨e', t, new, ht, ?_, hruns⟩
  rw [← e'.span_bare, (answers_analyzeExpr e (hruns [])).bare_eq, e.span_bare]

/-- If the names in force have known types, an expression that is analyzed without reports has a
known type. -/
theorem ne_error_of_quiet {e' : Expr} {t : Ty} (hctx : ctx.env.names.Known)
    (hrun : e.analyze ctx = .ok e' (ctx.tell [])) (ht : e'.ty? = some t) : t ≠ .error := by
  rw [Context.tell_nil] at hrun
  obtain ⟨-, s, htyped⟩ := analyzeExpr_sound e hctx hrun (Nat.le_refl _)
  obtain rfl : s = t := Option.some.inj (htyped.noted.ty?_eq.symm.trans ht)
  exact (htyped.noted.known hctx).ne_error

/-- Tests for equality, in both orders. Each yields a truth value and reports what is wrong with the
operands, in their order, and then once, at the operand on the right, that their types clash, if
they do. So the test is reported in the one order exactly when it is in the other, and it is not
when a type is unknown or the two can be compared. In particular, where the names in force have
known types, a test about which nothing is reported compares two values that can be compared. -/
theorem analysis_equality (ctx : Context) (l r : Expr) :
    ∃ l' r' a b new new',
      (l.analyze ctx = .ok l' (ctx.tell new) ∧ l'.ty? = some a) ∧
      (r.analyze ctx = .ok r' (ctx.tell new') ∧ r'.ty? = some b) ∧
      (∀ (n : Note) (op : EqualityOp),
        (Expr.binary n (.equality op) l r).analyze ctx =
          .ok (.binary ⟨n.span, some .bool⟩ (.equality op) l'
              (if a.Clashes b then r'.withTy .error else r'))
            (ctx.tell (new ++ new' ++ op.mismatch a b r.span)) ∧
        (Expr.binary n (.equality op) r l).analyze ctx =
          .ok (.binary ⟨n.span, some .bool⟩ (.equality op) r'
              (if b.Clashes a then l'.withTy .error else l'))
            (ctx.tell (new' ++ new ++ op.mismatch b a l.span)) ∧
        (op.mismatch a b r.span = [] ↔ op.mismatch b a l.span = []) ∧
        (op.mismatch a b r.span = [] ↔ a = .error ∨ b = .error ∨ a.comparable b = true)) ∧
      (ctx.env.names.Known → ∀ op : EqualityOp,
        new ++ new' ++ op.mismatch a b r.span = [] → a.comparable b = true) := by
  obtain ⟨l', a, new, hl, hlspan, hlrun⟩ := analyzeExpr_runs l ctx
  obtain ⟨r', b, new', hr, hrspan, hrrun⟩ := analyzeExpr_runs r ctx
  have hlfirst := hlrun []
  have hrfirst := hrrun []
  rw [Context.tell_nil, List.nil_append] at hlfirst hrfirst
  refine ⟨l', r', a, b, new, new', ⟨hlfirst, hl⟩, ⟨hrfirst, hr⟩, fun n op => ⟨?_, ?_, ?_, ?_⟩, ?_⟩
  · rw [Expr.analyze, bind_of_ok hlfirst, bind_of_ok (hrrun new),
      bind_of_ok (checkBinary_equality op hl hr), hrspan, Context.tell_tell]
    rfl
  · rw [Expr.analyze, bind_of_ok hrfirst, bind_of_ok (hlrun new'),
      bind_of_ok (checkBinary_equality op hr hl), hlspan, Context.tell_tell]
    rfl
  · rw [EqualityOp.mismatch_eq_nil_iff, EqualityOp.mismatch_eq_nil_iff, Ty.clashes_comm]
  · rw [EqualityOp.mismatch_eq_nil_iff, Ty.not_clashes_iff]
  · intro hctx op hquiet
    obtain ⟨hoperands, hmismatch⟩ := List.append_eq_nil_iff.1 hquiet
    obtain ⟨rfl, rfl⟩ := List.append_eq_nil_iff.1 hoperands
    rcases Ty.not_clashes_iff.1 (EqualityOp.mismatch_eq_nil_iff.1 hmismatch) with rfl | rfl | hcomp
    · exact absurd rfl (ne_error_of_quiet hctx hlfirst hl)
    · exact absurd rfl (ne_error_of_quiet hctx hrfirst hr)
    · exact hcomp

/-- An integer and a real, about which nothing is reported, in a context without names. -/
theorem equality_mixedNumbers :
    let s : Span := ⟨0, 1⟩
    let one : Expr := .lit ⟨s, none⟩ (.int 1)
    let half : Expr := .lit ⟨s, none⟩ (.real 0.5)
    Context.initial.env.names.Known ∧ ∃ l' r' a b,
      (one.analyze .initial = .ok l' .initial ∧ l'.ty? = some a) ∧
      (half.analyze .initial = .ok r' .initial ∧ r'.ty? = some b) ∧
      EqualityOp.eq.mismatch a b half.span = [] ∧ a.comparable b = true := by
  intro s one half
  have hctx : Context.initial.env.names.Known := Names.Known.empty
  obtain ⟨l', r', a, b, new, new', ⟨hl, ha⟩, ⟨hr, hb⟩, -, hquiet⟩ :=
    analysis_equality .initial one half
  cases hl
  cases hr
  cases ha
  cases hb
  exact ⟨hctx, _, _, _, _, ⟨rfl, rfl⟩, ⟨rfl, rfl⟩, rfl, hquiet hctx .eq rfl⟩

end Procedural
