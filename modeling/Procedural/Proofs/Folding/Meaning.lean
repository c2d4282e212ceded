import Procedural.Proofs.Folding.Types
import Procedural.Proofs.Semantics.Run

/-! # Folding keeps values

A folded expression evaluates as the expression does: with the same answer, the same effects, and
halting in the same way. Operators are replaced only where an interpretation has no say in their
result. Types matter in one place: literals of different kinds count as unequal when they are
folded, but cannot be compared in a run. -/

namespace Procedural

open Semantics Rules

variable {I : Interp}

/-! ## Operators on literals -/

/-- An integer is representable exactly if it is in range. -/
theorem Checked.ofInt?_eq_ite (z : Int) :
    Checked.ofInt? z = if InRange z then some (Int64.ofInt z) else none := rfl

/-- Integer arithmetic on literals gives the exact result where that is in range. -/
theorem onInt?_eq_bind (op : ArithOp) (x y : Int64) :
    Literal.onInt? op x y = (intResult? op x.toInt y.toInt).bind Checked.ofInt? := by
  have hzero : y = 0 ↔ y.toInt = 0 := Int64.toInt_inj.symm
  cases op with
  | add | sub | mul => rfl
  | div =>
    simp only [Literal.onInt?, Checked.div?, intResult?, hzero]
    split <;> rfl
  -- the remainder is refused where the quotient overflows, although it would be in range
  | rem =>
    simp only [Literal.onInt?, Checked.rem?, Checked.div?, intResult?, hzero]
    by_cases hy : y.toInt = 0
    · rw [if_pos hy, if_pos (.inl hy)]
      rfl
    · by_cases hrange : InRange (x.toInt.tdiv y.toInt)
      · have hboth : ¬(y.toInt = 0 ∨ ¬InRange (x.toInt.tdiv y.toInt)) :=
          fun h => h.elim hy fun hout => hout hrange
        rw [if_neg hy, if_neg hboth, Checked.ofInt?_eq_ite, if_pos hrange]
        rfl
      · rw [if_neg hy, if_pos (.inr hrange), Checked.ofInt?_eq_ite, if_neg hrange]
        rfl

/-- Arithmetic on integers comes to the literal that it gives on literals, and has no result where
it gives none. -/
theorem onInts_eq (op : ArithOp) (x y : Int64) :
    I.onInts op x y = (Literal.onInt? op x y).elim
      (I.undefined op (.lit (.int x)) (.lit (.int y))) fun z => .ok (.lit (.int z)) := by
  rw [onInt?_eq_bind, Interp.onInts]
  cases intResult? op x.toInt y.toInt with
  | none => rfl
  | some z =>
    rw [Option.bind_some, Checked.ofInt?_eq_ite]
    by_cases hz : InRange z
    · simp only [if_pos hz, Option.elim_some]
    · simp only [if_neg hz, Option.elim_none]

/-- The number that a literal stands for does not depend on where it is asked. -/
theorem number?_lit (v : Literal) : (Value.lit v).number? = v.real? := by
  cases v <;> rfl

/-- The folder's arithmetic on reals is that of the evaluation. -/
theorem realResult?_eq_onReal? (op : ArithOp) : realResult? op = Literal.onReal? op := by
  cases op <;> rfl

/-- A literal of a numeric type is an integer or a real. -/
theorem literal_of_numeric {v : Literal} (h : Numeric v.ty) :
    (∃ x, v = .int x) ∨ ∃ x, v = .real x := by
  cases v with
  | int x => exact .inl ⟨x, rfl⟩
  | real x => exact .inr ⟨x, rfl⟩
  | bool | char | str => nomatch h

/-- Arithmetic on two numbers comes to the literal that it gives on literals, and has no result
where it gives none. -/
theorem arith_eq {op : ArithOp} {v w : Literal} (hv : Numeric v.ty) (hw : Numeric w.ty) :
    I.arith op (.lit v) (.lit w) =
      (Literal.arith? op v w).elim (I.undefined op (.lit v) (.lit w)) fun u => .ok (.lit u) := by
  rcases literal_of_numeric hv with ⟨x, rfl⟩ | ⟨x, rfl⟩ <;>
    rcases literal_of_numeric hw with ⟨y, rfl⟩ | ⟨y, rfl⟩
  · rw [Interp.arith, onInts_eq, Literal.arith?]
    cases Literal.onInt? op x y <;> rfl
  -- numbers that are not both integers count as reals
  all_goals
    simp only [Interp.arith, Literal.arith?, Value.number?, Literal.real?, orWrongKind,
      realResult?_eq_onReal?, bind, Except.bind, Option.bind_some]
    generalize Literal.onReal? op _ _ = o
    cases o <;> rfl

/-- The negative of an integer is the literal that it gives on literals, and has no result where it
gives none. -/
theorem neg_eq (x : Int64) :
    I.unary .neg (.lit (.int x)) =
      (Checked.neg? x).elim (I.undefinedNeg (.lit (.int x))) fun z => .ok (.lit (.int z)) := by
  rw [Checked.neg?, Checked.ofInt?_eq_ite, Interp.unary]
  by_cases hx : InRange (-x.toInt)
  · simp only [if_pos hx, Option.elim_some]
  · simp only [if_neg hx, Option.elim_none]

/-- Numbers that are compared as literals are compared alike in a run. -/
theorem order?_lit {op : OrderOp} {v w : Literal} {b : Bool} (h : Literal.order? op v w = some b) :
    (Value.lit v).order? op (.lit w) = some b := by
  unfold Literal.order? at h
  split at h
  · rwa [OrderOp.onInt_eq] at h
  · -- not both are integers, so both sides compare the numbers as reals
    rename_i hne
    unfold Value.order?
    split
    · rename_i hv hw
      exact absurd (Value.lit.inj hw) (hne _ _ (Value.lit.inj hv))
    · simp only [OrderOp.onReal_eq] at h
      rw [number?_lit, number?_lit]
      exact h

/-- Literals that may be compared by their types are compared as they are in a run. -/
theorem equal?_lit {op : EqualityOp} {v w : Literal} {t : Ty} {b : Bool}
    (hop : BinaryType (.equality op) v.ty w.ty t) (h : Literal.equal? v w = some b) :
    (Value.lit v).equal? (.lit w) = some b := by
  generalize hs : v.ty = s, ht : w.ty = t at hop
  -- the types leave only literals of one kind and mixed numbers, and there the two tests agree
  cases hop with
  | equalNumbers h₁ h₂ =>
    cases h₁ <;> cases h₂ <;> cases v <;> cases hs <;> cases w <;> cases ht <;> exact h
  | equalSame =>
    subst hs
    cases v <;> cases w <;> first | exact h | nomatch ht

/-- What the folder makes of a unary operator on a literal is what the operator evaluates to. -/
theorem unary_of_unary? {op : UnaryOp} {v u : Literal} (h : Literal.unary? op v = some u) :
    I.unary op (.lit v) = .ok (.lit u) := by
  unfold Literal.unary? at h
  split at h
  · obtain ⟨z, hz, rfl⟩ := Option.map_eq_some_iff.1 h
    rw [neg_eq, hz, Option.elim_some]
  · obtain rfl := Option.some.inj h
    rfl
  · obtain rfl := Option.some.inj h
    rfl
  · nomatch h

/-- Where a binary operator on literals gives a literal, the operator gives that value. -/
theorem combine_lit {op : BinaryOp} {v w u : Literal} {t : Ty} (hop : BinaryType op v.ty w.ty t)
    (h : Literal.binary? op v w = some u) :
    combine I op (pure (.lit v)) (pure (.lit w)) = pure (.lit u) := by
  cases op with
  | arith op =>
    obtain ⟨hv, hw, -⟩ := hop.arith_inv
    have hu : Literal.arith? op v w = some u := h
    simp only [combine, pure_bind, arith_eq hv hw, hu, Option.elim_some, answer]
  | order op =>
    obtain ⟨b, hb, rfl⟩ := Option.map_eq_some_iff.1 h
    simp only [combine, pure_bind, order?_lit hb, orWrongKind, answer, Value.ofBool]
  | equality op =>
    obtain ⟨b, hb, rfl⟩ := Option.map_eq_some_iff.1 h
    have htest : (Value.lit v).test? op (.lit w) = some (op.ofEqual b) := by
      rw [Value.test?, equal?_lit hop hb, op.ofEqual_eq]
      rfl
    simp only [combine, pure_bind, htest, orWrongKind, answer, Value.ofBool]
  | logic op =>
    generalize hs : v.ty = t₁, ht : w.ty = t₂ at hop
    cases hop
    -- both literals are boolean
    cases v <;> cases hs
    cases w <;> cases ht
    rename_i x y
    obtain rfl := Option.some.inj h
    cases op <;> cases x <;> rfl

/-! ## Expressions -/

variable {M : Note → Ty → Prop} {Γ : Names}

/-- A literal evaluates to itself, without effect. -/
theorem Expr.eval_lit (n : Note) (v : Literal) : (Expr.lit n v).eval I = pure (.lit v) := rfl

/-- The expression made of a literal evaluates to the literal. -/
theorem Expr.eval_ofLiteral (s : Span) (v : Literal) :
    (Expr.ofLiteral s v).eval I = pure (.lit v) := rfl

/-- An operator put on a folded operand gives what it gives on the operand. -/
theorem eval_foldUnary (n : Note) (op : UnaryOp) (e : Expr) :
    (foldUnary n op e).eval I = (Expr.unary n op e).eval I := by
  unfold foldUnary
  split
  · rename_i u hu
    obtain ⟨v, hv, hu⟩ := Option.bind_eq_some_iff.1 hu
    obtain ⟨m, rfl⟩ := Expr.literal?_eq_some_iff.1 hv
    rw [Expr.eval_ofLiteral, Expr.eval, Expr.eval_lit, pure_bind, unary_of_unary? hu]
    rfl
  · rfl

/-- A boolean literal on the left of a logic operator settles which operand is evaluated. -/
theorem eval_shortCircuit (n : Note) (op : BinaryOp) (l r : Expr) :
    (shortCircuit n op l r).eval I = combine I op (l.eval I) (r.eval I) := by
  unfold shortCircuit
  split
  · rename_i op b hb
    obtain ⟨v, hv, hbool⟩ := Option.bind_eq_some_iff.1 hb
    obtain ⟨m, rfl⟩ := Expr.literal?_eq_some_iff.1 hv
    obtain rfl := Literal.bool?_eq_some_iff.1 hbool
    cases op <;> cases b <;> rfl
  · rfl

/-- Folding a well-typed binary operator keeps what it evaluates to, short circuits included. -/
theorem eval_foldBinary {n : Note} {op : BinaryOp} {l r : Expr} {t₁ t₂ t : Ty}
    (hl : HasType M Γ l t₁) (hr : HasType M Γ r t₂) (hop : BinaryType op t₁ t₂ t) :
    (foldBinary n op l r).eval I = combine I op (l.eval I) (r.eval I) := by
  unfold foldBinary
  split
  · rename_i v w hv hw
    split
    · rename_i u hu
      obtain rfl := hl.ty_of_literal? hv
      obtain rfl := hr.ty_of_literal? hw
      obtain ⟨m, rfl⟩ := Expr.literal?_eq_some_iff.1 hv
      obtain ⟨m', rfl⟩ := Expr.literal?_eq_some_iff.1 hw
      rw [Expr.eval_ofLiteral, Expr.eval_lit, Expr.eval_lit, combine_lit hop hu]
    · rfl
  · exact eval_shortCircuit n op l r

mutual

/-- A well-typed expression evaluates as before when it is folded. -/
theorem eval_fold (hM : AllowsTyped M) : ∀ {e : Expr} {t : Ty}, HasType M Γ e t →
    e.fold.eval I = e.eval I
  | .lit _ _, _, _ => rfl
  | .ident _ _, _, _ => rfl
  | .binary _ op l r, _, .binary hl hr hop _ => by
    rw [Expr.fold, eval_foldBinary (hl.fold hM) (hr.fold hM) hop, eval_fold hM hl, eval_fold hM hr,
      Expr.eval]
  | .unary _ op e, _, .unary he _ _ => by
    rw [Expr.fold, eval_foldUnary, Expr.eval, Expr.eval, eval_fold hM he]
  | .call _ c, _, .call hc _ => by
    rw [Expr.fold, Expr.eval, Expr.eval, eval_foldCall hM hc]

/-- Folding the arguments of a well-typed call keeps what the call evaluates to. -/
theorem eval_foldCall (hM : AllowsTyped M) : ∀ {c : Call} {t : Ty}, CallType M Γ c t →
    c.fold.eval I = c.eval I
  | ⟨_, args, _⟩, _, .intro _ _ hargs => by
    rw [Call.fold, Call.eval, Call.eval, evalAll_foldAll hM hargs]

/-- Folding arguments that fit keeps what they evaluate to, in order. -/
theorem evalAll_foldAll (hM : AllowsTyped M) : ∀ {es : List Expr} {ts : List Ty},
    ArgsFit M Γ es ts → evalAll I (foldAll es) = evalAll I es
  | [], _, _ => rfl
  | e :: es, _, .cons he _ hes => by
    rw [foldAll, evalAll, evalAll, eval_fold hM he, evalAll_foldAll hM hes]

end

/-- Folding an expression that fits keeps what it evaluates to. -/
theorem Rules.FitsIn.eval_fold (hM : AllowsTyped M) {e : Expr} {t : Ty} (h : FitsIn M Γ e t) :
    e.fold.eval I = e.eval I := by
  obtain ⟨s, he, -⟩ := h
  exact Procedural.eval_fold hM he

/-- Folding a well-typed condition keeps what it is tested to be. -/
theorem test_fold (hM : AllowsTyped M) {e : Expr} {t : Ty} (h : HasType M Γ e t) :
    e.fold.test I = e.test I := by
  rw [Expr.test, eval_fold hM h, Expr.test]

/-- A condition that is a boolean literal comes to that literal. -/
theorem test_of_bool? {e : Expr} {b : Bool} (h : e.bool? = some b) : e.test I = pure b := by
  obtain ⟨v, hv, hbool⟩ := Option.bind_eq_some_iff.1 h
  obtain ⟨m, rfl⟩ := Expr.literal?_eq_some_iff.1 hv
  obtain rfl := Literal.bool?_eq_some_iff.1 hbool
  rfl

end Procedural
