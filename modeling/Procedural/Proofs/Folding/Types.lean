import Procedural.Folding
import Procedural.Proofs.Rules.Judgment

/-! # Folding keeps types

The literal that replaces an operator has the type that the rules give to the operator's result, and
an operand that replaces its operator has that type too. So a well-typed expression keeps its type
when it is folded, and an annotated one stays annotated. -/

namespace Procedural

/-! ## Results of operators on literals -/

/-- Arithmetic on literals gives an integer from two integers, and a real otherwise. -/
theorem Literal.ty_of_arith? {op : ArithOp} {v w u : Literal} (h : arith? op v w = some u) :
    u.ty = if v.ty = .int ∧ w.ty = .int then .int else .real := by
  unfold arith? at h
  split at h
  · obtain ⟨z, -, rfl⟩ := Option.map_eq_some_iff.1 h
    rfl
  · rename_i hne
    have hreal : u.ty = .real := by
      simp only [Option.bind_eq_bind, Option.bind_eq_some_iff, Option.pure_def,
        Option.some.injEq] at h
      obtain ⟨_, -, _, -, _, -, rfl⟩ := h
      rfl
    have hmixed : ¬(v.ty = .int ∧ w.ty = .int) := by
      rintro ⟨hv, hw⟩
      cases v <;> cases hv
      cases w <;> cases hw
      exact hne _ _ rfl rfl
    rw [if_neg hmixed, hreal]

/-- The literal for a binary operator has the type of the operator's result. -/
theorem Literal.ty_of_binary? {op : BinaryOp} {v w u : Literal} {t : Ty}
    (hop : Rules.BinaryType op v.ty w.ty t) (h : binary? op v w = some u) : u.ty = t := by
  cases op with
  | arith op =>
    rw [Literal.ty_of_arith? h]
    generalize v.ty = t₁, w.ty = t₂ at hop
    cases hop <;> simp
  | order op =>
    obtain ⟨b, -, rfl⟩ := Option.map_eq_some_iff.1 h
    cases hop
    rfl
  | equality op =>
    obtain ⟨b, -, rfl⟩ := Option.map_eq_some_iff.1 h
    generalize v.ty = t₁, w.ty = t₂ at hop
    cases hop <;> rfl
  | logic op =>
    generalize v.ty = t₁, w.ty = t₂ at hop
    cases hop
    unfold binary? at h
    split at h
    all_goals simp_all
    rw [← h]
    rfl

/-- The literal for a unary operator has the type of the operator's result. -/
theorem Literal.ty_of_unary? {op : UnaryOp} {v u : Literal} {t : Ty}
    (hop : Rules.UnaryType op v.ty t) (h : unary? op v = some u) : u.ty = t := by
  unfold unary? at h
  split at h
  · obtain ⟨z, -, rfl⟩ := Option.map_eq_some_iff.1 h
    cases hop
    rfl
  · obtain rfl := Option.some.inj h
    cases hop
    rfl
  · obtain rfl := Option.some.inj h
    cases hop
    rfl
  · nomatch h

/-- The expressions with a literal are the literals, whatever is noted on them. -/
theorem Expr.literal?_eq_some_iff {e : Expr} {v : Literal} :
    e.literal? = some v ↔ ∃ n, e = .lit n v := by
  cases e <;> simp [literal?]

/-! ## Expressions -/

namespace Rules

variable {M : Note → Ty → Prop} {Γ : Names}

/-- The literal of an expression has the type of the expression. -/
theorem HasType.ty_of_literal? {e : Expr} {v : Literal} {t : Ty} (h : HasType M Γ e t)
    (hv : e.literal? = some v) : v.ty = t := by
  obtain ⟨n, rfl⟩ := Expr.literal?_eq_some_iff.1 hv
  cases h
  rfl

/-- A note that records the type will do. -/
def AllowsTyped (M : Note → Ty → Prop) : Prop := ∀ s t, M ⟨s, some t⟩ t

/-- Where any note will do, one that records the type will. -/
theorem allowsTyped_anyNote : AllowsTyped anyNote := fun _ _ => trivial

/-- Where notes have to record the type, one that does will. -/
theorem allowsTyped_typedNote : AllowsTyped typedNote := fun _ _ => rfl

/-- The expression made of a literal has the literal's type. -/
theorem HasType.ofLiteral (hM : AllowsTyped M) (s : Span) (v : Literal) :
    HasType M Γ (.ofLiteral s v) v.ty :=
  .lit (hM s v.ty)

/-- Folding a unary operator keeps its type. -/
theorem HasType.foldUnary (hM : AllowsTyped M) {n : Note} {op : UnaryOp} {e : Expr} {t₁ t : Ty}
    (he : HasType M Γ e t₁) (hop : UnaryType op t₁ t) (hn : M n t) :
    HasType M Γ (Procedural.foldUnary n op e) t := by
  unfold Procedural.foldUnary
  split
  · rename_i u hu
    obtain ⟨v, hv, hu⟩ := Option.bind_eq_some_iff.1 hu
    obtain rfl := he.ty_of_literal? hv
    obtain rfl := Literal.ty_of_unary? hop hu
    exact .ofLiteral hM n.span u
  · exact .unary he hop hn

/-- Folding a binary operator keeps its type. -/
theorem HasType.foldBinary (hM : AllowsTyped M) {n : Note} {op : BinaryOp} {l r : Expr}
    {t₁ t₂ t : Ty} (hl : HasType M Γ l t₁) (hr : HasType M Γ r t₂) (hop : BinaryType op t₁ t₂ t)
    (hn : M n t) : HasType M Γ (Procedural.foldBinary n op l r) t := by
  unfold Procedural.foldBinary
  split
  · rename_i v w hv hw
    obtain rfl := hl.ty_of_literal? hv
    obtain rfl := hr.ty_of_literal? hw
    split
    · rename_i u hu
      obtain rfl := Literal.ty_of_binary? hop hu
      exact .ofLiteral hM n.span u
    · exact .binary hl hr hop hn
  · unfold shortCircuit
    split
    · -- a logic operator has boolean operands, so each of them has the type of the result
      cases hop
      split
      · exact hl
      · exact hr
    · exact .binary hl hr hop hn

mutual

/-- A folded expression has the type of the expression. -/
theorem HasType.fold (hM : AllowsTyped M) : ∀ {e : Expr} {t : Ty}, HasType M Γ e t →
    HasType M Γ e.fold t
  | .lit _ _, _, h => h
  | .ident _ _, _, h => h
  | .binary _ _ _ _, _, .binary hl hr hop hn => .foldBinary hM (hl.fold hM) (hr.fold hM) hop hn
  | .unary _ _ _, _, .unary he hop hn => .foldUnary hM (he.fold hM) hop hn
  | .call _ _, _, .call hc hn => .call (hc.fold hM) hn

/-- A folded call has the type of the call. -/
theorem CallType.fold (hM : AllowsTyped M) : ∀ {c : Call} {t : Ty}, CallType M Γ c t →
    CallType M Γ c.fold t
  | ⟨_, _, _⟩, _, .intro hm hty hargs => .intro hm hty (hargs.foldAll hM)

/-- Folded arguments fit the same parameters. -/
theorem ArgsFit.foldAll (hM : AllowsTyped M) : ∀ {es : List Expr} {ts : List Ty},
    ArgsFit M Γ es ts → ArgsFit M Γ (Procedural.foldAll es) ts
  | [], _, .nil => .nil
  | _ :: _, _, .cons he hfits hes => .cons (he.fold hM) hfits (hes.foldAll hM)

end

/-- A folded expression fits where the expression fits. -/
theorem FitsIn.fold (hM : AllowsTyped M) {e : Expr} {t : Ty} (h : FitsIn M Γ e t) :
    FitsIn M Γ e.fold t := by
  obtain ⟨s, he, hfits⟩ := h
  exact ⟨s, he.fold hM, hfits⟩

end Rules

end Procedural
