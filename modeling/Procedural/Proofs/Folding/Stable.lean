import Procedural.Folding

/-! # Folding twice

An expression is **normal** if there is nothing in it to fold: no operator has a result on literals
below it, and no logic operator has a boolean literal on its left and something else than a literal
on its right. Folding gives a normal expression and leaves a normal one as it is, so what is folded
once is folded for good. Nothing is asked of types or of notes. -/

namespace Procedural

/-- The unary operator cannot be replaced on the operand: it has no result on it, as far as it is a
literal. -/
def UnaryOp.Stays (op : UnaryOp) (e : Expr) : Prop :=
  ∀ v, e.literal? = some v → Literal.unary? op v = none

/-- The binary operator cannot be replaced on the operands. -/
structure BinaryOp.Stays (op : BinaryOp) (l r : Expr) : Prop where
  /-- The operator has no result on the operands, as far as they are literals. -/
  noResult : ∀ v w, l.literal? = some v → r.literal? = some w → Literal.binary? op v w = none
  /-- No boolean literal stands on the left of a logic operator, except before a literal. -/
  noShortCircuit : op.isLogic = true → l.bool?.isSome = true → r.literal?.isSome = true

mutual

/-- There is nothing to fold in the expression. -/
def Expr.Normal : Expr → Prop
  | .lit _ _ | .ident _ _ => True
  | .binary _ op l r => (l.Normal ∧ r.Normal) ∧ op.Stays l r
  | .unary _ op e => e.Normal ∧ op.Stays e
  | .call _ c => c.Normal

/-- There is nothing to fold in the arguments of the call. -/
def Call.Normal : Call → Prop
  | ⟨_, args, _⟩ => Expr.NormalAll args

/-- There is nothing to fold in the expressions of the list. -/
def Expr.NormalAll : List Expr → Prop
  | [] => True
  | e :: es => e.Normal ∧ Expr.NormalAll es

end

/-! ## What folding gives -/

/-- A literal is normal. -/
theorem Expr.normal_ofLiteral (s : Span) (v : Literal) : (Expr.ofLiteral s v).Normal := trivial

/-- What holds of every literal, and of the unary operator on the operand if it has to stay, holds
of the operator put on the operand. -/
theorem foldUnary_elim {n : Note} {op : UnaryOp} {e : Expr} {P : Expr → Prop}
    (hlit : ∀ v, P (.ofLiteral n.span v)) (hstays : op.Stays e → P (.unary n op e)) :
    P (foldUnary n op e) := by
  unfold foldUnary
  split
  · exact hlit _
  · rename_i hnone
    refine hstays fun v hv => ?_
    rw [hv] at hnone
    exact hnone

/-- A short circuit between two operands is one of them, or stays as it is, unless the left one is
a boolean literal and the operator a logic operator. -/
theorem shortCircuit_cases (n : Note) (op : BinaryOp) (l r : Expr) :
    shortCircuit n op l r = l ∨ shortCircuit n op l r = r ∨
      (shortCircuit n op l r = .binary n op l r ∧ (op.isLogic = true → l.bool? = none)) := by
  cases op with
  | logic op =>
    unfold shortCircuit
    cases l.bool? with
    | none => exact .inr (.inr ⟨rfl, fun _ => rfl⟩)
    | some b =>
      by_cases hb : b = op.decisive
      · exact .inl (if_pos hb)
      · exact .inr (.inl (if_neg hb))
  | arith | order | equality => exact .inr (.inr ⟨rfl, fun hop => nomatch hop⟩)

/-- What holds of every literal, of both operands, and of the binary operator on them if it has to
stay, holds of the operator put on the operands. -/
theorem foldBinary_elim {n : Note} {op : BinaryOp} {l r : Expr} {P : Expr → Prop}
    (hlit : ∀ v, P (.ofLiteral n.span v)) (hl : P l) (hr : P r)
    (hstays : op.Stays l r → P (.binary n op l r)) : P (foldBinary n op l r) := by
  unfold foldBinary
  split
  · rename_i v w hv hw
    split
    · exact hlit _
    · rename_i hnone
      -- two literals without a result stay, and the right one is a literal
      refine hstays ⟨fun v' w' hv' hw' => ?_, fun _ _ => ?_⟩
      · obtain rfl := Option.some.inj (hv.symm.trans hv')
        obtain rfl := Option.some.inj (hw.symm.trans hw')
        exact hnone
      · rw [hw]
        rfl
  · rename_i hne
    rcases shortCircuit_cases n op l r with h | h | ⟨h, hbool⟩
    · rwa [h]
    · rwa [h]
    · rw [h]
      refine hstays ⟨fun v w hv hw => absurd hw (hne v w hv), fun hop hb => ?_⟩
      rw [hbool hop] at hb
      nomatch hb

/-- What is collected from a folded operator is among what is collected from its operands, if
nothing is collected from literals and from the operator itself. -/
theorem sublist_foldBinary {α : Type} (collect : Expr → List α) {n : Note} {op : BinaryOp}
    {l r : Expr} (hlit : ∀ v, collect (.ofLiteral n.span v) = [])
    (hbinary : collect (.binary n op l r) = collect l ++ collect r) :
    (collect (foldBinary n op l r)).Sublist (collect l ++ collect r) := by
  apply foldBinary_elim (P := fun e => (collect e).Sublist (collect l ++ collect r))
  · intro v
    rw [hlit v]
    exact List.nil_sublist _
  · exact List.sublist_append_left _ _
  · exact List.sublist_append_right _ _
  · intro _
    exact hbinary ▸ .refl _

/-- What is collected from a folded unary operator is among what is collected from its operand. -/
theorem sublist_foldUnary {α : Type} (collect : Expr → List α) {n : Note} {op : UnaryOp} {e : Expr}
    (hlit : ∀ v, collect (.ofLiteral n.span v) = [])
    (hunary : collect (.unary n op e) = collect e) :
    (collect (foldUnary n op e)).Sublist (collect e) := by
  apply foldUnary_elim (P := fun e' => (collect e').Sublist (collect e))
  · intro v
    rw [hlit v]
    exact List.nil_sublist _
  · intro _
    exact hunary ▸ .refl _

/-- A unary operator put on a normal operand is normal. -/
theorem normal_foldUnary {n : Note} {op : UnaryOp} {e : Expr} (he : e.Normal) :
    (foldUnary n op e).Normal :=
  foldUnary_elim (P := Expr.Normal) (Expr.normal_ofLiteral n.span) fun hstays => ⟨he, hstays⟩

/-- A binary operator put on normal operands is normal. -/
theorem normal_foldBinary {n : Note} {op : BinaryOp} {l r : Expr} (hl : l.Normal)
    (hr : r.Normal) : (foldBinary n op l r).Normal :=
  foldBinary_elim (P := Expr.Normal) (Expr.normal_ofLiteral n.span) hl hr fun hstays =>
    ⟨⟨hl, hr⟩, hstays⟩

mutual

/-- A folded expression is normal. -/
theorem Expr.normal_fold : ∀ e : Expr, e.fold.Normal
  | .lit _ _ | .ident _ _ => trivial
  | .binary _ _ l r => normal_foldBinary (Expr.normal_fold l) (Expr.normal_fold r)
  | .unary _ _ e => normal_foldUnary (Expr.normal_fold e)
  | .call _ c => Call.normal_fold c

/-- A folded call is normal. -/
theorem Call.normal_fold : ∀ c : Call, c.fold.Normal
  | ⟨_, args, _⟩ => normalAll_foldAll args

/-- The expressions of a folded list are normal. -/
theorem normalAll_foldAll : ∀ es : List Expr, Expr.NormalAll (foldAll es)
  | [] => trivial
  | e :: es => ⟨Expr.normal_fold e, normalAll_foldAll es⟩

end

/-! ## What folding leaves as it is -/

/-- A unary operator that stays is left as it is. -/
theorem UnaryOp.Stays.foldUnary {op : UnaryOp} {e : Expr} (h : op.Stays e) (n : Note) :
    foldUnary n op e = .unary n op e := by
  unfold Procedural.foldUnary
  split
  · rename_i u hu
    obtain ⟨v, hv, hu⟩ := Option.bind_eq_some_iff.1 hu
    rw [h v hv] at hu
    nomatch hu
  · rfl

/-- A binary operator that stays is left as it is. -/
theorem BinaryOp.Stays.foldBinary {op : BinaryOp} {l r : Expr} (h : op.Stays l r) (n : Note) :
    foldBinary n op l r = .binary n op l r := by
  unfold Procedural.foldBinary
  split
  · rename_i v w hv hw
    rw [h.noResult v w hv hw]
  · rename_i hne
    unfold shortCircuit
    split
    · -- the left operand is a boolean literal, so the right one would be a literal as well
      rename_i op b hb
      obtain ⟨v, hv, -⟩ := Option.bind_eq_some_iff.1 hb
      have hright := h.noShortCircuit rfl (Option.isSome_iff_exists.2 ⟨b, hb⟩)
      obtain ⟨w, hw⟩ := Option.isSome_iff_exists.1 hright
      exact absurd hw (hne v w hv)
    · rfl

mutual

/-- Folding a normal expression changes nothing. -/
theorem Expr.fold_of_normal : ∀ {e : Expr}, e.Normal → e.fold = e
  | .lit _ _, _ | .ident _ _, _ => rfl
  | .binary n op l r, ⟨⟨hl, hr⟩, hstays⟩ => by
    rw [Expr.fold, Expr.fold_of_normal hl, Expr.fold_of_normal hr, hstays.foldBinary]
  | .unary n op e, ⟨he, hstays⟩ => by
    rw [Expr.fold, Expr.fold_of_normal he, hstays.foldUnary]
  | .call n c, hc => by rw [Expr.fold, Call.fold_of_normal hc]

/-- Folding a normal call changes nothing. -/
theorem Call.fold_of_normal : ∀ {c : Call}, c.Normal → c.fold = c
  | ⟨_, args, _⟩, h => by rw [Call.fold, foldAll_of_normalAll h]

/-- Folding a list of normal expressions changes nothing. -/
theorem foldAll_of_normalAll : ∀ {es : List Expr}, Expr.NormalAll es → foldAll es = es
  | [], _ => rfl
  | e :: es, ⟨he, hes⟩ => by rw [foldAll, Expr.fold_of_normal he, foldAll_of_normalAll hes]

end

/-! ## Folding twice -/

/-- Folding a folded expression changes nothing. -/
@[simp] theorem Expr.fold_fold (e : Expr) : e.fold.fold = e.fold :=
  Expr.fold_of_normal e.normal_fold

/-- Folding a folded call changes nothing. -/
@[simp] theorem Call.fold_fold (c : Call) : c.fold.fold = c.fold :=
  Call.fold_of_normal c.normal_fold

/-- Folding an expression that may be missing twice changes nothing. -/
@[simp] theorem map_fold_fold (o : Option Expr) :
    (o.map Expr.fold).map Expr.fold = o.map Expr.fold := by
  cases o with
  | none => rfl
  | some e => simp

/-- Folding reaches its fixed point in one application, whatever the expression is, and the
expressions that it leaves as they are, with every note and with the bits of every real, are the
normal ones. -/
theorem Expr.fold_settles (e : Expr) : e.fold.fold = e.fold ∧ (e.fold = e ↔ e.Normal) := by
  refine ⟨Expr.fold_of_normal e.normal_fold, fun h => ?_, Expr.fold_of_normal⟩
  rw [← h]
  exact e.normal_fold

end Procedural
