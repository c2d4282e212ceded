import Procedural.Proofs.Analysis.Alike
import Procedural.Proofs.Folding.Analyzed

/-! # Folding decides constants

A **constant** is made of literals and operators only. Its evaluation **comes to** a literal, or it
**traps** at an operation without a result, provided that its analysis reports nothing; then it
folds to that literal in the one case, and to something else than a literal in the other. So the
folder misses no operation that it could carry out, and a part that traps can only vanish where a
short circuit keeps it from being evaluated. -/

namespace Procedural

open Semantics Rules

/-! ## Constants -/

/-- The expression is made of literals and operators only. -/
inductive Expr.IsConstant : Expr → Prop where
  /-- A literal. -/
  | lit {n : Note} {v : Literal} : IsConstant (.lit n v)
  /-- A binary operator on constants. -/
  | binary {n : Note} {op : BinaryOp} {l r : Expr} :
    IsConstant l → IsConstant r → IsConstant (.binary n op l r)
  /-- A unary operator on a constant. -/
  | unary {n : Note} {op : UnaryOp} {e : Expr} : IsConstant e → IsConstant (.unary n op e)

namespace Expr.IsConstant

/-- No name occurs in a constant. -/
theorem names_eq_nil {e : Expr} (h : e.IsConstant) : e.names = [] := by
  induction h with
  | lit => rfl
  | binary _ _ hl hr => rw [Expr.names, hl, hr, List.append_nil]
  | unary _ he => exact he

/-- An expression in which no name occurs is a constant. -/
theorem of_names_eq_nil : ∀ {e : Expr}, e.names = [] → e.IsConstant
  | .lit _ _, _ => .lit
  | .ident _ _, h => nomatch h
  | .binary _ _ _ _, h => by
    obtain ⟨hl, hr⟩ := List.append_eq_nil_iff.1 h
    exact .binary (of_names_eq_nil hl) (of_names_eq_nil hr)
  | .unary _ _ _, h => .unary (of_names_eq_nil h)
  | .call _ ⟨_, _, _⟩, h => nomatch h

/-- The constants are the expressions in which no name occurs. -/
theorem iff_names_eq_nil {e : Expr} : e.IsConstant ↔ e.names = [] :=
  ⟨names_eq_nil, of_names_eq_nil⟩

instance : DecidablePred Expr.IsConstant := fun _ => decidable_of_iff _ iff_names_eq_nil.symm

/-- What differs from a constant in recorded types only is a constant. -/
theorem of_bare {e e' : Expr} (h : e.IsConstant) (hbare : e'.bare = e.bare) : e'.IsConstant := by
  induction h generalizing e' with
  | lit =>
    cases e' with
    | lit => exact .lit
    | _ => nomatch hbare
  | binary _ _ hl hr =>
    cases e' with
    | binary =>
      obtain ⟨-, -, hbareₗ, hbareᵣ⟩ := Expr.binary.inj hbare
      exact .binary (hl hbareₗ) (hr hbareᵣ)
    | _ => nomatch hbare
  | unary _ he =>
    cases e' with
    | unary =>
      obtain ⟨-, -, hbare⟩ := Expr.unary.inj hbare
      exact .unary (he hbare)
    | _ => nomatch hbare

/-- A folded constant is a constant. -/
theorem fold {e : Expr} (h : e.IsConstant) : e.fold.IsConstant := by
  induction h with
  | lit => exact .lit
  | binary _ _ hl hr =>
    exact foldBinary_elim (P := Expr.IsConstant) (fun _ => .lit) hl hr fun _ => .binary hl hr
  | unary _ he => exact foldUnary_elim (P := Expr.IsConstant) (fun _ => .lit) fun _ => .unary he

/-- If the analysis of a constant reports nothing, the constant has a type, whatever the names in
force stand for. -/
theorem typed {ctx c : Context} {e e' : Expr} (hconst : e.IsConstant)
    (h : e.analyze ctx = .ok e' c) (hlog : c.log = ctx.log) : ∃ t, Typed .empty e e' t := by
  -- without names the analysis goes in the same way where nothing is declared
  let ctx₀ : Context := { ctx with scopes := .empty }
  have halike : ctx.Alike [] ctx₀ :=
    { lookup := fun _ hy => nomatch hy
      lookupLocal := fun _ hy => nomatch hy
      isInLoop := rfl
      returns := rfl }
  have hnames : e.names ⊆ [] := List.subset_nil.2 hconst.names_eq_nil
  obtain ⟨bs, new, rfl, hsame⟩ := dependsOn_analyzeExpr e hnames h
  have hnew : new = [] := by
    change (ctx.bindAll bs).log ++ new = ctx.log at hlog
    rw [Context.log_bindAll] at hlog
    exact List.append_right_eq_self.1 hlog
  have hlog₀ : ((ctx₀.bindAll bs).tell new).log = ctx₀.log := by
    rw [hnew, Context.tell_nil, Context.log_bindAll]
  have hknown : ctx₀.env.names.Known := Names.Known.empty
  obtain ⟨-, t, he⟩ := analyzeExpr_sound e hknown (hsame ctx₀ halike)
    (Nat.le_of_eq (congrArg List.length hlog₀))
  exact ⟨t, he⟩

end Expr.IsConstant

/-! ## Evaluation with traps -/

namespace Semantics

/-- What an operation without a result raises. -/
def trap : Halt := .failure (.raised 0)

/-- The interpretation under which operations without a result trap. Constants do not ask it for
anything else. -/
def trapping : Interp where
  call _ _ store := .returned .unit store
  schedule _ _ _ store := store
  undefined _ _ _ := .error trap
  undefinedNeg _ := .error trap
  initial _ := .unit

/-- The quotient of two 64-bit integers is in range, except for that of the least one by `-1`. -/
theorem inRange_tdiv_iff {x y : Int64} (hy : y ≠ 0) :
    InRange (x.toInt.tdiv y.toInt) ↔ ¬(x = Int64.minValue ∧ y = -1) := by
  have hxmin : x = Int64.minValue ↔ x.toInt = -2 ^ 63 := by
    rw [← Int64.toInt_inj, Int64.toInt_minValue]
  have hyneg : y = -1 ↔ y.toInt = -1 := Int64.toInt_inj.symm
  have hyzero : y.toInt ≠ 0 := fun h => hy (Int64.toInt_inj.1 h)
  rw [InRange, Int64.toInt_minValue, Int64.toInt_maxValue, hxmin, hyneg]
  have hlo := Int64.le_toInt x
  have hhi := Int64.toInt_lt x
  have habs := Int.natAbs_tdiv x.toInt y.toInt
  generalize x.toInt = a, y.toInt = b at *
  by_cases hone : b.natAbs = 1
  · -- a quotient by `1` or `-1` is the dividend or its negative
    rcases Int.natAbs_eq_iff.1 hone with hb | hb
    · rw [hb, Nat.cast_one, Int.tdiv_one]
      omega
    · rw [hb, Nat.cast_one, Int.tdiv_neg, Int.tdiv_one]
      omega
  · -- any other quotient is at most half as large as the dividend
    have hhalf : a.natAbs / b.natAbs ≤ a.natAbs / 2 := Nat.div_le_div_left (by omega) (by omega)
    change _ = a.natAbs / b.natAbs at habs
    rw [← habs] at hhalf
    omega

/-- The remainder of two 64-bit integers is in range. -/
theorem inRange_tmod {x y : Int64} (hy : y ≠ 0) : InRange (x.toInt.tmod y.toInt) := by
  have hyzero : y.toInt ≠ 0 := fun h => hy (Int64.toInt_inj.1 h)
  have hlo := Int64.le_toInt y
  have hhi := Int64.toInt_lt y
  have habs := Int.natAbs_tmod x.toInt y.toInt
  have hsmall := Nat.mod_lt x.toInt.natAbs (Int.natAbs_pos.2 hyzero)
  rw [InRange, Int64.toInt_minValue, Int64.toInt_maxValue]
  rw [← habs] at hsmall
  omega

/-- Integer arithmetic comes to the 64-bit integer that is the exact result. -/
theorem onInts_eq_ok_iff {op : ArithOp} {x y v : Int64} :
    trapping.onInts op x y = .ok (.lit (.int v)) ↔
      intResult? op x.toInt y.toInt = some v.toInt := by
  have hbind : (intResult? op x.toInt y.toInt).bind Checked.ofInt? = some v ↔
      intResult? op x.toInt y.toInt = some v.toInt := by
    simp [Option.bind_eq_some_iff, Checked.ofInt?_eq_some_iff]
  rw [onInts_eq, onInt?_eq_bind, ← hbind]
  cases (intResult? op x.toInt y.toInt).bind Checked.ofInt? <;> simp [trapping]

/-- Integer arithmetic traps where there is no exact result, and where that is out of range. -/
theorem onInts_traps_iff {op : ArithOp} {x y : Int64} : trapping.onInts op x y = .error trap ↔
    ∀ z, intResult? op x.toInt y.toInt = some z → ¬InRange z := by
  rw [Interp.onInts]
  cases intResult? op x.toInt y.toInt with
  | none => exact iff_of_true rfl fun z hz => absurd hz.symm (Option.some_ne_none z)
  | some z =>
    by_cases hz : InRange z
    · simp [hz]
    · simp [hz, trapping]

/-- A quotient or a remainder of integers traps for a zero divisor, and where the least integer is
divided by `-1`. -/
theorem division_traps_iff {op : ArithOp} (hop : op = .div ∨ op = .rem) {x y : Int64} :
    trapping.onInts op x y = .error trap ↔ y = 0 ∨ (x = Int64.minValue ∧ y = -1) := by
  have hzero : y.toInt = 0 ↔ y = 0 := @Int64.toInt_inj y 0
  rw [onInts_traps_iff]
  by_cases hy : y = 0
  · have hnone : intResult? op x.toInt y.toInt = none := by
      rcases hop with rfl | rfl
      · exact if_pos (hzero.2 hy)
      · exact if_pos (.inl (hzero.2 hy))
    rw [hnone]
    exact iff_of_true (fun z hz => absurd hz.symm (Option.some_ne_none z)) (.inl hy)
  · have hquotient : (x = Int64.minValue ∧ y = -1) ↔ ¬InRange (x.toInt.tdiv y.toInt) := by
      rw [inRange_tdiv_iff hy, not_not]
    rw [or_iff_right hy, hquotient]
    rcases hop with rfl | rfl
    · simp [intResult?, hzero, hy]
    · -- a remainder is always in range, so it has a result exactly where the quotient is in range
      by_cases hrange : InRange (x.toInt.tdiv y.toInt)
      · simp [intResult?, hzero, hy, hrange, inRange_tmod hy]
      · simp [intResult?, hrange]

variable {I : Interp}

/-- An operator with a left operand that halts halts. -/
theorem combine_throw_left (op : BinaryOp) (halt : Halt) (r : Eval Value) :
    combine I op (throw halt) r = throw halt := by
  cases op with
  | arith | order | equality => rfl
  | logic op => cases op <;> rfl

/-- An operator other than a logic one with a right operand that halts halts. -/
theorem combine_throw_right {op : BinaryOp} (hop : op.isLogic = false) (v : Value) (halt : Halt) :
    combine I op (pure v) (throw halt) = throw halt := by
  cases op with
  | logic => nomatch hop
  | arith | order | equality => rfl

end Semantics

/-- The evaluation of the expression traps. -/
def Expr.Traps (e : Expr) : Prop := e.eval trapping = throw trap

/-- The evaluation of the expression comes to the literal, and has no effect. -/
def Expr.ComesTo (e : Expr) (v : Literal) : Prop := e.eval trapping = pure (.lit v)

namespace Expr

/-- A literal comes to itself. -/
theorem comesTo_lit (n : Note) (v : Literal) : (Expr.lit n v).ComesTo v := rfl

/-- What comes to a literal does not trap. -/
theorem ComesTo.not_traps {e : Expr} {v : Literal} (h : e.ComesTo v) : ¬e.Traps := by
  intro htraps
  have heq : (pure (.lit v) : Eval Value) = throw trap := h.symm.trans htraps
  nomatch congrFun heq ⟨[], []⟩

/-- A unary operator traps with its operand. -/
theorem Traps.unary {n : Note} {op : UnaryOp} {e : Expr} (h : e.Traps) :
    (Expr.unary n op e).Traps := by
  rw [Expr.Traps, Expr.eval, h]
  rfl

/-- A binary operator traps with its left operand, whatever the right one is. -/
theorem Traps.binary_left {n : Note} {op : BinaryOp} {l : Expr} (h : l.Traps) (r : Expr) :
    (Expr.binary n op l r).Traps := by
  rw [Expr.Traps, Expr.eval, h, combine_throw_left]

/-- An operator that looks at both operands traps with its right one. -/
theorem Traps.binary_right {n m : Note} {op : BinaryOp} {r : Expr} (h : r.Traps)
    (hop : op.isLogic = false) (v : Literal) : (Expr.binary n op (.lit m v) r).Traps := by
  rw [Expr.Traps, Expr.eval, h, Expr.eval, combine_throw_right hop]

end Expr

/-! ## Operators without a result -/

/-- Answering tells apart what is answered. -/
theorem answer_injective : Function.Injective (answer : Except Halt Value → Eval Value) := by
  intro r r' h
  have hrun : answer r ⟨[], []⟩ = answer r' ⟨[], []⟩ := congrFun h ⟨[], []⟩
  cases r <;> cases r'
  · exact congrArg Except.error (EStateM.Result.error.inj hrun).1
  · nomatch hrun
  · nomatch hrun
  · exact congrArg Except.ok (EStateM.Result.ok.inj hrun).1

/-- Arithmetic on expressions that come to integers evaluates as it does on the integers. -/
theorem Expr.eval_arith {n : Note} {op : ArithOp} {l r : Expr} {x y : Int64}
    (hl : l.ComesTo (.int x)) (hr : r.ComesTo (.int y)) :
    (Expr.binary n (.arith op) l r).eval trapping = answer (trapping.onInts op x y) := by
  rw [Expr.eval, hl, hr]
  rfl

/-- Arithmetic on expressions that come to integers traps as it does on the integers. -/
theorem Expr.traps_arith_iff {n : Note} {op : ArithOp} {l r : Expr} {x y : Int64}
    (hl : l.ComesTo (.int x)) (hr : r.ComesTo (.int y)) :
    (Expr.binary n (.arith op) l r).Traps ↔ trapping.onInts op x y = .error trap := by
  rw [Expr.Traps, Expr.eval_arith hl hr]
  exact answer_injective.eq_iff' rfl

/-- Arithmetic on expressions that come to integers comes to the exact result on the integers. -/
theorem Expr.comesTo_arith_iff {n : Note} {op : ArithOp} {l r : Expr} {x y v : Int64}
    (hl : l.ComesTo (.int x)) (hr : r.ComesTo (.int y)) :
    (Expr.binary n (.arith op) l r).ComesTo (.int v) ↔
      intResult? op x.toInt y.toInt = some v.toInt := by
  rw [Expr.ComesTo, Expr.eval_arith hl hr, ← onInts_eq_ok_iff]
  exact answer_injective.eq_iff' rfl

/-- A binary operator other than an arithmetic one has a result on literals of the right types. -/
theorem isSome_binary? {op : BinaryOp} {v w : Literal} {t : Ty} (harith : op.isArithmetic = false)
    (hop : BinaryType op v.ty w.ty t) : (Literal.binary? op v w).isSome = true := by
  generalize hs : v.ty = t₁, ht : w.ty = t₂ at hop
  cases hop with
  | integers | realLeft | realRight => nomatch harith
  | order hv hw | equalNumbers hv hw =>
    subst hs ht
    rcases literal_of_numeric hv with ⟨x, rfl⟩ | ⟨x, rfl⟩ <;>
      rcases literal_of_numeric hw with ⟨y, rfl⟩ | ⟨y, rfl⟩ <;> rfl
  | equalSame =>
    subst hs
    cases v <;> cases w <;> first | rfl | nomatch ht
  | logic =>
    -- both literals are boolean
    cases v <;> cases hs
    cases w <;> cases ht
    rfl

/-- A binary operator that has no result on literals of the right types traps. -/
theorem combine_of_binary?_none {op : BinaryOp} {v w : Literal} {t : Ty}
    (hop : BinaryType op v.ty w.ty t) (hnone : Literal.binary? op v w = none) :
    combine trapping op (pure (.lit v)) (pure (.lit w)) = throw trap := by
  cases op with
  | arith op =>
    obtain ⟨hv, hw, -⟩ := hop.arith_inv
    have hnone : Literal.arith? op v w = none := hnone
    simp only [combine, pure_bind, arith_eq hv hw, hnone]
    rfl
  | order | equality | logic =>
    have hsome := isSome_binary? rfl hop
    rw [hnone] at hsome
    exact absurd hsome Bool.false_ne_true

/-- A unary operator that has no result on a literal of the right type traps. -/
theorem unary_of_unary?_none {op : UnaryOp} {v : Literal} {t : Ty} (hop : UnaryType op v.ty t)
    (hnone : Literal.unary? op v = none) : trapping.unary op (.lit v) = .error trap := by
  generalize hs : v.ty = s at hop
  cases hop with
  | neg hv =>
    subst hs
    rcases literal_of_numeric hv with ⟨x, rfl⟩ | ⟨x, rfl⟩
    · rw [neg_eq, Option.map_eq_none_iff.1 hnone]
      rfl
    · nomatch hnone
  | not =>
    cases v <;> cases hs
    nomatch hnone

/-- A logic operator that stays has no literal on its left, unless there is one on its right. -/
theorem BinaryOp.Stays.isLogic_eq_false {op : BinaryOp} {n : Note} {v : Literal} {r : Expr}
    {t₂ t : Ty} (h : op.Stays (.lit n v) r) (hop : BinaryType op v.ty t₂ t) (hr : r.Traps) :
    op.isLogic = false := by
  cases op with
  | logic op =>
    generalize hs : v.ty = s at hop
    cases hop
    cases v <;> cases hs
    -- so there would be a literal on the right as well, and literals do not trap
    obtain ⟨w, hw⟩ := Option.isSome_iff_exists.1 (h.noShortCircuit rfl rfl)
    obtain ⟨m, rfl⟩ := Expr.literal?_eq_some_iff.1 hw
    exact absurd hr (Expr.comesTo_lit m w).not_traps
  | arith | order | equality => rfl

/-! ## Main result -/

variable {M : Note → Ty → Prop} {Γ : Names}

/-- A well-typed constant in which there is nothing to fold is a literal or traps. -/
theorem Expr.IsConstant.literal_or_traps {e : Expr} {t : Ty} (hconst : e.IsConstant)
    (he : HasType M Γ e t) (hnormal : e.Normal) : (∃ n v, e = .lit n v) ∨ e.Traps := by
  -- an operator that is left traps on literals, and otherwise at the first operand that traps
  induction hconst generalizing t with
  | @lit n v => exact .inl ⟨n, v, rfl⟩
  | @unary n op e _ ih =>
    refine .inr ?_
    obtain ⟨hnormal, hstays⟩ := hnormal
    cases he with
    | unary he hop =>
      rcases ih he hnormal with ⟨m, v, rfl⟩ | htraps
      · obtain rfl := he.ty_of_literal? rfl
        rw [Expr.Traps, Expr.eval, Expr.eval_lit, pure_bind,
          unary_of_unary?_none hop (hstays v rfl)]
        rfl
      · exact htraps.unary
  | @binary n op l r _ _ ihl ihr =>
    refine .inr ?_
    obtain ⟨⟨hnormalₗ, hnormalᵣ⟩, hstays⟩ := hnormal
    cases he with
    | binary hl hr hop =>
      rcases ihl hl hnormalₗ with ⟨m, v, rfl⟩ | htraps
      · obtain rfl := hl.ty_of_literal? rfl
        rcases ihr hr hnormalᵣ with ⟨m', w, rfl⟩ | htraps
        · obtain rfl := hr.ty_of_literal? rfl
          exact combine_of_binary?_none hop (hstays.noResult v w rfl rfl)
        · exact htraps.binary_right (hstays.isLogic_eq_false hop htraps) v
      · exact htraps.binary_left r

/-- If the analysis of a constant reports nothing, it folds to a literal exactly if its evaluation
does not trap, and then to the literal that the evaluation comes to, which records the type found
for the constant. Arithmetic on integers comes to the exact result and traps exactly where there is
none in the range of 64 bits; a quotient or a remainder does so for a zero divisor, and where the
least integer is divided by `-1`. -/
theorem fold_decides_constants {ctx c : Context} {e e' : Expr} (hconst : e.IsConstant)
    (h : e.analyze ctx = .ok e' c) (hlog : c.log = ctx.log) :
    ((∃ n v, e'.fold = .lit n v) ↔ ¬e.Traps) ∧
      (∀ n v, e'.fold = .lit n v → e.ComesTo v ∧ n.ty = e'.ty? ∧ n.ty = some v.ty) ∧
      ∀ n op l r x y, e = .binary n (.arith op) l r → l.ComesTo (.int x) → r.ComesTo (.int y) →
        (∀ v : Int64, e.ComesTo (.int v) ↔ intResult? op x.toInt y.toInt = some v.toInt) ∧
        (e.Traps ↔ ∀ z, intResult? op x.toInt y.toInt = some z → ¬InRange z) ∧
        (op = .div ∨ op = .rem → (e.Traps ↔ y = 0 ∨ (x = Int64.minValue ∧ y = -1))) := by
  obtain ⟨t, he⟩ := hconst.typed h hlog
  have hnoted := he.noted.fold allowsTyped_typedNote
  -- neither folding nor the types found change what the evaluation comes to
  have heval : e'.fold.eval trapping = e.eval trapping := by
    rw [eval_fold allowsTyped_typedNote he.noted, Expr.eval_eq_of_bare he.bare]
  have hvalue {n : Note} {v : Literal} (hlit : e'.fold = .lit n v) : e.ComesTo v := by
    rw [Expr.ComesTo, ← heval, hlit, Expr.eval_lit]
  refine ⟨⟨?_, fun htraps => ?_⟩, fun n v hlit => ⟨hvalue hlit, ?_, ?_⟩, ?_⟩
  · rintro ⟨n, v, hlit⟩
    exact (hvalue hlit).not_traps
  · have hfolded := (hconst.of_bare he.bare).fold
    rcases hfolded.literal_or_traps hnoted e'.normal_fold with hlit | htraps'
    · exact hlit
    · exact absurd (heval.symm.trans htraps') htraps
  · rw [hlit] at hnoted
    exact hnoted.note.trans he.noted.ty?_eq.symm
  · rw [hlit] at hnoted
    obtain rfl := hnoted.ty_of_literal? rfl
    exact hnoted.note
  · rintro n op l r x y rfl hl hr
    rw [Expr.traps_arith_iff hl hr]
    exact ⟨fun v => Expr.comesTo_arith_iff hl hr, onInts_traps_iff,
      fun hop => division_traps_iff hop⟩

/-- The constant `false && 1 / 0 == 1 || 7 / 2 < 4`, with types recorded as `t` has it. -/
def guardedConstant (t : Ty → Option Ty) : Expr :=
  let s : Span := ⟨0, 0⟩
  let number (v : Int64) : Expr := .lit ⟨s, t .int⟩ (.int v)
  let quotient (v w : Int64) : Expr := .binary ⟨s, t .int⟩ (.arith .div) (number v) (number w)
  let test : Expr := .binary ⟨s, t .bool⟩ (.equality .eq) (quotient 1 0) (number 1)
  .binary ⟨s, t .bool⟩ (.logic .or)
    (.binary ⟨s, t .bool⟩ (.logic .and) (.lit ⟨s, t .bool⟩ (.bool false)) test)
    (.binary ⟨s, t .bool⟩ (.order .lt) (quotient 7 2) (number 4))

/-- The constant `-9223372036854775807 - 1`, with types recorded as `t` has it. -/
def leastNumber (t : Ty → Option Ty) : Expr :=
  let n : Note := ⟨⟨0, 0⟩, t .int⟩
  .binary n (.arith .sub) (.unary n .neg (.lit n (.int Int64.maxValue))) (.lit n (.int 1))

/-- The constant `(-9223372036854775807 - 1) % -1`, with types recorded as `t` has it. -/
def leastRemainder (t : Ty → Option Ty) : Expr :=
  let n : Note := ⟨⟨0, 0⟩, t .int⟩
  .binary n (.arith .rem) (leastNumber t) (.unary n .neg (.lit n (.int 1)))

/-- The one comes to a literal, because the quotient by zero is not evaluated, and the other traps,
because the least integer cannot be divided by `-1`, and so is not folded to a literal. -/
theorem fold_decides_guardedConstant : (guardedConstant fun _ => none).ComesTo (.bool true) ∧
    (leastRemainder fun _ => none).Traps ∧ ¬∃ n v, (leastRemainder some).fold = .lit n v := by
  refine ⟨?_, ?_⟩
  · have hconst : (guardedConstant fun _ => none).IsConstant := by decide
    have hrun : (guardedConstant fun _ => none).analyze .initial =
        .ok (guardedConstant some) .initial := rfl
    exact ((fold_decides_constants hconst hrun rfl).2.1 ⟨⟨0, 0⟩, some .bool⟩ (.bool true) rfl).1
  · have hconst : (leastRemainder fun _ => none).IsConstant := by decide
    have hrun : (leastRemainder fun _ => none).analyze .initial =
        .ok (leastRemainder some) .initial := rfl
    obtain ⟨hliteral, -, harith⟩ := fold_decides_constants hconst hrun rfl
    have hleast : (leastNumber fun _ => none).ComesTo (.int Int64.minValue) := rfl
    have hdivision := (harith _ .rem _ _ _ _ rfl hleast rfl).2.2 (.inr rfl)
    have htraps := hdivision.2 (.inr ⟨rfl, rfl⟩)
    exact ⟨htraps, fun hlit => hliteral.1 hlit htraps⟩

end Procedural
