import Procedural.Proofs.Analysis.Balance
import Procedural.Proofs.Analysis.Growth
import Procedural.Proofs.Rules.Known
import Mathlib.Data.List.Forall2

/-! # Checks of analyzed operands

The checks that an operator, a call or a return makes of operands whose types are known. If such a
check reports nothing, its rule applies and the operands stay as they are (`…_sound`), and where the
rule applies the check reports nothing (`…_complete`). -/

namespace Procedural

open Rules

variable {ctx c : Context}

/-! ## Demands -/

/-- The type that is read is the recorded one. -/
theorem resolved_of_ty? {e : Expr} {t : Ty} (h : e.ty? = some t) : e.resolved ctx = .ok t ctx := by
  unfold Expr.resolved
  rw [h]

/-- A demand that reports nothing is met, and the expression keeps its type. -/
theorem require_sound {e e' : Expr} {d : Demand} {t : Ty} {ok : Bool} (he : e.ty? = some t)
    (ht : t.Known) (h : e.require d ctx = .ok (ok, e') c) (hlog : c.log.length ≤ ctx.log.length) :
    c = ctx ∧ e' = e ∧ ok = true ∧ d.admits t = true := by
  unfold Expr.require at h
  rw [bind_of_ok (resolved_of_ty? he), ht.isError] at h
  cases hd : d.admits t with
  | true =>
    rw [hd] at h
    cases h
    exact ⟨rfl, rfl, rfl, rfl⟩
  | false =>
    rw [hd] at h
    cases h
    exact absurd hlog (Context.not_quiet_report (Nat.le_refl _))

/-- A demand that is met reports nothing. -/
theorem require_complete {e : Expr} {d : Demand} {t : Ty} (he : e.ty? = some t)
    (hd : d.admits t = true) : e.require d ctx = .ok (!t.isError, e) ctx := by
  unfold Expr.require
  rw [bind_of_ok (resolved_of_ty? he), hd]
  cases t.isError <;> rfl

/-- A demand on two operands that reports nothing is met by both, and both keep their types. -/
theorem requireBoth_sound {l r l' r' : Expr} {d : Demand} {t₁ t₂ : Ty} {ok₁ ok₂ : Bool}
    (hl : l.ty? = some t₁) (hr : r.ty? = some t₂) (h₁ : t₁.Known) (h₂ : t₂.Known)
    (h : requireBoth d l r ctx = .ok ((ok₁, l'), ok₂, r') c)
    (hlog : c.log.length ≤ ctx.log.length) :
    (c = ctx ∧ l' = l ∧ r' = r) ∧ (ok₁ = true ∧ ok₂ = true) ∧
      d.admits t₁ = true ∧ d.admits t₂ = true := by
  obtain ⟨⟨ok, e⟩, c₁, hreq₁, h⟩ := of_bind_ok h
  obtain ⟨⟨ok', e'⟩, c₂, hreq₂, h⟩ := of_bind_ok h
  cases h
  -- the log is no longer at the end, so it was no longer after the left operand
  have hgrow₁ := (grows_require l d).length_le hreq₁
  have hgrow₂ := (grows_require r d).length_le hreq₂
  have hquiet₁ : c₁.log.length ≤ ctx.log.length := by omega
  have hquiet₂ : c.log.length ≤ c₁.log.length := by omega
  obtain ⟨rfl, rfl, rfl, hd₁⟩ := require_sound hl h₁ hreq₁ hquiet₁
  obtain ⟨rfl, rfl, rfl, hd₂⟩ := require_sound hr h₂ hreq₂ hquiet₂
  exact ⟨⟨rfl, rfl, rfl⟩, ⟨rfl, rfl⟩, hd₁, hd₂⟩

/-- A demand that two operands meet reports nothing. -/
theorem requireBoth_complete {l r : Expr} {d : Demand} {t₁ t₂ : Ty} (hl : l.ty? = some t₁)
    (hr : r.ty? = some t₂) (h₁ : d.admits t₁ = true) (h₂ : d.admits t₂ = true) :
    requireBoth d l r ctx = .ok ((!t₁.isError, l), !t₂.isError, r) ctx := by
  unfold requireBoth
  rw [bind_of_ok (require_complete hl h₁), bind_of_ok (require_complete hr h₂)]
  rfl

/-! ## What demands ask -/

/-- The types of numbers are those that count as arithmetic. -/
theorem numeric_iff {t : Ty} : Numeric t ↔ t.isArithmetic = true := by
  rw [Ty.isArithmetic_iff]
  constructor
  · rintro (_ | _)
    · exact .inl rfl
    · exact .inr rfl
  · rintro (rfl | rfl)
    · exact .int
    · exact .real

/-- A demand for a number admits the types of numbers. -/
theorem Demand.admits_arithmetic {label : String} {t : Ty} :
    (arithmetic label).admits t = true ↔ Numeric t :=
  numeric_iff.symm

/-- A demand for a truth value admits the type of truth values only. -/
theorem Demand.admits_boolean {label : String} {t : Ty} :
    (boolean label).admits t = true ↔ t = .bool :=
  Ty.isBoolean_iff

/-- A value that fits is accepted. -/
theorem accepts_of_fits {s t : Ty} (h : Fits s t) : t.accepts s = true := by
  cases h with
  | same => simp [Ty.accepts]
  | widen => rfl

/-- A demand for a value to store admits the types that fit. -/
theorem Demand.admits_of_fits {label : String} {s t : Ty} (h : Fits s t) :
    (assignable label t).admits s = true :=
  accepts_of_fits h

/-- A value of a known type that is accepted fits, unless it is not known what is declared. -/
theorem error_or_fits_of_accepts {s t : Ty} (hs : s.Known) (h : t.accepts s = true) :
    t = .error ∨ Fits s t := by
  simp only [Ty.accepts, hs.isError, Bool.or_false, Bool.or_eq_true, Bool.and_eq_true,
    beq_iff_eq, Ty.isError_iff] at h
  obtain (rfl | ⟨rfl, rfl⟩) | rfl := h
  · exact .inl rfl
  · exact .inr .widen
  · exact .inr .same

/-- A value of a known type that is accepted where a known type is declared fits there. -/
theorem fits_of_accepts {s t : Ty} (hs : s.Known) (ht : t.Known) (h : t.accepts s = true) :
    Fits s t :=
  (error_or_fits_of_accepts hs h).resolve_left ht.ne_error

/-- Two numbers give a number of the type that arithmetic on them has. -/
theorem binaryType_arith {op : ArithOp} {t₁ t₂ : Ty} (h₁ : Numeric t₁) (h₂ : Numeric t₂) :
    BinaryType (.arith op) t₁ t₂ (t₁.arithmeticResult t₂) :=
  BinaryType.iff_kind.2 (.inl ⟨rfl, h₁, h₂, rfl⟩)

/-! ## Operators -/

/-- A binary operator that is checked without reports obeys its rule. -/
theorem checkBinary_sound {op : BinaryOp} {l r l' r' : Expr} {t₁ t₂ t : Ty}
    (hl : l.ty? = some t₁) (hr : r.ty? = some t₂) (h₁ : t₁.Known) (h₂ : t₂.Known)
    (h : checkBinary op l r ctx = .ok (t, l', r') c) (hlog : c.log.length ≤ ctx.log.length) :
    (c = ctx ∧ l' = l ∧ r' = r) ∧ BinaryType op t₁ t₂ t := by
  cases op with
  | arith op =>
    obtain ⟨⟨⟨ok₁, e₁⟩, ok₂, e₂⟩, c₁, hboth, h⟩ := of_bind_ok h
    obtain ⟨s₁, c₂, hres₁, h⟩ := of_bind_ok h
    obtain ⟨s₂, c₃, hres₂, h⟩ := of_bind_ok h
    cases h
    have hgrow₁ := (grows_resolved _).length_le hres₁
    have hgrow₂ := (grows_resolved _).length_le hres₂
    have hquiet : c₁.log.length ≤ ctx.log.length := by omega
    obtain ⟨⟨rfl, rfl, rfl⟩, -, hn₁, hn₂⟩ := requireBoth_sound hl hr h₁ h₂ hboth hquiet
    -- the demands left the operands alone, so the types found again are the same
    rw [resolved_of_ty? hl] at hres₁
    cases hres₁
    rw [resolved_of_ty? hr] at hres₂
    cases hres₂
    exact ⟨⟨rfl, rfl, rfl⟩,
      binaryType_arith (Demand.admits_arithmetic.1 hn₁) (Demand.admits_arithmetic.1 hn₂)⟩
  | order op =>
    obtain ⟨⟨⟨ok₁, e₁⟩, ok₂, e₂⟩, c₁, hboth, h⟩ := of_bind_ok h
    cases h
    obtain ⟨hsame, -, hn₁, hn₂⟩ := requireBoth_sound hl hr h₁ h₂ hboth hlog
    exact ⟨hsame, .order (Demand.admits_arithmetic.1 hn₁) (Demand.admits_arithmetic.1 hn₂)⟩
  | equality op =>
    rw [checkBinary] at h
    rw [bind_of_ok (resolved_of_ty? hl), bind_of_ok (resolved_of_ty? hr), h₁.isError,
      Bool.false_or] at h
    split at h
    · -- two numbers, or two values of one type
      rename_i hcomp
      cases h
      simp only [Ty.comparable, Bool.or_eq_true, Bool.and_eq_true, beq_iff_eq] at hcomp
      obtain ⟨hn₂, hn₁⟩ | rfl := hcomp
      · exact ⟨⟨rfl, rfl, rfl⟩, .equalNumbers (numeric_iff.2 hn₁) (numeric_iff.2 hn₂)⟩
      · exact ⟨⟨rfl, rfl, rfl⟩, .equalSame⟩
    · rename_i hcomp
      obtain ⟨⟨ok, e⟩, c₁, hreq, h⟩ := of_bind_ok h
      cases h
      obtain ⟨-, -, -, haccepts⟩ := require_sound hr h₂ hreq hlog
      -- what is accepted is comparable, so the demand would not have been placed
      cases fits_of_accepts h₂ h₁ haccepts with
      | same => exact absurd (by simp [Ty.comparable]) hcomp
      | widen => exact absurd (by rfl) hcomp
  | logic op =>
    obtain ⟨⟨⟨ok₁, e₁⟩, ok₂, e₂⟩, c₁, hboth, h⟩ := of_bind_ok h
    cases h
    obtain ⟨hsame, ⟨rfl, rfl⟩, hb₁, hb₂⟩ := requireBoth_sound hl hr h₁ h₂ hboth hlog
    obtain rfl := Demand.admits_boolean.1 hb₁
    obtain rfl := Demand.admits_boolean.1 hb₂
    exact ⟨hsame, .logic⟩

/-- A binary operator that obeys its rule is checked without reports. -/
theorem checkBinary_complete {op : BinaryOp} {l r : Expr} {t₁ t₂ t : Ty} (hl : l.ty? = some t₁)
    (hr : r.ty? = some t₂) (h : BinaryType op t₁ t₂ t) :
    checkBinary op l r ctx = .ok (t, l, r) ctx := by
  -- each rule gives what the demands of its operator ask for
  cases op with
  | arith op =>
    obtain ⟨hn₁, hn₂, rfl⟩ := h.arith_inv
    rw [checkBinary]
    rw [bind_of_ok (requireBoth_complete hl hr (Demand.admits_arithmetic.2 hn₁)
        (Demand.admits_arithmetic.2 hn₂))]
    show (l.resolved >>= fun _ => _) ctx = _
    rw [bind_of_ok (resolved_of_ty? hl), bind_of_ok (resolved_of_ty? hr)]
    rfl
  | order op =>
    cases h with
    | order hn₁ hn₂ =>
      rw [checkBinary]
      rw [bind_of_ok (requireBoth_complete hl hr (Demand.admits_arithmetic.2 hn₁)
        (Demand.admits_arithmetic.2 hn₂))]
      rfl
  | equality op =>
    have hcomp : t₂.comparable t₁ = true ∧ t = .bool := by
      cases h with
      | equalNumbers hn₁ hn₂ => exact ⟨by simp [Ty.comparable, numeric_iff.1 hn₁,
          numeric_iff.1 hn₂], rfl⟩
      | equalSame => exact ⟨by simp [Ty.comparable], rfl⟩
    obtain ⟨hcomp, rfl⟩ := hcomp
    rw [checkBinary]
    rw [bind_of_ok (resolved_of_ty? hl), bind_of_ok (resolved_of_ty? hr), hcomp, Bool.or_true]
    rfl
  | logic op =>
    cases h with
    | logic =>
      rw [checkBinary]
      rw [bind_of_ok (requireBoth_complete hl hr (Demand.admits_boolean.2 rfl)
        (Demand.admits_boolean.2 rfl))]
      rfl

/-- A unary operator that is checked without reports obeys its rule. -/
theorem checkUnary_sound {op : UnaryOp} {e e' : Expr} {t₁ t : Ty} (he : e.ty? = some t₁)
    (h₁ : t₁.Known) (h : checkUnary op e ctx = .ok (t, e') c)
    (hlog : c.log.length ≤ ctx.log.length) : (c = ctx ∧ e' = e) ∧ UnaryType op t₁ t := by
  cases op with
  | neg =>
    obtain ⟨⟨ok, e₁⟩, c₁, hreq, h⟩ := of_bind_ok h
    obtain ⟨s, c₂, hres, h⟩ := of_bind_ok h
    cases h
    have hgrow := (grows_resolved _).length_le hres
    have hquiet : c₁.log.length ≤ ctx.log.length := by omega
    obtain ⟨rfl, rfl, -, hn⟩ := require_sound he h₁ hreq hquiet
    rw [resolved_of_ty? he] at hres
    cases hres
    exact ⟨⟨rfl, rfl⟩, .neg (Demand.admits_arithmetic.1 hn)⟩
  | not =>
    obtain ⟨⟨ok, e₁⟩, c₁, hreq, h⟩ := of_bind_ok h
    cases h
    obtain ⟨rfl, rfl, rfl, hb⟩ := require_sound he h₁ hreq hlog
    obtain rfl := Demand.admits_boolean.1 hb
    exact ⟨⟨rfl, rfl⟩, .not⟩

/-- A unary operator that obeys its rule is checked without reports. -/
theorem checkUnary_complete {op : UnaryOp} {e : Expr} {t₁ t : Ty} (he : e.ty? = some t₁)
    (h : UnaryType op t₁ t) : checkUnary op e ctx = .ok (t, e) ctx := by
  cases h with
  | neg hn =>
    rw [checkUnary]
    rw [bind_of_ok (require_complete he (Demand.admits_arithmetic.2 hn))]
    show (e.resolved >>= fun _ => _) ctx = _
    rw [bind_of_ok (resolved_of_ty? he)]
    rfl
  | not =>
    rw [checkUnary]
    rw [bind_of_ok (require_complete he (Demand.admits_boolean.2 rfl))]
    rfl

/-! ## Names -/

/-- A name that is not reported as undeclared stands for what it is resolved to. -/
theorem resolve_sound {x : String} {s : Span} {o : Option Entity}
    (h : resolve x s ctx = .ok o c) (hlog : c.log.length ≤ ctx.log.length) :
    c = ctx ∧ ∃ e, o = some e ∧ ctx.env.names.lookup x = some e.meaning := by
  unfold resolve at h
  split at h
  · rename_i e he
    cases h
    have hlookup := Scopes.lookup_names ctx.scopes x
    rw [he] at hlookup
    exact ⟨rfl, e, rfl, hlookup⟩
  · cases h
    exact absurd hlog (Context.not_quiet_report (Nat.le_refl _))

/-- A name that stands for something is resolved to that without a report. -/
theorem resolve_complete {x : String} {s : Span} {m : Meaning}
    (h : ctx.env.names.lookup x = some m) :
    ∃ e, e.meaning = m ∧ resolve x s ctx = .ok (some e) ctx := by
  have hlookup : ctx.env.names.lookup x = (ctx.scopes.lookup x).map Entity.meaning :=
    Scopes.lookup_names ctx.scopes x
  -- the rules keep less of an entity than the scopes do, so the entity has to be found again
  rw [h, eq_comm, Option.map_eq_some_iff] at hlookup
  obtain ⟨e, he, rfl⟩ := hlookup
  refine ⟨e, rfl, ?_⟩
  unfold resolve
  rw [he]

/-- A name that is checked without reports is a variable or parameter of the type found. -/
theorem checkIdent_sound {x : String} {s : Span} {t : Ty} (h : checkIdent x s ctx = .ok t c)
    (hlog : c.log.length ≤ ctx.log.length) :
    c = ctx ∧ ctx.env.names.lookup x = some (.place t) := by
  obtain ⟨o, c₁, hres, h⟩ := of_bind_ok h
  have hgrow : c₁.log.length ≤ c.log.length :=
    (grows_ofEntity (fun _ => .pure _) o).length_le h
  have hquiet : c₁.log.length ≤ ctx.log.length := by omega
  obtain ⟨rfl, e, rfl, hx⟩ := resolve_sound hres hquiet
  dsimp only at h
  split at h
  · rename_i hvalue
    cases h
    rw [hx, Entity.meaning, if_pos hvalue]
    exact ⟨rfl, rfl⟩
  · cases h
    exact absurd hlog (Context.not_quiet_report (Nat.le_refl _))

/-- The name of a variable or parameter is checked without reports. -/
theorem checkIdent_complete {x : String} {s : Span} {t : Ty}
    (h : ctx.env.names.lookup x = some (.place t)) : checkIdent x s ctx = .ok t ctx := by
  obtain ⟨e, he, hres⟩ := resolve_complete (s := s) h
  obtain ⟨hvalue, rfl⟩ := Entity.meaning_eq_place_iff.1 he
  unfold checkIdent
  rw [bind_of_ok hres]
  show (if e.isValue then _ else _ : Check Ty) ctx = _
  rw [if_pos hvalue]
  rfl

/-! ## Arguments -/

/-- Arguments that are checked without reports fit the parameters. -/
theorem requireArgs_sound {f : String} {es es' : List Expr} {ss ts : List Ty} {i : Nat}
    (hes : List.Forall₂ (fun e s => e.ty? = some s ∧ s.Known) es ss) (hts : ∀ t ∈ ts, t.Known)
    (hlen : ts.length = es.length) (h : requireArgs f i es ts ctx = .ok es' c)
    (hlog : c.log.length ≤ ctx.log.length) :
    (c = ctx ∧ es' = es) ∧ List.Forall₂ Fits ss ts := by
  induction hes generalizing ts i es' c ctx with
  | nil =>
    obtain rfl := List.eq_nil_of_length_eq_zero hlen
    cases h
    exact ⟨⟨rfl, rfl⟩, .nil⟩
  | @cons e s es ss he hes ih =>
    cases ts with
    | nil => nomatch hlen
    | cons t ts =>
      -- an argument and its parameter, and then those after them
      obtain ⟨ht, hts⟩ := List.forall_mem_cons.1 hts
      obtain ⟨⟨ok, e'⟩, c₁, hreq, h⟩ := of_bind_ok h
      obtain ⟨es', c₂, hrest, h⟩ := of_bind_ok h
      cases h
      have hgrow₁ := (grows_require ..).length_le hreq
      have hgrow₂ := (grows_requireArgs ..).length_le hrest
      have hquiet₁ : c₁.log.length ≤ ctx.log.length := by omega
      have hquiet₂ : c.log.length ≤ c₁.log.length := by omega
      obtain ⟨rfl, rfl, -, haccepts⟩ := require_sound he.1 he.2 hreq hquiet₁
      obtain ⟨⟨rfl, rfl⟩, hfits⟩ := ih hts (Nat.succ.inj hlen) hrest hquiet₂
      exact ⟨⟨rfl, rfl⟩, .cons (fits_of_accepts he.2 ht haccepts) hfits⟩

/-- Arguments that fit the parameters are checked without reports. -/
theorem requireArgs_complete {f : String} {es : List Expr} {ss ts : List Ty} {i : Nat}
    (hes : List.Forall₂ (fun e s => e.ty? = some s) es ss) (h : List.Forall₂ Fits ss ts) :
    requireArgs f i es ts ctx = .ok es ctx := by
  induction hes generalizing ts i with
  | nil => rfl
  | cons he hes ih =>
    obtain - | ⟨hfits, hrest⟩ := h
    unfold requireArgs
    rw [bind_of_ok (require_complete he (Demand.admits_of_fits hfits))]
    refine (bind_of_ok (ih hrest)).trans ?_
    rfl

/-- A call that is checked without reports is one of a function whose parameters the arguments fit.
-/
theorem checkCall_sound {f : String} {sp : Span} {entity : Entity} {es es' : List Expr}
    {ss : List Ty} {t : Ty} (hes : List.Forall₂ (fun e s => e.ty? = some s ∧ s.Known) es ss)
    (hentity : entity.ty.Known) (h : checkCall f sp (some entity) es ctx = .ok (t, es') c)
    (hlog : c.log.length ≤ ctx.log.length) :
    (c = ctx ∧ es' = es) ∧ ∃ params, entity.ty = .fn params t ∧ List.Forall₂ Fits ss params := by
  obtain ⟨role, ty, span⟩ := entity
  cases ty with
  | fn params result =>
    change (if _ then _ else _ : Check (Ty × List Expr)) ctx = _ at h
    split at h
    · rename_i hlen
      obtain ⟨es', c₁, hargs, h⟩ := of_bind_ok h
      cases h
      have hparams := (Ty.known_fn.1 hentity).1
      obtain ⟨hsame, hfits⟩ := requireArgs_sound hes hparams hlen hargs hlog
      exact ⟨hsame, params, rfl, hfits⟩
    · cases h
      exact absurd hlog (Context.not_quiet_report (Nat.le_refl _))
  | _ =>
    -- what has no function type is reported
    cases h
    exact absurd hlog (Context.not_quiet_report (Nat.le_refl _))

/-- A call of a function whose parameters the arguments fit is checked without reports. -/
theorem checkCall_complete {f : String} {sp : Span} {entity : Entity} {es : List Expr}
    {ss params : List Ty} {t : Ty} (hes : List.Forall₂ (fun e s => e.ty? = some s) es ss)
    (hentity : entity.ty = .fn params t) (h : List.Forall₂ Fits ss params) :
    checkCall f sp (some entity) es ctx = .ok (t, es) ctx := by
  obtain ⟨role, ty, span⟩ := entity
  obtain rfl : ty = .fn params t := hentity
  have hlen : params.length = es.length := h.length_eq.symm.trans hes.length_eq.symm
  show (if _ then _ else _ : Check (Ty × List Expr)) ctx = _
  rw [if_pos hlen, bind_of_ok (requireArgs_complete hes h)]
  rfl

/-! ## Returns -/

/-- Outside every function a return is reported. -/
theorem analyzeReturn_outside {o o' : Option Expr} {s : Span}
    (hret : ctx.returns = none) (h : analyzeReturn o s ctx = .ok o' c) :
    ¬c.log.length ≤ ctx.log.length := by
  obtain ⟨_, _, hget, hrest⟩ := of_bind_ok h
  cases hget
  rw [hret] at hrest
  cases o with
  | none =>
    cases hrest
    exact Context.not_quiet_report (Nat.le_refl _)
  | some e =>
    obtain ⟨e', c₁, he, hend⟩ := of_bind_ok hrest
    cases hend
    exact Context.not_quiet_report ((ends_analyzeExpr e).length_le he)

/-- A procedure returns no value. -/
theorem analyzeReturn_void {s : Span} (hret : ctx.returns = some .void)
    (o : Option Expr) : analyzeReturn o s ctx =
      (match o with
        | none => pure none
        | some e => do
          let e ← e.analyze
          report .unexpectedReturnValue (some s)
          return some e : Check (Option Expr)) ctx := by
  show (get >>= fun _ => _ : Check (Option Expr)) ctx = _
  rw [bind_of_ok (rfl : (get : Check Context) ctx = .ok ctx ctx), hret]
  cases o <;> rfl

/-- A function other than a procedure returns a value. -/
theorem analyzeReturn_value {s : Span} {t : Ty} (hret : ctx.returns = some t)
    (hvoid : t ≠ .void) (o : Option Expr) : analyzeReturn o s ctx =
      (match o with
        | none => do
          report (.missingReturnValue t) (some s)
          return none
        | some e => return some (← e.analyzeFor (.assignable "return" t)) :
          Check (Option Expr)) ctx := by
  show (get >>= fun _ => _ : Check (Option Expr)) ctx = _
  rw [bind_of_ok (rfl : (get : Check Context) ctx = .ok ctx ctx), hret]
  cases t <;> first | exact absurd rfl hvoid | (cases o <;> rfl)

/-- A return that is not reported is one without a value from a procedure, or one with a value that
the result type of another function accepts. -/
theorem analyzeReturn_quiet {o o' : Option Expr} {s : Span} (h : analyzeReturn o s ctx = .ok o' c)
    (hlog : c.log.length ≤ ctx.log.length) :
    (ctx.returns = some .void ∧ o = none ∧ o' = none ∧ c = ctx) ∨
      ∃ t e e', (ctx.returns = some t ∧ t ≠ .void) ∧ o = some e ∧ o' = some e' ∧
        e.analyzeFor (.assignable "return" t) ctx = .ok e' c := by
  -- the result type decides first, and then whether there is a value
  rcases hret : ctx.returns with _ | t
  · exact absurd hlog (analyzeReturn_outside hret h)
  · by_cases hvoid : t = .void
    · subst hvoid
      rw [analyzeReturn_void hret] at h
      cases o with
      | none =>
        cases h
        exact .inl ⟨rfl, rfl, rfl, rfl⟩
      | some e =>
        obtain ⟨e', c₁, he, hend⟩ := of_bind_ok h
        cases hend
        exact absurd hlog (Context.not_quiet_report ((ends_analyzeExpr e).length_le he))
    · rw [analyzeReturn_value hret hvoid] at h
      cases o with
      | none =>
        cases h
        exact absurd hlog (Context.not_quiet_report (Nat.le_refl _))
      | some e =>
        obtain ⟨e', c₁, he, hend⟩ := of_bind_ok h
        cases hend
        exact .inr ⟨t, e, e', ⟨rfl, hvoid⟩, rfl, rfl, he⟩

/-! ## Loops with clauses -/

/-- A loop clause is analyzed as a sequence of at most one statement. -/
theorem analyzeStmtOpt_eq (o : Option Stmt) :
    analyzeStmtOpt o = List.head? <$> analyzeSequence o.toList := by
  cases o with
  | none => rfl
  | some s =>
    rw [analyzeStmtOpt, analyzeIn_false]
    simp [analyzeSequence, analyzeAllIn]

/-- Analyzes a loop with an initializer and a step in the scope that it opens. -/
def analyzeClauses (s : Span) (i : Option Stmt) (e : Option Expr) (u : Option Stmt) (b : Block) :
    Check Stmt := do
  let i ← analyzeStmtOpt i
  let e ← analyzeForOpt (.boolean "for") e
  let b ← inLoop b.analyze
  let u ← analyzeStmtOpt u
  return .forLoop s i e u b

/-- The scope that a loop opens holds all of its parts. -/
theorem analyzeIn_forLoop (declared : Bool) (s : Span) (i : Option Stmt) (e : Option Expr)
    (u : Option Stmt) (b : Block) :
    (Stmt.forLoop s i e u b).analyzeIn declared = inScope (analyzeClauses s i e u b) := rfl

end Procedural
