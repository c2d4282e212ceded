import Procedural.Proofs.Analysis.Operands
import Procedural.Proofs.Syntax.Bare

/-! # Expressions without reports have types

If the analysis of an expression reports nothing, the rules give a type to it, and to the expression
with the types found, in which every note records its type. All names in force have to stand for
something of a known type, because no check complains about the unknown type. -/

namespace Procedural

open Rules

variable {ctx c : Context}

/-! ## Expressions -/

/-- `Typed Γ e e' t`: the expression `e'` is `e` with the types found, and among the names `Γ` both
have the type `t`. -/
structure Rules.Typed (Γ : Names) (e e' : Expr) (t : Ty) : Prop where
  /-- Only types differ. -/
  bare : e'.bare = e.bare
  /-- The rules derive the expression. -/
  plain : HasType anyNote Γ e t
  /-- The rules derive the expression with its types. -/
  noted : HasType typedNote Γ e' t

/-- Arguments fit the parameters if their types do, one by one. -/
theorem argsFit_of_forall₂ {M : Note → Ty → Prop} {Γ : Names} {es : List Expr} {ss ts : List Ty}
    (hes : List.Forall₂ (HasType M Γ) es ss) (hfits : List.Forall₂ Fits ss ts) :
    ArgsFit M Γ es ts := by
  induction hes generalizing ts with
  | nil =>
    cases hfits
    exact .nil
  | cons he hes ih =>
    obtain - | ⟨hfit, hfits⟩ := hfits
    exact .cons he hfit (ih hfits)

mutual

/-- An expression that is analyzed without reports is well typed, and the result records its types.
-/
theorem analyzeExpr_sound : ∀ (e : Expr) {e' : Expr} {ctx c : Context},
    ctx.env.names.Known → e.analyze ctx = .ok e' c → c.log.length ≤ ctx.log.length →
    c = ctx ∧ ∃ t, Typed ctx.env.names e e' t
  | .lit n v, _, _, _, hctx, h, _ => by
    cases h
    exact ⟨rfl, v.ty, rfl, .lit trivial, .lit rfl⟩
  | .ident n x, _, _, _, hctx, h, hlog => by
    obtain ⟨t, c₁, hx, h⟩ := of_bind_ok h
    cases h
    obtain ⟨rfl, hx⟩ := checkIdent_sound hx hlog
    exact ⟨rfl, t, rfl, .ident hx trivial, .ident hx rfl⟩
  | .binary n op l r, _, ctx, c, hctx, h, hlog => by
    obtain ⟨l', c₁, hl, h⟩ := of_bind_ok h
    obtain ⟨r', c₂, hr, h⟩ := of_bind_ok h
    obtain ⟨⟨t, l'', r''⟩, c₃, hop, h⟩ := of_bind_ok h
    cases h
    -- no part ends with fewer reports than it began with, so no part reports anything
    have hgrow₁ := (ends_analyzeExpr l).length_le hl
    have hgrow₂ := (ends_analyzeExpr r).length_le hr
    have hgrow₃ := (grows_checkBinary op l' r').length_le hop
    have hquiet₁ : c₁.log.length ≤ ctx.log.length := by omega
    have hquiet₂ : c₂.log.length ≤ c₁.log.length := by omega
    have hquiet₃ : c.log.length ≤ c₂.log.length := by omega
    obtain ⟨rfl, t₁, hl⟩ := analyzeExpr_sound l hctx hl hquiet₁
    obtain ⟨rfl, t₂, hr⟩ := analyzeExpr_sound r hctx hr hquiet₂
    obtain ⟨⟨rfl, rfl, rfl⟩, hrule⟩ := checkBinary_sound hl.noted.ty?_eq hr.noted.ty?_eq
      (hl.noted.known hctx) (hr.noted.known hctx) hop hquiet₃
    refine ⟨rfl, t, ?_, .binary hl.plain hr.plain hrule trivial,
      .binary hl.noted hr.noted hrule rfl⟩
    rw [Expr.bare_withTy, Expr.bare, Expr.bare, hl.bare, hr.bare]
  | .unary n op e, _, ctx, c, hctx, h, hlog => by
    obtain ⟨e', c₁, he, h⟩ := of_bind_ok h
    obtain ⟨⟨t, e''⟩, c₂, hop, h⟩ := of_bind_ok h
    cases h
    have hgrow₁ := (ends_analyzeExpr e).length_le he
    have hgrow₂ := (grows_checkUnary op e').length_le hop
    have hquiet₁ : c₁.log.length ≤ ctx.log.length := by omega
    have hquiet₂ : c.log.length ≤ c₁.log.length := by omega
    obtain ⟨rfl, t₁, he⟩ := analyzeExpr_sound e hctx he hquiet₁
    obtain ⟨⟨rfl, rfl⟩, hrule⟩ :=
      checkUnary_sound he.noted.ty?_eq (he.noted.known hctx) hop hquiet₂
    refine ⟨rfl, t, ?_, .unary he.plain hrule trivial, .unary he.noted hrule rfl⟩
    rw [Expr.bare_withTy, Expr.bare, Expr.bare, he.bare]
  | .call n call, _, _, _, hctx, h, hlog => by
    obtain ⟨⟨t, call'⟩, c₁, hcall, h⟩ := of_bind_ok h
    cases h
    obtain ⟨rfl, hbare, hplain, hnoted⟩ := analyzeCall_sound call hctx hcall hlog
    refine ⟨rfl, t, ?_, .call hplain trivial, .call hnoted rfl⟩
    rw [Expr.bare_withTy, Expr.bare, Expr.bare, hbare]

/-- A call that is analyzed without reports is well typed, and the result records the types of its
arguments. -/
theorem analyzeCall_sound : ∀ (call : Call) {call' : Call} {t : Ty} {ctx c : Context},
    ctx.env.names.Known → call.analyze ctx = .ok (t, call') c → c.log.length ≤ ctx.log.length →
    c = ctx ∧ call'.bare = call.bare ∧ CallType anyNote ctx.env.names call t ∧
      CallType typedNote ctx.env.names call' t
  | ⟨f, args, s⟩, _, t, ctx, c, hctx, h, hlog => by
    obtain ⟨o, c₁, hf, h⟩ := of_bind_ok h
    obtain ⟨args', c₂, hargs, h⟩ := of_bind_ok h
    obtain ⟨⟨t, args''⟩, c₃, hcall, h⟩ := of_bind_ok h
    cases h
    have hgrow₁ := (ends_resolve f s).length_le hf
    have hgrow₂ := (ends_analyzeExprs args).length_le hargs
    have hgrow₃ := (grows_checkCall f s o args').length_le hcall
    have hquiet₁ : c₁.log.length ≤ ctx.log.length := by omega
    have hquiet₂ : c₂.log.length ≤ c₁.log.length := by omega
    have hquiet₃ : c.log.length ≤ c₂.log.length := by omega
    obtain ⟨rfl, entity, rfl, hx⟩ := resolve_sound hf hquiet₁
    obtain ⟨rfl, hbare, ss, hplain, hnoted⟩ := analyzeExprs_sound args hctx hargs hquiet₂
    -- the parameters have known types, so what is accepted for them fits
    have hentity : entity.ty.Known := entity.ty_meaning ▸ hctx f _ hx
    have htypes : List.Forall₂ (fun e s => e.ty? = some s ∧ s.Known) args' ss :=
      hnoted.imp fun _ _ he => ⟨he.ty?_eq, he.known hctx⟩
    obtain ⟨⟨rfl, rfl⟩, params, hty, hfits⟩ := checkCall_sound htypes hentity hcall hquiet₃
    refine ⟨rfl, ?_, .intro hx (entity.ty_meaning ▸ hty) (argsFit_of_forall₂ hplain hfits),
      .intro hx (entity.ty_meaning ▸ hty) (argsFit_of_forall₂ hnoted hfits)⟩
    rw [Call.bare, Call.bare, hbare]

/-- Expressions that are analyzed without reports are well typed, and the results record their
types. -/
theorem analyzeExprs_sound : ∀ (es : List Expr) {es' : List Expr} {ctx c : Context},
    ctx.env.names.Known → analyzeAll es ctx = .ok es' c → c.log.length ≤ ctx.log.length →
    c = ctx ∧ Expr.bareAll es' = Expr.bareAll es ∧
      ∃ ss, List.Forall₂ (HasType anyNote ctx.env.names) es ss ∧
        List.Forall₂ (HasType typedNote ctx.env.names) es' ss
  | [], _, _, _, hctx, h, _ => by
    cases h
    exact ⟨rfl, rfl, [], .nil, .nil⟩
  | e :: es, _, ctx, c, hctx, h, hlog => by
    obtain ⟨e', c₁, he, h⟩ := of_bind_ok h
    obtain ⟨es', c₂, hes, h⟩ := of_bind_ok h
    cases h
    have hgrow₁ := (ends_analyzeExpr e).length_le he
    have hgrow₂ := (ends_analyzeExprs es).length_le hes
    have hquiet₁ : c₁.log.length ≤ ctx.log.length := by omega
    have hquiet₂ : c.log.length ≤ c₁.log.length := by omega
    obtain ⟨rfl, t, he⟩ := analyzeExpr_sound e hctx he hquiet₁
    obtain ⟨rfl, hbare, ss, hplain, hnoted⟩ := analyzeExprs_sound es hctx hes hquiet₂
    refine ⟨rfl, ?_, t :: ss, .cons he.plain hplain, .cons he.noted hnoted⟩
    rw [Expr.bareAll, Expr.bareAll, he.bare, hbare]

end

/-- An expression that meets a demand without reports is well typed, and the demand admits its type.
-/
theorem analyzeFor_sound {e e' : Expr} {d : Demand} (hctx : ctx.env.names.Known)
    (h : e.analyzeFor d ctx = .ok e' c) (hlog : c.log.length ≤ ctx.log.length) :
    c = ctx ∧ ∃ t, Typed ctx.env.names e e' t ∧ d.admits t = true := by
  obtain ⟨e₁, c₁, he, h⟩ := of_bind_ok h
  obtain ⟨⟨ok, e₂⟩, c₂, hreq, h⟩ := of_bind_ok h
  cases h
  have hgrow₁ := (ends_analyzeExpr e).length_le he
  have hgrow₂ := (grows_require e₁ d).length_le hreq
  have hquiet₁ : c₁.log.length ≤ ctx.log.length := by omega
  have hquiet₂ : c.log.length ≤ c₁.log.length := by omega
  obtain ⟨rfl, t, he⟩ := analyzeExpr_sound e hctx he hquiet₁
  obtain ⟨rfl, rfl, -, hd⟩ := require_sound he.noted.ty?_eq (he.noted.known hctx) hreq hquiet₂
  exact ⟨rfl, t, he, hd⟩

/-- A condition that reports nothing is a truth value. -/
theorem analyzeFor_boolean_sound {e e' : Expr} {label : String} (hctx : ctx.env.names.Known)
    (h : e.analyzeFor (.boolean label) ctx = .ok e' c) (hlog : c.log.length ≤ ctx.log.length) :
    c = ctx ∧ Typed ctx.env.names e e' .bool := by
  obtain ⟨rfl, t, he, hd⟩ := analyzeFor_sound hctx h hlog
  obtain rfl := Demand.admits_boolean.1 hd
  exact ⟨rfl, he⟩

/-- A value that reports nothing where a type is declared fits there. -/
theorem analyzeFor_assignable_sound {e e' : Expr} {label : String} {t : Ty}
    (hctx : ctx.env.names.Known) (ht : t.Known)
    (h : e.analyzeFor (.assignable label t) ctx = .ok e' c)
    (hlog : c.log.length ≤ ctx.log.length) :
    c = ctx ∧ e'.bare = e.bare ∧ FitsIn anyNote ctx.env.names e t ∧
      FitsIn typedNote ctx.env.names e' t := by
  obtain ⟨rfl, s, he, hd⟩ := analyzeFor_sound hctx h hlog
  have hfits := fits_of_accepts (he.noted.known hctx) ht hd
  exact ⟨rfl, he.bare, ⟨s, he.plain, hfits⟩, ⟨s, he.noted, hfits⟩⟩

end Procedural
