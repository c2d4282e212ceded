import Procedural.Proofs.Folding.Types
import Procedural.Proofs.Guarded.Run

/-! # Annotated expressions are evaluated without misuse

`Safely act m Q` says that a guarded run from the store `m` does not misuse anything, and that `Q`
holds of its answer and of the store after it if it comes to an answer. An annotated expression that
has a type is evaluated safely to a value of that type, from every store that models the names, and
the store is kept. -/

namespace Procedural.Guarded

open Rules

variable {α β : Type} {act x : Run α} {f : α → Run β} {m m' : Store} {P Q : α → Store → Prop}
  {R : β → Store → Prop}

/-! ## Runs without misuse -/

/-- The run from the store `m` is without misuse, and `Q` holds of its answer and of the store after
it, if it comes to an answer. -/
def Safely (act : Run α) (m : Store) (Q : α → Store → Prop) : Prop :=
  match act m with
  | .ok a m' => Q a m'
  | .error (.misuse _) _ => False
  | .error _ _ => True

namespace Safely

/-- An answer at once is without misuse. -/
theorem pure {a : α} (h : Q a m) : Safely (pure a) m Q := h

/-- An operation without a result is no misuse. -/
theorem raised : Safely (throw .raised : Run α) m Q := trivial

/-- Running out of rounds is no misuse. -/
theorem unfinished : Safely (throw .unfinished : Run α) m Q := trivial

/-- A change of the store is without misuse if what follows it is. -/
theorem modify_bind {g : Store → Store} {k : Unit → Run β} (h : Safely (k ()) (g m) R) :
    Safely (modify g >>= k) m R := h

/-- Changing the store is without misuse. -/
theorem modify {g : Store → Store} {Q : Unit → Store → Prop} (h : Q () (g m)) :
    Safely (modify g) m Q := h

/-- A run goes on from the store that the run before it leaves. -/
theorem bind (hx : Safely x m P) (hf : ∀ a m', P a m' → Safely (f a) m' R) :
    Safely (x >>= f) m R := by
  unfold Safely at hx ⊢
  show match EStateM.bind x f m with
    | .ok a m' => R a m'
    | .error (.misuse _) _ => False
    | .error _ _ => True
  unfold EStateM.bind
  cases hrun : x m with
  | ok a m' =>
    rw [hrun] at hx
    exact hf a m' hx
  | error h m' =>
    rw [hrun] at hx
    cases h <;> exact hx

/-- What is known of the answer and the store can be weakened. -/
theorem mono (h : Safely act m P) (hPQ : ∀ a m', P a m' → Q a m') : Safely act m Q := by
  unfold Safely at h ⊢
  split at h
  · exact hPQ _ _ h
  · exact h
  · exact h

/-- The answer of the last run is put together from those of the runs before it. -/
theorem bind_pure {g : α → β} (hx : Safely x m P) (hg : ∀ a m', P a m' → R (g a) m') :
    Safely (x >>= fun a => Pure.pure (g a)) m R :=
  hx.bind fun a m' ha => .pure (hg a m' ha)

/-- The store is looked at. -/
theorem get_bind {k : Store → Run β} (h : Safely (k m) m R) :
    Safely ((get : Run Store) >>= k) m R := h

/-- What is there is no misuse. -/
theorem orMisuse_bind {o : Option α} {a : α} {e : Misuse} (ho : o = some a)
    (h : Safely (f a) m R) : Safely (orMisuse e o >>= f) m R := by
  subst ho
  exact h

/-- An operation either has a result or halts the run. -/
theorem orRaised_bind {o : Option α} (h : ∀ a, o = some a → Safely (f a) m R) :
    Safely (orRaised o >>= f) m R := by
  cases o with
  | none => exact .raised
  | some a => exact h a rfl

end Safely

/-! ## Values of given types -/

namespace Value

/-- A value of a numeric type is a number. -/
theorem numeric_cases {v : Value} (h : Numeric v.ty) :
    (∃ x, v = lit (.int x)) ∨ ∃ x, v = lit (.real x) := by
  obtain (x | x | _ | _ | _) | _ | _ := v
  · exact .inl ⟨x, rfl⟩
  · exact .inr ⟨x, rfl⟩
  all_goals nomatch h

/-- A value of a numeric type is a number of that type. -/
theorem number?_of_numeric {v : Value} (h : Numeric v.ty) :
    ∃ a, v.number? = some a ∧ a.ty = v.ty := by
  obtain ⟨x, rfl⟩ | ⟨x, rfl⟩ := numeric_cases h
  · exact ⟨.int x, rfl, rfl⟩
  · exact ⟨.real x, rfl, rfl⟩

/-- A value of the type of the truth values is one. -/
theorem truth?_of_bool {v : Value} (h : v.ty = .bool) : ∃ b, v.truth? = some b := by
  obtain (_ | _ | b | _ | _) | _ | _ := v
  case lit.bool => exact ⟨b, rfl⟩
  all_goals nomatch h

/-- Two numbers can be compared by size. -/
theorem order?_of_numeric (op : OrderOp) {v w : Value} (hv : Numeric v.ty) (hw : Numeric w.ty) :
    ∃ b, v.order? op w = some b := by
  obtain ⟨x, rfl⟩ | ⟨x, rfl⟩ := numeric_cases hv
  all_goals
    obtain ⟨y, rfl⟩ | ⟨y, rfl⟩ := numeric_cases hw
    all_goals exact ⟨_, rfl⟩

/-- Two numbers can be tested for equality. -/
theorem test?_of_numeric (op : EqualityOp) {v w : Value} (hv : Numeric v.ty) (hw : Numeric w.ty) :
    ∃ b, v.test? op w = some b := by
  obtain ⟨x, rfl⟩ | ⟨x, rfl⟩ := numeric_cases hv
  all_goals
    obtain ⟨y, rfl⟩ | ⟨y, rfl⟩ := numeric_cases hw
    all_goals exact ⟨_, rfl⟩

/-- Two values of one type can be told equal or not. -/
theorem equal?_of_same {v w : Value} (h : v.ty = w.ty) : ∃ b, v.equal? w = some b := by
  cases v with
  | lit a =>
    cases w with
    | lit b => cases a <;> cases b <;> first | exact ⟨_, rfl⟩ | nomatch h
    | unit | func => cases a <;> nomatch h
  | unit =>
    cases w with
    | lit b => cases b <;> nomatch h
    | unit => exact ⟨_, rfl⟩
    | func => nomatch h
  | func ps r i =>
    cases w with
    | lit b => cases b <;> nomatch h
    | unit => nomatch h
    -- functions of one type are told apart by their numbers
    | func qs s j =>
      obtain ⟨rfl, rfl⟩ := Ty.fn.inj h
      exact ⟨_, if_pos ⟨rfl, rfl⟩⟩

/-- Two values of one type can be tested for equality. -/
theorem test?_of_same (op : EqualityOp) {v w : Value} (h : v.ty = w.ty) :
    ∃ b, v.test? op w = some b := by
  obtain ⟨b, hb⟩ := equal?_of_same h
  exact ⟨_, by rw [test?, hb]; rfl⟩

/-- A value that fits where a type is declared is stored with that type. -/
theorem ty_widen_of_fits {v : Value} {s t : Ty} (hv : v.ty = s) (h : Fits s t) :
    (v.widen t).ty = t := by
  cases h with
  | same =>
    obtain (_ | _ | _ | _ | _) | _ | _ := v
    all_goals subst hv; rfl
  | widen =>
    obtain (_ | _ | _ | _ | _) | _ | _ := v
    all_goals first | rfl | nomatch hv

end Value

/-- A value of type `t`, and the store `m` kept. -/
def Yields (t : Ty) (m : Store) (v : Value) (m' : Store) : Prop := v.ty = t ∧ m.Keeps m'

/-- A value that fits a type is turned into one of that type. -/
theorem safely_fit {v : Value} {s t : Ty} (hv : v.ty = s) (h : Fits s t) :
    Safely (fit t v) m fun w m' => w.ty = t ∧ m' = m := by
  rw [fit, if_pos (v.ty_widen_of_fits hv h)]
  exact .pure ⟨v.ty_widen_of_fits hv h, rfl⟩

/-- A value of the recorded type passes the check against the record. -/
theorem safely_recorded {n : Note} {t : Ty} {act : Run Value} (hn : n.ty = some t)
    (h : Safely act m (Yields t m)) : Safely (recorded n act) m (Yields t m) := by
  refine h.bind fun v m' hv => ?_
  rw [if_pos (hv.1.symm ▸ hn)]
  exact .pure hv

/-! ## Operators -/

/-- Arithmetic on values of the types that the operator takes gives one of its result type. -/
theorem safely_arith {H : Host} (hH : H.Conforms) {op : ArithOp} {v w : Value} {t₁ t₂ t : Ty}
    (hop : BinaryType (.arith op) t₁ t₂ t) (hv : v.ty = t₁) (hw : w.ty = t₂) :
    Safely (arith H op v w) m fun u m' => u.ty = t ∧ m' = m := by
  subst hv hw
  obtain ⟨hnum₁, hnum₂, hresult⟩ := hop.arith_inv
  obtain ⟨a, ha, hta⟩ := Value.number?_of_numeric hnum₁
  obtain ⟨b, hb, htb⟩ := Value.number?_of_numeric hnum₂
  rw [← hta, ← htb] at hop hresult
  refine .orMisuse_bind ha (.orMisuse_bind hb (.orRaised_bind fun c hc => .pure ⟨?_, rfl⟩))
  rcases Option.or_eq_some_iff.1 hc with hc | ⟨-, hc⟩
  · exact Literal.ty_of_binary? hop hc
  · rw [hresult]
    exact hH.undefined hc

/-- A unary operator on a value of the type that it takes gives one of its result type. -/
theorem safely_unary {H : Host} (hH : H.Conforms) {op : UnaryOp} {v : Value} {t₁ t : Ty}
    (hop : UnaryType op t₁ t) (hv : v.ty = t₁) :
    Safely (unary H op v) m fun u m' => u.ty = t ∧ m' = m := by
  cases hop with
  | neg hnum =>
    subst hv
    obtain ⟨a, ha, hta⟩ := Value.number?_of_numeric hnum
    refine .orMisuse_bind ha (.orRaised_bind fun c hc => .pure ⟨?_, rfl⟩)
    rw [← hta] at hnum ⊢
    rcases Option.or_eq_some_iff.1 hc with hc | ⟨-, hc⟩
    · exact Literal.ty_of_unary? (.neg hnum) hc
    · exact hH.undefinedNeg hc
  | not =>
    obtain ⟨b, hb⟩ := Value.truth?_of_bool hv
    exact .orMisuse_bind hb (.pure ⟨rfl, rfl⟩)

/-- Operands of the types that a binary operator takes are no misuse, and the result is of the type
that the rules give to it. -/
theorem safely_binary {H : Host} (hH : H.Conforms) {op : BinaryOp} {l r : Run Value} {t₁ t₂ t : Ty}
    (hop : BinaryType op t₁ t₂ t) (hl : Safely l m (Yields t₁ m))
    (hr : ∀ m', m.Keeps m' → Safely r m' (Yields t₂ m')) :
    Safely (binary H op l r) m (Yields t m) := by
  cases op with
  | arith op =>
    refine hl.bind fun v m₁ hv => (hr m₁ hv.2).bind fun w m₂ hw => ?_
    refine (safely_arith hH hop hv.1 hw.1).mono ?_
    rintro u _ ⟨hu, rfl⟩
    exact ⟨hu, hv.2.trans hw.2⟩
  | order op =>
    refine hl.bind fun v m₁ hv => (hr m₁ hv.2).bind fun w m₂ hw => ?_
    cases hop with
    | order h₁ h₂ =>
      obtain ⟨b, hb⟩ := Value.order?_of_numeric op (hv.1.symm ▸ h₁) (hw.1.symm ▸ h₂)
      exact .orMisuse_bind hb (.pure ⟨rfl, hv.2.trans hw.2⟩)
  | equality op =>
    refine hl.bind fun v m₁ hv => (hr m₁ hv.2).bind fun w m₂ hw => ?_
    have htest : t = .bool ∧ ∃ b, v.test? op w = some b := by
      cases hop with
      | equalNumbers h₁ h₂ =>
        exact ⟨rfl, Value.test?_of_numeric op (hv.1.symm ▸ h₁) (hw.1.symm ▸ h₂)⟩
      | equalSame => exact ⟨rfl, Value.test?_of_same op (hv.1.trans hw.1.symm)⟩
    obtain ⟨rfl, b, hb⟩ := htest
    exact .orMisuse_bind hb (.pure ⟨rfl, hv.2.trans hw.2⟩)
  | logic op =>
    cases hop
    -- where the right operand is evaluated, it is the result
    have hright (m₁ : Store) (h₁ : m.Keeps m₁) :
        Safely (do return .ofBool (← orMisuse .operand (← r).truth?)) m₁ (Yields .bool m) := by
      refine (hr m₁ h₁).bind fun w m₂ hw => ?_
      obtain ⟨c, hc⟩ := Value.truth?_of_bool hw.1
      exact .orMisuse_bind hc (.pure ⟨rfl, h₁.trans hw.2⟩)
    cases op with
    | and =>
      refine hl.bind fun v m₁ hv => ?_
      obtain ⟨b, hb⟩ := Value.truth?_of_bool hv.1
      refine .orMisuse_bind hb ?_
      cases b with
      | true => exact hright m₁ hv.2
      | false => exact .pure ⟨rfl, hv.2⟩
    | or =>
      refine hl.bind fun v m₁ hv => ?_
      obtain ⟨b, hb⟩ := Value.truth?_of_bool hv.1
      refine .orMisuse_bind hb ?_
      cases b with
      | true => exact .pure ⟨rfl, hv.2⟩
      | false => exact hright m₁ hv.2

/-! ## Names and calls -/

variable {Γ : Names}

/-- A name of a variable in force is read as a value of its type. -/
theorem safely_read (hm : m.Models Γ) {x : String} {t : Ty} (hx : Γ.lookup x = some (.place t)) :
    Safely (read x) m (Yields t m) := by
  obtain ⟨s, hs, hplace⟩ := hm x _ hx
  refine .get_bind ?_
  rw [hs]
  cases hplace with
  | place hv => exact .pure ⟨hv, .refl m⟩

/-- A variable takes a value that fits its declared type. -/
theorem safely_assign (hm : m.Models Γ) {x : String} {s t : Ty} {v : Value}
    (hx : Γ.lookup x = some (.place t)) (hv : v.ty = s) (hfits : Fits s t) :
    Safely (assign x v) m fun _ m' => m.Keeps m' := by
  obtain ⟨slot, hs, hplace⟩ := hm x _ hx
  refine .get_bind ?_
  rw [hs]
  cases hplace with
  | place hold =>
    refine (safely_fit hv hfits).bind ?_
    rintro w _ ⟨hw, rfl⟩
    exact .modify (Store.keeps_put hs hw)

/-- What has a function type can be called, a declared function as well as a variable. -/
theorem safely_callee (hm : m.Models Γ) {g : String} {meaning : Meaning} {ps : List Ty} {r : Ty}
    (hg : Γ.lookup g = some meaning) (hty : meaning.ty = .fn ps r) :
    Safely (callee g) m fun target m' => (target.params = ps ∧ target.result = r) ∧ m' = m := by
  obtain ⟨s, hs, hslot⟩ := hm g _ hg
  refine .get_bind ?_
  rw [hs]
  cases hslot with
  | @place t v hv =>
    obtain rfl : t = .fn ps r := hty
    -- the value of a variable of function type is a function
    obtain (_ | _ | _ | _ | _) | _ | ⟨ps', r', id⟩ := v
    case func =>
      obtain ⟨rfl, rfl⟩ := Ty.fn.inj hv
      exact .pure ⟨⟨rfl, rfl⟩, rfl⟩
    all_goals nomatch hv
  | @func t =>
    obtain rfl : t = .fn ps r := hty
    exact .pure ⟨⟨rfl, rfl⟩, rfl⟩

/-- Arguments that fit the parameters are passed with the types of the parameters. -/
theorem safely_pass {vs : List Value} {ts : List Ty}
    (h : List.Forall₂ (fun v t => Fits v.ty t) vs ts) :
    Safely (pass vs ts) m fun ws m' => ws.map Value.ty = ts ∧ m' = m := by
  induction h with
  | nil => exact .pure ⟨rfl, rfl⟩
  | @cons v t vs ts hv hvs ih =>
    refine (safely_fit rfl hv).bind ?_
    rintro w _ ⟨hw, rfl⟩
    refine ih.bind_pure ?_
    rintro ws _ ⟨hws, rfl⟩
    exact ⟨congrArg₂ List.cons hw hws, rfl⟩

/-- A call with arguments of the parameter types gives a value of the result type. -/
theorem safely_invoke {H : Host} (hH : H.Conforms) {i : Invocation}
    (hi : i.args.map Value.ty = i.target.params) :
    Safely (invoke H i) m (Yields i.target.result m) := by
  unfold Safely invoke
  cases hcall : H.call i m with
  | none => trivial
  | some p =>
    obtain ⟨v, m'⟩ := p
    exact hH.call hi hcall

/-! ## Expressions -/

/-- A call that is ready passes arguments of the types of the parameters, and its result has the
type `t`; the store `m` is kept. -/
def Ready (t : Ty) (m : Store) (i : Invocation) (m' : Store) : Prop :=
  (i.args.map Value.ty = i.target.params ∧ i.target.result = t) ∧ m.Keeps m'

variable {H : Host}

mutual

/-- An annotated expression of type `t` is evaluated to a value of type `t`. -/
theorem safely_value (hH : H.Conforms) : ∀ {e : Expr} {t : Ty}, HasType typedNote Γ e t →
    ∀ {m : Store}, m.Models Γ → Safely (e.value H) m (Yields t m)
  | .lit _ _, _, .lit hn, m, _ => safely_recorded hn (.pure ⟨rfl, .refl m⟩)
  | .ident _ _, _, .ident hx hn, _, hm => safely_recorded hn (safely_read hm hx)
  | .binary _ _ _ _, _, .binary hl hr hop hn, _, hm =>
    safely_recorded hn <| safely_binary hH hop (safely_value hH hl hm) fun _ hm' =>
      safely_value hH hr (hm.keeps hm')
  | .unary _ _ _, _, .unary he hop hn, m, hm => by
      refine safely_recorded hn ((safely_value hH he hm).bind fun v m' hv => ?_)
      refine (safely_unary hH hop hv.1).mono ?_
      rintro u _ ⟨hu, rfl⟩
      exact ⟨hu, hv.2⟩
  | .call _ _, t, .call hc hn, m, hm => by
      refine safely_recorded hn ((safely_prepare hH hc hm).bind fun i m' hi => ?_)
      obtain ⟨⟨hargs, rfl⟩, hkeeps⟩ := hi
      exact (safely_invoke hH hargs).mono fun v m'' hv => ⟨hv.1, hkeeps.trans hv.2⟩

/-- A well-typed call becomes ready without misuse. -/
theorem safely_prepare (hH : H.Conforms) : ∀ {c : Call} {t : Ty}, CallType typedNote Γ c t →
    ∀ {m : Store}, m.Models Γ → Safely (c.prepare H) m (Ready t m)
  | ⟨_, _, _⟩, _, .intro hg hty hargs, m, hm => by
      refine (safely_values hH hargs hm).bind fun vs m' ⟨hvs, hkeeps⟩ => ?_
      refine (safely_callee (hm.keeps hkeeps) hg hty).bind ?_
      rintro target _ ⟨⟨rfl, rfl⟩, rfl⟩
      refine (safely_pass hvs).bind_pure ?_
      rintro ws _ ⟨hws, rfl⟩
      exact ⟨⟨hws, rfl⟩, hkeeps⟩

/-- Arguments that fit are evaluated to values that fit. -/
theorem safely_values (hH : H.Conforms) : ∀ {es : List Expr} {ts : List Ty},
    ArgsFit typedNote Γ es ts → ∀ {m : Store}, m.Models Γ → Safely (values H es) m fun vs m' =>
      List.Forall₂ (fun v t => Fits v.ty t) vs ts ∧ m.Keeps m'
  | [], _, .nil, m, _ => .pure ⟨.nil, .refl m⟩
  | _ :: _, _, .cons he hfits hes, _, hm =>
    (safely_value hH he hm).bind fun _ _ hv =>
      (safely_values hH hes (hm.keeps hv.2)).bind_pure fun _ _ hvs =>
        ⟨.cons (hv.1.symm ▸ hfits) hvs.1, hv.2.trans hvs.2⟩

end

/-- A condition is a truth value. -/
theorem safely_holds (hH : H.Conforms) {e : Expr} (he : HasType typedNote Γ e .bool)
    (hm : m.Models Γ) : Safely (e.holds H) m fun _ m' => m.Keeps m' := by
  refine (safely_value hH he hm).bind fun v m' hv => ?_
  obtain ⟨b, hb⟩ := Value.truth?_of_bool hv.1
  rw [condition, hb]
  exact .pure hv.2

end Procedural.Guarded
