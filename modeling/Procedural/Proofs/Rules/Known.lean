import Procedural.Proofs.Rules.Judgment
import Procedural.Proofs.Syntax.Nesting

/-! # Known types

A type is **known** if the type that could not be found out, `Ty.error`, stands nowhere in it. A
program in which all declared types are known gives known types to all of its names, and so to all
of its expressions. -/

namespace Procedural

mutual

/-- The unknown type stands somewhere in the type. -/
def Ty.mentionsError : Ty → Bool
  | .error => true
  | .fn ps r => mentionErrors ps || r.mentionsError
  | _ => false

/-- The unknown type stands somewhere in one of the types. -/
def Ty.mentionErrors : List Ty → Bool
  | [] => false
  | t :: ts => t.mentionsError || mentionErrors ts

end

/-- The unknown type stands nowhere in the type. -/
def Ty.Known (t : Ty) : Prop := t.mentionsError = false

/-- The unknown type stands in a list of types if it stands in one of them. -/
theorem Ty.mentionErrors_eq_any (ts : List Ty) :
    Ty.mentionErrors ts = ts.any Ty.mentionsError := by
  induction ts with
  | nil => rfl
  | cons t ts ih => rw [Ty.mentionErrors, ih, List.any_cons]

/-- A function type is known when its parameter types and its result type are. -/
theorem Ty.known_fn {ps : List Ty} {r : Ty} :
    (Ty.fn ps r).Known ↔ (∀ t ∈ ps, t.Known) ∧ r.Known := by
  simp [Ty.Known, Ty.mentionsError, Ty.mentionErrors_eq_any]

/-- A known type is not the unknown one. -/
theorem Ty.Known.isError {t : Ty} (h : t.Known) : t.isError = false := by
  cases t <;> first | rfl | nomatch h

/-- A known type differs from the unknown one. -/
theorem Ty.Known.ne_error {t : Ty} (h : t.Known) : t ≠ .error := by
  rintro rfl
  nomatch h

/-- The types that a statement itself declares. -/
def Stmt.declaredTypes : Stmt → List Ty
  | .var _ d => [d.ty]
  | .func _ f _ => f.result :: f.params.map (·.ty)
  | _ => []

/-- All types declared in the statement, at any depth, are known. -/
def Stmt.DeclaresKnown (s : Stmt) : Prop :=
  ∀ x : Stmt, x.Within s → ∀ t ∈ x.declaredTypes, t.Known

/-- All types declared in the program are known. -/
def Program.DeclaresKnown (p : Program) : Prop :=
  ∀ x, p.Contains x → ∀ t ∈ x.declaredTypes, t.Known

/-- The types that a statement itself declares are among those in it. -/
theorem Stmt.DeclaresKnown.self {s : Stmt} (h : s.DeclaresKnown) : ∀ t ∈ s.declaredTypes, t.Known :=
  h s .self

/-- Declared types are known in every statement directly inside. -/
theorem Stmt.DeclaresKnown.child {s x : Stmt} (h : s.DeclaresKnown) (hx : x ∈ s.children) :
    x.DeclaresKnown :=
  fun y hy => h y (.inside hx hy)

/-- Declared types are known in the statements of every block. -/
theorem Stmt.DeclaresKnown.block {s : Stmt} {b : Block} (h : s.DeclaresKnown) (hb : b ∈ s.blocks) :
    ∀ x ∈ b.stmts, x.DeclaresKnown :=
  fun _ hx => h.child (Stmt.mem_children_of_block hb hx)

/-- Declared types are known if they are known in the statement itself and directly inside it. -/
theorem Stmt.declaresKnown_iff {s : Stmt} : s.DeclaresKnown ↔
    (∀ t ∈ s.declaredTypes, t.Known) ∧ ∀ x ∈ s.children, x.DeclaresKnown := by
  refine ⟨fun h => ⟨h.self, fun x hx => h.child hx⟩, fun ⟨hself, hchildren⟩ x hx => ?_⟩
  cases hx with
  | self => exact hself
  | inside hc hx => exact hchildren _ hc x hx

/-- A statement without statements inside it has only its own declared types. -/
theorem Stmt.declaresKnown_of_leaf {s : Stmt} (hs : s.children = [])
    (ht : ∀ t ∈ s.declaredTypes, t.Known) : s.DeclaresKnown := by
  refine Stmt.declaresKnown_iff.2 ⟨ht, ?_⟩
  rw [hs]
  exact List.forall_mem_nil _

/-- Declared types are known in the statements of a program. -/
theorem Program.DeclaresKnown.stmt {p : Program} (h : p.DeclaresKnown) :
    ∀ s ∈ p.stmts, s.DeclaresKnown :=
  fun s hs x hx => h x ⟨s, hs, hx⟩

/-- Declared types are known in a program if they are in each of its statements. -/
theorem Program.declaresKnown_iff {p : Program} :
    p.DeclaresKnown ↔ ∀ s ∈ p.stmts, s.DeclaresKnown :=
  ⟨Program.DeclaresKnown.stmt, fun h x ⟨s, hs, hx⟩ => h s hs x hx⟩

namespace Rules

/-- All names in force stand for something of a known type. -/
def Names.Known (Γ : Names) : Prop := ∀ x m, Γ.lookup x = some m → m.ty.Known

namespace Names.Known

variable {Γ : Names}

/-- Without names every name has a known type. -/
theorem empty : Names.empty.Known := fun _ _ h => nomatch h

/-- A new frame brings in no types. -/
theorem push (h : Γ.Known) : Γ.push.Known := h

/-- A name that is declared with a known type leaves all names with known types. -/
theorem declare (h : Γ.Known) {x : String} {m : Meaning} (hm : m.ty.Known) :
    (Γ.declare x m).Known := by
  intro y m' hy
  -- the name is the one just declared, or it stands for what it stood for
  rw [lookup_declare] at hy
  split at hy
  · exact Option.some.inj hy ▸ hm
  · exact h y m' hy

/-- Declarations of known types leave all names with known types. -/
theorem declareAll (h : Γ.Known) {ds : List Decl} (hds : ∀ d ∈ ds, d.2.ty.Known) :
    (Γ.declareAll ds).Known := by
  induction ds generalizing Γ with
  | nil => exact h
  | cons d ds ih =>
    obtain ⟨hd, hds⟩ := List.forall_mem_cons.1 hds
    exact ih (h.declare hd) hds

end Names.Known

/-- The functions of a sequence in which declared types are known have known types. -/
theorem known_functions {ss : List Stmt} (h : ∀ s ∈ ss, s.DeclaresKnown) :
    ∀ d ∈ functions ss, d.2.ty.Known := by
  intro d hd
  obtain ⟨f, hf, rfl⟩ := List.mem_map.1 hd
  obtain ⟨sp, b, hs⟩ := Stmt.exists_func_of_mem_headers hf
  obtain ⟨hresult, hparams⟩ := List.forall_mem_cons.1 (h _ hs).self
  exact Ty.known_fn.2 ⟨hparams, hresult⟩

/-- The variable that a statement declares has a known type. -/
theorem known_places {s : Stmt} (h : s.DeclaresKnown) : ∀ d ∈ places s, d.2.ty.Known := by
  cases s with
  | var sp v =>
    intro d hd
    obtain rfl := List.mem_singleton.1 hd
    exact h.self _ (List.mem_singleton.2 rfl)
  | _ => exact fun d hd => nomatch hd

/-- The parameters of a function have known types. -/
theorem known_parameters {s : Span} {f : FuncHeader} {b : Block}
    (h : (Stmt.func s f b).DeclaresKnown) : ∀ d ∈ parameters f, d.2.ty.Known := by
  intro d hd
  obtain ⟨p, hp, rfl⟩ := List.mem_map.1 hd
  exact h.self _ (List.mem_cons_of_mem _ (List.mem_map.2 ⟨p, hp, rfl⟩))

/-! ## Expressions -/

variable {M : Note → Ty → Prop} {Γ : Names}

/-- A call has a known type where all names have. -/
theorem CallType.known (hΓ : Γ.Known) {c : Call} {t : Ty} (h : CallType M Γ c t) : t.Known := by
  obtain ⟨hm, hty, -⟩ := h
  have hfn := hΓ _ _ hm
  rw [hty] at hfn
  exact (Ty.known_fn.1 hfn).2

/-- Among names of known types an expression has a known type. -/
theorem HasType.known (hΓ : Γ.Known) : ∀ {e : Expr} {t : Ty}, HasType M Γ e t → t.Known
  | .lit _ v, _, .lit _ => by cases v <;> rfl
  | .ident _ _, _, .ident hx _ => hΓ _ _ hx
  | .binary _ _ _ _, _, .binary _ _ hop _ => by cases hop <;> rfl
  | .unary _ _ _, _, .unary he hop _ => by
    cases hop with
    | neg hnum => exact he.known hΓ
    | not => rfl
  | .call _ _, _, .call hc _ => hc.known hΓ

end Rules

end Procedural
