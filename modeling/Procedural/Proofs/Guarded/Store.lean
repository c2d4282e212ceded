import Procedural.Proofs.Guarded.Value
import Procedural.Proofs.Rules.Names
import Mathlib.Data.List.Forall2

/-! # Stores of guarded runs

A store holds what names stand for at run time, in frames, innermost first: variables with their
declared types and present values, and functions. It **models** the names of the rules when every
name in force stands for the thing of its kind, and every variable has a value of its declared type.
A store **keeps** another one when it has the same names in the same frames, with variables that
have values of their declared types if they had before. -/

namespace Procedural.Guarded

open Rules

/-- What a name stands for. -/
inductive Slot where
  /-- A variable or parameter, with its declared type and its present value. -/
  | var (ty : Ty) (value : Value)
  /-- A declared function. -/
  | func (ty : Ty)

/-- What names stand for, in frames, innermost first. -/
abbrev Store := List (String → Option Slot)

namespace Store

/-- What a name stands for in the innermost frame that declares it. -/
def lookup (m : Store) (x : String) : Option Slot := m.findSome? fun frame => frame x

/-- The store with a new innermost frame. -/
def push (m : Store) : Store := (fun _ => none) :: m

/-- The store without its innermost frame. -/
def pop (m : Store) : Store := m.tail

/-- The store with a name declared in the innermost frame. -/
def declare (x : String) (s : Slot) : Store → Store
  | [] => [Function.update (fun _ => none) x (some s)]
  | frame :: frames => Function.update frame x (some s) :: frames

/-- The store in which the name stands for something else where it is declared. -/
def put (x : String) (s : Slot) : Store → Store
  | [] => []
  | frame :: frames =>
    if (frame x).isSome then Function.update frame x (some s) :: frames
    else frame :: put x s frames

/-- The store with functions declared in the innermost frame, first to last. -/
def declareFuncs (m : Store) (fs : List FuncHeader) : Store :=
  fs.foldl (fun m f => m.declare f.name (.func f.ty)) m

/-- A declaration is gone with the innermost frame. -/
@[simp] theorem pop_declare (x : String) (s : Slot) (m : Store) : (m.declare x s).pop = m.pop := by
  cases m <;> rfl

/-- Declared functions are gone with the innermost frame. -/
@[simp] theorem pop_declareFuncs (m : Store) (fs : List FuncHeader) :
    (m.declareFuncs fs).pop = m.pop := by
  induction fs generalizing m with
  | nil => rfl
  | cons f fs ih => exact (ih _).trans (pop_declare ..)

/-- A name is looked up in the innermost frame first. -/
theorem lookup_cons (frame : String → Option Slot) (m : Store) (x : String) :
    lookup (frame :: m) x = (frame x).or (lookup m x) := by
  rw [lookup, List.findSome?_cons]
  cases frame x <;> rfl

/-- A declared name stands for what it was declared as, and the others for what they did. -/
theorem lookup_declare (x : String) (s : Slot) (m : Store) (y : String) :
    (m.declare x s).lookup y = if y = x then some s else m.lookup y := by
  by_cases h : y = x
  · subst h
    cases m <;> simp [declare, lookup_cons]
  · cases m <;> simp [declare, lookup_cons, h]

end Store

/-! ## Keeping a store -/

/-- A name still stands for a thing of its kind, and a variable has a value of its declared type if
it had one. -/
inductive Kept : Option Slot → Option Slot → Prop where
  /-- The name is not declared. -/
  | none : Kept .none .none
  /-- A variable keeps its declared type, and a value of that type. -/
  | var {t : Ty} {v w : Value} : (v.ty = t → w.ty = t) → Kept (some (.var t v)) (some (.var t w))
  /-- A function stays what it is. -/
  | func {t : Ty} : Kept (some (.func t)) (some (.func t))

/-- What is not touched is kept. -/
theorem Kept.refl : ∀ o : Option Slot, Kept o o
  | .none => .none
  | some (.var _ _) => .var id
  | some (.func _) => .func

/-- What is kept twice is kept. -/
theorem Kept.trans {o₁ o₂ o₃ : Option Slot} (h : Kept o₁ o₂) (h' : Kept o₂ o₃) : Kept o₁ o₃ := by
  cases h with
  | none => exact h'
  | func => exact h'
  | var h =>
    cases h' with
    | var h' => exact .var (h' ∘ h)

namespace Store

/-- The second store has the same names in the same frames, and each is kept. -/
def Keeps : Store → Store → Prop := List.Forall₂ fun f g => ∀ x : String, Kept (f x) (g x)

variable {m m₁ m₂ m₃ : Store}

/-- A store keeps itself. -/
theorem Keeps.refl (m : Store) : m.Keeps m :=
  List.forall₂_same.2 fun f _ x => Kept.refl (f x)

/-- What keeps the store that another one keeps keeps that one. -/
theorem Keeps.trans (h : m₁.Keeps m₂) (h' : m₂.Keeps m₃) : m₁.Keeps m₃ := by
  induction h generalizing m₃ with
  | nil => exact h'
  | cons hf hm ih =>
    obtain - | ⟨hg, hm'⟩ := h'
    exact .cons (fun x => (hf x).trans (hg x)) (ih hm')

/-- Stores that keep each other do so without their innermost frames. -/
theorem Keeps.pop (h : m₁.Keeps m₂) : m₁.pop.Keeps m₂.pop := by
  cases h with
  | nil => exact .nil
  | cons _ hm => exact hm

/-- What a name stands for is kept in whichever frame it is found. -/
theorem Keeps.lookup (h : m₁.Keeps m₂) (x : String) : Kept (m₁.lookup x) (m₂.lookup x) := by
  induction h with
  | nil => exact .none
  | @cons f g m m' hf hm ih =>
    rw [lookup_cons, lookup_cons]
    have hx := hf x
    revert hx
    generalize f x = o, g x = o'
    rintro (_ | h | _)
    · exact ih
    · exact .var h
    · exact .func

/-- A variable that gets another value of its declared type is kept, and nothing else changes. -/
theorem keeps_put {x : String} {t : Ty} {v w : Value} (h : m.lookup x = some (.var t v))
    (hw : w.ty = t) : m.Keeps (m.put x (.var t w)) := by
  induction m with
  | nil => exact .nil
  -- the innermost frame that declares the name is the one that changes
  | cons f m ih =>
    rw [lookup_cons] at h
    cases hf : f x with
    | none =>
      rw [hf, Option.none_or] at h
      rw [put, hf]
      exact .cons (fun y => .refl _) (ih h)
    | some s =>
      rw [hf, Option.some_or] at h
      obtain rfl := Option.some.inj h
      rw [put, hf]
      refine .cons (fun y => ?_) (Keeps.refl m)
      by_cases hy : y = x
      · subst hy
        rw [hf, Function.update_self]
        exact .var fun _ => hw
      · rw [Function.update_of_ne hy]
        exact .refl _

end Store

/-! ## Modelling names -/

/-- The thing is of the kind that the name stands for, and a variable has a value of its declared
type. -/
inductive Slot.Realizes : Slot → Meaning → Prop where
  /-- A variable with a value of its declared type. -/
  | place {t : Ty} {v : Value} : v.ty = t → Realizes (.var t v) (.place t)
  /-- A function. -/
  | func {t : Ty} : Realizes (.func t) (.func t)

namespace Store

/-- Every name in force stands in the store for a thing of its kind. -/
def Models (m : Store) (Γ : Names) : Prop :=
  ∀ x meaning, Γ.lookup x = some meaning → ∃ s, m.lookup x = some s ∧ s.Realizes meaning

namespace Models

variable {m m' : Store} {Γ : Names}

/-- A new frame hides nothing. -/
theorem push (h : m.Models Γ) : m.push.Models Γ := h

/-- A store that keeps a model of the names in force is one. -/
theorem keeps (h : m.Models Γ) (hm : m.Keeps m') : m'.Models Γ := by
  intro x meaning hx
  obtain ⟨s, hs, hmeaning⟩ := h x meaning hx
  have hkept := hm.lookup x
  rw [hs] at hkept
  generalize m'.lookup x = o at hkept ⊢
  cases hmeaning with
  | place hv =>
    cases hkept with
    | var hw => exact ⟨_, rfl, .place (hw hv)⟩
  | func =>
    cases hkept
    exact ⟨_, rfl, .func⟩

/-- A store with a thing of the right kind declared models the names with the name declared. -/
theorem declare (h : m.Models Γ) {x : String} {s : Slot} {meaning : Meaning}
    (hs : s.Realizes meaning) : (m.declare x s).Models (Γ.declare x meaning) := by
  intro y meaning' hy
  rw [Names.lookup_declare] at hy
  rw [lookup_declare]
  split at hy
  · rename_i hyx
    obtain rfl := Option.some.inj hy
    exact ⟨s, if_pos hyx, hs⟩
  · rename_i hyx
    rw [if_neg hyx]
    exact h y meaning' hy

/-- The functions that a sequence declares. -/
theorem declareFuncs (h : m.Models Γ) (fs : List FuncHeader) :
    (m.declareFuncs fs).Models (Γ.declareAll (fs.map fun f => (f.name, .func f.ty))) := by
  induction fs generalizing m Γ with
  | nil => exact h
  | cons f fs ih => exact ih (h.declare .func)

end Models

end Store

end Procedural.Guarded
