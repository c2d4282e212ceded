/-! # Types

The types of values and of named things. A function type lists the parameter types and the result
type. `Ty.error` stands for a type that could not be found out: whoever meets it may assume that the
reason has been reported already, so no check against it ever complains.

* `Ty.accepts`: which values may be stored where a type is declared.
* `Ty.comparable`: which pairs may be tested for equality.
* `Ty.arithmeticResult`: the type of a sum, difference, product, quotient or remainder. -/

namespace Procedural

/-- The types of the language. -/
inductive Ty where
  /-- Signed 64-bit integers. -/
  | int
  /-- Double-precision reals. -/
  | real
  /-- Truth values. -/
  | bool
  /-- Single characters. -/
  | char
  /-- Character strings. -/
  | str
  /-- The result type of a procedure, which yields no value. -/
  | void
  /-- Functions from `params` to `result`. -/
  | fn (params : List Ty) (result : Ty)
  /-- The type of something whose type could not be found out. -/
  | error
deriving Repr, Inhabited

namespace Ty

/-! ## Equality -/

mutual

/-- Structural equality of two types. -/
def same : Ty → Ty → Bool
  | int, int => true
  | real, real => true
  | bool, bool => true
  | char, char => true
  | str, str => true
  | void, void => true
  | error, error => true
  | fn ps r, fn qs s => sameAll ps qs && r.same s
  | _, _ => false

/-- Structural equality of two lists of types. -/
def sameAll : List Ty → List Ty → Bool
  | [], [] => true
  | p :: ps, q :: qs => p.same q && sameAll ps qs
  | _, _ => false

end

mutual

/-- A type is the same as itself. -/
theorem same_self : ∀ a : Ty, a.same a = true
  | int | real | bool | char | str | void | error => rfl
  | fn ps r => by simp [same, sameAll_self ps, same_self r]

/-- A list of types is the same as itself. -/
theorem sameAll_self : ∀ as : List Ty, sameAll as as = true
  | [] => rfl
  | a :: as => by simp [sameAll, same_self a, sameAll_self as]

end

mutual

/-- Types found to be the same are equal. -/
theorem eq_of_same : ∀ a b : Ty, a.same b = true → a = b
  | fn ps r, fn qs s, h => by
    simp only [same, Bool.and_eq_true] at h
    rw [eq_of_sameAll ps qs h.1, eq_of_same r s h.2]
  | int, b, h | real, b, h | bool, b, h | char, b, h | str, b, h | void, b, h | error, b, h => by
    cases b <;> simp_all [same]
  | fn _ _, int, h | fn _ _, real, h | fn _ _, bool, h | fn _ _, char, h | fn _ _, str, h
  | fn _ _, void, h | fn _ _, error, h => by simp [same] at h

/-- Lists of types found to be the same are equal. -/
theorem eq_of_sameAll : ∀ as bs : List Ty, sameAll as bs = true → as = bs
  | [], [], _ => rfl
  | a :: as, b :: bs, h => by
    simp only [sameAll, Bool.and_eq_true] at h
    rw [eq_of_same a b h.1, eq_of_sameAll as bs h.2]
  | [], _ :: _, h | _ :: _, [], h => by simp [sameAll] at h

end

/-- Being the same is equality. -/
theorem same_iff {a b : Ty} : a.same b = true ↔ a = b :=
  ⟨eq_of_same a b, fun h => h ▸ same_self a⟩

instance : DecidableEq Ty := fun _ _ => decidable_of_iff _ same_iff

/-! ## Classes of types -/

/-- Integers and reals take part in arithmetic and in ordering. -/
def isArithmetic : Ty → Bool
  | int | real => true
  | _ => false

/-- Truth values. -/
def isBoolean : Ty → Bool
  | bool => true
  | _ => false

/-- The type that could not be found out. -/
def isError : Ty → Bool
  | error => true
  | _ => false

/-- The types of numbers are those of integers and reals. -/
@[simp] theorem isArithmetic_iff {t : Ty} : t.isArithmetic = true ↔ t = int ∨ t = real := by
  cases t <;> simp [isArithmetic]

/-- The type of truth values is the only boolean one. -/
@[simp] theorem isBoolean_iff {t : Ty} : t.isBoolean = true ↔ t = bool := by
  cases t <;> simp [isBoolean]

/-- The unknown type is the only one that counts as unknown. -/
@[simp] theorem isError_iff {t : Ty} : t.isError = true ↔ t = error := by
  cases t <;> simp [isError]

/-! ## Relations between types -/

/-- A place declared with type `target` takes a value of the same type, an integer where a real is
declared, and anything when either type is unknown. -/
def accepts (target source : Ty) : Bool :=
  target.isError || source.isError || (target == real && source == int) || target == source

/-- Two types may be compared for equality when both are arithmetic or they are the same. -/
def comparable (a b : Ty) : Bool :=
  (a.isArithmetic && b.isArithmetic) || a == b

/-- The type of an arithmetic operation: unknown when an operand is, otherwise real as soon as one
operand is real, otherwise integer. -/
def arithmeticResult (a b : Ty) : Ty :=
  if a.isError || b.isError then error
  else if a == real || b == real then real
  else int

/-- Comparability does not depend on the order of the two types. -/
theorem comparable_comm (a b : Ty) : a.comparable b = b.comparable a := by
  rw [comparable, comparable, Bool.and_comm, BEq.comm]

end Ty

end Procedural
