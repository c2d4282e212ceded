import Procedural.Operator

/-! # What comparisons mean

Comparisons by size and tests for equality are computed from tables. Here is what they mean, apart
from the tables: a comparison is one of four relations of an order, and a test asks whether two
values are equal or whether they are not. The tables agree with that: integers are compared as the
exact integers that they stand for, and reals by the order of the reals. -/

namespace Procedural

namespace OrderOp

/-- The comparison holds of `x` and `y`. -/
def Holds {α : Type} [LT α] [LE α] : OrderOp → α → α → Prop
  | lt, x, y => x < y
  | le, x, y => x ≤ y
  | gt, x, y => y < x
  | ge, x, y => y ≤ x

instance {α : Type} [LT α] [LE α] [DecidableLT α] [DecidableLE α] :
    ∀ (op : OrderOp) (x y : α), Decidable (op.Holds x y)
  | lt, x, y => inferInstanceAs (Decidable (x < y))
  | le, x, y => inferInstanceAs (Decidable (x ≤ y))
  | gt, x, y => inferInstanceAs (Decidable (y < x))
  | ge, x, y => inferInstanceAs (Decidable (y ≤ x))

/-- 64-bit integers compare as the exact integers that they stand for. -/
theorem onInt_eq (op : OrderOp) (x y : Int64) :
    op.onInt x y = decide (op.Holds x.toInt y.toInt) := by
  cases op with
  | lt | gt => exact decide_eq_decide.2 Int64.lt_iff_toInt_lt
  | le | ge => exact decide_eq_decide.2 Int64.le_iff_toInt_le

/-- Reals compare by the order of the reals. -/
theorem onReal_eq (op : OrderOp) (x y : Float) : op.onReal x y = decide (op.Holds x y) := by
  cases op <;> rfl

end OrderOp

namespace EqualityOp

/-- What the test asserts of two values, if `p` says that they are equal. -/
def Holds : EqualityOp → Prop → Prop
  | eq, p => p
  | ne, p => ¬p

instance {p : Prop} [Decidable p] : ∀ op : EqualityOp, Decidable (op.Holds p)
  | eq => inferInstanceAs (Decidable p)
  | ne => inferInstanceAs (Decidable ¬p)

/-- A test says whether what it asserts is so. -/
theorem ofEqual_eq (op : EqualityOp) (b : Bool) : op.ofEqual b = decide (op.Holds (b = true)) := by
  cases op <;> cases b <;> rfl

end EqualityOp

end Procedural
