/-! # Checked integer arithmetic

Arithmetic on signed 64-bit integers that has no result where the exact one does not fit. Every
operation computes the exact integer first and then asks whether it lies in the range. -/

namespace Procedural.Checked

/-- The 64-bit integer with value `z`, if `z` lies in `[-2^63, 2^63)`. -/
def ofInt? (z : Int) : Option Int64 :=
  if Int64.minValue.toInt ≤ z ∧ z ≤ Int64.maxValue.toInt then some (Int64.ofInt z) else none

/-- An integer is represented by the word with its value, and by no other. -/
theorem ofInt?_eq_some_iff {z : Int} {v : Int64} : ofInt? z = some v ↔ v.toInt = z := by
  unfold ofInt?
  by_cases hz : Int64.minValue.toInt ≤ z ∧ z ≤ Int64.maxValue.toInt
  · rw [if_pos hz, Option.some.injEq]
    refine ⟨fun h => ?_, fun h => ?_⟩
    · rw [← h]
      exact Int64.toInt_ofInt_of_le hz.1 (Int.lt_add_one_of_le hz.2)
    · rw [← h]
      exact Int64.ofInt_toInt v
  · rw [if_neg hz]
    refine ⟨fun h => absurd h (by simp), fun h => absurd ?_ hz⟩
    rw [← h]
    exact ⟨Int64.minValue_le_toInt v, Int64.toInt_le v⟩

/-- The negative, unless it overflows. -/
def neg? (x : Int64) : Option Int64 := ofInt? (-x.toInt)

/-- The sum, unless it overflows. -/
def add? (x y : Int64) : Option Int64 := ofInt? (x.toInt + y.toInt)

/-- The difference, unless it overflows. -/
def sub? (x y : Int64) : Option Int64 := ofInt? (x.toInt - y.toInt)

/-- The product, unless it overflows. -/
def mul? (x y : Int64) : Option Int64 := ofInt? (x.toInt * y.toInt)

/-- The quotient truncated toward zero, unless the divisor is zero or it overflows. -/
def div? (x y : Int64) : Option Int64 :=
  if y = 0 then none else ofInt? (x.toInt.tdiv y.toInt)

/-- The remainder that goes with the truncated quotient, wherever that quotient exists. -/
def rem? (x y : Int64) : Option Int64 :=
  (div? x y).bind fun _ => ofInt? (x.toInt.tmod y.toInt)

end Procedural.Checked
