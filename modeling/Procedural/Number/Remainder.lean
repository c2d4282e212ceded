/-! # The remainder of two reals

The remainder of `x` by `y` is `x - n * y`, where `n` is the exact quotient truncated toward zero;
it is always a double itself, so nothing is rounded. It is computed exactly: every finite double is
a whole number of **ticks**, the distance `2^-1074` between the two smallest magnitudes, and on
ticks the remainder is the remainder of natural numbers. -/

namespace Procedural.Ticks

/-- The ticks in the magnitude of a finite double, from the 63 bits below its sign. -/
def ofBits (bits : Nat) : Nat :=
  let exponent := bits >>> 52
  let fraction := bits % 1 <<< 52
  if exponent = 0 then fraction else (1 <<< 52 + fraction) <<< (exponent - 1)

/-- The 63 bits of the double whose magnitude is `n` ticks, for an `n` that is the magnitude of a
double: the leading 53 binary digits are kept, and each digit beyond them raises the exponent. -/
def toBits (n : Nat) : Nat :=
  let excess := n.log2 - 52
  excess <<< 52 + n >>> excess

end Procedural.Ticks

namespace Procedural

/-- The weight of the sign bit of a double. -/
def signWeight : Nat := 1 <<< 63

/-- The remainder of the truncated quotient of two reals. It has the sign of the dividend, also when
it is zero. An infinite dividend, a zero divisor or a NaN gives NaN; an infinite divisor leaves a
finite dividend as it is. -/
def remainder (x y : Float) : Float :=
  if x.isNaN || y.isNaN || x.isInf || y == 0 then 0 / 0
  else if y.isInf then x
  else
    let bits := x.toBits.toNat
    let ticks := Ticks.ofBits (bits % signWeight) % Ticks.ofBits (y.toBits.toNat % signWeight)
    Float.ofBits (UInt64.ofNat (bits / signWeight * signWeight + Ticks.toBits ticks))

end Procedural
