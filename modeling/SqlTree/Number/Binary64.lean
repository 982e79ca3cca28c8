namespace SqlTree

/-- A non-negative binary floating-point number of 64 bits. With exponent field `f` and fraction field `m`
it is `m · 2^(-1074)` for `f = 0` and `(m + 2^52) · 2^(f - 1075)` otherwise, unless it is infinite, so that
the bits, read as a natural number, order the numbers. -/
structure Binary64 where
  bits : UInt64
  deriving DecidableEq

namespace Binary64

/-- How many numbers share an exponent field: `2^52`. -/
def fractionCount : Nat := 0x10000000000000

def zero : Binary64 := ⟨0⟩

def infinityBits : Nat := 0x7FF0000000000000

def infinity : Binary64 := ⟨infinityBits.toUInt64⟩

def isFinite (x : Binary64) : Bool := x.bits.toNat < infinityBits

/-- The integer nearest to `num / den`; a tie goes to the even one. -/
def roundToEven (num den : Nat) : Nat :=
  let quotient := num / den
  let rest := 2 * (num % den)
  if den < rest || (rest == den && quotient % 2 == 1) then quotient + 1 else quotient

/-- `num / den · 2^shift` as a fraction. -/
def scale (num den : Nat) (shift : Int) : Nat × Nat :=
  if 0 ≤ shift then (num * Nat.pow 2 shift.toNat, den) else (num, den * Nat.pow 2 (-shift).toNat)

/-- The exponent `e` for which `num / den` lies between `2^52 · 2^e` and `2^53 · 2^e`, but no
less than that of the smallest numbers. -/
def unitExponent (num den : Nat) : Int :=
  let guess : Int := (num.log2 : Int) - (den.log2 : Int) - 52
  let (n, d) := scale num den (-guess)
  let exact := if n / d < fractionCount then guess - 1 else guess
  max exact (-1074)

/-- The number nearest to the positive fraction `num / den`; a tie goes to the even fraction
field. Rounding up from the largest fraction field carries into the exponent field, as it must. -/
def ofRatio (num den : Nat) : Binary64 :=
  let e := unitExponent num den
  let (n, d) := scale num den (-e)
  ⟨(min ((e + 1074).toNat * fractionCount + roundToEven n d) infinityBits).toUInt64⟩

/-- The number nearest to `digits · 10^exponent`. Exponents far outside of the range of the
format are settled first, so that no power of their size is computed. -/
def ofDecimal (digits : Nat) (exponent : Int) : Binary64 :=
  if digits = 0 then zero
  else
    let digitCount : Nat := digits.log2 * 30103 / 100000
    let magnitude : Int := exponent + digitCount
    if magnitude > 310 then infinity
    else if magnitude < -330 then zero
    else if 0 ≤ exponent then ofRatio (digits * Nat.pow 10 exponent.toNat) 1
    else ofRatio digits (Nat.pow 10 (-exponent).toNat)

/-- The fraction as an integer and the exponent of its unit. -/
def decode (x : Binary64) : Nat × Int :=
  let field : Nat := x.bits.toNat / fractionCount
  let fraction : Nat := x.bits.toNat % fractionCount
  if field = 0 then (fraction, -1074) else (fraction + fractionCount, (field : Int) - 1075)

end Binary64

end SqlTree
