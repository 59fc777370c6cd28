/-!
# Binary floating point

Interchange formats of IEEE 754, with exact arithmetic on natural numbers. A magnitude is a code:
the biased exponent followed by the trailing bits of the significand, so that codes are ordered as
the values they stand for, and the code after the greatest finite one is infinity.
-/

namespace MipsAsm.Number

-- powers are the ones that numbers have, not those of a monoid
attribute [local instance(2000)] instPowNat

/-- The nearest natural number to `num / den`; of two, the even one. -/
def nearest (num den : Nat) : Nat :=
  let q := num / den
  let r := num % den
  if 2 * r < den then q
  else if den < 2 * r then q + 1
  else q + q % 2

/-- The fraction `num / (den * 2 ^ q)` with a natural numerator and denominator. -/
def inUnits (num den : Nat) (q : Int) : Nat × Nat :=
  if 0 ≤ q then (num, den * 2 ^ q.toNat) else (num * 2 ^ (-q).toNat, den)

/-- A binary interchange format. -/
structure BinaryFormat where
  /-- Bits of a significand, the implicit one included. -/
  precision    : Nat
  /-- Bits of a biased exponent. -/
  exponentBits : Nat
deriving DecidableEq, Repr

/-- Single precision. -/
def binary32 : BinaryFormat := ⟨24, 8⟩

/-- Double precision. -/
def binary64 : BinaryFormat := ⟨53, 11⟩

namespace BinaryFormat

variable (f : BinaryFormat)

/-- The exponent of the least positive value, a power of two. -/
def leastExponent : Int := 3 - 2 ^ (f.exponentBits - 1) - f.precision

/-- The code of infinity. -/
def infinity : Nat := (2 ^ f.exponentBits - 1) * 2 ^ (f.precision - 1)

/-- The significand and the exponent of a finite code: the value is `m * 2 ^ q`. -/
def value (code : Nat) : Nat × Int :=
  let e := code / 2 ^ (f.precision - 1)
  let m := code % 2 ^ (f.precision - 1)
  if e = 0 then (m, f.leastExponent)
  else (m + 2 ^ (f.precision - 1), f.leastExponent + (e - 1 : Nat))

/-- The value of a finite code as a fraction. -/
def fraction (code : Nat) : Nat × Nat :=
  let (m, q) := f.value code
  inUnits m 1 (-q)

/-- The exponent of the last place of a positive fraction. -/
def lastPlace (num den : Nat) : Int :=
  let q : Int := num.log2 - den.log2 - f.precision
  let (n, d) := inUnits num den q
  max f.leastExponent (if n < 2 ^ f.precision * d then q else q + 1)

/-- The code nearest to a fraction; a tie goes to the even significand, and a value beyond the
greatest finite one to infinity. -/
def round (num den : Nat) : Nat :=
  if num = 0 then 0
  else
    let q := f.lastPlace num den
    let (n, d) := inUnits num den q
    min f.infinity ((q - f.leastExponent).toNat * 2 ^ (f.precision - 1) + nearest n d)

end BinaryFormat

/-! ### Double precision values -/

/-- A value of double precision that is a number: its sign and the code of its magnitude. -/
structure Double where
  negative  : Bool
  magnitude : Nat
deriving DecidableEq, Repr

namespace Double

/-- The value with the other sign. -/
def neg (x : Double) : Double := { x with negative := !x.negative }

/-- The value nearest to an integer. Zero is positive. -/
def ofInt (v : Int) : Double := ⟨v < 0, binary64.round v.natAbs 1⟩

/-- The number of decimal digits of a number. -/
def decimalLength (n : Nat) : Nat := (Nat.toDigits 10 n).length

/-- The value nearest to `digits * 10 ^ exponent`. Exponents that lead far beyond the range on
either side are settled by the number of digits. -/
def ofDecimal (digits : Nat) (exponent : Int) : Double :=
  let order := decimalLength digits + exponent
  if digits = 0 ∨ order < -330 then ⟨false, 0⟩
  else if 310 < order then ⟨false, binary64.infinity⟩
  else if 0 ≤ exponent then ⟨false, binary64.round (digits * 10 ^ exponent.toNat) 1⟩
  else ⟨false, binary64.round digits (10 ^ (-exponent).toNat)⟩

/-- The value is infinite. -/
def isInfinite (x : Double) : Bool := binary64.infinity ≤ x.magnitude

/-- The sixty-four bits of the value. -/
def bits (x : Double) : Nat := (if x.negative then 2 ^ (63 : Nat) else 0) + x.magnitude

/-- The thirty-two bits of the nearest value of single precision. -/
def singleBits (x : Double) : Nat :=
  let code :=
    if x.isInfinite then binary32.infinity
    else
      let (num, den) := binary64.fraction x.magnitude
      binary32.round num den
  (if x.negative then 2 ^ (31 : Nat) else 0) + code

end Double

end MipsAsm.Number
