import MipsAsm.Number.Binary
import MipsAsm.Text.Basic

/-!
# Shortest decimals

A finite value is written with the fewest digits that read back as the same value, and among those
with the digits nearest to it. Values from `1e-04` up to, but not including, `1e+16` are written
positionally, all others with an exponent.
-/

namespace MipsAsm.Number

-- powers are the ones that numbers have, not those of a monoid
attribute [local instance(2000)] instPowNat

/-- A decimal `digits * 10 ^ exponent`. -/
structure Decimal where
  digits   : Nat
  exponent : Int
deriving DecidableEq, Repr

namespace Decimal

/-- The decimal as a fraction. -/
def fraction (x : Decimal) : Nat × Nat :=
  if 0 ≤ x.exponent then (x.digits * 10 ^ x.exponent.toNat, 1)
  else (x.digits, 10 ^ (-x.exponent).toNat)

/-- The magnitude that a decimal reads as. -/
def code (x : Decimal) : Nat :=
  let (num, den) := x.fraction
  binary64.round num den

/-- The fraction `num / (den * 10 ^ e)` with a natural numerator and denominator. -/
def inPlaces (num den : Nat) (e : Int) : Nat × Nat :=
  if 0 ≤ e then (num, den * 10 ^ e.toNat) else (num * 10 ^ (-e).toNat, den)

/-- The least power of ten above a positive fraction. -/
def order (num den : Nat) : Int :=
  let e : Int := Double.decimalLength num - Double.decimalLength den
  let (n, d) := inPlaces num den e
  if n < d then e else e + 1

/-- Of the two decimals with the last place `e` around a fraction, the nearest that reads as `code`;
of two equally near ones the even one. -/
def neighbour? (code num den : Nat) (e : Int) : Option Decimal :=
  let (n, d) := inPlaces num den e
  let low  : Decimal := ⟨n / d, e⟩
  let high : Decimal := ⟨n / d + 1, e⟩
  let near : Decimal := ⟨nearest n d, e⟩
  if near.code = code then some near
  else if low.code = code then some low
  else if high.code = code then some high
  else none

/-- The first grid, from `e` on down, with a decimal that reads as `code`; `fuel` bounds the number
of grids after it. -/
def search (code num den : Nat) : (fuel : Nat) → (e : Int) → Decimal
  | 0,        e => (neighbour? code num den e).getD ⟨0, 0⟩
  | fuel + 1, e =>
    match neighbour? code num den e with
    | some x => x
    | none   => search code num den fuel (e - 1)

/-- The shortest decimal that reads as a positive finite magnitude. Seventeen digits always do. -/
def shortest (code : Nat) : Decimal :=
  let (num, den) := binary64.fraction code
  search code num den 16 (order num den - 1)

/-- The digits of a decimal without the zeros at their end, and the power of ten just above it. -/
def significant (x : Decimal) : Text × Int :=
  let ds := Nat.toDigits 10 x.digits
  ((ds.reverse.dropWhile (· = '0')).reverse, ds.length + x.exponent)

end Decimal

/-! ### Layout -/

/-- An exponent: sign and at least two digits. -/
def exponentText (e : Int) : Text :=
  let ds := Nat.toDigits 10 e.natAbs
  (if e < 0 then '-' else '+') :: (if ds.length < 2 then '0' :: ds else ds)

/-- Digits laid out below the power of ten `point`. -/
def layout (ds : Text) (point : Int) : Text :=
  if point ≤ -4 ∨ 16 < point then
    match ds with
    | []      => []
    | d :: [] => d :: 'e' :: exponentText (point - 1)
    | d :: ds => d :: '.' :: ds ++ 'e' :: exponentText (point - 1)
  else if point ≤ 0 then
    '0' :: '.' :: List.replicate (-point).toNat '0' ++ ds
  else if ds.length ≤ point.toNat then
    ds ++ List.replicate (point.toNat - ds.length) '0' ++ ['.', '0']
  else
    ds.take point.toNat ++ '.' :: ds.drop point.toNat

/-- The magnitude of a value as text. -/
def magnitudeText (code : Nat) : Text :=
  if binary64.infinity ≤ code then ['i', 'n', 'f']
  else if code = 0 then ['0', '.', '0']
  else
    let (ds, point) := (Decimal.shortest code).significant
    layout ds point

/-- The text of a value. -/
def Double.text (x : Double) : Text :=
  if x.negative then '-' :: magnitudeText x.magnitude else magnitudeText x.magnitude

end MipsAsm.Number
