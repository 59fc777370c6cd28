import MipsAsm.Diagnostic

/-!
# Words

Integers as words of a fixed number of bits, most significant bit first. A word holds the signed and
the unsigned range of its width, negative values in two's complement.
-/

namespace MipsAsm.Number

-- powers are the ones that numbers have, not those of a monoid
attribute [local instance(2000)] instPowNat

/-- The bits of a word, most significant first. -/
abbrev Bits := List Bool

/-- The last `width` bits of a number. -/
def Bits.ofNat : (width : Nat) → Nat → Bits
  | 0,         _ => []
  | width + 1, n => Bits.ofNat width (n / 2) ++ [n % 2 == 1]

/-- The unsigned value of some bits. -/
def Bits.unsigned (b : Bits) : Nat := b.foldl (fun n bit => 2 * n + bit.toNat) 0

/-- The signed value of some bits. -/
def Bits.signed (b : Bits) : Int :=
  if b.head? = some true then (b.unsigned : Int) - 2 ^ b.length else b.unsigned

/-- The unsigned value of a word. No bits are no word. -/
def Bits.unsigned? (b : Bits) : Option Nat := if b.isEmpty then none else some b.unsigned

/-- The signed value of a word. No bits are no word. -/
def Bits.signed? (b : Bits) : Option Int := if b.isEmpty then none else some b.signed

/-- The bits of a value without sign. -/
def unsignedBits (value bits : Int) : Except Fault Bits :=
  if 1 ≤ bits ∧ 0 ≤ value ∧ value < 2 ^ bits.toNat then
    .ok (Bits.ofNat bits.toNat value.toNat)
  else
    .error (.valueOutOfRange value bits)

/-- The bits of a value with or without sign. -/
def wordBits (value bits : Int) : Except Fault Bits :=
  if 0 ≤ value then unsignedBits value bits
  else if 1 ≤ bits ∧ -2 ^ (bits.toNat - 1) ≤ value then
    .ok (Bits.ofNat bits.toNat (2 ^ bits.toNat + value).toNat)
  else
    .error (.valueOutOfRange value bits)

/-- The word that holds a value. -/
def toWord (value : Int) (bits : Int) : Except Fault Nat :=
  (wordBits value bits).map Bits.unsigned

/-- The signed value that a word holds. -/
def ofWord (word : Int) (bits : Int) : Except Fault Int :=
  (unsignedBits word bits).map Bits.signed

/-- The bits of a machine word. -/
def wordSize : Nat := 32

end MipsAsm.Number
