import MipsAsm.Text.Basic

/-!
# Registers

The thirty-two general purpose registers. The floating point registers share their indices.
-/

namespace MipsAsm

/-- A register, by its index. -/
abbrev Register := Fin 32

/-- The conventional names of the registers, in the order of their indices. -/
def registerNames : List String :=
  ["zero", "at", "v0", "v1", "a0", "a1", "a2", "a3",
   "t0", "t1", "t2", "t3", "t4", "t5", "t6", "t7",
   "s0", "s1", "s2", "s3", "s4", "s5", "s6", "s7",
   "t8", "t9", "k0", "k1", "gp", "sp", "fp", "ra"]

/-- The register with an index, if there is one. -/
def Register.ofIndex? (n : Nat) : Option Register := if h : n < 32 then some ⟨n, h⟩ else none

/-- The register with a conventional name. -/
def Register.named? (name : Text) : Option Register :=
  (registerNames.findIdx? (·.toList = name)).bind Register.ofIndex?

end MipsAsm
