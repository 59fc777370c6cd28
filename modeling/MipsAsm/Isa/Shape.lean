/-!
# Operand shapes

A shape is the sequence of slots that the operands of a statement fill. `priority` is the order in
which the shapes of a mnemonic are tried: specific ones first, structural ones last.
-/

namespace MipsAsm

/-- What stands in one place of an operand list. -/
inductive Slot where
  /-- The first register. -/
  | first
  /-- The second register. -/
  | second
  /-- The third register. -/
  | third
  /-- A number. -/
  | immediate
  /-- A number that is added to a base register. -/
  | offset
  /-- A label. -/
  | label
  /-- A label and a signed number. -/
  | labelImmediate
  /-- A label and a signed number that is added to a base register. -/
  | labelOffset
  /-- A base register between parentheses. -/
  | base
deriving DecidableEq, Repr

/-- A legal sequence of operands. -/
inductive Shape where
  | empty
  | imm
  | label
  | reg
  | regImm
  | regLabel
  | immLabel
  | regReg
  | regRegReg
  | regRegImm
  | regRegLabel
  | immRegReg
  | regBase
  | regOffsetBase
  | regImmLabel
  | regLabelImm
  | regLabelOffsetBase
  | regLabelBase
deriving DecidableEq, Repr

namespace Shape

/-- All shapes. -/
def all : List Shape :=
  [empty, imm, label, reg, regImm, regLabel, immLabel, regReg, regRegReg, regRegImm, regRegLabel,
   immRegReg, regBase, regOffsetBase, regImmLabel, regLabelImm, regLabelOffsetBase, regLabelBase]

/-- The order in which shapes are tried. -/
def priority : List Shape :=
  [regLabelBase, regLabelOffsetBase, regLabelImm, regOffsetBase, regBase, regRegImm, regRegLabel,
   regImmLabel, immRegReg, regImm, regLabel, immLabel, regReg, reg, imm, label, regRegReg, empty]

/-- The slots of a shape, in textual order. -/
def slots : Shape → List Slot
  | .empty              => []
  | .imm                => [.immediate]
  | .label              => [.label]
  | .reg                => [.first]
  | .regImm             => [.first, .immediate]
  | .regLabel           => [.first, .label]
  | .immLabel           => [.immediate, .label]
  | .regReg             => [.first, .second]
  | .regRegReg          => [.first, .second, .third]
  | .regRegImm          => [.first, .second, .immediate]
  | .regRegLabel        => [.first, .second, .label]
  | .immRegReg          => [.immediate, .first, .second]
  | .regBase            => [.first, .base]
  | .regOffsetBase      => [.first, .offset, .base]
  | .regImmLabel        => [.first, .immediate, .label]
  | .regLabelImm        => [.first, .labelImmediate]
  | .regLabelOffsetBase => [.first, .labelOffset, .base]
  | .regLabelBase       => [.first, .label, .base]

/-- The name of a shape in listings. -/
def name : Shape → String
  | .empty              => "NO_PARAMS"
  | .imm                => "IMM"
  | .label              => "LABEL"
  | .reg                => "REG"
  | .regImm             => "REG_IMM"
  | .regLabel           => "REG_LABEL"
  | .immLabel           => "IMM_LABEL"
  | .regReg             => "REG_REG"
  | .regRegReg          => "REG_REG_REG"
  | .regRegImm          => "REG_REG_IMM"
  | .regRegLabel        => "REG_REG_LABEL"
  | .immRegReg          => "IMM_REG_REG"
  | .regBase            => "REG_MEM_REG"
  | .regOffsetBase      => "REG_OFFSET_FOR_REG"
  | .regImmLabel        => "REG_IMM_LABEL"
  | .regLabelImm        => "REG_LABEL_PLUS_IMM"
  | .regLabelOffsetBase => "REG_LABEL_PLUS_IMM_OFFSET_FOR_REG"
  | .regLabelBase       => "REG_LABEL_AS_OFFSET_REG"

theorem mem_all (s : Shape) : s ∈ all := by cases s <;> simp [all]

theorem mem_priority (s : Shape) : s ∈ priority := by cases s <;> simp [priority]

end Shape

end MipsAsm
