import MipsAsm.Isa.Shape
import MipsAsm.Text.Case

/-!
# Instructions

The machine instructions and the pseudoinstructions, each with its mnemonic and the shapes that its
operands may have. A mnemonic may name one of each; the machine instruction goes first.
-/

namespace MipsAsm

/-- Whether an instruction is executed as it is or stands for others. -/
inductive InstructionKind where
  | machine
  | pseudo
deriving DecidableEq, Repr

/-- The name of an instruction in listings: its mnemonic in capitals, with low lines for dots. -/
def listingName (mnemonic : String) : String :=
  String.ofList (mnemonic.toList.map fun c => if c = '.' then '_' else c.toUpper)

/-- An instruction. -/
structure Instruction where
  kind     : InstructionKind
  spelling : String
  shapes   : List Shape
  name     : String := listingName spelling
deriving DecidableEq, Repr

namespace Instruction

/-- A machine instruction. -/
def machine (spelling : String) (shapes : List Shape) : Instruction :=
  { kind := .machine, spelling, shapes }

/-- A pseudoinstruction. -/
def pseudo (spelling : String) (shapes : List Shape) : Instruction :=
  { kind := .pseudo, spelling, shapes }

/-- The shapes of loads and stores. -/
def memory : List Shape :=
  [.regImm, .regLabel, .regBase, .regOffsetBase, .regLabelImm, .regLabelOffsetBase, .regLabelBase]

/-- The jump to a register that links into `$ra`. It is written `jalr` with one register. -/
def jalrRa : Instruction :=
  { kind := .machine, spelling := "jalr", shapes := [.reg], name := "JALR_RA" }

/-- The jump to a register that links into the register of the programmer's choice. -/
def jalr : Instruction := machine "jalr" [.reg, .regReg]

/-- The machine instructions that a mnemonic names. -/
def machineTable : List Instruction :=
  [machine "abs.d" [.regReg],
   machine "abs.s" [.regReg],
   machine "add" [.regRegReg],
   machine "add.d" [.regRegReg],
   machine "add.s" [.regRegReg],
   machine "addi" [.regRegImm],
   machine "addiu" [.regRegImm],
   machine "addu" [.regRegReg],
   machine "and" [.regRegReg],
   machine "andi" [.regRegImm],
   machine "bc1f" [.label, .immLabel],
   machine "bc1t" [.label, .immLabel],
   machine "beq" [.regRegLabel],
   machine "bgez" [.regLabel],
   machine "bgezal" [.regLabel],
   machine "bgtz" [.regLabel],
   machine "blez" [.regLabel],
   machine "bltz" [.regLabel],
   machine "bltzal" [.regLabel],
   machine "bne" [.regRegLabel],
   machine "break" [.empty, .imm],
   machine "c.eq.d" [.regReg, .immRegReg],
   machine "c.eq.s" [.regReg, .immRegReg],
   machine "c.le.d" [.regReg, .immRegReg],
   machine "c.le.s" [.regReg, .immRegReg],
   machine "c.lt.d" [.regReg, .immRegReg],
   machine "c.lt.s" [.regReg, .immRegReg],
   machine "ceil.w.d" [.regReg],
   machine "ceil.w.s" [.regReg],
   machine "clo" [.regReg],
   machine "clz" [.regReg],
   machine "cvt.d.s" [.regReg],
   machine "cvt.d.w" [.regReg],
   machine "cvt.s.d" [.regReg],
   machine "cvt.s.w" [.regReg],
   machine "cvt.w.d" [.regReg],
   machine "cvt.w.s" [.regReg],
   machine "div" [.regReg],
   machine "div.d" [.regRegReg],
   machine "div.s" [.regRegReg],
   machine "divu" [.regReg],
   machine "eret" [.empty],
   machine "floor.w.d" [.regReg],
   machine "floor.w.s" [.regReg],
   machine "j" [.imm, .label],
   machine "jal" [.imm, .label],
   jalr,
   machine "jr" [.reg],
   machine "lb" memory,
   machine "lbu" memory,
   machine "ldc1" memory,
   machine "lh" memory,
   machine "lhu" memory,
   machine "ll" memory,
   machine "lui" [.regImm],
   machine "lw" memory,
   machine "lwc1" memory,
   machine "lwl" memory,
   machine "lwr" memory,
   machine "madd" [.regReg],
   machine "maddu" [.regReg],
   machine "mfc0" [.regReg],
   machine "mfc1" [.regReg],
   machine "mfhi" [.reg],
   machine "mflo" [.reg],
   machine "mov.d" [.regReg],
   machine "mov.s" [.regReg],
   machine "movf" [.regReg, .regRegImm],
   machine "movf.d" [.regReg, .regRegImm],
   machine "movf.s" [.regReg, .regRegImm],
   machine "movn" [.regRegReg],
   machine "movn.d" [.regRegReg],
   machine "movn.s" [.regRegReg],
   machine "movt" [.regReg, .regRegImm],
   machine "movt.d" [.regReg, .regRegImm],
   machine "movt.s" [.regReg, .regRegImm],
   machine "movz" [.regRegReg],
   machine "movz.d" [.regRegReg],
   machine "movz.s" [.regRegReg],
   machine "msub" [.regReg],
   machine "msubu" [.regReg],
   machine "mtc0" [.regReg],
   machine "mtc1" [.regReg],
   machine "mthi" [.reg],
   machine "mtlo" [.reg],
   machine "mul" [.regRegReg],
   machine "mul.d" [.regRegReg],
   machine "mul.s" [.regRegReg],
   machine "mult" [.regReg],
   machine "multu" [.regReg],
   machine "neg.d" [.regReg],
   machine "neg.s" [.regReg],
   machine "nop" [.empty],
   machine "nor" [.regRegReg],
   machine "or" [.regRegReg],
   machine "ori" [.regRegImm],
   machine "round.w.d" [.regReg],
   machine "round.w.s" [.regReg],
   machine "sb" memory,
   machine "sc" memory,
   machine "sdc1" memory,
   machine "sh" memory,
   machine "sll" [.regRegImm],
   machine "sllv" [.regRegReg],
   machine "slt" [.regRegReg],
   machine "slti" [.regRegImm],
   machine "sltiu" [.regRegImm],
   machine "sltu" [.regRegReg],
   machine "sqrt.d" [.regReg],
   machine "sqrt.s" [.regReg],
   machine "sra" [.regRegImm],
   machine "srav" [.regRegReg],
   machine "srl" [.regRegImm],
   machine "srlv" [.regRegReg],
   machine "sub" [.regRegReg],
   machine "sub.d" [.regRegReg],
   machine "sub.s" [.regRegReg],
   machine "subu" [.regRegReg],
   machine "sw" memory,
   machine "swc1" memory,
   machine "swl" memory,
   machine "swr" memory,
   machine "syscall" [.empty],
   machine "teq" [.regReg],
   machine "teqi" [.regImm],
   machine "tge" [.regReg],
   machine "tgei" [.regImm],
   machine "tgeiu" [.regImm],
   machine "tgeu" [.regReg],
   machine "tlt" [.regReg],
   machine "tlti" [.regImm],
   machine "tltiu" [.regImm],
   machine "tltu" [.regReg],
   machine "tne" [.regReg],
   machine "tnei" [.regImm],
   machine "trunc.w.d" [.regReg],
   machine "trunc.w.s" [.regReg],
   machine "xor" [.regRegReg],
   machine "xori" [.regRegImm]]

/-- The pseudoinstructions that a mnemonic names. -/
def pseudoTable : List Instruction :=
  [pseudo "b" [.label],
   pseudo "beq" [.regRegLabel, .regImmLabel],
   pseudo "beqz" [.regLabel],
   pseudo "bge" [.regRegLabel, .regImmLabel],
   pseudo "bgeu" [.regRegLabel, .regImmLabel],
   pseudo "bgt" [.regRegLabel, .regImmLabel],
   pseudo "bgtu" [.regRegLabel, .regImmLabel],
   pseudo "ble" [.regRegLabel, .regImmLabel],
   pseudo "bleu" [.regRegLabel, .regImmLabel],
   pseudo "blt" [.regRegLabel, .regImmLabel],
   pseudo "bltu" [.regRegLabel, .regImmLabel],
   pseudo "bnez" [.regLabel],
   pseudo "l.d" memory,
   pseudo "l.s" memory,
   pseudo "la" memory,
   pseudo "ld" memory,
   pseudo "li" [.regImm],
   pseudo "mfc1.d" [.regReg],
   pseudo "move" [.regReg],
   pseudo "mtc1.d" [.regReg],
   pseudo "mulo" [.regRegReg, .regRegImm],
   pseudo "mulou" [.regRegReg, .regRegImm],
   pseudo "mulu" [.regRegReg, .regRegImm],
   pseudo "neg" [.regReg],
   pseudo "negu" [.regReg],
   pseudo "not" [.regReg],
   pseudo "rem" [.regRegReg, .regRegImm],
   pseudo "remu" [.regRegReg, .regRegImm],
   pseudo "rol" [.regRegReg, .regRegImm],
   pseudo "ror" [.regRegReg, .regRegImm],
   pseudo "s.d" memory,
   pseudo "s.s" memory,
   pseudo "sd" memory,
   pseudo "seq" [.regRegReg, .regRegImm],
   pseudo "sge" [.regRegReg, .regRegImm],
   pseudo "sgeu" [.regRegReg, .regRegImm],
   pseudo "sgt" [.regRegReg, .regRegImm],
   pseudo "sgtu" [.regRegReg, .regRegImm],
   pseudo "sle" [.regRegReg, .regRegImm],
   pseudo "sleu" [.regRegReg, .regRegImm],
   pseudo "sne" [.regRegReg, .regRegImm],
   pseudo "subi" [.regRegImm],
   pseudo "subiu" [.regRegImm],
   pseudo "ulh" memory,
   pseudo "ulhu" memory,
   pseudo "ulw" memory,
   pseudo "ush" memory,
   pseudo "usw" memory]

/-- The instruction of a table with a mnemonic. -/
def find? (table : List Instruction) (mnemonic : Text) : Option Instruction :=
  table.find? (·.spelling.toList = mnemonic)

/-- The instructions that a word names in any case, the machine instruction first. -/
def candidates (word : Text) : List Instruction :=
  (find? machineTable word.lower).toList ++ (find? pseudoTable word.lower).toList

/-- The instruction that is meant once the shape of the operands is known. -/
def refine (i : Instruction) (shape : Shape) : Instruction :=
  if i = jalr ∧ shape = .reg then jalrRa else i

end Instruction

end MipsAsm
