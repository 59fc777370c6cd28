import MipsAsm.Text.Case
import MipsAsm.Text.Digit
import MipsAsm.Text.Utf8

/-!
# Encodings

A source file is bytes that a `Codec` reads as a text. Three encodings are known here by their names
(`Codec.named`); any other one may be given with its own reading and its own wording of what it
refuses. A byte order mark is kept as a character.
-/

namespace MipsAsm

/-- An encoding that is known by name. -/
inductive Encoding where
  | utf8
  | latin1
  | ascii
deriving DecidableEq, Repr

namespace Encoding

/-- The names of the encodings. -/
def names : List (String × Encoding) :=
  [("utf-8", .utf8), ("utf8", .utf8), ("latin-1", .latin1), ("latin1", .latin1),
   ("iso-8859-1", .latin1), ("ascii", .ascii), ("us-ascii", .ascii)]

/-- The encoding that a name stands for, in any case and with low lines for hyphens. -/
def named? (name : Text) : Option Encoding :=
  let key := name.lower.map fun c => if c = '_' then '-' else c
  (names.find? fun (n, _) => n.toList = key).map (·.2)

/-- Why bytes are no text. -/
inductive DecodeFault where
  /-- No encoding has the name. -/
  | unknownEncoding (name : Text)
  /-- A bad sequence begins at an offset with a byte. -/
  | badSequence (offset : Nat) (byte : UInt8) (fault : Utf8.Fault)
  /-- A byte at an offset is no ASCII character. -/
  | notAscii (offset : Nat) (byte : UInt8)
  /-- A codec that is not known here refuses the bytes. -/
  | refused (wording : String)
deriving DecidableEq, Repr

/-- The wording of what is wrong with a sequence. -/
def reasonText : Utf8.Reason → String
  | .invalidStart        => "invalid start byte"
  | .invalidContinuation => "invalid continuation byte"
  | .unexpectedEnd       => "unexpected end of data"

/-- A byte in base sixteen. -/
def byteText (b : UInt8) : String := String.ofList (hexDigits 2 b.toNat)

/-- The wording of a fault. -/
def DecodeFault.message : DecodeFault → String
  | .unknownEncoding name => s!"unknown encoding: {name.str}"
  | .badSequence offset byte fault =>
    if fault.width ≤ 1 then
      s!"'utf-8' codec can't decode byte 0x{byteText byte} in position {offset}: " ++
        reasonText fault.reason
    else
      s!"'utf-8' codec can't decode bytes in position {offset}-{offset + fault.width - 1}: " ++
        reasonText fault.reason
  | .notAscii offset byte =>
    s!"'ascii' codec can't decode byte 0x{byteText byte} in position {offset}: " ++
      "ordinal not in range(128)"
  | .refused wording => wording

/-- Read ASCII, the first byte of which stands at an offset. -/
def decodeAscii (offset : Nat) : List UInt8 → Except DecodeFault Text
  | []      => .ok []
  | b :: bs =>
    if b.toNat < 128 then (decodeAscii (offset + 1) bs).map (Char.ofNat b.toNat :: ·)
    else .error (.notAscii offset b)

/-- The text that bytes stand for in an encoding. -/
def decode (bytes : List UInt8) : Encoding → Except DecodeFault Text
  | .utf8   =>
    (Utf8.decode bytes).mapError fun (offset, fault) =>
      .badSequence offset (bytes.getD offset 0) fault
  | .latin1 => .ok (bytes.map fun b => Char.ofNat b.toNat)
  | .ascii  => decodeAscii 0 bytes

/-- The text that bytes stand for in the encoding with a name. No bytes are the empty text under any
name. -/
def decodeNamed (name : Text) (bytes : List UInt8) : Except DecodeFault Text :=
  if bytes.isEmpty then .ok []
  else
    match named? name with
    | none   => .error (.unknownEncoding name)
    | some e => e.decode bytes

end Encoding

/-- A way to read bytes: the name by which it is asked for, and the text that bytes stand for. -/
structure Codec where
  name   : Text
  decode : List UInt8 → Except Encoding.DecodeFault Text

/-- The codec that is known by a name. Under any other name it refuses all but the empty file. -/
def Codec.named (name : Text) : Codec := ⟨name, Encoding.decodeNamed name⟩

end MipsAsm
