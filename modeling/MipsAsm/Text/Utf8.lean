import MipsAsm.Text.Basic

/-!
# UTF-8

Writing a text as bytes, and reading bytes strictly: a fault names the longest beginning of the bad
sequence that some well-formed sequence has, and what is wrong after it.
-/

namespace MipsAsm.Utf8

/-- The bytes of a text. -/
def encode (t : Text) : List UInt8 := t.flatMap String.utf8EncodeChar

/-- What is wrong with a sequence of bytes. -/
inductive Reason where
  | invalidStart
  | invalidContinuation
  | unexpectedEnd
deriving DecidableEq, Repr

/-- A bad sequence: how many bytes it has that fit, and what is wrong with it. -/
structure Fault where
  width  : Nat
  reason : Reason
deriving DecidableEq, Repr

/-- The number of continuation bytes that a first byte asks for, the bits it carries, and the least
and greatest second byte. -/
def lead? (b : Nat) : Option (Nat × Nat × Nat × Nat) :=
  if b < 0xC2 then none
  else if b < 0xE0 then some (1, b - 0xC0, 0x80, 0xBF)
  else if b < 0xF0 then
    some (2, b - 0xE0, if b = 0xE0 then 0xA0 else 0x80, if b = 0xED then 0x9F else 0xBF)
  else if b < 0xF5 then
    some (3, b - 0xF0, if b = 0xF0 then 0x90 else 0x80, if b = 0xF4 then 0x8F else 0xBF)
  else none

/-- Read `need` continuation bytes of a sequence of which `seen` bytes are read, the next of them
between `lo` and `hi`. The answer is the code, with the width of the sequence. -/
def continuation : (need seen code lo hi : Nat) → List UInt8 → Except Fault (Nat × Nat)
  | 0,        seen, code, _,  _,  _       => .ok (code, seen)
  | _ + 1,    seen, _,    _,  _,  []      => .error ⟨seen, .unexpectedEnd⟩
  | need + 1, seen, code, lo, hi, b :: bs =>
    if lo ≤ b.toNat ∧ b.toNat ≤ hi then
      continuation need (seen + 1) (code * 64 + (b.toNat - 0x80)) 0x80 0xBF bs
    else
      .error ⟨seen, .invalidContinuation⟩

/-- The code of the sequence that begins with a byte, and its width. -/
def sequence (b : UInt8) (bs : List UInt8) : Except Fault (Nat × Nat) :=
  if b.toNat < 0x80 then .ok (b.toNat, 1)
  else
    match lead? b.toNat with
    | none                      => .error ⟨1, .invalidStart⟩
    | some (need, code, lo, hi) => continuation need 1 code lo hi bs

/-- Read all bytes. A fault comes with the offset at which the bad sequence begins. -/
def decodeFrom (offset : Nat) : (skip : Nat) → List UInt8 → Except (Nat × Fault) Text
  | _,        []      => .ok []
  | skip + 1, _ :: bs => decodeFrom (offset + 1) skip bs
  | 0,        b :: bs =>
    match sequence b bs with
    | .error fault       => .error (offset, fault)
    | .ok (code, width) => (decodeFrom (offset + 1) (width - 1) bs).map (Char.ofNat code :: ·)

/-- The text that bytes encode. -/
def decode (bytes : List UInt8) : Except (Nat × Fault) Text := decodeFrom 0 0 bytes

end MipsAsm.Utf8
