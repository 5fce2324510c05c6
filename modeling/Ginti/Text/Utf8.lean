import Ginti.Text.Quoted

namespace Ginti.Text.Utf8

/-- What can be wrong with a sequence of bytes. -/
inductive Defect where
  /-- The byte cannot begin a sequence. -/
  | invalidStart
  /-- The sequence goes on with a byte that cannot stand there. -/
  | invalidContinuation
  /-- The input ends inside the sequence. -/
  | unexpectedEnd
  deriving DecidableEq, Repr

def Defect.reason : Defect → String
  | .invalidStart => "invalid start byte"
  | .invalidContinuation => "invalid continuation byte"
  | .unexpectedEnd => "unexpected end of data"

/-- The first defect of an input, with the offset of the sequence and its bytes up to, and not
    including, the one that does not fit. -/
structure DecodeError where
  defect : Defect
  start : Nat
  bytes : List UInt8
  deriving DecidableEq, Repr

/-- One byte is named by its value, several by the range of their offsets. -/
def DecodeError.message (e : DecodeError) : String :=
  let place :=
    match e.bytes with
    | [b] =>
      "byte 0x" ++ String.ofList (hexDigits 2 b.toNat) ++ " in position " ++ toString e.start
    | bytes =>
      "bytes in position " ++ toString e.start ++ "-" ++ toString (e.start + bytes.length - 1)
  "'utf-8' codec can't decode " ++ place ++ ": " ++ e.defect.reason

/-- A sequence that is not complete: how many continuation bytes it still owes, the bounds of
    the next one, the bits read so far and the bytes seen. -/
structure Pending where
  owed : Nat
  low : Nat
  high : Nat
  value : Nat
  seen : List UInt8
  deriving Repr

/-- What a first byte announces. The bounds of the second byte exclude overlong forms, the
    surrogates and everything past the last code point. -/
def announce (b : UInt8) : Option Pending :=
  let n := b.toNat
  if n < 0x80 then some ⟨0, 0x80, 0xbf, n, [b]⟩
  else if n < 0xc2 then none
  else if n < 0xe0 then some ⟨1, 0x80, 0xbf, n - 0xc0, [b]⟩
  else if n < 0xf0 then
    some ⟨2, if n = 0xe0 then 0xa0 else 0x80, if n = 0xed then 0x9f else 0xbf, n - 0xe0, [b]⟩
  else if n < 0xf5 then
    some ⟨3, if n = 0xf0 then 0x90 else 0x80, if n = 0xf4 then 0x8f else 0xbf, n - 0xf0, [b]⟩
  else none

/-- The sequence after one more continuation byte, or nothing if the byte is out of bounds. -/
def Pending.extend (p : Pending) (b : UInt8) : Option Pending :=
  if p.low ≤ b.toNat && b.toNat ≤ p.high then
    some ⟨p.owed - 1, 0x80, 0xbf, p.value * 64 + (b.toNat - 0x80), p.seen ++ [b]⟩
  else none

/-- Decodes from an offset on, possibly inside a sequence. Each byte either completes a
    character, carries the sequence on, or ends the decoding with a defect. -/
def decodeFrom (offset : Nat) : Option Pending → List UInt8 → Except DecodeError (List Char)
  | none, [] => .ok []
  | some p, [] => .error ⟨.unexpectedEnd, offset - p.seen.length, p.seen⟩
  | pending, b :: rest =>
    let next :=
      match pending with
      | none => announce b
      | some p => p.extend b
    match next with
    | some p =>
      if p.owed = 0 then (decodeFrom (offset + 1) none rest).map (Char.ofNat p.value :: ·)
      else decodeFrom (offset + 1) (some p) rest
    | none =>
      match pending with
      | none => .error ⟨.invalidStart, offset, [b]⟩
      | some p => .error ⟨.invalidContinuation, offset - p.seen.length, p.seen⟩

/-- The text that the bytes encode. -/
def decode (bytes : List UInt8) : Except DecodeError (List Char) :=
  decodeFrom 0 none bytes

end Ginti.Text.Utf8
