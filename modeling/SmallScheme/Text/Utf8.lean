import SmallScheme.Text.Quoted

/-!
Decoding of UTF-8. A fault names the bytes that cannot be decoded and the reason: a byte that starts
no character, a character that goes on with a byte it cannot hold, or a character cut off by the
end of the data.
-/

set_option autoImplicit false
set_option relaxedAutoImplicit false

namespace SmallScheme.Text.Utf8

open Quoted (hex)

inductive Reason where
  | startByte
  | continuationByte
  | endOfData
  deriving DecidableEq, Repr

def Reason.text : Reason → String
  | .startByte => "invalid start byte"
  | .continuationByte => "invalid continuation byte"
  | .endOfData => "unexpected end of data"

/-- The bytes at fault: the position and value of the first one, and how many there are. -/
structure Fault where
  position : Nat
  byte : Nat
  count : Nat
  reason : Reason
  deriving DecidableEq, Repr

def Fault.message (fault : Fault) : String :=
  let place :=
    if fault.count = 1 then
      s!"byte 0x{String.ofList (hex 2 fault.byte)} in position {fault.position}"
    else
      s!"bytes in position {fault.position}-{fault.position + fault.count - 1}"
  s!"'utf-8' codec can't decode {place}: {fault.reason.text}"

/-- What a first byte promises: the bits it gives to the code point, and the range that each
following byte has to lie in. -/
def lead? (byte : Nat) : Option (Nat × List (Nat × Nat)) :=
  if byte < 0x80 then some (byte, [])
  else if byte < 0xC2 then none
  else if byte < 0xE0 then some (byte - 0xC0, [(0x80, 0xBF)])
  else if byte = 0xE0 then some (0, [(0xA0, 0xBF), (0x80, 0xBF)])
  else if byte = 0xED then some (0xD, [(0x80, 0x9F), (0x80, 0xBF)])
  else if byte < 0xF0 then some (byte - 0xE0, [(0x80, 0xBF), (0x80, 0xBF)])
  else if byte = 0xF0 then some (0, [(0x90, 0xBF), (0x80, 0xBF), (0x80, 0xBF)])
  else if byte < 0xF4 then some (byte - 0xF0, [(0x80, 0xBF), (0x80, 0xBF), (0x80, 0xBF)])
  else if byte = 0xF4 then some (4, [(0x80, 0x8F), (0x80, 0xBF), (0x80, 0xBF)])
  else none

/-- A character begun and not finished: where and with which byte it started, how many of its
bytes were taken, the bits so far, and the ranges of the bytes it still owes. -/
structure Pending where
  position : Nat
  byte : Nat
  taken : Nat
  bits : Nat
  first : Nat × Nat
  others : List (Nat × Nat)

/-- Decode from the given position on, with the characters so far in reverse. -/
def decodeFrom (position : Nat) (pending : Option Pending) (done : List Char) :
    List UInt8 → Except Fault (List Char)
  | [] =>
      match pending with
      | none => .ok done.reverse
      | some p => .error ⟨p.position, p.byte, p.taken, .endOfData⟩
  | b :: rest =>
      match pending with
      | none =>
          match lead? b.toNat with
          | none => .error ⟨position, b.toNat, 1, .startByte⟩
          | some (bits, []) => decodeFrom (position + 1) none (Char.ofNat bits :: done) rest
          | some (bits, range :: ranges) =>
              decodeFrom (position + 1) (some ⟨position, b.toNat, 1, bits, range, ranges⟩) done rest
      | some p =>
          if p.first.1 ≤ b.toNat && b.toNat ≤ p.first.2 then
            let bits := 0x40 * p.bits + (b.toNat - 0x80)
            match p.others with
            | [] => decodeFrom (position + 1) none (Char.ofNat bits :: done) rest
            | range :: ranges =>
                decodeFrom (position + 1)
                  (some ⟨p.position, p.byte, p.taken + 1, bits, range, ranges⟩) done rest
          else .error ⟨p.position, p.byte, p.taken, .continuationByte⟩

def decode (bytes : List UInt8) : Except Fault String :=
  (decodeFrom 0 none [] bytes).map String.ofList

end SmallScheme.Text.Utf8
