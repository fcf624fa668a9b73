import Enrolment.Bytes.Hex

/-!
Texts as UTF-8.

Decoding is the inverse of encoding, and a byte string that is no text is described by how many
bytes of it are sound and by what follows them: a broken sequence of known length, or an end in the
middle of a character.
-/

namespace Enrolment.Bytes

inductive Utf8Fault where
  /-- The bytes from `position` begin a character and then end. -/
  | incomplete (position : Nat)
  /-- The `length` bytes from `position` begin no character. -/
  | broken (position length : Nat)
deriving DecidableEq, Repr

def Utf8Fault.message : Utf8Fault → String
  | .incomplete position => "incomplete utf-8 byte sequence from index " ++ toString position
  | .broken position length =>
    "invalid utf-8 sequence of " ++ toString length ++ " bytes from index " ++ toString position

def isContinuation (b : UInt8) : Bool := 0x80 ≤ b && b ≤ 0xbf

/-- The number of bytes of the character that `first` begins, with the range its second byte must
lie in; one-byte characters have no second byte. -/
def leadByte? (first : UInt8) : Option (Nat × UInt8 × UInt8) :=
  if first < 0x80 then some (1, 0, 0)
  else if 0xc2 ≤ first && first ≤ 0xdf then some (2, 0x80, 0xbf)
  else if first = 0xe0 then some (3, 0xa0, 0xbf)
  else if first = 0xed then some (3, 0x80, 0x9f)
  else if 0xe1 ≤ first && first ≤ 0xef then some (3, 0x80, 0xbf)
  else if first = 0xf0 then some (4, 0x90, 0xbf)
  else if 0xf1 ≤ first && first ≤ 0xf3 then some (4, 0x80, 0xbf)
  else if first = 0xf4 then some (4, 0x80, 0x8f)
  else none

/-- Checks `count` continuation bytes, `seen` bytes of the character having been read. -/
def continuationFault? (position seen : Nat) : (count : Nat) → Bytes → Option Utf8Fault
  | 0, _ => none
  | _ + 1, [] => some (.incomplete position)
  | count + 1, b :: rest =>
    if isContinuation b then continuationFault? position (seen + 1) count rest
    else some (.broken position seen)

/-- The fault of the character at the head, if it has one, and its number of bytes otherwise. -/
def firstCharFault (position : Nat) (first : UInt8) (rest : Bytes) : Utf8Fault ⊕ Nat :=
  match leadByte? first with
  | none => .inl (.broken position 1)
  | some (1, _, _) => .inr 1
  | some (size, low, high) =>
    match rest with
    | [] => .inl (.incomplete position)
    | second :: rest =>
      if low ≤ second && second ≤ high then
        match continuationFault? position 2 (size - 2) rest with
        | some fault => .inl fault
        | none => .inr size
      else .inl (.broken position 1)

/-- The first fault of a byte string as UTF-8, by at most `fuel` characters. -/
def utf8FaultFrom (position : Nat) : (fuel : Nat) → Bytes → Utf8Fault
  | 0, _ | _, [] => .incomplete position
  | fuel + 1, first :: rest =>
    match firstCharFault position first rest with
    | .inl fault => fault
    | .inr size => utf8FaultFrom (position + size) fuel (rest.drop (size - 1))

def toText (bytes : Bytes) : Except Utf8Fault String :=
  match String.fromUTF8? ⟨bytes.toArray⟩ with
  | some s => .ok s
  | none => .error (utf8FaultFrom 0 bytes.length bytes)

/-- Every text reads back from its bytes. -/
theorem toText_ofText (s : String) : toText (ofText s) = .ok s := by
  have h : (ByteArray.mk (ofText s).toArray) = s.toByteArray := by simp [ofText]
  have hs := s.isValidUTF8
  rw [toText, h, String.fromUTF8?]
  simp [hs, String.fromUTF8]

theorem ofText_inj {s t : String} : ofText s = ofText t ↔ s = t := by
  simp [ofText, ← String.toByteArray_inj, ByteArray.ext_iff]

theorem ofText_append (s t : String) : ofText (s ++ t) = ofText s ++ ofText t := by
  simp [ofText]

end Enrolment.Bytes
