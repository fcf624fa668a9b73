import Enrolment.Bytes.Basic
import Enrolment.Text.Quoted

/-!
Hexadecimal text: two digits to a byte, high digit first.

Writing uses lower case; reading takes either case and says what is wrong with a text it refuses.
An odd length is reported before any bad digit, and positions count bytes of the text.
-/

namespace Enrolment.Bytes

inductive HexFault where
  | oddLength
  | badDigit (byte : UInt8) (position : Nat)
deriving DecidableEq, Repr

def HexFault.message : HexFault → String
  | .oddLength => "Odd number of digits"
  | .badDigit byte position =>
    "Invalid character " ++ Text.quotedChar (Char.ofNat byte.toNat) ++ " at position " ++ toString position

/-- The lower-case digit of a value below 16. -/
def hexDigit (n : Nat) : Char := if n < 10 then Char.ofNat (48 + n) else Char.ofNat (87 + n)

def toHexChars (bytes : Bytes) : List Char :=
  bytes.flatMap fun b => [hexDigit (b.toNat / 16), hexDigit (b.toNat % 16)]

def toHex (bytes : Bytes) : String := String.ofList bytes.toHexChars

/-- The value of a hexadecimal digit, given as a byte of ASCII text. -/
def hexValue? (b : UInt8) : Option Nat :=
  let n := b.toNat
  if 48 ≤ n && n ≤ 57 then some (n - 48)
  else if 97 ≤ n && n ≤ 102 then some (n - 87)
  else if 65 ≤ n && n ≤ 70 then some (n - 55)
  else none

/-- Reads pairs of digits, `position` being the place of the first. -/
def ofHexPairs (position : Nat) : Bytes → Except HexFault Bytes
  | [] => .ok []
  | [_] => .error .oddLength
  | high :: low :: rest =>
    match hexValue? high, hexValue? low with
    | none, _ => .error (.badDigit high position)
    | _, none => .error (.badDigit low (position + 1))
    | some h, some l => do
      let tail ← ofHexPairs (position + 2) rest
      return UInt8.ofNat (16 * h + l) :: tail

def ofText (s : String) : Bytes := s.toByteArray.data.toList

def ofHex (s : String) : Except HexFault Bytes :=
  let text := ofText s
  if text.length % 2 = 1 then .error .oddLength else ofHexPairs 0 text

end Enrolment.Bytes
