import Enrolment.Bytes.Hex

/-!
Base-58 text of byte strings.

A byte string is read as a number, most significant byte first, and written with 58 digits; each
leading zero byte is written as one leading zero digit, which the number alone would lose.
-/

namespace Enrolment.Bytes

/-- The base-`base` digits of `n`, most significant first; zero has none. -/
def digits (base : Nat) (n : Nat) : List Nat :=
  if 2 ≤ base ∧ 0 < n then digits base (n / base) ++ [n % base] else []
termination_by n
decreasing_by
  rename_i h
  exact Nat.div_lt_self h.2 h.1

/-- The number with these base-`base` digits, most significant first. -/
def ofDigits (base : Nat) (ds : List Nat) : Nat := ds.foldl (fun n d => base * n + d) 0

/-- The 58 digits in order: no zero, capital O, capital I or small l. -/
def base58Alphabet : List Char :=
  "123456789ABCDEFGHJKLMNPQRSTUVWXYZabcdefghijkmnopqrstuvwxyz".toList

def base58Digit (n : Nat) : Char := base58Alphabet.getD n '1'

/-- The value of a digit, given as a byte of ASCII text. -/
def base58Value? (b : UInt8) : Option Nat :=
  base58Alphabet.findIdx? fun c => c.toNat = b.toNat

inductive Base58Fault where
  | badDigit (byte : UInt8) (position : Nat)
  | notAscii (position : Nat)
deriving DecidableEq, Repr

def Base58Fault.message : Base58Fault → String
  | .badDigit byte position =>
    "provided string contained invalid character " ++ Text.quotedChar (Char.ofNat byte.toNat) ++ " at byte "
      ++ toString position
  | .notAscii position =>
    "provided string contained non-ascii character starting at byte " ++ toString position

/-- The digit values of a text, `position` being the place of its first byte. -/
def base58Values (position : Nat) : Bytes → Except Base58Fault (List Nat)
  | [] => .ok []
  | b :: rest =>
    if 127 < b then .error (.notAscii position)
    else match base58Value? b with
      | none => .error (.badDigit b position)
      | some v => do
        let vs ← base58Values (position + 1) rest
        return v :: vs

def toBase58 (bytes : Bytes) : String :=
  let zeros := (bytes.takeWhile (· = 0)).length
  String.ofList ((List.replicate zeros 0 ++ digits 58 bytes.toNatBE).map base58Digit)

def ofBase58 (s : String) : Except Base58Fault Bytes := do
  let values ← base58Values 0 (ofText s)
  let zeros := (values.takeWhile (· = 0)).length
  return List.replicate zeros 0 ++ (digits 256 (ofDigits 58 values)).map UInt8.ofNat

end Enrolment.Bytes
