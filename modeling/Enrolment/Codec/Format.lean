import Enrolment.Codec.Json
import Enrolment.Crypto.Keys
import Enrolment.Error
import Enrolment.Timestamp

/-!
Written forms of values.

A format writes a value in two ways: as bytes, in fields of fixed width with the lengths of lists and
texts in front of them, and as JSON. It reads both back. Formats of compound values are put together
from those of their parts, and so are the laws that reading inverts writing.
-/

namespace Enrolment

inductive DecodeFault where
  /-- The input ends inside a number or a fixed field. -/
  | endOfInput
  /-- The input ends inside a text. -/
  | endOfText
  | badText (fault : Bytes.Utf8Fault)
  | badOption (tag : Nat)
  | badCase (index count : Nat)
  | badKey
  | badInstant
deriving DecidableEq, Repr

/-- What is said of bytes that are no key. -/
def badKeyMessage : String := "signature error: Cannot decompress Edwards point"

def DecodeFault.message : DecodeFault → String
  | endOfInput => "io error: unexpected end of file"
  | endOfText => "io error: "
  | badText fault => "string is not valid utf8: " ++ fault.message
  | badOption tag => "tag for enum is not valid, found " ++ toString tag
  | badCase index count =>
    "invalid value: integer `" ++ toString index ++ "`, expected variant index 0 <= i < " ++ toString count
  | badKey => badKeyMessage
  | badInstant => "not an instant"

def Error.ofDecodeFault (fault : DecodeFault) : Error :=
  serialization fault.message (some fault.message)

/-- Reads a value from the head of a byte string and leaves the rest. -/
abbrev Reader := StateT Bytes (Except DecodeFault)

namespace Reader

def take (n : Nat) (fault : DecodeFault) : Reader Bytes := fun input =>
  if input.length < n then .error fault else .ok (input.take n, input.drop n)

def number (width : Nat) : Reader Nat := fun input =>
  if input.length < width then .error .endOfInput
  else .ok (Bytes.toNatLE (input.take width), input.drop width)

def repeated {α : Type} (reader : Reader α) : (n : Nat) → Reader (List α)
  | 0 => pure []
  | n + 1 => do
    let a ← reader
    let rest ← repeated reader n
    return a :: rest

end Reader

/-- How values are written as bytes and as JSON, and read back. -/
structure Format (α : Type) where
  encode : α → Bytes
  decode : Reader α
  toJson : α → Json
  ofJson? : Json → Option α
  /-- What is meant where a JSON record leaves the value out. -/
  absent : Option α := none

namespace Format

variable {α β : Type}

/-- Reads a value from the head of a byte string; what follows it is ignored. -/
def ofBytes (f : Format α) (input : Bytes) : Except DecodeFault α :=
  (f.decode.run input).map Prod.fst

/-- The format of a type whose values stand for those of another, some of which may be refused. -/
def refine (f : Format β) (fault : DecodeFault) (write : α → β) (read? : β → Option α) : Format α where
  encode a := f.encode (write a)
  decode := do
    let b ← f.decode
    match read? b with
    | some a => return a
    | none => throw fault
  toJson a := f.toJson (write a)
  ofJson? j := (f.ofJson? j).bind read?

/-- The format of a type whose values correspond to those of another. -/
def via (f : Format β) (write : α → β) (read : β → α) : Format α where
  encode a := f.encode (write a)
  decode := read <$> f.decode
  toJson a := f.toJson (write a)
  ofJson? j := (f.ofJson? j).map read
  absent := f.absent.map read

def natural (width : Nat) : Format Nat where
  encode n := Bytes.ofNatLE width n
  decode := Reader.number width
  toJson n := .int n
  ofJson? j :=
    match j with
    | .int n => if 0 ≤ n ∧ n.toNat < Nat.pow 256 width then some n.toNat else none
    | _ => none

def uint16 : Format UInt16 := (natural 2).via UInt16.toNat UInt16.ofNat

def uint32 : Format UInt32 := (natural 4).via UInt32.toNat UInt32.ofNat

def uint64 : Format UInt64 := (natural 8).via UInt64.toNat UInt64.ofNat

/-- The bytes of a JSON list of numbers below 256. -/
def byteItems? (items : List Json) : Option Bytes :=
  items.mapM fun j => ((natural 1).ofJson? j).map UInt8.ofNat

/-- Values of 32 bytes, as they are or as a JSON list of numbers. -/
def bytes32 : Format Bytes32 where
  encode v := v.toList
  decode := do
    let bytes ← Reader.take 32 .endOfInput
    return Bytes32.ofPadded bytes
  toJson v := .list (v.toList.map fun b => .int b.toNat)
  ofJson? j :=
    match j with
    | .list items => (byteItems? items).bind Bytes32.ofList?
    | _ => none

/-- Public keys; bytes that are no curve point are refused. -/
def publicKey : Format PublicKey := bytes32.refine .badKey PublicKey.bytes PublicKey.ofBytes?

/-- Signatures, in JSON as the list of their halves. -/
def signature : Format Signature where
  encode s := bytes32.encode s.first ++ bytes32.encode s.second
  decode := do
    let first ← bytes32.decode
    let second ← bytes32.decode
    return ⟨first, second⟩
  toJson s := .list [bytes32.toJson s.first, bytes32.toJson s.second]
  ofJson? j :=
    match j with
    | .list [a, b] => do
      let first ← bytes32.ofJson? a
      let second ← bytes32.ofJson? b
      return ⟨first, second⟩
    | _ => none

def text : Format String where
  encode s := Bytes.ofNatLE 8 (Bytes.ofText s).length ++ Bytes.ofText s
  decode := do
    let length ← Reader.number 8
    let bytes ← Reader.take length .endOfText
    match Bytes.toText bytes with
    | .ok s => return s
    | .error fault => throw (.badText fault)
  toJson s := .text s
  ofJson? j :=
    match j with
    | .text s => some s
    | _ => none

def timestamp : Format Timestamp := text.refine .badInstant Timestamp.render Timestamp.parse?

def list (f : Format α) : Format (List α) where
  encode xs := Bytes.ofNatLE 8 xs.length ++ xs.flatMap f.encode
  decode := do
    let length ← Reader.number 8
    Reader.repeated f.decode length
  toJson xs := .list (xs.map f.toJson)
  ofJson? j :=
    match j with
    | .list items => items.mapM f.ofJson?
    | _ => none

/-- Values that may be missing: a mark of one byte in front of them, or a JSON null. -/
def option (f : Format α) : Format (Option α) where
  encode
    | none => [0]
    | some a => 1 :: f.encode a
  decode := do
    match ← Reader.number 1 with
    | 0 => return none
    | 1 => some <$> f.decode
    | tag => throw (.badOption tag)
  toJson
    | none => .null
    | some a => f.toJson a
  ofJson? j :=
    match j with
    | .null => some none
    | j => (f.ofJson? j).map some
  absent := some none

/-- Sets of keys, as the list of them in order; any list of keys is read. -/
def keySet : Format KeySet := (list publicKey).via KeySet.toList KeySet.ofList

end Format

end Enrolment
