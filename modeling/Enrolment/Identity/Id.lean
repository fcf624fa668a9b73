import Enrolment.Error

/-!
Identifiers of identities: 32 bytes, shown in base 58.
-/

namespace Enrolment

structure IdentityId where
  bytes : Bytes32
deriving DecidableEq

namespace IdentityId

def toBase58 (id : IdentityId) : String := Bytes.toBase58 id.bytes.toList

/-- Reads an identifier from base-58 text of exactly 32 bytes. -/
def ofBase58 (s : String) : Except Error IdentityId :=
  match Bytes.ofBase58 s with
  | .error fault => .error (.ofBase58Fault fault)
  | .ok bytes =>
    match Bytes32.ofList? bytes with
    | some v => .ok ⟨v⟩
    | none => .error (.invalidFormat ("identity id must be 32 bytes, got " ++ toString bytes.length))

def describe (id : IdentityId) : String := "IdentityId(" ++ id.toBase58 ++ ")"

end IdentityId

end Enrolment
