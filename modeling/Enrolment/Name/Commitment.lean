import Enrolment.Crypto.Suite
import Enrolment.Identity.Id
import Enrolment.Name.Label

/-!
Commitments to names.

A preorder publishes a digest of a salt, a name and its owner; the salt and the name are revealed
later. The digested bytes hold a version, the salt, the length of the name, the name and the owner, so
that they determine all of them.
-/

namespace Enrolment

/-- The random 32 bytes that hide a committed name. -/
structure Salt where
  bytes : Bytes32
deriving DecidableEq

def Salt.describe (s : Salt) : String := "Salt(" ++ s.bytes.brief ++ ")"

namespace Commitment

def context : String := "idreg preorder salted domain hash v1"

def version : UInt8 := 1

/-- The bytes that a commitment digests. -/
def preimage (salt : Salt) (label : Label) (owner : IdentityId) : Bytes :=
  let name := Bytes.ofText label.fullName
  version :: salt.bytes.toList ++ Bytes.ofNatLE 4 name.length ++ name ++ owner.bytes.toList

end Commitment

variable [Suite]

/-- The commitment of an owner to a name under a salt. -/
def commitment (salt : Salt) (label : Label) (owner : IdentityId) : Digest :=
  Suite.derive Commitment.context (Commitment.preimage salt label owner)

/-- How requested names are resolved: the parent domain of those that name none. -/
structure Naming where
  parent : String
deriving DecidableEq

namespace Naming

def default : Naming := ⟨Label.defaultParent⟩

def resolve (naming : Naming) (request : String) : Except Error Label :=
  Label.parse request naming.parent

def commit (naming : Naming) (salt : Salt) (request : String) (owner : IdentityId) :
    Except Error Digest :=
  (naming.resolve request).map fun label => commitment salt label owner

/-- Whether a digest commits to a requested name; a name that cannot be read is committed to by
none. -/
def verifies (naming : Naming) (salt : Salt) (request : String) (owner : IdentityId)
    (digest : Digest) : Bool :=
  match naming.commit salt request owner with
  | .ok d => d = digest
  | .error _ => false

end Naming

end Enrolment
