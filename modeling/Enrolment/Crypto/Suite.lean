import Enrolment.Crypto.Blake3
import Enrolment.Crypto.Keys

/-!
The cryptographic operations that registration is built on.

Registration depends on a digest, a key derivation and a signature scheme only through this interface,
so that its laws hold for every choice of them. The standard choice is BLAKE3 and Ed25519.
-/

namespace Enrolment

/-- A digest, a key derivation and a signature scheme. -/
class Suite where
  hash : Bytes → Digest
  /-- The key derived from some material under a context. -/
  derive : (context : String) → (material : Bytes) → Digest
  publicKey : SecretKey → PublicKey
  sign : SecretKey → Bytes → Signature
  verify : PublicKey → Bytes → Signature → Bool

namespace Suite

/-- BLAKE3 digests and Ed25519 signatures. -/
abbrev standard : Suite where
  hash := Crypto.Blake3.hash
  derive context material := Crypto.Blake3.derive (Bytes.ofText context) material
  publicKey key :=
    (PublicKey.ofBytes? (Crypto.Ed25519.publicBytes key.seed)).getD PublicKey.neutral
  sign key message :=
    let (first, second) := Crypto.Ed25519.sign key.seed message
    ⟨first, second⟩
  verify key message signature :=
    Crypto.Ed25519.verify key.bytes message signature.first signature.second

end Suite

variable [Suite]

def SecretKey.publicKey (key : SecretKey) : PublicKey := Suite.publicKey key

def SecretKey.sign (key : SecretKey) (message : Bytes) : Signature := Suite.sign key message

def PublicKey.verify (key : PublicKey) (message : Bytes) (signature : Signature) : Bool :=
  Suite.verify key message signature

/-- The identifier of a key: the digest of its bytes. -/
def PublicKey.id (key : PublicKey) : Digest := Suite.hash key.bytes.toList

end Enrolment
