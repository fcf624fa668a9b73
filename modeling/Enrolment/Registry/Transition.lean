import Enrolment.Identity.Record
import Enrolment.Name.Claim

/-!
Signed transitions: what identities ask the platform to do.

The signature covers the written form of the operation, its time and the signing key; the digest of
the same bytes names the transition.
-/

namespace Enrolment

/-- Which name of an identity a domain is. -/
inductive DomainRecord where
  | unique (identity : IdentityId)
  | secondary (identity : IdentityId)
deriving DecidableEq

namespace DomainRecord

def identity : DomainRecord → IdentityId
  | unique id | secondary id => id

def isUnique : DomainRecord → Bool
  | unique _ => true
  | secondary _ => false

end DomainRecord

/-- A name as a domain registration reveals it. -/
structure DomainEntry where
  label : String
  normalized : String
  parent : String
  salt : Salt
  record : DomainRecord
deriving DecidableEq

inductive Operation where
  /-- Creates the identity that a credit lock funds. -/
  | createIdentity (identity : IdentityId) (lock : CreditLock) (keys : List PublicKey)
  /-- Commits to names without revealing them. -/
  | preorder (owner : IdentityId) (commitments : List Digest)
  /-- Reveals committed names. -/
  | registerDomains (owner : IdentityId) (domains : List DomainEntry)
deriving DecidableEq

namespace Operation

def name : Operation → String
  | createIdentity .. => "identity_create"
  | preorder .. => "preorder"
  | registerDomains .. => "domain_register"

def identity : Operation → IdentityId
  | createIdentity id _ _ => id
  | preorder owner _ | registerDomains owner _ => owner

end Operation

namespace Format

def domainRecord : Format DomainRecord :=
  cases
    [.wrapped "unique_identity" identityId (fun | .unique i => some i | _ => none) .unique,
    .wrapped "alias" identityId (fun | .secondary i => some i | _ => none) .secondary]

def domainEntry : Format DomainEntry :=
  record
    (.cons "label" text (.cons "normalized_label" text (.cons "parent_domain" text
      (.cons "salt" salt (.last "record" domainRecord)))))
    (fun e => (e.label, e.normalized, e.parent, e.salt, e.record))
    (fun (l, n, p, s, r) => ⟨l, n, p, s, r⟩)

def operation : Format Operation :=
  cases
    [.record "identity_create"
      (.cons "identity_id" identityId (.cons "funding" creditLock
        (.last "public_keys" (list publicKey))))
      (fun | .createIdentity i l k => some (i, l, k) | _ => none)
      (fun (i, l, k) => .createIdentity i l k),
    .record "preorder"
      (.cons "owner" identityId (.last "salted_domain_hashes" (list bytes32)))
      (fun | .preorder o h => some (o, h) | _ => none) (fun (o, h) => .preorder o h),
    .record "domain_register"
      (.cons "owner" identityId (.last "domains" (list domainEntry)))
      (fun | .registerDomains o d => some (o, d) | _ => none)
      (fun (o, d) => .registerDomains o d)]

end Format

structure Transition where
  operation : Operation
  createdAt : Timestamp
  signer : PublicKey
  signature : Signature
deriving DecidableEq

/-- What a signature covers: the operation, its time and the signing key. -/
def Format.signed : Format (Operation × Timestamp × PublicKey) :=
  record (.cons "kind" operation (.cons "created_at" timestamp (.last "signer" publicKey))) id id

def Format.transition : Format Transition :=
  record
    (.cons "kind" operation (.cons "created_at" timestamp (.cons "signer" publicKey
      (.last "signature" signature))))
    (fun t => (t.operation, t.createdAt, t.signer, t.signature))
    (fun (o, c, s, g) => ⟨o, c, s, g⟩)

namespace Transition

def signedBytes (t : Transition) : Bytes := Format.signed.encode (t.operation, t.createdAt, t.signer)

variable [Suite]

def sign (operation : Operation) (now : Timestamp) (key : SecretKey) : Transition :=
  let signer := key.publicKey
  ⟨operation, now, signer, key.sign (Format.signed.encode (operation, now, signer))⟩

/-- The name of a transition: the digest of the bytes that are signed. -/
def id (t : Transition) : Digest := Suite.hash t.signedBytes

def isSigned (t : Transition) : Bool := t.signer.verify t.signedBytes t.signature

def check (t : Transition) : Except Error Unit :=
  if t.isSigned then .ok () else .error .invalidSignature

/-- Checks the signature, and that a given key made it. -/
def checkSigner (t : Transition) (expected : PublicKey) : Except Error Unit :=
  if t.signer = expected then t.check
  else
    .error (.invalidKey (t.operation.name ++ " signed by " ++ t.signer.describe ++ ", expected "
      ++ expected.describe))

end Transition

end Enrolment
