import Enrolment.Credit.Lock

/-!
Identities and their registration.

An identity is pending until it is marked as registered, once, at a time that is then kept.
-/

namespace Enrolment

/-- Whether the platform has taken an identity. -/
inductive IdentityState where
  | pending
  | registered
deriving DecidableEq, Repr

def IdentityState.name : IdentityState → String
  | pending => "pending"
  | registered => "registered"

/-- An identity and the credit it was created from. -/
structure Identity where
  id : IdentityId
  keys : KeySet
  state : IdentityState
  origin : CreditLock
  registeredAt : Option Timestamp
deriving DecidableEq

namespace Identity

/-- The pending identity that a credit lock funds. -/
def pending (origin : CreditLock) (keys : List PublicKey) : Identity :=
  ⟨origin.identity, .ofList keys, .pending, origin, none⟩

def isRegistered (i : Identity) : Bool := i.state = .registered

/-- The identity as registered; the time of a registered one is kept. -/
def register (i : Identity) (now : Timestamp) : Identity :=
  if i.isRegistered then i else { i with state := .registered, registeredAt := some now }

end Identity

namespace Format

def identityState : Format IdentityState :=
  cases [.single "pending" .pending, .single "registered" .registered]

def identity : Format Identity :=
  record
    (.cons "identity_id" identityId (.cons "public_keys" keySet (.cons "state" identityState
      (.cons "balance_origin" creditLock (.last "registered_at" (option timestamp))))))
    (fun i => (i.id, i.keys, i.state, i.origin, i.registeredAt))
    (fun (id, k, s, o, r) => ⟨id, k, s, o, r⟩)

end Format

end Enrolment
