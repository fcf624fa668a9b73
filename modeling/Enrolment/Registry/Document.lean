import Enrolment.Registry.Transition

/-!
Documents that the platform keeps, and filters over them.

A preorder leaves a document for each commitment and a domain registration one for each name. A
document is named by the digest of a tag and of its commitment or its name, the parent domain first.
-/

namespace Enrolment

inductive DocumentKind where
  | preorder
  | domain
deriving DecidableEq, Repr

inductive DocumentData where
  | preorder (commitment : Digest)
  | domain (label normalized parent : String) (salt : Salt) (record : DomainRecord)
deriving DecidableEq

structure Document where
  id : Digest
  owner : IdentityId
  data : DocumentData
  createdAt : Timestamp
deriving DecidableEq

namespace Document

def kind (d : Document) : DocumentKind :=
  match d.data with
  | .preorder _ => .preorder
  | .domain .. => .domain

def commitment? (d : Document) : Option Digest :=
  match d.data with
  | .preorder c => some c
  | .domain .. => none

/-- The normalised label and the parent of a domain document. -/
def name? (d : Document) : Option (String × String) :=
  match d.data with
  | .preorder _ => none
  | .domain _ normalized parent _ _ => some (normalized, parent)

def preorderName (commitment : Digest) : Bytes := Bytes.ofText "preorder" ++ commitment.toList

def domainName (normalized parent : String) : Bytes :=
  Bytes.ofText "domain" ++ Bytes.ofText parent ++ Bytes.ofText normalized

variable [Suite]

/-- The document that a commitment leaves. -/
def ofCommitment (owner : IdentityId) (createdAt : Timestamp) (commitment : Digest) : Document :=
  ⟨Suite.hash (preorderName commitment), owner, .preorder commitment, createdAt⟩

/-- The document that a revealed name leaves. -/
def ofEntry (owner : IdentityId) (createdAt : Timestamp) (e : DomainEntry) : Document :=
  ⟨Suite.hash (domainName e.normalized e.parent), owner,
    .domain e.label e.normalized e.parent e.salt e.record, createdAt⟩

/-- The documents that an accepted transition leaves. -/
def ofTransition (t : Transition) : List Document :=
  match t.operation with
  | .createIdentity .. => []
  | .preorder owner commitments => commitments.map (ofCommitment owner t.createdAt)
  | .registerDomains owner domains => domains.map (ofEntry owner t.createdAt)

end Document

inductive Filter where
  /-- Preorders of one of the commitments. -/
  | commitmentIn (commitments : List Digest)
  /-- Domains of one of the normalised labels under a parent. -/
  | labelIn (parent : String) (labels : List String)
  /-- Everything that an identity owns. -/
  | ownedBy (owner : IdentityId)
deriving DecidableEq

def Filter.accepts (f : Filter) (d : Document) : Bool :=
  match f with
  | commitmentIn commitments =>
    match d.commitment? with
    | some c => c ∈ commitments
    | none => false
  | labelIn parent labels =>
    match d.name? with
    | some (label, p) => p = parent && label ∈ labels
    | none => false
  | ownedBy owner => d.owner = owner

namespace Format

def documentKind : Format DocumentKind := cases [.single "preorder" .preorder, .single "domain" .domain]

def documentData : Format DocumentData :=
  cases
    [.record "preorder" (.last "salted_domain_hash" bytes32)
      (fun | .preorder c => some c | _ => none) .preorder,
    .record "domain"
      (.cons "label" text (.cons "normalized_label" text (.cons "parent_domain" text
        (.cons "salt" salt (.last "record" domainRecord)))))
      (fun | .domain l n p s r => some (l, n, p, s, r) | _ => none)
      (fun (l, n, p, s, r) => .domain l n p s r)]

def document : Format Document :=
  record
    (.cons "id" bytes32 (.cons "owner" identityId (.cons "data" documentData
      (.last "created_at" timestamp))))
    (fun d => (d.id, d.owner, d.data, d.createdAt)) (fun (i, o, d, c) => ⟨i, o, d, c⟩)

def filter : Format Filter :=
  cases
    [.wrapped "salted_hash_in" (list bytes32) (fun | .commitmentIn c => some c | _ => none)
      .commitmentIn,
    .record "label_in" (.cons "parent_domain" text (.last "labels" (list text)))
      (fun | .labelIn p l => some (p, l) | _ => none) (fun (p, l) => .labelIn p l),
    .wrapped "owned_by" identityId (fun | .ownedBy o => some o | _ => none) .ownedBy]

end Format

end Enrolment
