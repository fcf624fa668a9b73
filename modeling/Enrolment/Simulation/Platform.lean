import Enrolment.Registration.Error
import Enrolment.Registration.Routine
import Enrolment.Table

/-!
A platform in memory.

Accepted transitions become identities and documents that stay hidden for a number of the queries that
match them, or until they are released. Refusals and failing queries can be scripted.
-/

namespace Enrolment.Simulation

/-- How the platform behaves. Something hidden for `none` stays hidden until it is released. -/
structure Behaviour where
  identityHidden : Option Nat
  preorderHidden : Option Nat
  domainHidden : Option Nat
  /-- The depth of transactions for which none was set. -/
  initialDepth : UInt64
  /-- The milliseconds that each call takes. -/
  latency : Nat
deriving DecidableEq

namespace Behaviour

def default : Behaviour := ⟨some 1, some 1, some 1, 1, 0⟩

def instant : Behaviour :=
  { default with identityHidden := some 0, preorderHidden := some 0, domainHidden := some 0 }

def never : Behaviour :=
  { default with identityHidden := none, preorderHidden := none, domainHidden := none }

/-- The behaviour where transactions start without depth. -/
def unfunded (b : Behaviour) : Behaviour := { b with initialDepth := 0 }

end Behaviour

/-- Something that queries may not see yet. -/
structure Hidden (α : Type) where
  item : α
  /-- The number of queries that it is still hidden from, if it does not wait for its release. -/
  remaining : Option Nat

namespace Hidden

variable {α : Type}

def isVisible (h : Hidden α) : Bool := h.remaining = some 0

def release (h : Hidden α) : Hidden α := { h with remaining := some 0 }

/-- What one query sees of it, and what is left of its hiding. -/
def observe (h : Hidden α) : Option α × Hidden α :=
  match h.remaining with
  | some 0 => (some h.item, h)
  | some (n + 1) => (none, { h with remaining := some n })
  | none => (none, h)

end Hidden

/-- The platform, with everything it accepted and what is scripted for it. -/
structure Platform where
  behaviour : Behaviour
  identities : Table IdentityId (Hidden Identity)
  documents : List (Hidden Document)
  depths : Table TxId UInt64
  /-- The accepted transitions, oldest first. -/
  accepted : List Transition
  refusals : List Refusal
  failing : Nat
  /-- Submissions so far, the refused ones included. -/
  submissions : Nat
  /-- Queries so far, the failed ones included. -/
  queries : Nat

namespace Platform

def empty (behaviour : Behaviour) : Platform :=
  ⟨behaviour, .empty, [], .empty, [], [], 0, 0, 0⟩

def describe (_ : Platform) : String := "Platform \x7b .. \x7d"

def depth (p : Platform) (tx : TxId) : UInt64 := (p.depths.find? tx).getD p.behaviour.initialDepth

def setDepth (p : Platform) (tx : TxId) (depth : UInt64) : Platform :=
  { p with depths := p.depths.insert tx depth }

/-- Refuses the next submissions, after those for which refusals are scripted already. -/
def refuseNext (p : Platform) (refusals : List Refusal) : Platform :=
  { p with refusals := p.refusals ++ refusals }

def failNext (p : Platform) (count : Nat) : Platform := { p with failing := count }

def releaseIdentities (p : Platform) : Platform :=
  { p with identities := p.identities.map Hidden.release }

def releaseDocuments (p : Platform) (kind : DocumentKind) : Platform :=
  { p with documents := p.documents.map fun h => if h.item.kind = kind then h.release else h }

def insertIdentity (p : Platform) (identity : Identity) : Platform :=
  { p with identities := p.identities.insert identity.id ⟨identity, some 0⟩ }

def insertDocuments (p : Platform) (documents : List Document) : Platform :=
  { p with documents := p.documents ++ documents.map (⟨·, some 0⟩) }

def acceptedOf (p : Platform) (name : String) : List Transition :=
  p.accepted.filter fun t => t.operation.name = name

variable [Suite]

/-- Checks a name that an owner reveals: it has to be readable, its preorder visible, and the name not
held by another owner. -/
def checkEntry (p : Platform) (owner : IdentityId) (e : DomainEntry) : Except String Unit :=
  match Label.parse e.normalized e.parent with
  | .error fault => .error fault.message
  | .ok label =>
    let committed := commitment e.salt label owner
    if !p.documents.any fun h =>
        h.isVisible && h.item.owner = owner && h.item.commitment? = some committed then
      .error (label.fullName ++ " was not preordered")
    else if p.documents.any fun h =>
        h.item.owner ≠ owner && h.item.name? = some (e.normalized, e.parent) then
      .error (label.fullName ++ " is taken")
    else .ok ()

/-- Checks an operation by its signer. -/
def checkOperation (p : Platform) (signer : PublicKey) : Operation → Except String Unit
  | .createIdentity id lock _ =>
    if signer ≠ lock.burnKey then .error "identity create not signed by the burn key"
    else if id ≠ lock.identity then .error "identity id does not match the locked outpoint"
    else if p.identities.contains id then
      .error ("identity " ++ id.toBase58 ++ " already exists")
    else .ok ()
  | .preorder _ commitments =>
    if commitments.isEmpty then .error "empty preorder" else .ok ()
  | .registerDomains owner domains => domains.forM (p.checkEntry owner)

/-- Checks a transition: its signature, then its operation. -/
def check (p : Platform) (t : Transition) : Except String Unit :=
  match t.check with
  | .error fault => .error fault.message
  | .ok () => p.checkOperation t.signer t.operation

/-- The number of queries that what an operation leaves is hidden from. -/
def hiddenFrom (p : Platform) : Operation → Option Nat
  | .createIdentity .. => p.behaviour.identityHidden
  | .preorder .. => p.behaviour.preorderHidden
  | .registerDomains .. => p.behaviour.domainHidden

/-- Carries a transition out. -/
def apply (p : Platform) (t : Transition) (now : Timestamp) : Platform :=
  let hidden := p.hiddenFrom t.operation
  { p with
    identities := match t.operation with
      | .createIdentity id lock keys =>
        p.identities.insert id ⟨(Identity.pending lock keys).register now, hidden⟩
      | _ => p.identities
    documents := p.documents ++ (Document.ofTransition t).map (⟨·, hidden⟩)
    accepted := p.accepted ++ [t] }

/-- Takes a submission: refuses it if that is scripted, checks it, and carries it out. -/
def submit (p : Platform) (t : Transition) (now : Timestamp) : Except Refusal Receipt × Platform :=
  let p := { p with submissions := p.submissions + 1 }
  match p.refusals with
  | refusal :: rest => (.error refusal, { p with refusals := rest })
  | [] =>
    match p.check t with
    | .error reason => (.error (.invalid reason), p)
    | .ok () => (.ok ⟨t.id⟩, p.apply t now)

/-- Takes a query, which fails if that is scripted. -/
def query {α : Type} (p : Platform) (answer : Platform → α × Platform) :
    Except RegistrationError α × Platform :=
  let p := { p with queries := p.queries + 1 }
  match p.failing with
  | n + 1 => (.error (.query "mock query failure"), { p with failing := n })
  | 0 =>
    let (found, p) := answer p
    (.ok found, p)

/-- What a query sees of an identity. -/
def seeIdentity (p : Platform) (id : IdentityId) : Option Identity × Platform :=
  match p.identities.find? id with
  | none => (none, p)
  | some h =>
    let (seen, h) := h.observe
    (seen, { p with identities := p.identities.insert id h })

/-- Whether a query for documents of a kind concerns a document. -/
def concerns (kind : DocumentKind) (filter : Filter) (d : Document) : Bool :=
  d.kind = kind && filter.accepts d

/-- What a query sees of the documents, in the order in which they are stored. -/
def seeDocuments (p : Platform) (kind : DocumentKind) (filter : Filter) : List Document × Platform :=
  let matching := p.documents.filter fun h => concerns kind filter h.item
  (matching.filterMap fun h => h.observe.1,
    { p with
      documents := p.documents.map fun h =>
        if concerns kind filter h.item then h.observe.2 else h })

/-- Looks for an identity. -/
def findIdentity (p : Platform) (id : IdentityId) :
    Except RegistrationError (Option Identity) × Platform :=
  p.query fun p => p.seeIdentity id

/-- Looks for documents. -/
def findDocuments (p : Platform) (kind : DocumentKind) (filter : Filter) :
    Except RegistrationError (List Document) × Platform :=
  p.query fun p => p.seeDocuments kind filter

/-- Where an owner committed to a revealed name: the number of the accepted preorder and the position
in it, both counted from zero. -/
def commitmentPlace? (p : Platform) (owner : IdentityId) (e : DomainEntry) : Option (Nat × Nat) :=
  match Label.parse e.normalized e.parent with
  | .error _ => none
  | .ok label =>
    let committed := commitment e.salt label owner
    let preorders := p.accepted.filterMap fun t =>
      match t.operation with
      | .preorder _ commitments => some commitments
      | _ => none
    preorders.zipIdx.findSome? fun (commitments, number) =>
      (commitments.idxOf? committed).map (number, ·)

end Platform

end Enrolment.Simulation
