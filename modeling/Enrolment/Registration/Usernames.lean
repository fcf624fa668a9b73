import Enrolment.Registration.Routine
import Enrolment.Registration.Settings
import Enrolment.Retry.Submission
import Enrolment.Table

/-!
Registering usernames.

The names of a batch go through two confirmed steps together: a preorder that publishes a commitment
to each name, and a registration that reveals each name and its salt. A batch is all or nothing: one
missing document holds every name back, and a timeout times every unfinished name out. Being paused
leaves the claims as they are, so that a later batch goes on from there.
-/

namespace Enrolment

variable [Suite]

/-- The claims of an identity, by full name, and what else is known of its names. -/
structure UsernameRegistration where
  owner : IdentityId
  key : SecretKey
  settings : Settings
  claims : Table String Claim
  /-- The name that is registered as the unique one. -/
  primary : Option String
  /-- The name that was submitted as the unique one and is not yet confirmed. -/
  pendingPrimary : Option String

namespace UsernameRegistration

def create (owner : IdentityId) (key : SecretKey) (settings : Settings) :
    Except RegistrationError UsernameRegistration := do
  settings.validate
  return ⟨owner, key, settings, .empty, none, none⟩

def find? (r : UsernameRegistration) (name : String) : Option Claim := r.claims.find? name

def stateOf? (r : UsernameRegistration) (name : String) : Option ClaimState :=
  (r.find? name).map Claim.state

def claim? (r : UsernameRegistration) (request : String) : Option Claim :=
  match r.settings.naming.resolve request with
  | .ok label => r.find? label.fullName
  | .error _ => none

def sortedClaims (r : UsernameRegistration) : List Claim :=
  (r.claims.entries.mergeSort fun a b => a.1 ≤ b.1).map Prod.snd

def describe (r : UsernameRegistration) : String :=
  let primary := match r.primary with
    | some name => "Some(" ++ Text.quoted name ++ ")"
    | none => "None"
  "UsernameRegistrar \x7b identity: " ++ r.owner.describe ++ ", claims: " ++ toString r.claims.size
    ++ ", primary: " ++ primary ++ ", .. \x7d"

/-- How a name is reported: the bare label if its parent is the configured one, else the full name. -/
def reportName (r : UsernameRegistration) (label : Label) : String :=
  if Label.lower label.parent.toList = Label.lower r.settings.parent.toList then label.normalized
  else label.fullName

/-- The first label of each full name. -/
def distinct : List Label → List Label
  | [] => []
  | label :: rest => label :: (distinct rest).filter fun other => other.fullName ≠ label.fullName

/-- Reads requested names; each name is taken once, and the first that cannot be read counts. -/
def readRequests (r : UsernameRegistration) (requests : List String) :
    Except RegistrationError (List Label) :=
  match requests.mapM r.settings.naming.resolve with
  | .ok labels => .ok (distinct labels)
  | .error e => .error (.value e)

def inState (r : UsernameRegistration) (batch : List String) (state : ClaimState) : List String :=
  batch.filter fun name => r.stateOf? name = some state

def claimsOn (r : UsernameRegistration) (names : List String) : List Claim := names.filterMap r.find?

def put (r : UsernameRegistration) (claim : Claim) : UsernameRegistration :=
  { r with claims := r.claims.insert claim.label.fullName claim }

/-- Moves claims one after the other, up to the first that may not be moved: what is wrong with that
one, if there is one, and what is reached. -/
def advanceInTurn (r : UsernameRegistration) (target : ClaimState) (now : Timestamp) :
    List String → Option Error × UsernameRegistration
  | [] => (none, r)
  | name :: rest =>
    match r.find? name with
    | none => r.advanceInTurn target now rest
    | some claim =>
      match claim.advance target now with
      | .error e => (some e, r)
      | .ok claim =>
        { r with claims := r.claims.insert name claim }.advanceInTurn target now rest

def unfinished (r : UsernameRegistration) (batch : List String) : List Claim :=
  (r.claimsOn batch).filter fun claim => claim.state ≠ .registered

def expire (r : UsernameRegistration) (batch : List String) (now : Timestamp) : UsernameRegistration :=
  { r with
    claims := batch.foldl (fun claims name => claims.adjust name (Claim.expire · now)) r.claims
    pendingPrimary := none }

/-- Takes up one document that the platform lists: the name that it adopts, if any. Documents that are
no domain or that name no label are passed over. A domain that is unique becomes the primary name. -/
def adopt (r : UsernameRegistration) (document : Document) (now : Timestamp) :
    Option String × UsernameRegistration :=
  match document.data with
  | .preorder _ => (none, r)
  | .domain _ normalized parent salt record =>
    match Label.parse normalized parent with
    | .error _ => (none, r)
    | .ok label =>
      let name := label.fullName
      let r := if record.isUnique then { r with primary := some name } else r
      if r.stateOf? name = some .registered then (none, r)
      else (some name, r.put (.adopted label r.owner salt now))

/-- Takes up the documents that the platform lists, in their order: the names that are adopted. -/
def adoptAll (r : UsernameRegistration) (documents : List Document) (now : Timestamp) :
    List String × UsernameRegistration :=
  documents.foldl (fun (adopted, r) document =>
    let (name?, r) := r.adopt document now
    (adopted ++ name?.toList, r)) ([], r)

/-- The names as they are revealed. The first one becomes the unique one, unless there is one. -/
def entries (r : UsernameRegistration) (claims : List Claim) : List DomainEntry :=
  claims.zipIdx.map fun (claim, position) =>
    ⟨claim.label.display, claim.label.normalized, claim.label.parent, claim.salt,
      if r.primary.isNone && position = 0 then .unique r.owner else .secondary r.owner⟩

/-- Notes which name was submitted as the unique one, if one was. -/
def notePrimary (r : UsernameRegistration) (names : List String) : UsernameRegistration :=
  if r.primary.isNone then { r with pendingPrimary := names.head? } else r

/-- The submitted unique name becomes the primary one, unless there is one. -/
def settlePrimary (r : UsernameRegistration) : UsernameRegistration :=
  if r.primary.isNone then { r with primary := r.pendingPrimary, pendingPrimary := none } else r

inductive Step where
  | proceed
  | stop (outcome : UsernameOutcome)
  | paused

abbrev Work := Routine UsernameRegistration

/-- Carries a second step out if the first one lets the batch proceed. -/
def Step.andThen (first second : Work Step) : Work Step := do
  match ← first with
  | .proceed => second
  | step => return step

def timeOut (batch : List String) : Work Step := do
  let now ← Routine.ask .time
  let r ← get
  set (r.expire batch now)
  return .stop (.timedOut ((r.unfinished batch).map fun claim => r.reportName claim.label))

def Step.ofFault : Option Error → Step
  | none => proceed
  | some e => stop (.failed (.value e))

/-- Moves claims. The batch fails if one of them may not be moved. -/
def moveOn (names : List String) (target : ClaimState) : Work Step := do
  let now ← Routine.ask .time
  let (fault?, r) := (← get).advanceInTurn target now names
  set r
  return .ofFault fault?

def broadcast (batch : List String) (operation : Operation) : Work Step := do
  let now ← Routine.ask .time
  let r ← get
  let transition := Transition.sign operation now r.key
  match ← submitUntilDecided r.settings.submission (Routine.ask (.submit transition)) with
  | .accepted _ => return .proceed
  | .rejected reason => return .stop (.failed (.rejected reason))
  | .exhausted .. => timeOut batch
  | .cancelled => return .paused

/-- Lets a batch proceed unless it was paused in the meantime. -/
def proceedUnlessPaused : Work Step := do
  if ← isCancelled then return .paused
  return .proceed

def submitPreorder (batch : List String) : Work Step := do
  let r ← get
  let names := r.inState batch .unregistered
  if names.isEmpty then return .proceed
  let commitments := (r.claimsOn names).map Claim.commitment
  Step.andThen (broadcast batch (.preorder r.owner commitments))
    (Step.andThen (moveOn names .preorderSubmitted) proceedUnlessPaused)

/-- Watches on a schedule; a query that fails shows nothing. -/
def watchDocuments (schedule : Schedule) (kind : DocumentKind) (filter : Filter)
    (isComplete : List Document → Bool) : Work (Option (WatchOutcome Unit)) :=
  watch schedule fun _ => do
    match ← Routine.ask (.findDocuments kind filter) with
    | .ok documents => return if isComplete documents then .ready () else .pending
    | .error _ => return .pending

def holdsPreorders (owner : IdentityId) (commitments : List Digest) (documents : List Document) :
    Bool :=
  let found := (documents.filter fun d => d.owner = owner).filterMap Document.commitment?
  commitments.all fun c => c ∈ found

def holdsDomains (names : List (String × String)) (documents : List Document) : Bool :=
  names.all fun name => documents.any fun d => d.name? = some name

def awaitPreorders (schedule : Schedule) (batch : List String) : Work Step := do
  let r ← get
  let names := r.inState batch .preorderSubmitted
  if names.isEmpty then return .proceed
  let commitments := (r.claimsOn names).map Claim.commitment
  match ← watchDocuments schedule .preorder (.commitmentIn commitments)
      (holdsPreorders r.owner commitments) with
  | none => return .paused
  | some (.completed _) => moveOn names .preorderConfirmed
  | some (.timedOut _) => timeOut batch

def submitDomains (batch : List String) : Work Step := do
  let r ← get
  let names := r.inState batch .preorderConfirmed
  if names.isEmpty then return .proceed
  Step.andThen (broadcast batch (.registerDomains r.owner (r.entries (r.claimsOn names))))
    (Step.andThen (moveOn names .domainSubmitted) do
      modify fun r => r.notePrimary names
      proceedUnlessPaused)

def awaitDomains (schedule : Schedule) (batch : List String) : Work Step := do
  let r ← get
  let names := r.inState batch .domainSubmitted
  if names.isEmpty then return .proceed
  let wanted := (r.claimsOn names).map fun claim => (claim.label.normalized, claim.label.parent)
  match ← watchDocuments schedule .domain (.ownedBy r.owner) (holdsDomains wanted) with
  | none => return .paused
  | some (.completed _) =>
    Step.andThen (moveOn names .registered) do
      modify settlePrimary
      return .proceed
  | some (.timedOut _) => timeOut batch

def carryOut (preorder domain : Schedule) (batch : List String) : Work Step :=
  Step.andThen (submitPreorder batch)
    (Step.andThen (awaitPreorders preorder batch)
      (Step.andThen (submitDomains batch) (awaitDomains domain batch)))

/-- Adopts the names that the platform lists for the owner: those that were not known to be
registered. -/
def recover : Work (Except RegistrationError (List String)) := do
  let r ← get
  match ← Routine.ask (.findDocuments .domain (.ownedBy r.owner)) with
  | .error e => return .error e
  | .ok documents =>
    let now ← Routine.ask .time
    let (adopted, r) := (← get).adoptAll documents now
    set r
    return .ok adopted

/-- The names that need work, in the order requested: those without a claim and those timed out get a
new claim under a fresh salt, and those registered are left out. -/
def enlist : List Label → Work (List String)
  | [] => return []
  | label :: rest => do
    let name := label.fullName
    match (← get).stateOf? name with
    | some .registered => enlist rest
    | none | some .timedOut =>
      let salt ← Routine.ask (.drawSalt label)
      let now ← Routine.ask .time
      modify fun r => r.put (.fresh label r.owner salt now)
      return name :: (← enlist rest)
    | some _ => return name :: (← enlist rest)

/-- Checks the schedules and reads the requested names, in that order. -/
def readBatch (r : UsernameRegistration) (preorder domain : Schedule) (requests : List String) :
    Except RegistrationError (List Label) := do
  preorder.validate
  domain.validate
  r.readRequests requests

/-- Registers names that were read. A name that timed out may have been registered after all, so that
the platform is asked before it is tried again. -/
def registerLabels (preorder domain : Schedule) (labels : List Label) :
    Work (Option UsernameOutcome) := do
  let r ← get
  let reported := labels.map r.reportName
  if labels.any fun label => r.stateOf? label.fullName = some .timedOut then
    let _ ← recover
  let batch ← enlist labels
  if batch.isEmpty then return some (.completed reported)
  match ← carryOut preorder domain batch with
  | .proceed => return some (.completed reported)
  | .stop outcome => return some outcome
  | .paused => return none

/-- Registers names, watching each step on its own schedule. A schedule that is not allowed or a name
that cannot be read is an error before any claim is touched. -/
def registerOn (preorder domain : Schedule) (requests : List String) :
    Work (Except RegistrationError (Option UsernameOutcome)) := do
  match (← get).readBatch preorder domain requests with
  | .error e => return .error e
  | .ok labels => return .ok (← registerLabels preorder domain labels)

/-- Registers names, watching both steps on one schedule if it is given, and otherwise on those of the
settings. -/
def register (schedule? : Option Schedule) (requests : List String) :
    Work (Except RegistrationError (Option UsernameOutcome)) := do
  let settings := (← get).settings
  registerOn (schedule?.getD settings.preorder) (schedule?.getD settings.domain) requests

end UsernameRegistration

end Enrolment
