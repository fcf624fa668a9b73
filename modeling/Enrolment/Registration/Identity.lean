import Enrolment.Registration.Phase
import Enrolment.Registration.Routine
import Enrolment.Registration.Settings
import Enrolment.Retry.Submission

/-!
Registering an identity.

A credit lock leads to a registered identity in phases: its funding transaction has to be deep enough,
the identity may turn out to exist already, otherwise the transition that creates it is submitted, and
at last the platform has to show it. Being paused leaves the phase as it is, so that a later call goes
on from there.
-/

namespace Enrolment

variable [Suite]

/-- The registration of the identity that a credit lock funds. -/
structure IdentityRegistration where
  lock : CreditLock
  /-- Spends the credit lock. -/
  burnKey : SecretKey
  /-- Is bound to the identity. -/
  signingKey : SecretKey
  settings : Settings
  identity : Identity
  phase : IdentityPhase
  lastError : Option RegistrationError

namespace IdentityRegistration

def create (lock : CreditLock) (burnKey signingKey : SecretKey) (settings : Settings) :
    Except RegistrationError IdentityRegistration := do
  settings.validate
  return ⟨lock, burnKey, signingKey, settings, .pending lock [signingKey.publicKey],
    .awaitingFunding, none⟩

def id (r : IdentityRegistration) : IdentityId := r.lock.identity

def enter (r : IdentityRegistration) (phase : IdentityPhase) : IdentityRegistration := { r with phase }

def markRegistered (r : IdentityRegistration) (now : Timestamp) : IdentityRegistration :=
  { r with identity := r.identity.register now, phase := .registered }

def fail (r : IdentityRegistration) (e : RegistrationError) : IdentityRegistration :=
  { r with lastError := some e, phase := .failed }

/-- Starts over after a timeout or a failure; in other phases there is nothing to start over. -/
def restart (r : IdentityRegistration) : Option IdentityRegistration :=
  if r.phase.isRestartable then some { r with phase := .awaitingFunding, lastError := none } else none

def operation (r : IdentityRegistration) : Operation :=
  .createIdentity r.id r.lock r.identity.keys.toList

def describe (r : IdentityRegistration) : String :=
  "IdentityRegistrar \x7b identity: " ++ r.id.describe ++ ", phase: " ++ r.phase.title ++ ", .. \x7d"

/-- The outcome of the final phases. -/
def finalOutcome (r : IdentityRegistration) : Option IdentityOutcome :=
  match r.phase with
  | .registered => some (.completed r.id)
  | .timedOut => some (.timedOut ())
  | .failed => some (.failed (r.lastError.getD (.rejected "identity registration failed")))
  | _ => none

/-- Work on the registration of an identity. Nothing comes of it when it is paused. -/
abbrev Work := Routine IdentityRegistration (Option IdentityOutcome)

/-- Looks whether the platform shows an identity; a query that fails shows nothing. -/
def lookFor (id : IdentityId) : Routine IdentityRegistration (Look Identity) := do
  match ← Routine.ask (.findIdentity id) with
  | .ok (some identity) => return .ready identity
  | .ok none | .error _ => return .pending

def awaitNetwork (schedule : Schedule) : Work := do
  let id := (← get).id
  match ← watch schedule fun _ => lookFor id with
  | none => return none
  | some (.completed _) =>
    let now ← Routine.ask .time
    modify fun r => r.markRegistered now
    return some (.completed id)
  | some (.timedOut _) =>
    modify fun r => r.enter .timedOut
    return some (.timedOut ())

def giveUp (e : RegistrationError) : Work := do
  modify fun r => r.fail e
  return some (.failed e)

def submitCreate (schedule : Schedule) : Work := do
  let r ← get
  if r.burnKey.publicKey ≠ r.lock.burnKey then
    giveUp (.rejected "burn key does not match the funding record")
  else
    let now ← Routine.ask .time
    let transition := Transition.sign r.operation now r.burnKey
    match ← submitUntilDecided r.settings.submission (Routine.ask (.submit transition)) with
    | .accepted _ =>
      modify fun r => r.enter .awaitingNetwork
      if ← isCancelled then return none
      awaitNetwork schedule
    | .rejected reason => giveUp (.rejected reason)
    | .exhausted .. =>
      modify fun r => r.enter .timedOut
      return some (.timedOut ())
    | .cancelled => return none

/-- Looks whether the identity exists already. A query that fails is no reason not to submit. -/
def checkExisting (schedule : Schedule) : Work := do
  let id := (← get).id
  match ← Routine.ask (.findIdentity id) with
  | .ok (some _) =>
    let now ← Routine.ask .time
    modify fun r => r.markRegistered now
    return some (.completed id)
  | .ok none | .error _ =>
    modify fun r => r.enter .submitting
    submitCreate schedule

def awaitFunding (schedule : Schedule) : Work := do
  let r ← get
  match ← Routine.ask (.awaitDepth r.lock.transaction r.settings.confirmations) with
  | none => return none
  | some (.error e) => return some (.failed e)
  | some (.ok _) =>
    modify fun r => r.enter .fundingConfirmed
    checkExisting schedule

/-- Registers the identity from the phase it is in, watching the network on a schedule. A schedule
that is not allowed fails before anything is done. -/
def register (schedule : Schedule) : Work := do
  match schedule.validate with
  | .error e => return some (.failed e)
  | .ok () =>
    let r ← get
    match r.phase with
    | .awaitingFunding => awaitFunding schedule
    | .fundingConfirmed => checkExisting schedule
    | .submitting => submitCreate schedule
    | .awaitingNetwork => awaitNetwork schedule
    | .registered | .timedOut | .failed => return r.finalOutcome

/-- Registers the identity, watching the network on the schedule of the settings. -/
def registerAsSet : Work := do register (← get).settings.identity

end IdentityRegistration

end Enrolment
