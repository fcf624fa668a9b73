import Enrolment.Registration.Identity
import Enrolment.Registration.Usernames

/-!
The whole registration of an identity and its usernames.

A flow registers its identity and then its initial names. Afterwards it carries out commands: to
register further names, to start over after a timeout or a failure, to go on after a pause. Each of
these clears the flag first. What the flow holds is worked on by one command at a time.
-/

namespace Enrolment

variable [Suite]

/-- How a flow ended. There is a result for usernames if the identity is registered and names were
asked for. -/
structure FlowOutcome where
  identity : IdentityOutcome
  usernames : Option UsernameOutcome
deriving DecidableEq

namespace FlowOutcome

def isCompleted (o : FlowOutcome) : Bool :=
  o.identity.isCompleted && (o.usernames.map Outcome.isCompleted).getD true

/-- Whether some part timed out. -/
def isTimedOut (o : FlowOutcome) : Bool :=
  o.identity.isTimedOut || (o.usernames.map Outcome.isTimedOut).getD false

end FlowOutcome

/-- The registrations of one identity and what is asked of them. -/
structure Flow where
  identity : IdentityRegistration
  usernames : UsernameRegistration
  labels : List String
  /-- Takes the place of the schedules of the settings for looking. -/
  schedule : Option Schedule
  /-- Whether the names that the platform lists were taken up. -/
  isRecovered : Bool

inductive Command where
  | start
  | register (labels : List String)
  /-- Starts the identity over if it timed out or failed, then registers what is left. -/
  | restart
  /-- Goes on from where the flow was paused. -/
  | resume
deriving DecidableEq

inductive Reply where
  | usernames (result : Except RegistrationError (Option UsernameOutcome))
  | flow (outcome : Option FlowOutcome)

namespace Flow

abbrev Work := Routine Flow

def onIdentity {α : Type} (r : Routine IdentityRegistration α) : Work α :=
  r.within identity fun part f => { f with identity := part }

def onUsernames {α : Type} (r : Routine UsernameRegistration α) : Work α :=
  r.within usernames fun part f => { f with usernames := part }

/-- Registers names, after the names that the platform lists were taken up once. -/
def registerLabels (labels : List String) :
    Work (Except RegistrationError (Option UsernameOutcome)) := do
  if !(← get).isRecovered then
    match ← onUsernames UsernameRegistration.recover with
    | .ok _ => modify fun f => { f with isRecovered := true }
    | .error _ => pure ()
  onUsernames (UsernameRegistration.register (← get).schedule labels)

/-- Registers the identity, then the initial names. Nothing comes of it when it is paused. -/
def drive : Work (Option FlowOutcome) := do
  let f ← get
  let registered ← onIdentity (match f.schedule with
    | some schedule => IdentityRegistration.register schedule
    | none => IdentityRegistration.registerAsSet)
  match registered with
  | none => return none
  | some identity =>
    if !identity.isCompleted || f.labels.isEmpty then return some ⟨identity, none⟩
    match ← registerLabels f.labels with
    | .ok none => return none
    | .ok (some usernames) => return some ⟨identity, some usernames⟩
    | .error e => return some ⟨identity, some (.failed e)⟩

/-- Registers further names once the identity is registered. -/
def registerMore (labels : List String) :
    Work (Except RegistrationError (Option UsernameOutcome)) := do
  let f ← get
  if !f.identity.identity.isRegistered then return .error (.notRegistered f.identity.id)
  Routine.ask .clearFlag
  registerLabels labels

/-- The flow with its identity started over, if it can be. -/
def restarted (f : Flow) : Flow := { f with identity := f.identity.restart.getD f.identity }

def perform : Command → Work Reply
  | .start => return .flow (← drive)
  | .register labels => return .usernames (← registerMore labels)
  | .restart => do
    modify restarted
    Routine.ask .clearFlag
    return .flow (← drive)
  | .resume => do
    Routine.ask .clearFlag
    return .flow (← drive)

end Flow

end Enrolment
