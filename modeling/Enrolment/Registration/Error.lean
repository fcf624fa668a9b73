import Enrolment.Identity.Id

/-!
What can go wrong while an identity or a username is being registered.

Running out of attempts is no error; it is one of the outcomes.
-/

namespace Enrolment

/-- Why a platform refuses a transition. -/
inductive Refusal where
  /-- Something that may clear up. -/
  | transient (reason : String)
  /-- The transition itself is wrong. -/
  | invalid (reason : String)
deriving DecidableEq, Repr

/-- An error of registration. -/
inductive RegistrationError where
  | value (e : Error)
  | rejected (reason : String)
  /-- The platform refused a transition for a reason that may clear up. -/
  | transient (reason : String)
  | query (reason : String)
  /-- The source of confirmations failed. -/
  | confirmations (reason : String)
  /-- The settings are not allowed. -/
  | settings (reason : String)
  | flowExists (id : IdentityId)
  | flowNotFound (id : IdentityId)
  | flowClosed (id : IdentityId)
  | notRegistered (id : IdentityId)
deriving DecidableEq

namespace RegistrationError

def message : RegistrationError → String
  | value e => e.message
  | rejected reason => "submission rejected: " ++ reason
  | transient reason => "transient submission failure: " ++ reason
  | query reason => "query failed: " ++ reason
  | confirmations reason => "confirmation source failed: " ++ reason
  | settings reason => "invalid configuration: " ++ reason
  | flowExists id => "registration flow already active for " ++ id.toBase58
  | flowNotFound id => "no registration flow for " ++ id.toBase58
  | flowClosed id => "registration flow for " ++ id.toBase58 ++ " has stopped"
  | notRegistered id => "identity " ++ id.toBase58 ++ " is not registered"

/-- Whether the same request may succeed later. -/
def isRetryable : RegistrationError → Bool
  | transient _ | query _ | confirmations _ => true
  | _ => false

/-- Whether the caller supplied something wrong. -/
def isValidation : RegistrationError → Bool
  | value e => e.isClientFault
  | settings _ => true
  | _ => false

def ofRefusal : Refusal → RegistrationError
  | .transient reason => transient reason
  | .invalid reason => rejected reason

/-- The error as it is copied: without the cause of a wrong value. -/
def withoutCause : RegistrationError → RegistrationError
  | value e => value e.withoutCause
  | e => e

end RegistrationError

/-- How registration ended; `π` is what a timeout reports. -/
inductive Outcome (α π : Type) where
  /-- Every step is confirmed. -/
  | completed (result : α)
  | timedOut (unfinished : π)
  /-- The platform refused a transition, or something is wrong. -/
  | failed (e : RegistrationError)
deriving DecidableEq

namespace Outcome

variable {α π : Type}

def name : Outcome α π → String
  | completed _ => "completed"
  | timedOut _ => "timed_out"
  | failed _ => "failed"

def isCompleted : Outcome α π → Bool
  | completed _ => true
  | _ => false

def isTimedOut : Outcome α π → Bool
  | timedOut _ => true
  | _ => false

end Outcome

/-- How the registration of an identity ended. -/
abbrev IdentityOutcome := Outcome IdentityId Unit

/-- How the registration of usernames ended: with the registered names, or the unfinished ones. -/
abbrev UsernameOutcome := Outcome (List String) (List String)

end Enrolment
