import Enrolment.Codec.Record

/-!
Where the registration of an identity stands.
-/

namespace Enrolment

/-- The phases of registering an identity, in their order; the last three are final. -/
inductive IdentityPhase where
  /-- The funding transaction is not yet deep enough. -/
  | awaitingFunding
  /-- It is; the identity may exist already. -/
  | fundingConfirmed
  /-- The transition that creates the identity is being submitted. -/
  | submitting
  /-- The transition is accepted and the identity not yet visible. -/
  | awaitingNetwork
  | registered
  | timedOut
  | failed
deriving DecidableEq, Repr

namespace IdentityPhase

def name : IdentityPhase → String
  | awaitingFunding => "awaiting_funding"
  | fundingConfirmed => "funding_confirmed"
  | submitting => "submitting_create_transition"
  | awaitingNetwork => "awaiting_network_confirmation"
  | registered => "registered"
  | timedOut => "timed_out"
  | failed => "failed"

/-- The title of a phase, as it appears in descriptions of registrations. -/
def title : IdentityPhase → String
  | awaitingFunding => "AwaitingFunding"
  | fundingConfirmed => "FundingConfirmed"
  | submitting => "SubmittingCreateTransition"
  | awaitingNetwork => "AwaitingNetworkConfirmation"
  | registered => "Registered"
  | timedOut => "TimedOut"
  | failed => "Failed"

def isFinal : IdentityPhase → Bool
  | registered | timedOut | failed => true
  | _ => false

/-- Whether registration can start over from a phase. -/
def isRestartable : IdentityPhase → Bool
  | timedOut | failed => true
  | _ => false

end IdentityPhase

def Format.identityPhase : Format IdentityPhase :=
  cases
    [.single "awaiting_funding" .awaitingFunding, .single "funding_confirmed" .fundingConfirmed,
    .single "submitting_create_transition" .submitting,
    .single "awaiting_network_confirmation" .awaitingNetwork,
    .single "registered" .registered, .single "timed_out" .timedOut, .single "failed" .failed]

end Enrolment
