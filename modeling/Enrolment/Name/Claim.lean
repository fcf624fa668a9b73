import Enrolment.Codec.Record
import Enrolment.Credit.Transaction
import Enrolment.Name.Commitment

/-!
Claims on usernames and their life.

A claim moves one step at a time from unregistered through preorder and domain registration, and may
time out at any step before the last. It records every state it has held.
-/

namespace Enrolment

inductive ClaimState where
  /-- A salt is drawn and nothing submitted. -/
  | unregistered
  /-- The preorder is accepted. -/
  | preorderSubmitted
  /-- The preorder is visible. -/
  | preorderConfirmed
  /-- The domain registration is accepted. -/
  | domainSubmitted
  /-- The domain is visible and owned. -/
  | registered
  | timedOut
deriving DecidableEq, Repr

namespace ClaimState

def name : ClaimState → String
  | unregistered => "unregistered"
  | preorderSubmitted => "preorder_submitted"
  | preorderConfirmed => "preorder_confirmed"
  | domainSubmitted => "domain_submitted"
  | registered => "registered"
  | timedOut => "timed_out"

def isFinal : ClaimState → Bool
  | registered | timedOut => true
  | _ => false

/-- The state that success leads to. -/
def next? : ClaimState → Option ClaimState
  | unregistered => some preorderSubmitted
  | preorderSubmitted => some preorderConfirmed
  | preorderConfirmed => some domainSubmitted
  | domainSubmitted => some registered
  | registered | timedOut => none

/-- Whether a state may be left for another: for the one that success leads to, or for a timeout. -/
def mayBecome (s target : ClaimState) : Bool :=
  if target = timedOut then !s.isFinal else s.next? = some target

end ClaimState

/-- The claim of an identity on a name. -/
structure Claim where
  label : Label
  owner : IdentityId
  salt : Salt
  commitment : Digest
  state : ClaimState
  /-- Every state held so far, oldest first. -/
  history : List ClaimState
  updatedAt : Timestamp
deriving DecidableEq

namespace Claim

def start [Suite] (label : Label) (owner : IdentityId) (salt : Salt) (state : ClaimState)
    (now : Timestamp) : Claim :=
  ⟨label, owner, salt, Enrolment.commitment salt label owner, state, [state], now⟩

def fresh [Suite] (label : Label) (owner : IdentityId) (salt : Salt) (now : Timestamp) : Claim :=
  start label owner salt .unregistered now

/-- The claim on a name that is already registered under a salt. -/
def adopted [Suite] (label : Label) (owner : IdentityId) (salt : Salt) (now : Timestamp) : Claim :=
  start label owner salt .registered now

def enter (c : Claim) (state : ClaimState) (now : Timestamp) : Claim :=
  { c with state, history := c.history ++ [state], updatedAt := now }

/-- Moves a claim, unless its state may not be left for the target. -/
def advance (c : Claim) (target : ClaimState) (now : Timestamp) : Except Error Claim :=
  if c.state.mayBecome target then .ok (c.enter target now)
  else .error (.illegalMove c.state.name target.name)

/-- The claim as timed out; a final claim is left as it is. -/
def expire (c : Claim) (now : Timestamp) : Claim :=
  if c.state.isFinal then c else c.enter .timedOut now

end Claim

namespace Format

def label : Format Label :=
  record (.cons "display" text (.cons "normalized" text (.last "parent" text)))
    (fun l => (l.display, l.normalized, l.parent)) (fun (d, n, p) => ⟨d, n, p⟩)

def salt : Format Salt := bytes32.via Salt.bytes Salt.mk

def claimState : Format ClaimState :=
  cases
    [.single "unregistered" .unregistered, .single "preorder_submitted" .preorderSubmitted,
    .single "preorder_confirmed" .preorderConfirmed, .single "domain_submitted" .domainSubmitted,
    .single "registered" .registered, .single "timed_out" .timedOut]

def claim : Format Claim :=
  record
    (.cons "label" label (.cons "identity_id" identityId (.cons "salt" salt
      (.cons "salted_hash" bytes32 (.cons "state" claimState (.cons "history" (list claimState)
        (.last "updated_at" timestamp)))))))
    (fun c => (c.label, c.owner, c.salt, c.commitment, c.state, c.history, c.updatedAt))
    (fun (l, o, s, c, st, h, u) => ⟨l, o, s, c, st, h, u⟩)

end Format

end Enrolment
