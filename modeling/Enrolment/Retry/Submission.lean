import Enrolment.Retry.Watch

/-!
Submitting until the platform decides.

Only refusals that may clear up are tried again. The flag is read before every attempt and cuts a
delay short, but an acceptance counts even if the flag was set while the attempt was under way.
-/

namespace Enrolment

inductive Submission (β : Type) where
  | accepted (receipt : β)
  | rejected (reason : String)
  /-- Every attempt was refused for a reason that may clear up, the last one for a given one. -/
  | exhausted (attempts : Nat) (last : String)
  /-- Submitting was called off before an attempt succeeded. -/
  | cancelled
deriving DecidableEq

variable {m : Type → Type} [Monad m] [Interruptible m] {β : Type}

/-- Attempts up to `left` times, the first of these attempts having the number `number`. -/
def submitFrom (schedule : Schedule) (attempt : m (Except Refusal β)) (number : Nat) :
    (left : Nat) → m (Submission β)
  | 0 => return .exhausted schedule.attempts.toNat ""
  | left + 1 => do
    if ← isCancelled then return .cancelled
    match ← attempt with
    | .ok receipt => return .accepted receipt
    | .error (.invalid reason) => return .rejected reason
    | .error (.transient reason) =>
      if left = 0 then return .exhausted schedule.attempts.toNat reason
      if ← pause (schedule.delayAfter number) then return .cancelled
      submitFrom schedule attempt (number + 1) left

/-- Attempts until the platform decides or the attempts of the schedule run out. -/
def submitUntilDecided (schedule : Schedule) (attempt : m (Except Refusal β)) : m (Submission β) :=
  submitFrom schedule attempt 1 schedule.attempts.toNat

end Enrolment
