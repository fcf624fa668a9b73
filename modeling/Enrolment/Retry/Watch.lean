import Enrolment.Retry.Schedule

/-!
Watching for a condition on a schedule, with a flag that calls the watch off.

The first look is immediate and the delays of the schedule separate the later ones. The flag is read
before and after every look, and it cuts a delay short. A look that is under way when the flag is set
is finished, but what it saw is thrown away.
-/

namespace Enrolment

/-- A setting in which work is called off by setting a flag. -/
class Interruptible (m : Type → Type) where
  isCancelled : m Bool
  /-- Waits for some milliseconds; true if the flag cut the wait short. -/
  pause : (millis : Nat) → m Bool

export Interruptible (isCancelled pause)

inductive Look (β : Type) where
  | ready (value : β)
  | pending
deriving DecidableEq

/-- How a watch ended that was not called off. -/
inductive WatchOutcome (β : Type) where
  | completed (value : β)
  /-- Every look was in vain. -/
  | timedOut (looks : Nat)
deriving DecidableEq

variable {m : Type → Type} [Monad m] [Interruptible m] {β : Type}

/-- Looks up to `left` times, the first of these looks having the number `number`. -/
def watchFrom (schedule : Schedule) (look : Nat → m (Look β)) (number : Nat) :
    (left : Nat) → m (Option (WatchOutcome β))
  | 0 => return some (.timedOut schedule.attempts.toNat)
  | left + 1 => do
    if ← isCancelled then return none
    let seen ← look number
    if ← isCancelled then return none
    match seen with
    | .ready value => return some (.completed value)
    | .pending =>
      if left = 0 then return some (.timedOut schedule.attempts.toNat)
      if ← pause (schedule.delayAfter number) then return none
      watchFrom schedule look (number + 1) left

/-- Looks until the condition holds or the attempts of the schedule run out. There is no outcome if
the watch was called off. Looks are numbered from one. -/
def watch (schedule : Schedule) (look : Nat → m (Look β)) : m (Option (WatchOutcome β)) :=
  watchFrom schedule look 1 schedule.attempts.toNat

end Enrolment
