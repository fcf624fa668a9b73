import Enrolment.Retry.Timer
import Enrolment.Retry.Watch

/-!
Watching against a prepared sequence of looks.

Time is a number of milliseconds that grows only by waiting. Every prepared look says how long it
takes and what it sees, and the flag is set by a look or, from outside, at a given instant. A change
from outside is felt after whatever else happens at its instant.
-/

namespace Enrolment

/-- A clock, the flag and the looks that were made so far. -/
structure Timeline where
  now : Nat
  isSet : Bool
  /-- When the flag is going to be set from outside. -/
  setAt : Option Nat
  /-- The number and the instant of each look, newest first. -/
  looks : List (Nat × Nat)
deriving DecidableEq

abbrev Timed := StateM Timeline

structure PreparedLook (β : Type) where
  takes : Nat
  /-- Whether the flag is set while it is made. -/
  setsFlag : Bool
  /-- What it sees, if the condition holds. -/
  value : Option β

namespace Timeline

def start : Timeline := ⟨0, false, none, []⟩

/-- The timeline at a later instant: the flag is set if that was due before it. -/
def moveTo (t : Timeline) (instant : Nat) : Timeline :=
  match t.setAt with
  | some due =>
    if due < instant then { t with now := instant, isSet := true, setAt := none }
    else { t with now := instant }
  | none => { t with now := instant }

/-- Waits while the flag is not set: whether it was set before the wait was over, and what is reached. -/
def wait (t : Timeline) (millis : Nat) : Bool × Timeline :=
  if t.isSet then (true, t)
  else
    match t.setAt with
    | some due =>
      if due < t.now + timerRun millis then
        (true, { t with now := max t.now due, isSet := true, setAt := none })
      else (false, t.moveTo (t.now + timerRun millis))
    | none => (false, t.moveTo (t.now + timerRun millis))

end Timeline

instance : Interruptible Timed where
  isCancelled := return (← get).isSet
  pause millis := modifyGet fun t => t.wait millis

namespace PreparedLook

variable {β : Type}

/-- Makes a look: notes it, lets its time pass, sets the flag if it is to be set. -/
def make (look : PreparedLook β) (number : Nat) : Timed (Look β) := do
  modify fun t => { t with looks := (number, t.now) :: t.looks }
  modify fun t => t.moveTo (t.now + timerRun look.takes)
  if look.setsFlag then modify fun t => { t with isSet := true }
  return match look.value with
    | some value => .ready value
    | none => .pending

end PreparedLook

/-- One watch of a sequence: what is done to the flag first, the looks, and when, counted from the
start of the round, the flag is set from outside. -/
structure Round (β : Type) where
  setFlag : Option Bool
  looks : List (PreparedLook β)
  setAfter : Option Nat

/-- What came of a round; instants are counted from its start. -/
structure RoundResult (β : Type) where
  outcome : Option (WatchOutcome β)
  looks : List (Nat × Nat)
  elapsed : Nat
  isSet : Bool

namespace Round

variable {β : Type}

/-- The look of a number; those that are not prepared see nothing at once. -/
def look (r : Round β) (number : Nat) : Timed (Look β) :=
  match r.looks[number - 1]? with
  | some look => look.make number
  | none => PreparedLook.make ⟨0, false, none⟩ number

/-- Watches once. The round lasts until the flag was set from outside, if that is to happen. -/
def run (r : Round β) (schedule : Schedule) : Timed (RoundResult β) := do
  let start := (← get).now
  modify fun t =>
    { t with
      isSet := r.setFlag.getD t.isSet
      setAt := r.setAfter.map fun millis => start + timerRun millis
      looks := [] }
  let outcome ← watch schedule r.look
  let ended ← get
  match ended.setAt with
  | some due => set { ended with now := max ended.now due, isSet := true, setAt := none }
  | none => pure ()
  return ⟨outcome, ended.looks.reverse.map fun (number, instant) => (number, instant - start),
    ended.now - start, (← get).isSet⟩

/-- Watches once per round, on one clock and with one flag. -/
def runAll (schedule : Schedule) (rounds : List (Round β)) : List (RoundResult β) :=
  let watched : Timed (List (RoundResult β)) := rounds.mapM fun r => r.run schedule
  (watched .start).1

end Round

end Enrolment
