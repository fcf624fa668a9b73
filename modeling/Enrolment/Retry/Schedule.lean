import Enrolment.Codec.Record
import Enrolment.Registration.Error

/-!
Schedules of attempts and of the delays between them.

Delays are whole milliseconds. The delay after an attempt follows from the one before by a rule of
growth, with every intermediate result rounded down, and is cut off at a bound. Growth stops being
computed once the bound is reached or the delay no longer changes.
-/

namespace Enrolment

inductive Backoff where
  | linear
  /-- Each delay is twice the one before. -/
  | exponential
  /-- Each delay is larger than the one before by a percentage. -/
  | scaled (percent : UInt16)
deriving DecidableEq

/-- The largest number of 64 bits. -/
def maxWord : Nat := 18446744073709551615

/-- The largest number of 128 bits, at which products are held. -/
def maxDoubleWord : Nat := 340282366920938463463374607431768211455

namespace Backoff

/-- The delay that follows another. -/
def grow (backoff : Backoff) (delay : Nat) : Nat :=
  match backoff with
  | linear => delay
  | exponential => min (delay * 2) maxDoubleWord
  | scaled percent => min (delay * (100 + percent.toNat)) maxDoubleWord / 100

/-- The delay after `steps` steps of growth from `delay`, where growth past the bound does not
matter. -/
def growUpTo (backoff : Backoff) (bound : Nat) : (steps delay : Nat) → Nat
  | 0, delay => delay
  | steps + 1, delay =>
    let next := backoff.grow delay
    if bound ≤ next || next = delay then next else growUpTo backoff bound steps next

end Backoff

structure Schedule where
  /-- The number of attempts, the first included. -/
  attempts : UInt32
  baseDelay : UInt64
  backoff : Backoff
  maxDelay : Option UInt64
deriving DecidableEq

namespace Schedule

/-- Whole milliseconds of a duration, as a word of 64 bits. -/
def millis (seconds : UInt64) (nanos : UInt32) : UInt64 :=
  UInt64.ofNat (seconds.toNat * 1000 + nanos.toNat / 1000000)

def linear (attempts : UInt32) (baseDelay : UInt64) : Schedule := ⟨attempts, baseDelay, .linear, none⟩

def exponential (attempts : UInt32) (baseDelay : UInt64) : Schedule :=
  ⟨attempts, baseDelay, .exponential, none⟩

def scaled (attempts : UInt32) (baseDelay : UInt64) (percent : UInt16) : Schedule :=
  ⟨attempts, baseDelay, .scaled percent, none⟩

def withMaxDelay (s : Schedule) (bound : UInt64) : Schedule := { s with maxDelay := some bound }

/-- Ten attempts, at first five seconds apart, then a fifth longer each time. -/
def default : Schedule := scaled 10 5000 20

/-- The bound on delays: the given one, or the largest number of 64 bits. -/
def bound (s : Schedule) : Nat :=
  match s.maxDelay with
  | some bound => bound.toNat
  | none => maxWord

/-- The milliseconds between attempt `n`, counted from one, and the next. -/
def delayAfter (s : Schedule) (n : Nat) : Nat :=
  min (s.backoff.growUpTo s.bound (n - 1) s.baseDelay.toNat) s.bound

def delaysFrom (s : Schedule) : (count n : Nat) → Nat
  | 0, _ => 0
  | count + 1, n => s.delayAfter n + delaysFrom s count (n + 1)

/-- The sum of all delays, unless it exceeds the longest duration, which is just short of `2 ^ 64`
seconds. -/
def totalDelay? (s : Schedule) : Option Nat :=
  let total := s.delaysFrom (s.attempts.toNat - 1) 1
  if total < 18446744073709551616000 then some total else none

/-- Checks that there is an attempt, and that the bound is no less than the first delay. -/
def validate (s : Schedule) : Except RegistrationError Unit :=
  if s.attempts = 0 then .error (.settings "max_attempts must be at least 1")
  else
    match s.maxDelay with
    | some bound =>
      if bound < s.baseDelay then
        .error (.settings ("max_delay_ms (" ++ toString bound.toNat ++ ") is below base_delay_ms ("
          ++ toString s.baseDelay.toNat ++ ")"))
      else .ok ()
    | none => .ok ()

theorem attempts_ne_zero {s : Schedule} (h : s.validate = .ok ()) : s.attempts ≠ 0 := by
  unfold validate at h
  split at h
  · cases h
  next hne => exact hne

theorem attempts_pos {s : Schedule} (h : s.validate = .ok ()) : 0 < s.attempts.toNat := by
  apply Nat.pos_of_ne_zero
  intro hzero
  exact attempts_ne_zero h (UInt32.toNat_inj.mp hzero)

theorem validate_getD {schedule? : Option Schedule} {default : Schedule}
    (hdefault : default.validate = .ok ())
    (hvalid : ∀ schedule ∈ schedule?, schedule.validate = .ok ()) :
    (schedule?.getD default).validate = .ok () := by
  cases schedule? with
  | none => exact hdefault
  | some schedule => exact hvalid schedule rfl

end Schedule

namespace Format

def backoff : Format Backoff :=
  cases
    [.single "linear" .linear, .single "exponential" .exponential,
    .record "scaled" (.last "growth_percent" uint16)
      (fun | .scaled p => some p | _ => none) .scaled]

def schedule : Format Schedule :=
  record
    (.cons "max_attempts" uint32 (.cons "base_delay_ms" uint64 (.cons "backoff" backoff
      (.last "max_delay_ms" (option uint64)))))
    (fun s => (s.attempts, s.baseDelay, s.backoff, s.maxDelay)) (fun (a, b, k, m) => ⟨a, b, k, m⟩)

def refusal : Format Refusal :=
  cases
    [.wrapped "transient" text (fun | .transient r => some r | _ => none) .transient,
    .wrapped "invalid" text (fun | .invalid r => some r | _ => none) .invalid]

end Format

end Enrolment
