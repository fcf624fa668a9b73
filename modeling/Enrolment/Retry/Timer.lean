/-!
How long timers run.

A timer that is set to more than thirty years runs for thirty years. Everything that waits for some
time does so on one timer.
-/

namespace Enrolment

/-- The longest that a timer runs, in milliseconds: thirty years of 365 days. -/
def longestTimer : Nat := 30 * 365 * 86400 * 1000

/-- How long a timer runs that is set to some milliseconds. -/
def timerRun (millis : Nat) : Nat := min millis longestTimer

theorem timerRun_of_le {millis : Nat} (h : millis ≤ longestTimer) : timerRun millis = millis :=
  Nat.min_eq_left h

end Enrolment
