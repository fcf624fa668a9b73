import Mathlib.Algebra.Order.Floor.Semifield
import Mathlib.Algebra.Ring.GeomSum
import Mathlib.Data.Rat.Floor
import Mathlib.Tactic.IntervalCases
import Mathlib.Tactic.Linarith
import Mathlib.Tactic.Ring
import Enrolment.Retry.Schedule

/-!
How the delays of a schedule grow.

Growth that stops at the bound and is computed in 128 bits gives the delays of a recurrence over
numbers without bound, cut off at the bound. A scaled delay is rounded down at every step, so that it
lags behind compound growth, which is rounded down once.
-/

namespace Enrolment

namespace Backoff

/-- The delay that follows another, in numbers without bound. -/
def next : Backoff → Nat → Nat
  | linear, delay => delay
  | exponential, delay => 2 * delay
  | scaled percent, delay => delay * (100 + percent.toNat) / 100

/-- What a step multiplies a delay by. -/
def factor : Backoff → Nat
  | linear => 1
  | exponential => 2
  | scaled percent => 100 + percent.toNat

/-- The delays that growth up to a bound multiplies, in their order. -/
def multiplied (backoff : Backoff) (bound : Nat) : (steps delay : Nat) → List Nat
  | 0, _ => []
  | steps + 1, delay =>
    delay ::
      if bound ≤ backoff.grow delay || backoff.grow delay = delay then []
      else multiplied backoff bound steps (backoff.grow delay)

variable {backoff : Backoff} {bound steps delay : Nat}

theorem factor_lt (backoff : Backoff) : backoff.factor < 2 ^ 17 := by
  cases backoff with
  | linear => decide
  | exponential => decide
  | scaled percent =>
    have hword := percent.toNat_lt
    simp only [factor]
    omega

/-- A delay of 64 bits can be multiplied in 128 bits. -/
theorem mul_factor_lt (backoff : Backoff) (h : delay < 2 ^ 64) : delay * backoff.factor < 2 ^ 128 :=
  calc
    delay * backoff.factor < 2 ^ 64 * 2 ^ 17 := Nat.mul_lt_mul'' h backoff.factor_lt
    _ < 2 ^ 128 := by decide

theorem grow_eq_next (h : delay * backoff.factor < 2 ^ 128) :
    backoff.grow delay = backoff.next delay := by
  cases backoff with
  | linear => rfl
  | exponential =>
    simp only [factor] at h
    simp only [grow, next, maxDoubleWord]
    omega
  | scaled percent =>
    have hleast : min (delay * (100 + percent.toNat)) maxDoubleWord = delay * (100 + percent.toNat) :=
      Nat.min_eq_left (Nat.le_of_lt_succ h)
    simp only [grow, next, hleast]

theorem le_next (backoff : Backoff) (delay : Nat) : delay ≤ backoff.next delay := by
  cases backoff with
  | linear => exact Nat.le_refl _
  | exponential => exact Nat.le_mul_of_pos_left _ (by decide)
  | scaled percent =>
    apply (Nat.le_div_iff_mul_le (by decide)).mpr
    exact Nat.mul_le_mul_left _ (Nat.le_add_right _ _)

theorem le_iterate_next (backoff : Backoff) (steps delay : Nat) :
    delay ≤ backoff.next^[steps] delay :=
  Function.id_le_iterate_of_id_le backoff.le_next steps delay

theorem multiplied_eq_iterate (backoff : Backoff) (bound steps delay : Nat) :
    backoff.multiplied bound steps delay =
      List.iterate backoff.grow delay (backoff.multiplied bound steps delay).length := by
  induction steps generalizing delay with
  | zero => rfl
  | succ steps ih =>
    unfold multiplied
    split
    · rfl
    · exact congrArg (delay :: ·) (ih _)

theorem growUpTo_eq_iterate (backoff : Backoff) (bound steps delay : Nat) :
    backoff.growUpTo bound steps delay =
      backoff.grow^[(backoff.multiplied bound steps delay).length] delay := by
  induction steps generalizing delay with
  | zero => rfl
  | succ steps ih =>
    unfold growUpTo multiplied
    dsimp only
    split
    · rfl
    · exact ih _

/-- Growth goes on from delays below the bound only. -/
theorem lt_of_mem_multiplied (hdelay : delay < 2 ^ 64) (hbound : bound ≤ 2 ^ 64) :
    ∀ entered ∈ backoff.multiplied bound steps delay, entered < 2 ^ 64 := by
  induction steps generalizing delay with
  | zero => exact fun _ hmem => absurd hmem List.not_mem_nil
  | succ steps ih =>
    intro entered hmem
    rcases List.mem_cons.mp hmem with rfl | hmem
    · exact hdelay
    · split at hmem
      · exact absurd hmem List.not_mem_nil
      next hgoes =>
        simp only [Bool.or_eq_true, decide_eq_true_eq, not_or, Nat.not_le] at hgoes
        exact ih (Nat.lt_of_lt_of_le hgoes.1 hbound) entered hmem

/-- Cut off at the bound, growth that stops early is what the unbounded recurrence gives. -/
theorem min_growUpTo (hdelay : delay < 2 ^ 64) (hbound : bound ≤ 2 ^ 64) :
    min (backoff.growUpTo bound steps delay) bound = min (backoff.next^[steps] delay) bound := by
  induction steps generalizing delay with
  | zero => rfl
  | succ steps ih =>
    have hgrow : backoff.grow delay = backoff.next delay :=
      grow_eq_next (backoff.mul_factor_lt hdelay)
    rw [Function.iterate_succ_apply]
    unfold growUpTo
    dsimp only
    rw [hgrow]
    split
    next hstops =>
      rcases Bool.or_eq_true _ _ ▸ hstops with hreached | hstands
      · -- whatever follows is no smaller, so that the bound cuts off both
        have hreached : bound ≤ backoff.next delay := of_decide_eq_true hreached
        have hlater := backoff.le_iterate_next steps (backoff.next delay)
        rw [Nat.min_eq_right hreached, Nat.min_eq_right (Nat.le_trans hreached hlater)]
      · have hstands : backoff.next delay = delay := of_decide_eq_true hstands
        rw [hstands, Function.iterate_fixed hstands]
    next hgoes =>
      simp only [Bool.or_eq_true, decide_eq_true_eq, not_or, Nat.not_le] at hgoes
      exact ih (Nat.lt_of_lt_of_le hgoes.1 hbound)

end Backoff

namespace Schedule

/-- The delay after an attempt, counted from one, in numbers without bound. -/
def unbounded (s : Schedule) : Nat → Nat
  | 0 | 1 => s.baseDelay.toNat
  | n + 2 => s.backoff.next (s.unbounded (n + 1))

/-- The delays that are multiplied to compute the one after an attempt. -/
def multiplied (s : Schedule) (n : Nat) : List Nat :=
  s.backoff.multiplied s.bound (n - 1) s.baseDelay.toNat

variable {s : Schedule}

theorem bound_lt (s : Schedule) : s.bound < 2 ^ 64 := by
  unfold bound
  split
  next bound _ => exact bound.toNat_lt
  next => decide

theorem unbounded_eq_iterate (s : Schedule) (n : Nat) :
    s.unbounded n = s.backoff.next^[n - 1] s.baseDelay.toNat := by
  match n with
  | 0 | 1 => rfl
  | n + 2 =>
    rw [unbounded, unbounded_eq_iterate s (n + 1)]
    exact (Function.iterate_succ_apply' _ _ _).symm

theorem unbounded_le_succ (s : Schedule) (n : Nat) : s.unbounded n ≤ s.unbounded (n + 1) := by
  cases n with
  | zero => exact Nat.le_refl _
  | succ n => exact s.backoff.le_next _

theorem delayAfter_eq_min (s : Schedule) (n : Nat) :
    s.delayAfter n = min (s.unbounded n) s.bound := by
  rw [unbounded_eq_iterate]
  exact Backoff.min_growUpTo s.baseDelay.toNat_lt (Nat.le_of_lt s.bound_lt)

theorem unbounded_exponential (hbackoff : s.backoff = .exponential) (n : Nat) :
    s.unbounded (n + 1) = s.baseDelay.toNat * 2 ^ n := by
  induction n with
  | zero => simp [unbounded]
  | succ n ih =>
    rw [unbounded, ih, hbackoff, Backoff.next, Nat.pow_succ]
    ring

/-- The delays of a schedule are those of the unbounded recurrence, cut off at the bound: neither the
early end of growth nor the limit on products changes a delay, since no delay that is multiplied gives
a product beyond 128 bits. So delays never become shorter and never exceed the bound. -/
theorem delays_grow_exactly (s : Schedule) :
    (∀ n, s.delayAfter n = min (s.unbounded n) s.bound) ∧
    (s.backoff = .exponential → ∀ n, s.unbounded (n + 1) = s.baseDelay.toNat * 2 ^ n) ∧
    (∀ n, s.multiplied n =
        List.iterate s.backoff.grow s.baseDelay.toNat (s.multiplied n).length ∧
      s.backoff.growUpTo s.bound (n - 1) s.baseDelay.toNat =
        s.backoff.grow^[(s.multiplied n).length] s.baseDelay.toNat ∧
      ∀ delay ∈ s.multiplied n, delay * s.backoff.factor < 2 ^ 128) ∧
    Monotone s.delayAfter ∧ ∀ n, s.delayAfter n ≤ s.bound := by
  refine ⟨s.delayAfter_eq_min, unbounded_exponential, ?_, ?_, ?_⟩
  · intro n
    refine ⟨s.backoff.multiplied_eq_iterate _ _ _, s.backoff.growUpTo_eq_iterate _ _ _, ?_⟩
    intro delay hmem
    apply s.backoff.mul_factor_lt
    exact Backoff.lt_of_mem_multiplied s.baseDelay.toNat_lt (Nat.le_of_lt s.bound_lt) delay hmem
  · apply monotone_nat_of_le_succ
    intro n
    rw [delayAfter_eq_min, delayAfter_eq_min]
    exact min_le_min_right _ (s.unbounded_le_succ n)
  · intro n
    rw [delayAfter_eq_min]
    exact Nat.min_le_right _ _

/-- Delays that double from one millisecond are cut off once they need more than 64 bits. -/
theorem delays_grow_exactly_doubling :
    (exponential 70 1).unbounded 64 = 2 ^ 63 ∧ (exponential 70 1).delayAfter 64 = 2 ^ 63 ∧
      (exponential 70 1).delayAfter 65 = 2 ^ 64 - 1 := by
  obtain ⟨hmin, hdoubles, -⟩ := delays_grow_exactly (exponential 70 1)
  have hfirst : (exponential 70 1).unbounded 64 = 2 ^ 63 := hdoubles rfl 63
  have hsecond : (exponential 70 1).unbounded 65 = 2 ^ 64 := hdoubles rfl 64
  refine ⟨hfirst, ?_, ?_⟩
  · rw [hmin, hfirst]
    rfl
  · rw [hmin, hsecond]
    rfl

section Scaled

variable {percent : UInt16}

/-- The milliseconds after an attempt that compound growth gives, without any rounding. -/
def compound (s : Schedule) (percent : UInt16) (n : Nat) : ℚ :=
  s.baseDelay.toNat * (1 + (percent.toNat : ℚ) / 100) ^ (n - 1)

theorem compound_add_two (s : Schedule) (percent : UInt16) (n : Nat) :
    s.compound percent (n + 2) = s.compound percent (n + 1) * (1 + (percent.toNat : ℚ) / 100) := by
  simp only [compound, Nat.add_succ_sub_one]
  ring

/-- One step rounds compound growth from the delay before it. -/
theorem unbounded_add_two (hbackoff : s.backoff = .scaled percent) (n : Nat) :
    s.unbounded (n + 2) = ⌊(s.unbounded (n + 1) : ℚ) * (1 + (percent.toNat : ℚ) / 100)⌋₊ := by
  have hrational : (s.unbounded (n + 1) : ℚ) * (1 + (percent.toNat : ℚ) / 100) =
      ((s.unbounded (n + 1) * (100 + percent.toNat) : Nat) : ℚ) / (100 : Nat) := by
    push_cast
    ring
  rw [hrational, Nat.floor_div_eq_div, unbounded, hbackoff]
  rfl

theorem unbounded_le_compound (hbackoff : s.backoff = .scaled percent) (n : Nat) :
    (s.unbounded n : ℚ) ≤ s.compound percent n := by
  match n with
  | 0 | 1 => simp [unbounded, compound]
  | n + 2 =>
    rw [unbounded_add_two hbackoff, compound_add_two]
    calc
      (⌊(s.unbounded (n + 1) : ℚ) * (1 + (percent.toNat : ℚ) / 100)⌋₊ : ℚ)
          ≤ s.unbounded (n + 1) * (1 + (percent.toNat : ℚ) / 100) := Nat.floor_le (by positivity)
      _ ≤ s.compound percent (n + 1) * (1 + (percent.toNat : ℚ) / 100) :=
        mul_le_mul_of_nonneg_right (unbounded_le_compound hbackoff (n + 1)) (by positivity)

/-- Every step loses less than a millisecond, and what is lost grows like the delay. -/
theorem compound_sub_unbounded_le (hbackoff : s.backoff = .scaled percent) (n : Nat) :
    s.compound percent n - s.unbounded n ≤
      ∑ i ∈ Finset.range (n - 1), (1 + (percent.toNat : ℚ) / 100) ^ i := by
  match n with
  | 0 | 1 => simp [unbounded, compound]
  | n + 2 =>
    have hbefore := compound_sub_unbounded_le hbackoff (n + 1)
    have hloss := Nat.lt_floor_add_one ((s.unbounded (n + 1) : ℚ) * (1 + (percent.toNat : ℚ) / 100))
    have hgrown := mul_le_mul_of_nonneg_left hbefore
      (show (0 : ℚ) ≤ 1 + (percent.toNat : ℚ) / 100 by positivity)
    rw [← unbounded_add_two hbackoff] at hloss
    rw [Nat.add_sub_cancel] at hgrown
    rw [show n + 2 - 1 = n + 1 from rfl, geom_sum_succ, compound_add_two]
    linarith

/-- Nothing is lost before the delay that follows whole ones. -/
theorem unbounded_eq_floor (hbackoff : s.backoff = .scaled percent) (n : Nat)
    (hwhole : ∀ m, m < n → ∃ millis : Nat, s.compound percent m = millis) :
    s.unbounded n = ⌊s.compound percent n⌋₊ := by
  match n, hwhole with
  | 0, _ | 1, _ => simp [unbounded, compound]
  | n + 2, hwhole =>
    have hbefore : s.unbounded (n + 1) = ⌊s.compound percent (n + 1)⌋₊ :=
      unbounded_eq_floor hbackoff (n + 1) fun m hm => hwhole m (Nat.lt_succ_of_lt hm)
    obtain ⟨millis, hmillis⟩ := hwhole (n + 1) (Nat.lt_succ_self _)
    rw [hmillis, Nat.floor_natCast] at hbefore
    rw [unbounded_add_two hbackoff, compound_add_two, hbefore, hmillis]

/-- A delay whose growth is less than a millisecond does not grow. -/
theorem unbounded_eq_baseDelay (hbackoff : s.backoff = .scaled percent)
    (hsmall : s.baseDelay.toNat * percent.toNat < 100) (n : Nat) :
    s.unbounded n = s.baseDelay.toNat := by
  match n with
  | 0 | 1 => rfl
  | n + 2 =>
    rw [unbounded, unbounded_eq_baseDelay hbackoff hsmall (n + 1), hbackoff, Backoff.next,
      Nat.mul_add]
    omega

/-- A scaled delay is never longer than compound growth gives, rounded down and cut off at the bound,
and is just that as long as compound growth gives whole milliseconds before. It is shorter by no more
than what a millisecond that is lost at every step grows to. A first delay that grows by less than a
millisecond stays as it is. -/
theorem scaled_delays_lag (hbackoff : s.backoff = .scaled percent) (n : Nat) :
    s.delayAfter n ≤ min ⌊s.compound percent n⌋₊ s.bound ∧
    ((∀ m, m < n → ∃ millis : Nat, s.compound percent m = millis) →
      s.delayAfter n = min ⌊s.compound percent n⌋₊ s.bound) ∧
    min (s.compound percent n) s.bound - s.delayAfter n ≤
      ∑ i ∈ Finset.range (n - 1), (1 + (percent.toNat : ℚ) / 100) ^ i ∧
    (s.baseDelay.toNat * percent.toNat < 100 →
      s.delayAfter n = min s.baseDelay.toNat s.bound) := by
  have hle := unbounded_le_compound hbackoff n
  rw [delayAfter_eq_min]
  refine ⟨?_, ?_, ?_, ?_⟩
  · exact min_le_min_right _ (Nat.le_floor hle)
  · intro hwhole
    rw [unbounded_eq_floor hbackoff n hwhole]
  · have hcut : min (s.compound percent n) s.bound - min (s.unbounded n : ℚ) s.bound ≤
        s.compound percent n - s.unbounded n := by
      rcases le_total (s.compound percent n) s.bound with hwithin | hbeyond
      · rw [min_eq_left hwithin, min_eq_left (hle.trans hwithin)]
      · rw [min_eq_right hbeyond]
        rcases le_total (s.unbounded n : ℚ) s.bound with hbelow | habove
        · rw [min_eq_left hbelow]
          exact sub_le_sub_right hbeyond _
        · rw [min_eq_right habove, sub_self]
          exact sub_nonneg.mpr hle
    rw [Nat.cast_min]
    exact hcut.trans (compound_sub_unbounded_le hbackoff n)
  · intro hsmall
    rw [unbounded_eq_baseDelay hbackoff hsmall]

/-- A second that grows by a fifth twice. -/
theorem scaled_delays_lag_fifth :
    (scaled 5 1000 20).delayAfter 3 = min ⌊(scaled 5 1000 20).compound 20 3⌋₊ maxWord ∧
      (scaled 5 1000 20).delayAfter 3 = 1440 := by
  obtain ⟨-, hexact, -⟩ := scaled_delays_lag (s := scaled 5 1000 20) rfl 3
  have hwhole : ∀ m, m < 3 → ∃ millis : Nat, (scaled 5 1000 20).compound 20 m = millis := by
    intro m hm
    interval_cases m
    · exact ⟨1000, by simp [compound, scaled]⟩
    · exact ⟨1000, by simp [compound, scaled]⟩
    · refine ⟨1200, ?_⟩
      change ((1000 : Nat) : ℚ) * (1 + ((20 : Nat) : ℚ) / 100) ^ 1 = (1200 : Nat)
      norm_num
  exact ⟨hexact hwhole, by decide⟩

/-- A millisecond that is to grow by half stays a millisecond, where compound growth gives two and a
quarter in the end. -/
theorem scaled_delay_loses_growth :
    (scaled 5 1 50).compound 50 3 = 9 / 4 ∧
      (scaled 5 1 50).delayAfter 3 ≠ min ⌊(scaled 5 1 50).compound 50 3⌋₊ maxWord := by
  have hcompound : (scaled 5 1 50).compound 50 3 = 9 / 4 := by
    change ((1 : Nat) : ℚ) * (1 + ((50 : Nat) : ℚ) / 100) ^ 2 = 9 / 4
    norm_num
  have hfloor : ⌊(9 / 4 : ℚ)⌋₊ = 2 := by norm_num
  refine ⟨hcompound, ?_⟩
  rw [hcompound, hfloor]
  decide

end Scaled

end Schedule

end Enrolment
