import Enrolment.Retry.Timeline

/-!
When a watch looks, and what comes of it. The looks of a watch are separated by the delays of its
schedule, and it ends with the first look that sees what it waits for or with the last one that the
schedule allows. The flag ends it at once while it waits, and after the look while it looks.
-/

namespace Enrolment

variable {β : Type}

namespace Timed

/-- A look by number that takes some time and sees something. -/
def look (takes : Nat → Nat) (sees : Nat → Look β) (number : Nat) : Timed (Look β) := fun t =>
  (sees number, { t with looks := (number, t.now) :: t.looks }.moveTo (t.now + takes number))

theorem bind_apply {γ : Type} (x : Timed β) (f : β → Timed γ) (t : Timeline) :
    (x >>= f) t = f (x t).1 (x t).2 := rfl

theorem isCancelled_apply (t : Timeline) : (isCancelled : Timed Bool) t = (t.isSet, t) := rfl

theorem pause_apply (millis : Nat) (t : Timeline) :
    (pause millis : Timed Bool) t = t.wait millis := rfl

end Timed

namespace Schedule

variable {s : Schedule} {takes : Nat → Nat} {sees : Nat → Look β} {start c k n : Nat}
  {t : Timeline} {outcome : WatchOutcome β}

/-- The instant at which the look of some number starts, if the first one starts at a given instant and
every other one a delay after the end of the one before. -/
def lookAt (s : Schedule) (takes : Nat → Nat) (start : Nat) : Nat → Nat
  | 0 => start
  | 1 => start
  | n + 2 => s.lookAt takes start (n + 1) + takes (n + 1) + s.delayAfter (n + 1)

/-- The instant at which the look of some number ends. -/
def seenAt (s : Schedule) (takes : Nat → Nat) (start n : Nat) : Nat :=
  s.lookAt takes start n + takes n

/-- The numbers of the first looks and the instants at which they start, newest first. -/
def looksTo (s : Schedule) (takes : Nat → Nat) (start : Nat) : Nat → List (Nat × Nat)
  | 0 => []
  | n + 1 => (n + 1, s.lookAt takes start (n + 1)) :: s.looksTo takes start n

/-- A timeline at a later instant, after some looks were made since its own. -/
def reached (s : Schedule) (takes : Nat → Nat) (t : Timeline) (instant n : Nat) : Timeline :=
  { t with now := instant, looks := s.looksTo takes t.now n ++ t.looks }

/-- How a watch ends that is not called off, and with which look: with the first that sees something, or
with the last that the schedule allows. -/
inductive Concludes (s : Schedule) (sees : Nat → Look β) : Nat → WatchOutcome β → Prop where
  | seen {k : Nat} {v : β} (hpositive : 1 ≤ k) (hallowed : k ≤ s.attempts.toNat)
      (hbefore : ∀ n, 1 ≤ n → n < k → sees n = .pending) (hready : sees k = .ready v) :
      Concludes s sees k (.completed v)
  | inVain (hnone : ∀ n, 1 ≤ n → n ≤ s.attempts.toNat → sees n = .pending) :
      Concludes s sees s.attempts.toNat (.timedOut s.attempts.toNat)

/-- Where a watch stands when the flag is set, by the looks that were started, and when it ends then. -/
inductive CutAt (s : Schedule) (takes : Nat → Nat) (start c : Nat) : Nat → Nat → Prop where
  | looking {j : Nat} (hstarted : s.lookAt takes start j < c) (hunseen : c < s.seenAt takes start j) :
      CutAt s takes start c j (s.seenAt takes start j)
  | waiting {j : Nat} (hseen : s.seenAt takes start j < c)
      (hunstarted : c < s.lookAt takes start (j + 1)) : CutAt s takes start c j c

theorem lookAt_add_two : s.lookAt takes start (n + 2) =
    s.seenAt takes start (n + 1) + s.delayAfter (n + 1) := rfl

theorem seenAt_le_lookAt_succ (hpositive : 1 ≤ n) :
    s.seenAt takes start n ≤ s.lookAt takes start (n + 1) := by
  obtain ⟨m, rfl⟩ := Nat.exists_eq_add_of_le' hpositive
  exact Nat.le_add_right _ _

theorem lookAt_mono {m : Nat} (h : m ≤ n) : s.lookAt takes start m ≤ s.lookAt takes start n := by
  induction n with
  | zero =>
    obtain rfl := Nat.le_zero.mp h
    exact Nat.le_refl _
  | succ n ih =>
    rcases Nat.le_succ_iff.mp h with hle | rfl
    · cases n with
      | zero => exact ih hle
      | succ n =>
        have hstep := @seenAt_le_lookAt_succ s takes start (n + 1) (by omega)
        exact Nat.le_trans (ih hle) (Nat.le_trans (Nat.le_add_right _ _) hstep)
    · exact Nat.le_refl _

theorem lt_of_mem_looksTo {look : Nat × Nat} (hmem : look ∈ s.looksTo takes start n)
    (h : s.lookAt takes start n < c) : look.2 < c := by
  induction n with
  | zero => cases hmem
  | succ n ih =>
    rcases List.mem_cons.mp hmem with rfl | hrest
    · exact h
    · exact ih hrest (Nat.lt_of_le_of_lt (lookAt_mono (Nat.le_succ n)) h)

theorem delaysFrom_succ (count n : Nat) :
    s.delaysFrom (count + 1) n = s.delaysFrom count n + s.delayAfter (n + count) := by
  induction count generalizing n with
  | zero => simp [delaysFrom]
  | succ count ih =>
    have hnumber : n + 1 + count = n + (count + 1) := by omega
    rw [delaysFrom, ih, delaysFrom, hnumber, Nat.add_assoc]

/-- Looks that take no time are separated by the delays alone. -/
theorem lookAt_of_instant (hinstant : ∀ n, takes n = 0) (n : Nat) :
    s.lookAt takes start (n + 1) = start + s.delaysFrom n 1 := by
  induction n with
  | zero => rfl
  | succ n ih =>
    rw [lookAt_add_two, seenAt, hinstant, ih, delaysFrom_succ, Nat.add_zero, Nat.add_assoc,
      Nat.add_comm 1 n]

section Concluding

theorem Concludes.pos (h : s.Concludes sees k outcome) (hattempts : 1 ≤ s.attempts.toNat) : 1 ≤ k := by
  cases h with
  | seen hpositive => exact hpositive
  | inVain => exact hattempts

theorem Concludes.le_attempts (h : s.Concludes sees k outcome) : k ≤ s.attempts.toNat := by
  cases h with
  | seen _ hallowed => exact hallowed
  | inVain => exact Nat.le_refl _

/-- The looks before the one that a watch ends with see nothing. -/
theorem Concludes.pending (h : s.Concludes sees k outcome) (hpositive : 1 ≤ n) (hlt : n < k) :
    sees n = .pending := by
  cases h with
  | seen _ _ hbefore => exact hbefore n hpositive hlt
  | inVain hnone => exact hnone n hpositive (Nat.le_of_lt hlt)

theorem Concludes.last (h : s.Concludes sees k outcome) (hattempts : 1 ≤ s.attempts.toNat) :
    (∃ v, sees k = .ready v ∧ outcome = .completed v) ∨
      sees k = .pending ∧ k = s.attempts.toNat ∧ outcome = .timedOut s.attempts.toNat := by
  cases h with
  | seen _ _ _ hready => exact .inl ⟨_, hready, rfl⟩
  | inVain hnone => exact .inr ⟨hnone _ hattempts (Nat.le_refl _), rfl, rfl⟩

/-- A watch that is not called off ends in some way. -/
theorem exists_concludes (s : Schedule) (sees : Nat → Look β) :
    ∃ k outcome, s.Concludes sees k outcome := by
  have hupTo (count : Nat) (hcount : count ≤ s.attempts.toNat) :
      (∀ n, 1 ≤ n → n ≤ count → sees n = .pending) ∨ ∃ k outcome, s.Concludes sees k outcome := by
    induction count with
    | zero =>
      left
      intro n hpositive hle
      omega
    | succ count ih =>
      rcases ih (Nat.le_of_succ_le hcount) with hpending | hfound
      · cases hnext : sees (count + 1) with
        | ready v =>
          exact .inr ⟨count + 1, _, .seen (by omega) hcount
            (fun n hpositive hlt => hpending n hpositive (Nat.le_of_lt_succ hlt)) hnext⟩
        | pending =>
          left
          intro n hpositive hle
          rcases Nat.le_succ_iff.mp hle with hbefore | rfl
          · exact hpending n hpositive hbefore
          · exact hnext
      · exact .inr hfound
  rcases hupTo s.attempts.toNat (Nat.le_refl _) with hnone | hfound
  · exact ⟨_, _, .inVain hnone⟩
  · exact hfound

end Concluding

end Schedule

section Stepping

variable {s : Schedule} {takes : Nat → Nat} {sees : Nat → Look β} {look : Nat → Timed (Look β)}
  {t t' : Timeline} {number left instant : Nat} {saw : Look β}

theorem Timeline.moveTo_of_le (h : ∀ c ∈ t.setAt, instant ≤ c) :
    t.moveTo instant = { t with now := instant } := by
  unfold moveTo
  split
  next due hdue => rw [if_neg (Nat.not_lt.mpr (h due hdue))]
  next => rfl

/-- A timeline whose flag was set from outside. -/
def Timeline.cut (t : Timeline) : Timeline := { t with isSet := true, setAt := none }

theorem Timeline.moveTo_of_lt {c : Nat} (hdue : t.setAt = some c) (h : c < instant) :
    t.moveTo instant = { t with now := instant }.cut := by
  unfold moveTo
  rw [hdue]
  exact if_pos h

/-- A delay that nothing cuts short passes. -/
theorem Timeline.wait_of_le {millis : Nat} (hset : t.isSet = false) (hexact : millis ≤ longestTimer)
    (h : ∀ c ∈ t.setAt, t.now + millis ≤ c) :
    t.wait millis = (false, { t with now := t.now + millis }) := by
  have hlater := moveTo_of_le h
  unfold wait
  rw [if_neg (by simp [hset]), timerRun_of_le hexact, hlater]
  split
  next due hdue => rw [if_neg (Nat.not_lt.mpr (h due hdue))]
  next => rfl

/-- A delay that the flag cuts short ends when the flag is set. -/
theorem Timeline.wait_of_lt {millis c : Nat} (hset : t.isSet = false) (hexact : millis ≤ longestTimer)
    (hdue : t.setAt = some c) (hafter : t.now ≤ c) (h : c < t.now + millis) :
    t.wait millis = (true, { t with now := c }.cut) := by
  unfold wait
  rw [if_neg (by simp [hset]), timerRun_of_le hexact, hdue]
  dsimp only
  rw [if_pos h, Nat.max_eq_right hafter]
  rfl

/-- A watch that finds the flag set is over. -/
theorem watchFrom_of_isSet (hset : t.isSet = true) :
    watchFrom s look number (left + 1) t = (none, t) := by
  change (if t.isSet = true then _ else _ : Timed _) t = _
  rw [if_pos hset]
  rfl

/-- A watch makes its next look first. -/
theorem watchFrom_of_look (hset : t.isSet = false) (hlook : look number t = (saw, t')) :
    watchFrom s look number (left + 1) t =
      if t'.isSet then (none, t')
      else match saw with
        | .ready v => (some (.completed v), t')
        | .pending =>
          if left = 0 then (some (.timedOut s.attempts.toNat), t')
          else
            let (cut, t) := t'.wait (s.delayAfter number)
            if cut then (none, t) else watchFrom s look (number + 1) left t := by
  rw [watchFrom, Timed.bind_apply, Timed.isCancelled_apply, if_neg (by simp [hset]),
    Timed.bind_apply, hlook, Timed.bind_apply, Timed.isCancelled_apply]
  dsimp only
  split
  · rfl
  cases saw with
  | ready v => rfl
  | pending =>
    dsimp only
    split
    · rfl
    rw [Timed.bind_apply, Timed.pause_apply]
    split
    · rfl
    · rfl

end Stepping

namespace Schedule

variable {s : Schedule} {takes : Nat → Nat} {sees : Nat → Look β}
  {c k n left instant later millis : Nat} {t : Timeline} {outcome : WatchOutcome β}

section Moving

theorem isSet_reached : (s.reached takes t instant n).isSet = t.isSet := rfl

theorem moveTo_reached (h : ∀ c ∈ t.setAt, later ≤ c) :
    (s.reached takes t instant n).moveTo later = s.reached takes t later n :=
  Timeline.moveTo_of_le (t := s.reached takes t instant n) h

theorem moveTo_reached_of_lt (hdue : t.setAt = some c) (h : c < later) :
    (s.reached takes t instant n).moveTo later = (s.reached takes t later n).cut :=
  Timeline.moveTo_of_lt (t := s.reached takes t instant n) hdue h

theorem wait_reached (hset : t.isSet = false) (hexact : millis ≤ longestTimer)
    (h : ∀ c ∈ t.setAt, instant + millis ≤ c) :
    (s.reached takes t instant n).wait millis = (false, s.reached takes t (instant + millis) n) :=
  Timeline.wait_of_le (t := s.reached takes t instant n) hset hexact h

theorem wait_reached_of_lt (hset : t.isSet = false) (hexact : millis ≤ longestTimer)
    (hdue : t.setAt = some c) (hafter : instant ≤ c) (h : c < instant + millis) :
    (s.reached takes t instant n).wait millis = (true, (s.reached takes t c n).cut) :=
  Timeline.wait_of_lt (t := s.reached takes t instant n) hset hexact hdue hafter h

/-- A look that ends before the flag is set. -/
theorem look_reached (hseen : ∀ c ∈ t.setAt, s.seenAt takes t.now (n + 1) ≤ c) :
    Timed.look takes sees (n + 1) (s.reached takes t (s.lookAt takes t.now (n + 1)) n) =
      (sees (n + 1), s.reached takes t (s.seenAt takes t.now (n + 1)) (n + 1)) := by
  change (sees (n + 1), (s.reached takes t (s.lookAt takes t.now (n + 1)) (n + 1)).moveTo
    (s.seenAt takes t.now (n + 1))) = _
  rw [moveTo_reached hseen]

/-- A look during which the flag is set. -/
theorem look_reached_of_lt (hdue : t.setAt = some c) (h : c < s.seenAt takes t.now (n + 1)) :
    Timed.look takes sees (n + 1) (s.reached takes t (s.lookAt takes t.now (n + 1)) n) =
      (sees (n + 1), (s.reached takes t (s.seenAt takes t.now (n + 1)) (n + 1)).cut) := by
  change (sees (n + 1), (s.reached takes t (s.lookAt takes t.now (n + 1)) (n + 1)).moveTo
    (s.seenAt takes t.now (n + 1))) = _
  rw [moveTo_reached_of_lt hdue h]

end Moving

section Looking

variable (hset : t.isSet = false)
include hset

/-- A watch ends with the look that concludes it. -/
theorem watchFrom_last (h : s.Concludes sees (n + 1) outcome)
    (hleft : n + (left + 1) = s.attempts.toNat)
    (hseen : ∀ c ∈ t.setAt, s.seenAt takes t.now (n + 1) ≤ c) :
    watchFrom s (Timed.look takes sees) (n + 1) (left + 1)
        (s.reached takes t (s.lookAt takes t.now (n + 1)) n) =
      (some outcome, s.reached takes t (s.seenAt takes t.now (n + 1)) (n + 1)) := by
  rw [watchFrom_of_look (isSet_reached.trans hset) (look_reached hseen),
    if_neg (by simp [isSet_reached, hset])]
  rcases h.last (by omega) with ⟨v, hready, rfl⟩ | ⟨hpending, hlast, rfl⟩
  · rw [hready]
  · rw [hpending]
    dsimp only
    rw [if_pos (by omega)]

/-- A watch ends with the look that it makes while the flag is set. -/
theorem watchFrom_looking (hdue : t.setAt = some c) (h : c < s.seenAt takes t.now (n + 1)) :
    watchFrom s (Timed.look takes sees) (n + 1) (left + 1)
        (s.reached takes t (s.lookAt takes t.now (n + 1)) n) =
      (none, (s.reached takes t (s.seenAt takes t.now (n + 1)) (n + 1)).cut) := by
  rw [watchFrom_of_look (isSet_reached.trans hset) (look_reached_of_lt hdue h)]
  rfl

variable (hpending : sees (n + 1) = .pending) (hmore : left ≠ 0)
  (hexact : s.delayAfter (n + 1) ≤ longestTimer)
include hpending hmore hexact

/-- After a look in vain a watch goes on with the next one, a delay later. -/
theorem watchFrom_next (hlater : ∀ c ∈ t.setAt, s.lookAt takes t.now (n + 2) ≤ c) :
    watchFrom s (Timed.look takes sees) (n + 1) (left + 1)
        (s.reached takes t (s.lookAt takes t.now (n + 1)) n) =
      watchFrom s (Timed.look takes sees) (n + 2) left
        (s.reached takes t (s.lookAt takes t.now (n + 2)) (n + 1)) := by
  have hseen (c : Nat) (hc : c ∈ t.setAt) : s.seenAt takes t.now (n + 1) ≤ c :=
    Nat.le_trans (seenAt_le_lookAt_succ (Nat.succ_pos n)) (hlater c hc)
  have hwait := @wait_reached s takes (n + 1) (s.seenAt takes t.now (n + 1)) _ t hset hexact hlater
  rw [watchFrom_of_look (isSet_reached.trans hset) (look_reached hseen),
    if_neg (by simp [isSet_reached, hset]), hpending]
  dsimp only
  rw [if_neg hmore, hwait]
  rfl

/-- A watch ends where the flag is set during a delay. -/
theorem watchFrom_waiting (hdue : t.setAt = some c) (hseen : s.seenAt takes t.now (n + 1) ≤ c)
    (h : c < s.lookAt takes t.now (n + 2)) :
    watchFrom s (Timed.look takes sees) (n + 1) (left + 1)
        (s.reached takes t (s.lookAt takes t.now (n + 1)) n) =
      (none, (s.reached takes t c (n + 1)).cut) := by
  have hbefore (c' : Nat) (hc' : c' ∈ t.setAt) : s.seenAt takes t.now (n + 1) ≤ c' := by
    obtain rfl : c = c' := Option.some.inj (hdue.symm.trans hc')
    exact hseen
  rw [watchFrom_of_look (isSet_reached.trans hset) (look_reached hbefore),
    if_neg (by simp [isSet_reached, hset]), hpending]
  dsimp only
  rw [if_neg hmore, wait_reached_of_lt hset hexact hdue hseen h]
  rfl

end Looking

section Watching

variable (hexact : ∀ n, 1 ≤ n → n < s.attempts.toNat → s.delayAfter n ≤ longestTimer)
  (hset : t.isSet = false) (h : s.Concludes sees k outcome)
include hexact hset h

/-- From one look to the next, a watch that is not called off in time goes on to its conclusion. -/
theorem watchFrom_undisturbed (hlate : ∀ c ∈ t.setAt, s.seenAt takes t.now k < c)
    (hleft : n + left = s.attempts.toNat) (hopen : n < k) :
    watchFrom s (Timed.look takes sees) (n + 1) left
        (s.reached takes t (s.lookAt takes t.now (n + 1)) n) =
      (some outcome, s.reached takes t (s.seenAt takes t.now k) k) := by
  have hallowed := h.le_attempts
  induction left generalizing n with
  | zero => omega
  | succ left ih =>
    rcases Nat.lt_or_ge (n + 1) k with hmore | hge
    · have hlater : s.lookAt takes t.now (n + 2) ≤ s.seenAt takes t.now k :=
        Nat.le_trans (lookAt_mono hmore) (Nat.le_add_right _ _)
      rw [watchFrom_next hset (h.pending (by omega) hmore) (by omega)
        (hexact (n + 1) (by omega) (by omega))
        fun c hc => Nat.le_of_lt (Nat.lt_of_le_of_lt hlater (hlate c hc))]
      exact ih (by omega) hmore
    · obtain rfl : n + 1 = k := by omega
      exact watchFrom_last hset h hleft fun c hc => Nat.le_of_lt (hlate c hc)

/-- From one look to the next, a watch that is called off in time ends where the flag finds it. -/
theorem watchFrom_cut (hdue : t.setAt = some c)
    (hapart : ∀ n, 1 ≤ n → n ≤ k → c ≠ s.lookAt takes t.now n ∧ c ≠ s.seenAt takes t.now n)
    (hbefore : c < s.seenAt takes t.now k) (hleft : n + left = s.attempts.toNat) (hopen : n < k)
    (hstarted : s.lookAt takes t.now (n + 1) < c) :
    ∃ j stop, s.CutAt takes t.now c j stop ∧ j ≤ k ∧ s.lookAt takes t.now j < c ∧
      watchFrom s (Timed.look takes sees) (n + 1) left
          (s.reached takes t (s.lookAt takes t.now (n + 1)) n) =
        (none, (s.reached takes t stop j).cut) := by
  have hallowed := h.le_attempts
  induction left generalizing n with
  | zero => omega
  | succ left ih =>
    rcases Nat.lt_or_ge c (s.seenAt takes t.now (n + 1)) with hunder | hover
    · exact ⟨n + 1, _, .looking hstarted hunder, hopen, hstarted, watchFrom_looking hset hdue hunder⟩
    have hseen : s.seenAt takes t.now (n + 1) < c :=
      Nat.lt_of_le_of_ne hover (hapart (n + 1) (by omega) hopen).2.symm
    have hmore : n + 1 < k := by
      refine Nat.lt_of_le_of_ne hopen ?_
      rintro rfl
      omega
    have hpending : sees (n + 1) = .pending := h.pending (by omega) hmore
    have hdelay : s.delayAfter (n + 1) ≤ longestTimer := hexact (n + 1) (by omega) (by omega)
    rcases Nat.lt_or_ge c (s.lookAt takes t.now (n + 2)) with hunstarted | hnext
    · exact ⟨n + 1, c, .waiting hseen hunstarted, hopen, hstarted,
        watchFrom_waiting hset hpending (by omega) hdelay hdue hover hunstarted⟩
    · have hlater (c' : Nat) (hc' : c' ∈ t.setAt) : s.lookAt takes t.now (n + 2) ≤ c' := by
        obtain rfl : c = c' := Option.some.inj (hdue.symm.trans hc')
        exact hnext
      rw [watchFrom_next hset hpending (by omega) hdelay hlater]
      exact ih (by omega) hmore (Nat.lt_of_le_of_ne hnext (hapart (n + 2) (by omega) hmore).1.symm)

end Watching

/-- With looks that take no time, the last one ends when all delays have passed. -/
theorem seenAt_attempts_of_instant {start total : Nat} (hattempts : 1 ≤ s.attempts.toNat)
    (hinstant : ∀ n, takes n = 0) (htotal : s.totalDelay? = some total) :
    s.seenAt takes start s.attempts.toNat = start + total := by
  obtain ⟨m, hm⟩ := Nat.exists_eq_add_of_le' hattempts
  unfold totalDelay? at htotal
  dsimp only at htotal
  split at htotal
  · obtain rfl := Option.some.inj htotal
    rw [seenAt, hinstant, hm, lookAt_of_instant hinstant, Nat.add_sub_cancel, Nat.add_zero]
  · cases htotal

/-- What a watch does and when, on timers that run as long as they are set to. If the flag is set before,
nothing is looked for. Otherwise the looks are numbered from one, the first starts at once and each other
one a delay after the end of the one before, and the watch ends when the first look ends that sees
something, or the last that is allowed. If the looks take no time, all of them in vain take as long as
all delays. A flag that is set after the end comes too late. One that is set before leaves the watch
without an outcome: no look starts after that, and the watch ends at that instant or with the look that
is under way. -/
theorem watch_keeps_time (hattempts : s.attempts ≠ 0)
    (hexact : ∀ n, 1 ≤ n → n < s.attempts.toNat → s.delayAfter n ≤ longestTimer)
    (takes : Nat → Nat) (sees : Nat → Look β) (t : Timeline) :
    (t.isSet = true → watch s (Timed.look takes sees) t = (none, t)) ∧
    (∃ k outcome, s.Concludes sees k outcome) ∧
    (∀ k outcome, s.Concludes sees k outcome → t.isSet = false →
      ((∀ c ∈ t.setAt, s.seenAt takes t.now k < c) →
        watch s (Timed.look takes sees) t =
          (some outcome, s.reached takes t (s.seenAt takes t.now k) k)) ∧
      ∀ c, t.setAt = some c → t.now < c → c < s.seenAt takes t.now k →
        (∀ n, 1 ≤ n → n ≤ k → c ≠ s.lookAt takes t.now n ∧ c ≠ s.seenAt takes t.now n) →
          ∃ j stop, s.CutAt takes t.now c j stop ∧ j ≤ k ∧
            (∀ look ∈ s.looksTo takes t.now j, look.2 < c) ∧
            watch s (Timed.look takes sees) t = (none, (s.reached takes t stop j).cut)) ∧
    ((∀ n, takes n = 0) → ∀ total, s.totalDelay? = some total →
      s.seenAt takes t.now s.attempts.toNat = t.now + total) := by
  have hpositive : 1 ≤ s.attempts.toNat := by
    refine Nat.pos_of_ne_zero fun hzero => hattempts ?_
    exact UInt32.toNat_inj.mp hzero
  refine ⟨?_, s.exists_concludes sees, ?_, fun hinstant total htotal =>
    seenAt_attempts_of_instant hpositive hinstant htotal⟩
  · intro hset
    obtain ⟨m, hm⟩ := Nat.exists_eq_add_of_le' hpositive
    unfold watch
    rw [hm]
    exact watchFrom_of_isSet hset
  intro k outcome h hset
  have hopen : 0 < k := h.pos hpositive
  refine ⟨fun hlate => watchFrom_undisturbed hexact hset h hlate (Nat.zero_add _) hopen, ?_⟩
  intro c hdue hafter hbefore hapart
  obtain ⟨j, stop, hcut, hle, hstarted, hwatch⟩ :=
    watchFrom_cut hexact hset h hdue hapart hbefore (Nat.zero_add _) hopen hafter
  exact ⟨j, stop, hcut, hle, fun look hmem => lt_of_mem_looksTo hmem hstarted, hwatch⟩

end Schedule

namespace Round

/-- How long the looks of a round take. -/
def takes (r : Round β) (number : Nat) : Nat :=
  (r.looks[number - 1]?).elim 0 fun look => timerRun look.takes

/-- What the looks of a round see. -/
def sees (r : Round β) (number : Nat) : Look β :=
  match (r.looks[number - 1]?).bind PreparedLook.value with
  | some value => .ready value
  | none => .pending

/-- The looks of a round take their time and see what they see, if they leave the flag alone. -/
theorem look_eq {r : Round β} (hflags : ∀ look ∈ r.looks, look.setsFlag = false) :
    r.look = Timed.look r.takes r.sees := by
  have hmake (look : PreparedLook β) (hflag : look.setsFlag = false) (number : Nat) (t : Timeline) :
      look.make number t = Timed.look (fun _ => timerRun look.takes)
        (fun _ => match look.value with
          | some value => .ready value
          | none => .pending) number t := by
    unfold PreparedLook.make
    rw [hflag]
    rfl
  funext number t
  unfold look Timed.look takes sees
  cases hlook : r.looks[number - 1]? with
  | none => rfl
  | some look => exact hmake look (hflags look (List.mem_of_getElem? hlook)) number t

/-- A round of three looks in vain. -/
def vain : Round Unit := ⟨none, List.replicate 3 ⟨20, false, none⟩, none⟩

end Round

/-- Three looks in vain, of which each takes a fifth of the delay: left alone they take what they take
and two delays, and the flag ends them in the second delay. -/
theorem Schedule.watch_keeps_time_linear :
    watch (.linear 3 100) Round.vain.look .start =
        (some (.timedOut 3), ⟨260, false, none, [(3, 240), (2, 120), (1, 0)]⟩) ∧
      ∃ j stop, (linear 3 100).CutAt Round.vain.takes 0 150 j stop ∧ j ≤ 3 ∧
        watch (.linear 3 100) Round.vain.look { Timeline.start with setAt := some 150 } =
          (none, ((linear 3 100).reached Round.vain.takes
            { Timeline.start with setAt := some 150 } stop j).cut) := by
  have hattempts : (linear 3 100).attempts ≠ 0 := by decide
  have hexact (n : Nat) (hpositive : 1 ≤ n) (hlt : n < 3) :
      (linear 3 100).delayAfter n ≤ longestTimer := by
    obtain rfl | rfl : n = 1 ∨ n = 2 := by omega
    · decide
    · decide
  have hvain : (linear 3 100).Concludes Round.vain.sees 3 (.timedOut 3) := by
    refine .inVain fun n hpositive hle => ?_
    obtain rfl | rfl | rfl : n = 1 ∨ n = 2 ∨ n = 3 := by
      have hle : n ≤ 3 := hle
      omega
    · rfl
    · rfl
    · rfl
  have hapart (n : Nat) (hpositive : 1 ≤ n) (hle : n ≤ 3) :
      150 ≠ (linear 3 100).lookAt Round.vain.takes 0 n ∧
        150 ≠ (linear 3 100).seenAt Round.vain.takes 0 n := by
    obtain rfl | rfl | rfl : n = 1 ∨ n = 2 ∨ n = 3 := by omega
    · decide
    · decide
    · decide
  rw [Round.look_eq (by decide)]
  obtain ⟨-, -, hleft, -⟩ := watch_keeps_time hattempts hexact Round.vain.takes Round.vain.sees .start
  obtain ⟨-, -, hcalled, -⟩ := watch_keeps_time hattempts hexact Round.vain.takes Round.vain.sees
    { Timeline.start with setAt := some 150 }
  obtain ⟨j, stop, hcut, hle, -, hwatch⟩ := (hcalled 3 _ hvain rfl).2 150 rfl (by decide) (by decide)
    hapart
  exact ⟨(hleft 3 _ hvain rfl).1 nofun, j, stop, hcut, hle, hwatch⟩

end Enrolment
