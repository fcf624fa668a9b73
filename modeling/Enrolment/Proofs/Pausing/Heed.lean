import Enrolment.Proofs.Flow.Run

/-!
Work under a flag that others change.

Some work heeds the flag if, however the flag changes and whatever is answered under it, the guard holds
at every request and the postcondition at the end, both read with the flag as it is then. Watching stops
with a timeout only while the flag is not set; submitting stops without a decision only after its last
attempt was refused, and it makes every attempt while the flag is not set.
-/

namespace Enrolment

/-- Requests that are waited for. All others are answered on the spot. -/
def Request.isWaitedFor : Request → Bool
  | .pause _ | .submit _ | .awaitDepth .. | .findIdentity _ | .findDocuments .. => true
  | .isCancelled | .clearFlag | .drawSalt _ | .time => false

/-- A request that may be made under a flag: nothing is submitted while it is set, and the flag is
not cleared. -/
def Request.IsHeeding (flag : Bool) : Request → Prop
  | .submit _ => flag = false
  | .clearFlag => False
  | _ => True

/-- From one log to another a transition was submitted some times in vain, for reasons that may clear
up. The last attempt, at the end, was begun while the flag was not set. -/
def Log.Exhausts (attempts : Nat) (start later : Log) : Prop :=
  ∃ es t reason,
    later = start ++ es ++ [⟨.isCancelled, false⟩, ⟨.submit t, .error (.transient reason)⟩] ∧
      Log.submitted es ++ [t] = List.replicate attempts t ∧ Log.accepted es = []

/-- Nothing but the time was asked for since a submission ran out of attempts. -/
def Log.Lapses (attempts : Nat) (log : Log) : Prop :=
  ∃ start later es, Log.Exhausts attempts start later ∧ log = later ++ es ∧
    ∀ e ∈ es, e.request = .time

theorem Log.Exhausts.lapses {attempts : Nat} {start later : Log}
    (h : Log.Exhausts attempts start later) : later.Lapses attempts :=
  ⟨start, later, [], h, by simp, by simp⟩

theorem Log.Lapses.time {attempts : Nat} {log : Log} (h : log.Lapses attempts) (now : Timestamp) :
    Log.Lapses attempts (log ++ [⟨.time, now⟩]) := by
  obtain ⟨start, later, es, hexhausts, rfl, hes⟩ := h
  refine ⟨start, later, es ++ [⟨.time, now⟩], hexhausts, by simp, ?_⟩
  intro e he
  rcases List.mem_append.mp he with hold | hnew
  · exact hes e hold
  · obtain rfl := List.mem_singleton.mp hnew
    rfl

namespace Task

variable {σ τ α β : Type}

/-- What some work can become, under which flag and over which exchanges. Others change the flag while a
request is waited for. -/
inductive Passes : Bool → Task σ α → Log → Bool → Task σ α → Prop where
  | here (flag : Bool) (t : Task σ α) : Passes flag t [] flag t
  | changed {flag last : Bool} {s : σ} {q : Request} {next : q.Answer → Task σ α} {es : Log}
      {t : Task σ α} (new : Bool) (hwaited : q.isWaitedFor)
      (rest : Passes new (.ask s q next) es last t) : Passes flag (.ask s q next) es last t
  | answered {flag last : Bool} {s : σ} {q : Request} {next : q.Answer → Task σ α} {es : Log}
      {t : Task σ α} (answer : q.Answer) (hadmits : q.Admits flag answer)
      (rest : Passes (q.flagAfter flag) (next answer) es last t) :
      Passes flag (.ask s q next) (⟨q, answer⟩ :: es) last t

/-- The guard holds at every request of some work and the postcondition at its end, whatever is
answered and however the flag changes at requests that let it. -/
def Heeds (alters : Request → Prop) (guard : Bool → Log → σ → Request → Prop)
    (post : Bool → Log → σ → α → Prop) : Bool → Log → Task σ α → Prop
  | flag, log, .done state result => post flag log state result
  | flag, log, .ask state q next =>
    guard flag log state q ∧ ∀ new answer, (new ≠ flag → alters q) → q.Admits new answer →
      (next answer).Heeds alters guard post (q.flagAfter new) (log ++ [⟨q, answer⟩])

variable {alters : Request → Prop} {guard : Bool → Log → σ → Request → Prop}
  {post post' : Bool → Log → σ → α → Prop} {flag last : Bool} {log es : Log}

theorem Heeds.weaken {guard' : Bool → Log → σ → Request → Prop} {t : Task σ α}
    (h : t.Heeds alters guard post flag log)
    (hguard : ∀ flag log s q, guard flag log s q → guard' flag log s q)
    (hpost : ∀ flag log s a, post flag log s a → post' flag log s a) :
    t.Heeds alters guard' post' flag log := by
  induction t generalizing flag log with
  | done s a => exact hpost _ _ _ _ h
  | ask s q next ih =>
    refine ⟨hguard _ _ _ _ h.1, ?_⟩
    intro new answer hnew hadmits
    exact ih answer (h.2 new answer hnew hadmits)

/-- What holds at the end of the first work is what the second may start from. -/
theorem Heeds.bind {t : Task σ α} {f : α → σ → Task σ β} {post' : Bool → Log → σ → β → Prop}
    (h : t.Heeds alters guard post flag log)
    (hf : ∀ flag log s a, post flag log s a → (f a s).Heeds alters guard post' flag log) :
    (t.bind f).Heeds alters guard post' flag log := by
  induction t generalizing flag log with
  | done s a => exact hf _ _ _ _ h
  | ask s q next ih =>
    refine ⟨h.1, ?_⟩
    intro new answer hnew hadmits
    exact ih answer (h.2 new answer hnew hadmits)

/-- Work on a part of a state heeds the flag as the part does, read off the larger state. -/
theorem Heeds.within {put : σ → τ} {guard : Bool → Log → τ → Request → Prop}
    {post : Bool → Log → τ → α → Prop} {t : Task σ α}
    (h : t.Heeds alters (fun flag log s q => guard flag log (put s) q)
      (fun flag log s a => post flag log (put s) a) flag log) :
    (t.within put).Heeds alters guard post flag log := by
  induction t generalizing flag log with
  | done s a => exact h
  | ask s q next ih =>
    refine ⟨h.1, ?_⟩
    intro new answer hnew hadmits
    exact ih answer (h.2 new answer hnew hadmits)

/-- The guard and the postcondition of work that heeds the flag, read off where a run of it stands. -/
def Stands (guard : Bool → Log → σ → Request → Prop) (post : Bool → Log → σ → α → Prop) (flag : Bool)
    (log : Log) : Task σ α → Prop
  | .done state result => post flag log state result
  | .ask state q _ => ∃ before, guard before log state q

/-- At a request that is waited for, the flag may have changed since the request was made. -/
theorem Heeds.stands_since {before : Bool} {t t' : Task σ α}
    (h : t.Heeds (fun q => q.isWaitedFor) guard post before log) (hrun : Passes flag t es last t')
    (hflag : before = flag ∨ ∃ s q next, t = .ask s q next ∧ q.isWaitedFor) :
    t'.Stands guard post last (log ++ es) := by
  induction hrun generalizing before log with
  | here flag t =>
    rw [List.append_nil]
    cases t with
    | done s a =>
      rcases hflag with rfl | ⟨s', q, next, heq, -⟩
      · exact h
      · cases heq
    | ask s q next => exact ⟨before, h.1⟩
  | changed new hwaited _ ih => exact ih h (.inr ⟨_, _, _, rfl, hwaited⟩)
  | @answered flag _ s q next _ _ answer hadmits _ ih =>
    have hnew : flag ≠ before → q.isWaitedFor := by
      intro hne
      rcases hflag with rfl | ⟨s', q', next', heq, hwaited⟩
      · exact absurd rfl hne
      · cases heq
        exact hwaited
    have hrest := ih (h.2 flag answer hnew hadmits) (.inl rfl)
    rwa [List.append_assoc, List.singleton_append] at hrest

/-- A run of work that heeds the flag stands where it may stand. -/
theorem Heeds.stands {t t' : Task σ α} (h : t.Heeds (fun q => q.isWaitedFor) guard post flag log)
    (hrun : Passes flag t es last t') : t'.Stands guard post last (log ++ es) :=
  h.stands_since hrun (.inl rfl)

end Task

namespace Routine

variable {σ α β : Type} {alters : Request → Prop} {guard : Bool → Log → σ → Request → Prop}
  {post : Bool → Log → σ → β → Prop} {flag : Bool} {log : Log} {s : σ}

theorem heeds_get {k : σ → Routine σ β} (hk : (k s s).Heeds alters guard post flag log) :
    ((get >>= k) s).Heeds alters guard post flag log := hk

theorem heeds_modify {f : σ → σ} {k : PUnit → Routine σ β}
    (hk : (k ⟨⟩ (f s)).Heeds alters guard post flag log) :
    ((modify f >>= k) s).Heeds alters guard post flag log := hk

theorem heeds_ite {c : Prop} [Decidable c] {first second : Routine σ β}
    (hfirst : c → (first s).Heeds alters guard post flag log)
    (hsecond : ¬c → (second s).Heeds alters guard post flag log) :
    ((if c then first else second) s).Heeds alters guard post flag log := by
  split
  next h => exact hfirst h
  next h => exact hsecond h

theorem heeds_ask {q : Request} {k : q.Answer → Routine σ β} (hq : guard flag log s q)
    (hk : ∀ new a, (new ≠ flag → alters q) → q.Admits new a →
      (k a s).Heeds alters guard post (q.flagAfter new) (log ++ [⟨q, a⟩])) :
    ((ask q >>= k) s).Heeds alters guard post flag log := ⟨hq, hk⟩

/-- The flag is what is read of it. -/
theorem heeds_isCancelled {k : Bool → Routine σ β} (hq : guard flag log s .isCancelled)
    (hk : ∀ read, (k read s).Heeds alters guard post read (log ++ [⟨.isCancelled, read⟩])) :
    ((isCancelled >>= k) s).Heeds alters guard post flag log := by
  refine ⟨hq, ?_⟩
  rintro new read - rfl
  exact hk read

theorem heeds_pause {millis : Nat} {k : Bool → Routine σ β} (hq : guard flag log s (.pause millis))
    (hk : ∀ new cut, (k cut s).Heeds alters guard post new (log ++ [⟨.pause millis, cut⟩])) :
    ((pause millis >>= k) s).Heeds alters guard post flag log :=
  ⟨hq, fun new cut _ _ => hk new cut⟩

theorem heeds_bind {r : Routine σ α} {k : α → Routine σ β} {mid : Bool → Log → σ → α → Prop}
    (hr : (r s).Heeds alters guard mid flag log)
    (hk : ∀ flag log s a, mid flag log s a → (k a s).Heeds alters guard post flag log) :
    ((r >>= k) s).Heeds alters guard post flag log := Task.Heeds.bind hr hk

end Routine

section Loops

variable {σ β : Type} {alters : Request → Prop} {guard : Bool → Log → σ → Request → Prop} {s : σ}
  {flag : Bool} {log start : Log}

/-- A watch leaves the state alone, begins its looks while the flag is not set, and runs out of looks
only under a flag that is not set. -/
theorem heeds_watch {schedule : Schedule} {look : Nat → Routine σ (Look β)}
    (hattempts : schedule.attempts ≠ 0) (hflag : ∀ flag log, guard flag log s .isCancelled)
    (hpause : ∀ flag log millis, guard flag log s (.pause millis))
    (hlook : ∀ number log, (look number s).Heeds alters guard (fun _ _ s' _ => s' = s) false log) :
    (watch schedule look s).Heeds alters guard
      (fun flag _ s' ended => s' = s ∧ ∀ looks, ended = some (.timedOut looks) → flag = false)
      flag log := by
  have hfrom (left number : Nat) (flag : Bool) (log : Log) (hleft : left ≠ 0) :
      (watchFrom schedule look number left s).Heeds alters guard
        (fun flag _ s' ended => s' = s ∧ ∀ looks, ended = some (.timedOut looks) → flag = false)
        flag log := by
    induction left generalizing number flag log with
    | zero => exact absurd rfl hleft
    | succ left ih =>
      refine Routine.heeds_isCancelled (hflag flag log) fun before => ?_
      split
      · exact ⟨rfl, by simp⟩
      next hbefore =>
        obtain rfl : before = false := by simpa using hbefore
        refine Routine.heeds_bind (hlook number _) ?_
        rintro flag log s' saw rfl
        refine Routine.heeds_isCancelled (hflag flag log) fun after => ?_
        split
        · exact ⟨rfl, by simp⟩
        next hafter =>
          obtain rfl : after = false := by simpa using hafter
          cases saw with
          | ready v => exact ⟨rfl, by simp⟩
          | pending =>
            dsimp only
            split
            · exact ⟨rfl, fun _ _ => rfl⟩
            next hmore =>
              refine Routine.heeds_pause (hpause _ _ _) fun new cut => ?_
              split
              · exact ⟨rfl, by simp⟩
              · exact ih (number + 1) new _ hmore
  have hpositive : schedule.attempts.toNat ≠ 0 := by
    intro hzero
    exact hattempts (UInt32.toNat_inj.mp hzero)
  exact hfrom _ 1 flag log hpositive

/-- Submitting leaves the state alone and makes every attempt while the flag is not set. If it runs out
of attempts, each of them was refused, the last one at the end. -/
theorem heeds_submitUntilDecided {schedule : Schedule} {t : Transition}
    (hflag : ∀ flag log, guard flag log s .isCancelled)
    (hpause : ∀ flag log millis, guard flag log s (.pause millis))
    (hsubmit : ∀ log, guard false log s (.submit t)) :
    (submitUntilDecided schedule (Routine.ask (.submit t)) s).Heeds alters guard
      (fun _ later s' ended => s' = s ∧ ∀ attempts last, ended = .exhausted attempts last →
        schedule.attempts ≠ 0 → start.Exhausts schedule.attempts.toNat later) flag start := by
  have hfrom (left number done : Nat) (flag : Bool) (es : Log) (hleft : left ≠ 0)
      (htotal : done + left = schedule.attempts.toNat)
      (hsubmitted : Log.submitted es = List.replicate done t) (haccepted : Log.accepted es = []) :
      (submitFrom schedule (Routine.ask (.submit t)) number left s).Heeds alters guard
        (fun _ later s' ended => s' = s ∧ ∀ attempts last, ended = .exhausted attempts last →
          start.Exhausts schedule.attempts.toNat later)
        flag (start ++ es) := by
    induction left generalizing number done flag es with
    | zero => exact absurd rfl hleft
    | succ left ih =>
      refine Routine.heeds_isCancelled (hflag _ _) fun before => ?_
      split
      · exact ⟨rfl, by simp⟩
      next hbefore =>
        obtain rfl : before = false := by simpa using hbefore
        refine Routine.heeds_ask (hsubmit _) fun new answer _ _ => ?_
        match answer with
        | .ok receipt => exact ⟨rfl, by simp⟩
        | .error (.invalid reason) => exact ⟨rfl, by simp⟩
        | .error (.transient reason) =>
          dsimp only
          split
          next hlast =>
            subst hlast
            refine ⟨rfl, fun _ _ _ => ⟨es, t, reason, by simp, ?_, haccepted⟩⟩
            rw [hsubmitted, ← htotal, List.replicate_succ']
          next hmore =>
            refine Routine.heeds_pause (hpause _ _ _) fun new cut => ?_
            split
            · exact ⟨rfl, by simp⟩
            next hrun =>
              obtain rfl : cut = false := by simpa using hrun
              have hrest := ih (number + 1) (done + 1) new
                (es ++ [⟨.isCancelled, false⟩, ⟨.submit t, .error (.transient reason)⟩,
                  ⟨.pause (schedule.delayAfter number), false⟩]) hmore (by omega) ?_ ?_
              · simpa using hrest
              · rw [Log.submitted_append, hsubmitted, List.replicate_succ']
                rfl
              · rw [Log.accepted_append, haccepted]
                rfl
  unfold submitUntilDecided
  by_cases hzero : schedule.attempts.toNat = 0
  · rw [hzero]
    refine ⟨rfl, fun _ _ _ hattempts => ?_⟩
    exact absurd (UInt32.toNat_inj.mp hzero) hattempts
  · have hall := hfrom _ 1 0 flag [] hzero (by simp) rfl rfl
    rw [List.append_nil] at hall
    exact hall.weaken (fun _ _ _ _ h => h) fun _ _ _ _ h =>
      ⟨h.1, fun _ _ hended _ => h.2 _ _ hended⟩

end Loops

end Enrolment
