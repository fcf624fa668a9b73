import Enrolment.Proofs.Flow.Accounts

/-!
What a coordinator registers, delivers and counts. The registry, the runs of the flows and the counters
change together: a flow is in the registry exactly as long as it is live, and it is counted at the moment
at which it delivers its outcome.
-/

namespace Enrolment

theorem countP_cons_toNat {α : Type} (p : α → Bool) (x : α) (xs : List α) :
    (x :: xs).countP p = xs.countP p + (p x).toNat := by
  rw [List.countP_cons]
  cases p x <;> rfl

/-- Putting something in the place of an element of a list counts the one instead of the other. -/
theorem countP_set_add {α : Type} {p : α → Bool} {xs : List α} {i : Nat} {x y : α}
    (h : xs[i]? = some x) : (xs.set i y).countP p + (p x).toNat = xs.countP p + (p y).toNat := by
  induction xs generalizing i with
  | nil => cases h
  | cons first rest ih =>
    cases i with
    | zero =>
      obtain rfl := Option.some.inj h
      rw [List.set_cons_zero, countP_cons_toNat, countP_cons_toNat]
      omega
    | succ i =>
      have hrest := ih h
      rw [List.set_cons_succ, countP_cons_toNat, countP_cons_toNat]
      omega

theorem getElem?_concat {α : Type} (xs : List α) (x : α) (i : Nat) :
    (xs ++ [x])[i]? = if i = xs.length then some x else xs[i]? := by
  rcases Nat.lt_trichotomy i xs.length with hlt | rfl | hgt
  · rw [List.getElem?_append_left hlt, if_neg (Nat.ne_of_lt hlt)]
  · simp
  · rw [if_neg (Nat.ne_of_gt hgt), List.getElem?_eq_none (by simp; omega),
      List.getElem?_eq_none (Nat.le_of_lt hgt)]

/-- Three kinds that share the elements of a fourth one between them. -/
theorem countP_add_of_share {α : Type} {p q r s : α → Bool} {xs : List α}
    (h : ∀ x ∈ xs, (p x).toNat + (q x).toNat + (r x).toNat = (s x).toNat) :
    xs.countP p + xs.countP q + xs.countP r = xs.countP s := by
  induction xs with
  | nil => rfl
  | cons first rest ih =>
    obtain ⟨hfirst, hrest⟩ := List.forall_mem_cons.mp h
    have hcounts := ih hrest
    simp only [countP_cons_toNat]
    omega

/-- The counters once a flow has moved: an outcome that is new is counted. -/
def Tally.after (t : Tally) : Option FlowOutcome → Option FlowOutcome → Tally
  | none, some outcome => t.count outcome
  | _, _ => t

theorem Tally.after_self (t : Tally) (outcome : Option FlowOutcome) : t.after outcome outcome = t := by
  cases outcome <;> rfl

/-- An orderly outcome raises the one counter that it belongs to. -/
theorem Tally.count_eq {labels : List String} {outcome : FlowOutcome} (t : Tally)
    (h : outcome.IsOrderly labels) :
    t.count outcome = ⟨t.started, t.completed + outcome.isCompleted.toNat,
      t.timedOut + outcome.isTimedOut.toNat, t.failed + outcome.isFailed.toNat⟩ := by
  have hcounts := h.counts
  unfold count
  revert hcounts
  cases outcome.isCompleted <;> cases outcome.isTimedOut <;> cases outcome.isFailed <;> simp

namespace FlowRun

/-- A flow moves on: it keeps its identity and what it delivered, and it does not live again. -/
structure MovesTo (before run : FlowRun) : Prop where
  id_eq : run.id = before.id
  isLive : run.isLive = true → before.isLive = true
  outcome : run.outcome = before.outcome ∨
    ∃ outcome, before.outcome = none ∧ run.outcome = some outcome

theorem MovesTo.refl (run : FlowRun) : run.MovesTo run := ⟨rfl, fun hlive => hlive, .inl rfl⟩

theorem MovesTo.trans {before run later : FlowRun} (h : before.MovesTo run) (h' : run.MovesTo later) :
    before.MovesTo later := by
  refine ⟨h'.id_eq.trans h.id_eq, h.isLive ∘ h'.isLive, ?_⟩
  rcases h.outcome with hsame | ⟨outcome, hnone, hsome⟩
  · have hlater := h'.outcome
    rwa [hsame] at hlater
  · rcases h'.outcome with hsame | ⟨_, hempty, -⟩
    · exact .inr ⟨outcome, hnone, hsame.trans hsome⟩
    · rw [hsome] at hempty
      cases hempty

theorem movesTo_settle [Suite] (run : FlowRun) : run.MovesTo run.settle := by
  cases hactivity : run.activity with
  | ended =>
    have hsame : run.settle = run := settle_eq_self (by rw [resting?, hactivity])
    rw [hsame]
    exact ⟨rfl, fun hlive => hlive, .inl rfl⟩
  | idle f =>
    have hsettle : run.settle = run.next f := by rw [settle, hactivity]
    rw [hsettle]
    exact ⟨by simp, fun _ => by rw [isLive, hactivity], .inl (by simp)⟩
  | busy ticket task =>
    refine ⟨?_, fun _ => by rw [isLive, hactivity], ?_⟩
    · unfold settle
      rw [hactivity]
      cases task with
      | done f reply => simp [finish]
      | ask f q next => rfl
    · unfold settle
      rw [hactivity]
      cases task with
      | ask f q next => exact .inl rfl
      | done f reply =>
        dsimp only
        rw [outcome_next]
        cases houtcome : run.outcome with
        | some outcome => exact .inl (by simp [finish, houtcome])
        | none =>
          cases hreply : reply.outcome? with
          | none => exact .inl (by simp [finish, houtcome, hreply])
          | some outcome => exact .inr ⟨outcome, rfl, by simp [finish, houtcome, hreply]⟩

end FlowRun

namespace Coordinator

/-- How many flows have an outcome of a kind. -/
def count (c : Coordinator) (kind : FlowOutcome → Bool) : Nat :=
  c.runs.countP fun run => run.outcome.any kind

def outcomeAt (c : Coordinator) (position : Nat) : Option FlowOutcome :=
  (c.run? position).bind FlowRun.outcome

/-- The counters of a coordinator say how many flows were started, and how many of them delivered an
outcome of each kind. -/
structure Tallies (c : Coordinator) : Prop where
  started_eq : c.tally.started = c.runs.length
  completed_eq : c.tally.completed = c.count FlowOutcome.isCompleted
  timedOut_eq : c.tally.timedOut = c.count FlowOutcome.isTimedOut
  failed_eq : c.tally.failed = c.count FlowOutcome.isFailed

/-- The runs of a coordinator, its registry and its counters agree with the accounts of its flows. -/
structure Agrees (c : Coordinator) (accounts : List Account) : Prop where
  length_eq : accounts.length = c.runs.length
  fits : ∀ {position : Nat} {run : FlowRun} {account : Account}, c.run? position = some run →
    accounts[position]? = some account → account.Fits run
  registered_iff : ∀ {id : IdentityId} {position : Nat},
    c.registry.find? id = some position ↔
      ∃ run, c.run? position = some run ∧ run.id = id ∧ run.isLive = true
  active_eq : c.active = c.runs.countP FlowRun.isLive
  tallies : c.Tallies

variable {c c' first : Coordinator} {accounts accounts' : List Account} {position : Nat}
  {before run : FlowRun} {outcome : FlowOutcome}

theorem agrees_create {settings : Settings} {ledger : Ledger}
    (h : create settings ledger = .ok first) : first.Agrees [] := by
  unfold create at h
  cases hvalid : settings.validate with
  | error e => simp [hvalid, bind, Except.bind] at h
  | ok u =>
    obtain rfl : _ = first := by simpa [hvalid, bind, Except.bind, pure, Except.pure] using h
    refine ⟨rfl, ?_, ?_, rfl, rfl, rfl, rfl, rfl⟩
    · intro position run account hrun
      cases hrun
    · intro id position
      constructor
      · intro hfound
        cases hfound
      · rintro ⟨run, hrun, -⟩
        cases hrun

theorem Agrees.account_at (h : c.Agrees accounts) {run : FlowRun} (hrun : c.run? position = some run) :
    ∃ account, accounts[position]? = some account ∧ account.Fits run := by
  have hposition : position < accounts.length := by
    rw [h.length_eq]
    exact (List.getElem?_eq_some_iff.mp hrun).1
  have haccount := List.getElem?_eq_getElem hposition
  exact ⟨_, haccount, h.fits hrun haccount⟩

/-- A flow that delivered an outcome is counted in one way. -/
theorem Agrees.counts (h : c.Agrees accounts) :
    c.tally.completed + c.tally.timedOut + c.tally.failed =
      c.runs.countP fun run => run.outcome.isSome := by
  rw [h.tallies.completed_eq, h.tallies.timedOut_eq, h.tallies.failed_eq]
  apply countP_add_of_share
  intro run hmem
  obtain ⟨position, hrun⟩ := List.getElem?_of_mem hmem
  obtain ⟨account, -, hfits⟩ := h.account_at hrun
  cases houtcome : run.outcome with
  | none => rfl
  | some outcome => exact (hfits.isOrderly houtcome).counts

section Replacing

theorem settings_replace : (c.replace position run).settings = c.settings := by
  unfold replace
  split <;> rfl

theorem ledger_replace : (c.replace position run).ledger = c.ledger := by
  unfold replace
  split <;> rfl

theorem runs_replace (hrun : c.run? position = some before) :
    (c.replace position run).runs = c.runs.set position run := by
  unfold replace
  rw [hrun]

theorem run?_replace (hrun : c.run? position = some before) (other : Nat) :
    (c.replace position run).run? other = if other = position then some run else c.run? other := by
  have hlength : position < c.runs.length := (List.getElem?_eq_some_iff.mp hrun).1
  unfold run?
  rw [runs_replace hrun]
  by_cases h : other = position
  · subst h
    simp [hlength]
  · rw [if_neg h]
    exact List.getElem?_set_ne fun heq => h heq.symm

theorem registry_replace (hrun : c.run? position = some before) :
    (c.replace position run).registry =
      if before.isLive && !run.isLive then c.registry.erase run.id else c.registry := by
  unfold replace
  rw [hrun]

theorem tally_replace (hrun : c.run? position = some before) :
    (c.replace position run).tally = c.tally.after before.outcome run.outcome := by
  unfold replace
  rw [hrun]
  rfl

theorem countP_replace (hrun : c.run? position = some before) (p : FlowRun → Bool) :
    (c.replace position run).runs.countP p + (p before).toNat =
      c.runs.countP p + (p run).toNat := by
  rw [runs_replace hrun]
  exact countP_set_add hrun

/-- At most one live flow is in the registry under an identity, and it is where the registry leads. -/
theorem Agrees.registered_at (h : c.Agrees accounts) (hrun : c.run? position = some run)
    {id : IdentityId} :
    c.registry.find? id = some position ↔ run.id = id ∧ run.isLive = true := by
  rw [h.registered_iff, hrun]
  simp

/-- The registry leads to the live flow of an identity, also after a flow has moved. -/
theorem Agrees.registered_replace (h : c.Agrees accounts) (hrun : c.run? position = some before)
    (hmoves : before.MovesTo run) {id : IdentityId} {other : Nat} :
    (c.replace position run).registry.find? id = some other ↔
      ∃ run', (c.replace position run).run? other = some run' ∧ run'.id = id ∧
        run'.isLive = true := by
  have hid := hmoves.id_eq
  have hat := @Agrees.registered_at _ _ _ _ h hrun id
  rw [registry_replace hrun, run?_replace hrun]
  by_cases hended : before.isLive = true ∧ run.isLive = false
  · obtain ⟨hbefore, hafter⟩ := hended
    rw [hbefore, hafter, Bool.not_false, Bool.and_true, if_pos rfl, Table.find?_erase]
    by_cases hother : other = position
    · subst hother
      have hnone : ¬(if id = run.id then none else c.registry.find? id) = some other := by
        split
        · intro hsome
          cases hsome
        next hne =>
          rw [hat]
          exact fun heq => hne (hid ▸ heq.1.symm)
      simp [hnone, hafter]
    · rw [if_neg hother, ← h.registered_iff]
      split
      next heq =>
        have hposition : c.registry.find? id = some position := hat.mpr ⟨heq ▸ hid.symm, hbefore⟩
        rw [hposition]
        simpa using Ne.symm hother
      next => exact Iff.rfl
  · have hsame : run.isLive = before.isLive := by
      cases hrunLive : run.isLive with
      | true => exact (hmoves.isLive hrunLive).symm
      | false =>
        cases hbefore : before.isLive with
        | true => exact absurd ⟨hbefore, hrunLive⟩ hended
        | false => rfl
    have hkept : ¬(before.isLive && !run.isLive) = true := by simp [hsame]
    rw [if_neg hkept]
    by_cases hother : other = position
    · subst hother
      rw [if_pos rfl, hat, ← hid, ← hsame]
      simp
    · rw [if_neg hother, h.registered_iff]

theorem Agrees.active_replace (h : c.Agrees accounts) (hrun : c.run? position = some before)
    (hmoves : before.MovesTo run) :
    (c.replace position run).active = (c.replace position run).runs.countP FlowRun.isLive := by
  have hcounts := @countP_replace c position before run hrun FlowRun.isLive
  have hactive := h.active_eq
  unfold active at hactive ⊢
  rw [registry_replace hrun]
  cases hbefore : before.isLive with
  | false =>
    have hafter : run.isLive = false := by
      cases hrunLive : run.isLive with
      | false => rfl
      | true => exact absurd (hmoves.isLive hrunLive) (by simp [hbefore])
    simp [hbefore, hafter] at hcounts ⊢
    omega
  | true =>
    cases hafter : run.isLive with
    | true =>
      simp [hbefore, hafter] at hcounts ⊢
      omega
    | false =>
      have hfound := (h.registered_at hrun).mpr ⟨hmoves.id_eq.symm, hbefore⟩
      have hsize := c.registry.size_erase (k := run.id) (by simp [Table.contains, hfound])
      simp [hbefore, hafter] at hcounts ⊢
      omega

/-- A flow that moves and delivers nothing is not counted. -/
theorem tally_replace_of_eq (hrun : c.run? position = some before)
    (hsame : run.outcome = before.outcome) : (c.replace position run).tally = c.tally := by
  rw [tally_replace hrun, hsame, Tally.after_self]

/-- A flow that delivers is counted once. -/
theorem tally_replace_of_none {labels : List String} (hrun : c.run? position = some before)
    (hnone : before.outcome = none) (hsome : run.outcome = some outcome)
    (horderly : outcome.IsOrderly labels) :
    (c.replace position run).tally =
      ⟨c.tally.started, c.tally.completed + outcome.isCompleted.toNat,
        c.tally.timedOut + outcome.isTimedOut.toNat, c.tally.failed + outcome.isFailed.toNat⟩ := by
  rw [tally_replace hrun, hnone, hsome]
  exact c.tally.count_eq horderly

theorem count_replace (hrun : c.run? position = some before) (kind : FlowOutcome → Bool) :
    (c.replace position run).count kind + (before.outcome.any kind).toNat =
      c.count kind + (run.outcome.any kind).toNat := countP_replace hrun _

theorem length_replace (hrun : c.run? position = some before) :
    (c.replace position run).runs.length = c.runs.length := by
  rw [runs_replace hrun]
  exact List.length_set

/-- The counters stay right when a flow moves that keeps what it delivered. -/
theorem Tallies.replace (h : c.Tallies) (hrun : c.run? position = some before)
    (hmoves : before.MovesTo run)
    (horderly : ∀ outcome, run.outcome = some outcome → ∃ labels, outcome.IsOrderly labels) :
    (c.replace position run).Tallies := by
  have hcounts := @count_replace c position before run hrun
  have hlength := @length_replace c position before run hrun
  rcases hmoves.outcome with hsame | ⟨outcome, hnone, hsome⟩
  · have htally := tally_replace_of_eq hrun hsame
    have hcount (kind : FlowOutcome → Bool) : (c.replace position run).count kind = c.count kind := by
      have hkind := hcounts kind
      rw [hsame] at hkind
      omega
    constructor
    · rw [htally, hlength, h.started_eq]
    · rw [htally, hcount, h.completed_eq]
    · rw [htally, hcount, h.timedOut_eq]
    · rw [htally, hcount, h.failed_eq]
  · obtain ⟨labels, hlabels⟩ := horderly outcome hsome
    have htally := tally_replace_of_none hrun hnone hsome hlabels
    have hcount (kind : FlowOutcome → Bool) :
        (c.replace position run).count kind = c.count kind + (kind outcome).toNat := by
      have hkind := hcounts kind
      rw [hnone, hsome] at hkind
      exact hkind
    constructor
    · rw [htally, hlength, ← h.started_eq]
    · rw [htally, hcount, ← h.completed_eq]
    · rw [htally, hcount, ← h.timedOut_eq]
    · rw [htally, hcount, ← h.failed_eq]

end Replacing

/-- What a step of a coordinator delivers: nothing, or the outcome of one flow that had none, which
raises one counter by one. -/
inductive Delivers (c c' : Coordinator) : Prop where
  | nothing (houtcomes : ∀ position, c'.outcomeAt position = c.outcomeAt position)
      (hcompleted : c'.tally.completed = c.tally.completed)
      (htimedOut : c'.tally.timedOut = c.tally.timedOut)
      (hfailed : c'.tally.failed = c.tally.failed)
  | outcome {position : Nat} {outcome : FlowOutcome} (hbefore : c.outcomeAt position = none)
      (hafter : c'.outcomeAt position = some outcome)
      (hothers : ∀ other, other ≠ position → c'.outcomeAt other = c.outcomeAt other)
      (hcompleted : c'.tally.completed = c.tally.completed + outcome.isCompleted.toNat)
      (htimedOut : c'.tally.timedOut = c.tally.timedOut + outcome.isTimedOut.toNat)
      (hfailed : c'.tally.failed = c.tally.failed + outcome.isFailed.toNat)
      (honce : outcome.isCompleted.toNat + outcome.isTimedOut.toNat + outcome.isFailed.toNat = 1)

theorem Delivers.refl (c : Coordinator) : c.Delivers c := .nothing (fun _ => rfl) rfl rfl rfl

theorem outcomeAt_replace (hrun : c.run? position = some before) (other : Nat) :
    (c.replace position run).outcomeAt other =
      if other = position then run.outcome else c.outcomeAt other := by
  unfold outcomeAt
  rw [run?_replace hrun]
  split <;> rfl

theorem delivers_replace (hrun : c.run? position = some before)
    (hmoves : before.MovesTo run)
    (horderly : ∀ outcome, run.outcome = some outcome → ∃ labels, outcome.IsOrderly labels) :
    c.Delivers (c.replace position run) := by
  have hbefore : c.outcomeAt position = before.outcome := by
    unfold outcomeAt
    rw [hrun]
    rfl
  rcases hmoves.outcome with hsame | ⟨outcome, hnone, hsome⟩
  · have htally := tally_replace_of_eq hrun hsame
    refine .nothing (fun other => ?_) (by rw [htally]) (by rw [htally]) (by rw [htally])
    rw [outcomeAt_replace hrun]
    split
    next heq => rw [heq, hbefore, hsame]
    next => rfl
  · obtain ⟨labels, hlabels⟩ := horderly outcome hsome
    have htally := tally_replace_of_none hrun hnone hsome hlabels
    refine .outcome (hbefore.trans hnone) ?_ (fun other hother => ?_) (by rw [htally])
      (by rw [htally]) (by rw [htally]) hlabels.counts
    · rw [outcomeAt_replace hrun, if_pos rfl, hsome]
    · rw [outcomeAt_replace hrun, if_neg hother]

/-- A flow that moves keeps agreement with the accounts if its account does with it. -/
theorem Agrees.moved (h : c.Agrees accounts) (hrun : c.run? position = some before)
    (hmoves : before.MovesTo run) (hlength : accounts'.length = accounts.length)
    (hothers : ∀ other, other ≠ position → accounts'[other]? = accounts[other]?)
    (hfits : ∀ account, accounts'[position]? = some account → account.Fits run) :
    (c.replace position run).Agrees accounts' ∧ c.Delivers (c.replace position run) := by
  have hposition : position < accounts'.length := by
    rw [hlength, h.length_eq]
    exact (List.getElem?_eq_some_iff.mp hrun).1
  have horderly : ∀ outcome, run.outcome = some outcome → ∃ labels, outcome.IsOrderly labels :=
    fun outcome hsome => ⟨_, (hfits _ (List.getElem?_eq_getElem hposition)).isOrderly hsome⟩
  refine ⟨⟨?_, ?_, h.registered_replace hrun hmoves, h.active_replace hrun hmoves,
    h.tallies.replace hrun hmoves horderly⟩, delivers_replace hrun hmoves horderly⟩
  · rw [hlength, h.length_eq, length_replace hrun]
  · intro other run' account hrun' haccount
    rw [run?_replace hrun] at hrun'
    split at hrun'
    next heq =>
      obtain rfl := Option.some.inj hrun'
      exact hfits account (heq ▸ haccount)
    next hother => exact h.fits hrun' (hothers other hother ▸ haccount)

/-- A flow that delivers nothing new and is still at what it was leaves its account. -/
theorem Agrees.kept (h : c.Agrees accounts) (hrun : c.run? position = some before)
    (hid : run.id = before.id) (hlive : run.isLive = true → before.isLive = true)
    (houtcome : run.outcome = before.outcome) (hreplies : run.replies = before.replies)
    (hat : ∀ account : Account, account.IsAt before.activity → account.IsAt run.activity) :
    (c.replace position run).Agrees accounts ∧ c.Delivers (c.replace position run) := by
  refine h.moved hrun ⟨hid, hlive, .inl houtcome⟩ rfl (fun _ _ => rfl) ?_
  intro account haccount
  have hfits := h.fits hrun haccount
  exact hfits.congr houtcome hreplies (hat account hfits.isAt)

/-- Pausing a flow or letting go of it leaves its account. -/
theorem Agrees.adjusted (h : c.Agrees accounts) (position : Nat) {f : FlowRun → FlowRun}
    (hid : ∀ run, (f run).id = run.id) (hactivity : ∀ run, (f run).activity = run.activity)
    (houtcome : ∀ run, (f run).outcome = run.outcome)
    (hreplies : ∀ run, (f run).replies = run.replies) :
    (c.adjust position f).Agrees accounts ∧ c.Delivers (c.adjust position f) := by
  unfold adjust
  split
  · exact ⟨h, .refl c⟩
  next run hrun =>
    have hlive : (f run).isLive = run.isLive := by rw [FlowRun.isLive, hactivity, FlowRun.isLive]
    apply h.kept hrun (hid run) (fun hlater => hlive.symm.trans hlater) (houtcome run) (hreplies run)
    rw [hactivity]
    exact fun _ hat => hat

section Entering

variable [Suite] {ledger : Ledger} {flow : Flow}

theorem run?_entered (c : Coordinator) (ledger : Ledger) (flow : Flow) (other : Nat) :
    (c.entered ledger flow).run? other =
      if other = c.runs.length then some (.launch flow) else c.run? other :=
  getElem?_concat c.runs _ other

theorem count_entered (kind : FlowOutcome → Bool) :
    (c.entered ledger flow).count kind = c.count kind := by
  unfold count entered
  rw [List.countP_append]
  rfl

theorem outcomeAt_entered (other : Nat) :
    (c.entered ledger flow).outcomeAt other = c.outcomeAt other := by
  unfold outcomeAt
  rw [run?_entered]
  split
  next heq =>
    have hvacant : c.run? other = none := List.getElem?_eq_none (Nat.le_of_eq heq.symm)
    rw [hvacant]
    rfl
  next => rfl

theorem Tallies.entered (h : c.Tallies) : (c.entered ledger flow).Tallies := by
  constructor
  · simp [Coordinator.entered, h.started_eq]
  · rw [count_entered]
    exact h.completed_eq
  · rw [count_entered]
    exact h.timedOut_eq
  · rw [count_entered]
    exact h.failed_eq

/-- The registry leads to the flow that is entered, whose identity had no live flow. -/
theorem Agrees.registered_entered (h : c.Agrees accounts)
    (hnew : c.registry.contains flow.identity.id = false) {id : IdentityId} {other : Nat} :
    (c.entered ledger flow).registry.find? id = some other ↔
      ∃ run, (c.entered ledger flow).run? other = some run ∧ run.id = id ∧ run.isLive = true := by
  have hvacant : c.run? c.runs.length = none := List.getElem?_eq_none (Nat.le_refl _)
  rw [run?_entered, Coordinator.entered, Table.find?_insert]
  by_cases hother : other = c.runs.length
  · have hunled : c.registry.find? id ≠ some other := by
      intro hfound
      obtain ⟨run, hat, -⟩ := h.registered_iff.mp hfound
      rw [hother, hvacant] at hat
      cases hat
    by_cases hid : id = flow.identity.id
    · simp [hother, hid, FlowRun.launch, FlowRun.isLive]
    · simp [hother ▸ hunled, hother, hid, FlowRun.launch, Ne.symm hid]
  · rw [if_neg hother, ← h.registered_iff]
    split
    next hid =>
      have habsent : c.registry.find? id = none := by simpa [hid, Table.contains] using hnew
      simpa [habsent] using Ne.symm hother
    next => exact Iff.rfl

theorem Agrees.active_entered (h : c.Agrees accounts)
    (hnew : c.registry.contains flow.identity.id = false) :
    (c.entered ledger flow).active = (c.entered ledger flow).runs.countP FlowRun.isLive := by
  have hactive := h.active_eq
  unfold active at hactive ⊢
  unfold Coordinator.entered
  rw [c.registry.size_insert c.runs.length hnew, List.countP_append, hactive]
  rfl

theorem Agrees.entered (h : c.Agrees accounts)
    (hnew : c.registry.contains flow.identity.id = false) :
    (c.entered ledger flow).Agrees (accounts ++ [.opened flow.labels]) := by
  refine ⟨?_, ?_, h.registered_entered hnew, h.active_entered hnew, h.tallies.entered⟩
  · simp [Coordinator.entered, h.length_eq]
  · intro other run account hrun haccount
    rw [run?_entered] at hrun
    rw [getElem?_concat, h.length_eq] at haccount
    split at hrun
    next heq =>
      rw [if_pos heq] at haccount
      obtain rfl := Option.some.inj hrun
      obtain rfl := Option.some.inj haccount
      exact .launch flow
    next hne =>
      rw [if_neg hne] at haccount
      exact h.fits hrun haccount

end Entering

end Coordinator

end Enrolment
