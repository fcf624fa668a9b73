import Enrolment.Proofs.Pausing.Registrations

/-!
What pausing a flow does. A paused flow finishes the call that is under way, and then submits nothing
until a command clears the flag. Commands clear it when they are taken up, not when they are sent, so
that a command which waits while the flow is paused unpauses it.
-/

namespace Enrolment

namespace Flow

/-- Work of a flow that submits nothing under a set flag and does not clear it, however the flag
changes. -/
abbrev HoldsStill {α : Type} (flag : Bool) (log : Log) (t : Task Flow α) : Prop :=
  t.Heeds (fun _ => True) (fun flag _ _ q => q.IsHeeding flag) (fun _ _ _ _ => True) flag log

variable {f : Flow} {flag : Bool} {log : Log} {α β : Type}

theorem holdsStill_bind {r : Work α} {k : α → Work β} (hr : HoldsStill flag log (r f))
    (hk : ∀ flag log f a, HoldsStill flag log (k a f)) : HoldsStill flag log ((r >>= k) f) :=
  Routine.heeds_bind hr fun flag log f a _ => hk flag log f a

theorem holdsStill_onIdentity {work : Routine IdentityRegistration α}
    {post : Bool → Log → IdentityRegistration → α → Prop}
    (h : (work f.identity).Heeds (fun _ => True) IdentityRegistration.Guards post flag log) :
    HoldsStill flag log (onIdentity work f) :=
  Task.Heeds.within (h.weaken (fun _ _ _ _ h => h.2) fun _ _ _ _ _ => trivial)

theorem holdsStill_onUsernames {work : Routine UsernameRegistration α}
    {post : Bool → Log → UsernameRegistration → α → Prop}
    (h : (work f.usernames).Heeds (fun _ => True) f.usernames.Guards post flag log) :
    HoldsStill flag log (onUsernames work f) :=
  Task.Heeds.within (h.weaken (fun _ _ _ _ h => h.2) fun _ _ _ _ _ => trivial)

variable [Suite]

theorem holdsStill_registerLabels (labels : List String) :
    HoldsStill flag log (registerLabels labels f) := by
  have hregister (flag : Bool) (log : Log) (f : Flow) :
      HoldsStill flag log (onUsernames (UsernameRegistration.register f.schedule labels) f) :=
    holdsStill_onUsernames (UsernameRegistration.heeds_register _ _)
  have hrecover : HoldsStill flag log (onUsernames UsernameRegistration.recover f) :=
    holdsStill_onUsernames (UsernameRegistration.heeds_recover (fun _ h => h) rfl)
  refine Routine.heeds_get (Routine.heeds_ite (fun _ => ?_) fun _ => hregister _ _ _)
  refine holdsStill_bind hrecover ?_
  intro flag log f result
  cases result with
  | ok adopted => exact hregister _ _ _
  | error e => exact hregister _ _ _

theorem holdsStill_drive : HoldsStill flag log (drive f) := by
  refine Routine.heeds_get (holdsStill_bind ?_ ?_)
  · cases f.schedule with
    | some schedule => exact holdsStill_onIdentity (IdentityRegistration.heeds_register schedule)
    | none =>
      exact holdsStill_onIdentity (Routine.heeds_get (IdentityRegistration.heeds_register _))
  intro flag log f' registered
  cases registered with
  | none => trivial
  | some outcome =>
    refine Routine.heeds_ite (fun _ => trivial) fun _ => ?_
    refine holdsStill_bind (holdsStill_registerLabels f.labels) ?_
    intro flag log f'' result
    match result with
    | .ok none => trivial
    | .ok (some usernames) => trivial
    | .error e => trivial

/-- Work that either is about to clear the flag, or holds still until it is done. -/
def ClearsOrHoldsStill (flag : Bool) (log : Log) (t : Task Flow Reply) : Prop :=
  (∃ f next, t = .ask f .clearFlag next ∧ ∀ flag log, HoldsStill flag log (next ())) ∨
    HoldsStill flag log t

theorem registerMore_eq (labels : List String) :
    registerMore labels f =
      if f.identity.identity.isRegistered then
        .ask f .clearFlag fun _ => registerLabels labels f
      else .done f (.error (.notRegistered f.identity.id)) := by
  change (if !f.identity.identity.isRegistered then _ else _ : Work _) f = _
  cases f.identity.identity.isRegistered <;> rfl

/-- A command clears the flag only first of all. -/
theorem perform_clears_or_holdsStill (command : Command) :
    ClearsOrHoldsStill flag log (perform command f) := by
  have hdrive (f : Flow) (flag : Bool) (log : Log) :
      HoldsStill flag log ((do return .flow (← drive) : Work Reply) f) :=
    holdsStill_bind holdsStill_drive fun _ _ _ _ => trivial
  cases command with
  | start => exact .inr (hdrive f flag log)
  | restart => exact .inl ⟨_, _, rfl, hdrive f.restarted⟩
  | resume => exact .inl ⟨_, _, rfl, hdrive f⟩
  | register labels =>
    change ClearsOrHoldsStill flag log
      ((registerMore labels f).bind fun result f => .done f (.usernames result))
    rw [registerMore_eq]
    split
    · refine .inl ⟨f, _, rfl, ?_⟩
      intro flag log
      exact Task.Heeds.bind (holdsStill_registerLabels labels) fun _ _ _ _ _ => trivial
    · exact .inr trivial

end Flow

namespace FlowRun

variable [Suite] {f : Flow} {start paused run run' : FlowRun} {history events : History}

/-- Whether a flow clears its flag next, as a command that was taken up asks it to. -/
def ClearsNext (run : FlowRun) : Prop :=
  ∃ ticket f next, run.activity = .busy ticket (.ask f .clearFlag next)

/-- What can become of a flow that is sent nothing. -/
inductive Drains (start : FlowRun) : History → FlowRun → Prop where
  | here : Drains start [] start
  | step {history events : History} {run run' : FlowRun} (h : Drains start history run)
      (hstep : run.Step events run') (hunsent : run'.queue.length ≤ run.queue.length) :
      Drains start (history ++ events) run'

theorem Drains.reaches (h : start.Drains history run) : start.Reaches history run := by
  induction h with
  | here => exact .here
  | step _ hstep _ ih => exact ih.step hstep

/-- A flow whose work, since some flag, clears the flag next or holds still. -/
def Heeds (run : FlowRun) : Prop :=
  ∀ ticket task, run.activity = .busy ticket task →
    ∃ flag log, Flow.ClearsOrHoldsStill flag log task

/-- A paused flow whose work clears the flag next or holds still under it. -/
def IsStill (run : FlowRun) : Prop :=
  run.isCancelled = true ∧ ∀ ticket task, run.activity = .busy ticket task →
    ∃ log, Flow.ClearsOrHoldsStill true log task

theorem heeds_launch : (launch f).Heeds := by
  rintro ticket task ⟨⟩
  exact ⟨false, [], Flow.perform_clears_or_holdsStill .start⟩

/-- A flow that settles stays as it is, or is as it rests and goes on to its next command. -/
theorem settle_cases (run : FlowRun) :
    run.settle = run ∨ ∃ (rested : FlowRun) (f : Flow), run.settle = rested.next f ∧
      rested.activity = .idle f ∧ rested.queue = run.queue ∧
      rested.isCancelled = run.isCancelled := by
  unfold settle
  split
  · exact .inr ⟨_, _, rfl, rfl, rfl, rfl⟩
  next f hidle => exact .inr ⟨run, f, rfl, hidle, rfl, rfl⟩
  · exact .inl rfl

theorem isCancelled_settle : run.settle.isCancelled = run.isCancelled := by
  rcases run.settle_cases with hsame | ⟨rested, f, hnext, -, -, hflag⟩
  · rw [hsame]
  rw [hnext, ← hflag]
  unfold next
  split
  · rfl
  · split <;> rfl

/-- What a flow is busy with after it rested is the work of a command that waited. -/
theorem busy_of_settle {ticket : Option Nat} {task : Task Flow Reply}
    (h : run.settle.activity = .busy ticket task) :
    run.settle = run ∨ run.queue ≠ [] ∧ ∃ command f, task = Flow.perform command f := by
  rcases run.settle_cases with hsame | ⟨rested, f, hnext, hidle, hqueue, -⟩
  · exact .inl hsame
  rw [hnext, next] at h
  split at h
  next waiting command rest hwaiting =>
    obtain ⟨-, rfl⟩ := Activity.busy.inj h
    exact .inr ⟨by simp [← hqueue, hwaiting], command, f, rfl⟩
  next =>
    split at h
    · simp [hidle] at h
    · cases h

theorem queue_settle (h : run.queue = []) : run.settle.queue = [] := by
  rcases run.settle_cases with hsame | ⟨rested, f, hnext, -, hqueue, -⟩
  · rwa [hsame]
  rw [hnext, next, hqueue, h]
  dsimp only
  split
  · rw [hqueue, h]
  · rfl

theorem Heeds.step (h : run.Heeds) (hstep : run.Step events run') : run'.Heeds := by
  cases hstep with
  | @answered ticket f q next answer hasked hadmits =>
    obtain ⟨flag, log, ⟨f', next', heq, hstill⟩ | hstill⟩ := h _ _ hasked
    · cases heq
      rintro ticket task ⟨⟩
      exact ⟨false, log, .inr (hstill _ _)⟩
    · rintro ticket task ⟨⟩
      exact ⟨_, _, .inr (hstill.2 run.isCancelled answer (fun _ => trivial) hadmits)⟩
  | settled =>
    intro ticket task hbusy
    rcases busy_of_settle hbusy with hsame | ⟨-, command, f, rfl⟩
    · exact h _ _ (hsame ▸ hbusy)
    · exact ⟨false, [], Flow.perform_clears_or_holdsStill command⟩
  | sent ticket command hsent =>
    unfold send? at hsent
    split at hsent
    · obtain rfl := Option.some.inj hsent
      exact h
    · cases hsent
  | paused => exact h
  | released => exact h

theorem Reaches.heeds (h : start.Reaches history run) (hstart : start.Heeds) : run.Heeds := by
  induction h with
  | here => exact hstart
  | step _ hstep ih => exact ih.step hstep

/-- What can become of a paused flow next: nothing is exchanged and it goes on with what it is at, its
flag is cleared, or it stands still. -/
theorem Heeds.still (h : run.Heeds) (hcancelled : run.isCancelled = true)
    (hstep : run.Step events run') :
    (events.exchanges = [] ∧ run'.isCancelled = true ∧ run'.activity = run.activity) ∨
      ⟨.clearFlag, ()⟩ ∈ events.exchanges ∨ run'.IsStill := by
  cases hstep with
  | @answered ticket f q next answer hasked hadmits =>
    refine .inr ?_
    obtain ⟨flag, log, ⟨f', next', heq, hstill⟩ | hstill⟩ := h _ _ hasked
    · cases heq
      exact .inl (List.mem_singleton.mpr rfl)
    · have hkept : q.flagAfter run.isCancelled = true := by
        cases q with
        | clearFlag => exact hstill.1.elim
        | _ => exact hcancelled
      refine .inr ⟨hkept, ?_⟩
      rintro ticket task ⟨⟩
      have hrest := hstill.2 run.isCancelled answer (fun _ => trivial) hadmits
      rw [hkept] at hrest
      exact ⟨_, .inr hrest⟩
  | settled =>
    have hflag := isCancelled_settle.trans hcancelled
    have hnone : History.exchanges (if run.startsOver then [.restarted] else []) = [] := by
      split <;> rfl
    by_cases hsame : run.settle = run
    · exact .inl ⟨hnone, hflag, congrArg activity hsame⟩
    · refine .inr (.inr ⟨hflag, ?_⟩)
      intro ticket task hbusy
      rcases busy_of_settle hbusy with hstays | ⟨-, command, f, rfl⟩
      · exact absurd hstays hsame
      · exact ⟨[], Flow.perform_clears_or_holdsStill command⟩
  | sent ticket command hsent =>
    unfold send? at hsent
    split at hsent
    · obtain rfl := Option.some.inj hsent
      exact .inl ⟨rfl, hcancelled, rfl⟩
    · cases hsent
  | paused => exact .inl ⟨rfl, rfl, rfl⟩
  | released => exact .inl ⟨rfl, hcancelled, rfl⟩

omit [Suite] in
theorem IsStill.heeds (h : run.IsStill) : run.Heeds := by
  intro ticket task hbusy
  obtain ⟨log, hstill⟩ := h.2 ticket task hbusy
  exact ⟨true, log, hstill⟩

/-- What has become of a flow since it was paused: the call that was under way still is, the flag was
cleared, or the flow stands still. -/
theorem Heeds.reaches (h : paused.Heeds) (hcancelled : paused.isCancelled = true)
    (hreaches : paused.Reaches history run) :
    (history.exchanges = [] ∧ run.isCancelled = true ∧ run.activity = paused.activity) ∨
      ⟨.clearFlag, ()⟩ ∈ history.exchanges ∨ run.IsStill := by
  induction hreaches with
  | here => exact .inl ⟨rfl, hcancelled, rfl⟩
  | @step history events run run' hreaches hstep ih =>
    have hexchanges : (history ++ events).exchanges = history.exchanges ++ events.exchanges :=
      List.filterMap_append ..
    rw [hexchanges]
    rcases ih with ⟨hnone, hflag, hactivity⟩ | hcleared | hstill
    · rw [hnone, List.nil_append, ← hactivity]
      exact (hreaches.heeds h).still hflag hstep
    · exact .inr (.inl (List.mem_append_left _ hcleared))
    · rcases hstill.heeds.still hstill.1 hstep with ⟨-, hflag, hactivity⟩ | hcleared | hnext
      · refine .inr (.inr ⟨hflag, ?_⟩)
        rw [hactivity]
        exact hstill.2
      · exact .inr (.inl (List.mem_append_right _ hcleared))
      · exact .inr (.inr hnext)

/-- The flag of a flow that is sent nothing is cleared only by a command that it had taken up or that
waited. -/
theorem Drains.clears (h : paused.Drains history run) (hpaused : paused.Heeds)
    (hqueue : paused.queue = []) (hclears : ¬paused.ClearsNext) :
    ⟨.clearFlag, ()⟩ ∉ history.exchanges ∧ run.queue = [] ∧ ¬run.ClearsNext := by
  induction h with
  | here => exact ⟨List.not_mem_nil, hqueue, hclears⟩
  | @step history events run run' hdrains hstep hunsent ih =>
    obtain ⟨hnone, hempty, hclears⟩ := ih
    have hheeds := hdrains.reaches.heeds hpaused
    have hexchanges : (history ++ events).exchanges = history.exchanges ++ events.exchanges :=
      List.filterMap_append ..
    rw [hexchanges, List.mem_append, not_or]
    cases hstep with
    | @answered ticket f q next answer hasked hadmits =>
      obtain ⟨flag, log, ⟨f', next', heq, -⟩ | hstill⟩ := hheeds _ _ hasked
      · exact absurd ⟨ticket, f', next', heq ▸ hasked⟩ hclears
      refine ⟨⟨hnone, ?_⟩, hempty, ?_⟩
      · intro hmem
        obtain ⟨rfl, -⟩ := Exchange.mk.inj (List.mem_singleton.mp hmem)
        exact hstill.1
      · rintro ⟨ticket, f', next', hbusy⟩
        have hrest := hstill.2 run.isCancelled answer (fun _ => trivial) hadmits
        rw [(Activity.busy.inj hbusy).2] at hrest
        exact hrest.1
    | settled =>
      refine ⟨⟨hnone, ?_⟩, queue_settle hempty, ?_⟩
      · split <;> exact List.not_mem_nil
      · rintro ⟨ticket, f, next, hbusy⟩
        rcases busy_of_settle hbusy with hsame | ⟨hwaits, -⟩
        · exact hclears ⟨ticket, f, next, hsame ▸ hbusy⟩
        · exact hwaits hempty
    | sent ticket command hsent =>
      unfold send? at hsent
      split at hsent
      · obtain rfl := Option.some.inj hsent
        simp [hempty] at hunsent
      · cases hsent
    | paused => exact ⟨⟨hnone, List.not_mem_nil⟩, hempty, hclears⟩
    | released => exact ⟨⟨hnone, List.not_mem_nil⟩, hempty, hclears⟩

/-- Work that a flow is busy with goes on while nothing is sent. -/
theorem Drains.works (h : start.Drains history run) {ticket : Option Nat}
    {work work' : Task Flow Reply} {es : Log} (hbusy : run.activity = .busy ticket work)
    (hwork : Task.Reaches work es work') (hes : Log.Admissible run.isCancelled es) :
    ∃ later run', start.Drains (history ++ later) run' ∧ run'.activity = .busy ticket work' ∧
      later.exchanges = es := by
  induction hwork generalizing history run with
  | here work => exact ⟨[], run, by rwa [List.append_nil], hbusy, rfl⟩
  | @answered f q next answer es work' hrest ih =>
    obtain _ | ⟨hadmits, hes⟩ := hes
    have hstep := h.step (.answered answer hbusy hadmits) (Nat.le_refl _)
    obtain ⟨later, run', hdrains, hbusy', hlater⟩ := ih hstep rfl hes
    refine ⟨.exchanged ⟨q, answer⟩ :: later, run', ?_, hbusy', ?_⟩
    · rwa [List.append_assoc, List.singleton_append] at hdrains
    · rw [← hlater]
      rfl

/-- After a flow was paused, it submits nothing but what it was submitting, until a command clears the
flag: one that is sent later, one that waited, or one that was just taken up. -/
theorem paused_flow_submits_nothing {before : History} {run₀ : FlowRun}
    (hreached : (launch f).Reaches before run₀) :
    (∀ history run ticket f' t next, { run₀ with isCancelled := true }.Reaches history run →
      run.activity = .busy ticket (.ask f' (.submit t) next) →
        history.exchanges = [] ∧ run.activity = run₀.activity ∨
          ⟨.clearFlag, ()⟩ ∈ history.exchanges) ∧
    (run₀.queue = [] → ¬run₀.ClearsNext → ∀ history run,
      { run₀ with isCancelled := true }.Drains history run →
        ⟨.clearFlag, ()⟩ ∉ history.exchanges) := by
  have hheeds : Heeds { run₀ with isCancelled := true } := hreached.heeds heeds_launch
  constructor
  · intro history run ticket f' t next hlater hsubmits
    rcases hheeds.reaches rfl hlater with ⟨hnone, -, hsame⟩ | hcleared | hstill
    · exact .inl ⟨hnone, hsame⟩
    · exact .inr hcleared
    · obtain ⟨log, ⟨f'', next', heq, -⟩ | hholds⟩ := hstill.2 _ _ hsubmits
      · cases heq
      · cases hholds.1
  · intro hqueue hclears history run hdrains
    exact (hdrains.clears hheeds hqueue hclears).1

end FlowRun

namespace Sample

/-- The work of a flow that resumes. -/
def resuming : Task Flow Reply := Flow.perform .resume flow

/-- What a flow comes to that resumes, if its identity exists already. -/
def resumed : Log × Flow × Reply :=
  resuming.play (oracle (.ok ⟨.zero⟩) (some (.pending lock [])) (unnamed lock.identity)) []

theorem reaches_resumed : Task.Reaches resuming resumed.1 (.done resumed.2.1 resumed.2.2) := by
  unfold resumed
  exact Task.reaches_play _ _ _

theorem admissible_resumed : Log.Admissible true resumed.1 := by
  have hclears (s : Flow) (next : Unit → Task Flow Reply) : Log.Admissible true
      ((Task.ask s .clearFlag next).play
        (oracle (.ok ⟨.zero⟩) (some (.pending lock [])) (unnamed lock.identity)) []).1 :=
    .cons trivial (admissible_play (admits_oracle _ _ _) _ _)
  unfold resumed resuming
  exact hclears _ _

/-- A paused flow that waits for its funding, with a command to resume that was sent before. -/
def waiting : FlowRun := { FlowRun.launch flow with queue := [(0, .resume)] }

/-- The waiting flow once it was paused. -/
def stopping : FlowRun := { waiting with isCancelled := true }

def stopped : FlowRun := { stopping with activity := .busy none (.done flow (.flow none)) }

/-- The stopped flow once it took up the command. -/
def taken : FlowRun := { stopping with activity := .busy (some 0) resuming, queue := [] }

theorem settle_stopped : stopped.settle = taken := rfl

theorem stopping_stops : stopping.Step
    [.exchanged ⟨.awaitDepth lock.transaction Settings.default.confirmations, none⟩] stopped := by
  have hasked : stopping.activity = .busy none (.ask flow
      (.awaitDepth lock.transaction Settings.default.confirmations) _) := rfl
  have hadmits : Request.Admits true
      (.awaitDepth lock.transaction Settings.default.confirmations) none := rfl
  exact FlowRun.Step.answered _ hasked hadmits

theorem reaches_waiting : (FlowRun.launch flow).Reaches [] waiting :=
  FlowRun.Reaches.here.step (.sent 0 .resume rfl)

/-- A waiting command takes a paused flow up again, which then submits. -/
theorem exists_resumed : ∃ later run f t next, stopping.Drains later run ∧
    run.activity = .busy (some 0) (.ask f (.submit t) next) ∧ later.exchanges ≠ [] := by
  have hnames : (Log.submitted resumed.1).map (fun t => t.operation.name) =
      ["preorder", "domain_register"] := by decide +kernel
  obtain ⟨t, ht, -⟩ : ∃ t ∈ Log.submitted resumed.1, t.operation.name = "preorder" := by
    apply List.mem_map.mp
    rw [hnames]
    simp
  have hstopped := FlowRun.Drains.here.step stopping_stops (Nat.le_refl _)
  have htaken := hstopped.step .settled (Nat.le_succ _)
  rw [settle_stopped] at htaken
  obtain ⟨before, answer, after, hlog⟩ := Log.split_of_submitted ht
  have hwork := reaches_resumed
  have hadmissible := admissible_resumed
  rw [hlog] at hwork hadmissible
  obtain ⟨f, next, hbefore, -⟩ := hwork.split
  obtain ⟨later, run, hdrains, hbusy, -⟩ := htaken.works rfl hbefore hadmissible.of_append
  exact ⟨_, run, f, t, next, hdrains, hbusy, by simp [History.exchanges]⟩

end Sample

open Sample in
/-- A flow that a waiting command takes up again submits only after its flag was cleared. -/
theorem FlowRun.paused_flow_submits_nothing_resumed : ∃ later run f t next,
    (FlowRun.launch flow).Reaches [] waiting ∧ stopping.Reaches later run ∧
      run.activity = .busy (some 0) (.ask f (.submit t) next) ∧
      ⟨.clearFlag, ()⟩ ∈ later.exchanges := by
  obtain ⟨later, run, f, t, next, hdrains, hsubmits, hsome⟩ := exists_resumed
  refine ⟨later, run, f, t, next, reaches_waiting, hdrains.reaches, hsubmits, ?_⟩
  rcases (FlowRun.paused_flow_submits_nothing reaches_waiting).1 later run (some 0) f t next
    hdrains.reaches hsubmits with ⟨hnone, -⟩ | hcleared
  · exact absurd hnone hsome
  · exact hcleared

open Sample in
/-- A flow is sent a command to resume, is paused and is sent nothing more; when the call that was under
way has returned, it submits. -/
theorem FlowRun.paused_flow_submits : ∃ later run f t next,
    (FlowRun.launch flow).Reaches [] waiting ∧ waiting.Step [] stopping ∧
      stopping.Drains later run ∧ later.exchanges ≠ [] ∧
      run.activity = .busy (some 0) (.ask f (.submit t) next) := by
  obtain ⟨later, run, f, t, next, hdrains, hsubmits, hsome⟩ := exists_resumed
  exact ⟨later, run, f, t, next, reaches_waiting, .paused, hdrains, hsome, hsubmits⟩

end Enrolment
