import Enrolment.Proofs.Flow.Ending
import Enrolment.Proofs.Pausing.Flows

/-!
What pausing and resuming a flow does to its outcome. However often a flow is paused and told to resume,
it goes on from where it was: nothing is submitted twice, and the last resumption brings it to the
outcome that it would have had.
-/

namespace Enrolment

open Simulation

section

variable [Suite]

namespace Encounter

/-- What becomes of an encounter whose flow is paused and told to resume, at any times. After it was
paused it is owed a resumption. -/
inductive Interrupted (start : Encounter) : (owed : Bool) → Encounter → Prop where
  | begun : Interrupted start false start
  | worked {owed : Bool} {x y : Encounter} (h : Interrupted start owed x) (hstep : x.Step y) :
      Interrupted start owed y
  | paused {owed : Bool} {x : Encounter} (h : Interrupted start owed x) :
      Interrupted start true { x with run := { x.run with isCancelled := true } }
  | resumed {owed : Bool} {x : Encounter} {run : FlowRun} (ticket : Nat)
      (h : Interrupted start owed x) (hsent : x.run.send? ticket .resume = some run) :
      Interrupted start false { x with run }

/-- A flow that is paused and resumed is a run of it. -/
theorem Interrupted.reaches {start x : Encounter} {owed : Bool} (h : start.Interrupted owed x) :
    ∃ history, start.run.Reaches history x.run := by
  induction h with
  | begun => exact ⟨[], .here⟩
  | worked _ hstep ih =>
    obtain ⟨history, hreaches⟩ := ih
    obtain ⟨events, hrun⟩ := hstep.run
    exact ⟨_, hreaches.step hrun⟩
  | paused _ ih =>
    obtain ⟨history, hreaches⟩ := ih
    exact ⟨_, hreaches.step .paused⟩
  | resumed ticket _ hsent ih =>
    obtain ⟨history, hreaches⟩ := ih
    exact ⟨_, hreaches.step (.sent ticket .resume hsent)⟩

end Encounter

namespace Scene

/-- Whether there are looks enough for everything that is waited for. -/
def InTime (scene : Scene) (schedule? : Option Schedule) (identity preorder domain : Option Nat) :
    Prop :=
  endsWithin (schedule?.getD scene.settings.identity).attempts.toNat identity = true ∧
    endsWithin (schedule?.getD scene.settings.preorder).attempts.toNat preorder = true ∧
    endsWithin (schedule?.getD scene.settings.domain).attempts.toNat domain = true

/-- The outcome of a flow that completes. -/
def completion (scene : Scene) : FlowOutcome :=
  ⟨.completed scene.id,
    if scene.requests = [] then none else some (.completed (scene.names.map scene.report))⟩

/-- Each transition was accepted once, and the names were revealed under the salts that they had been
committed to with. -/
def IsDone (scene : Scene) (p : Platform) : Prop :=
  if scene.requests = [] then scene.Accepted [scene.creation] p
  else
    ∃ salt entries, scene.Reveals salt entries ∧
      scene.Accepted [scene.creation, .preorder scene.id (scene.commitments salt),
        .registerDomains scene.id entries] p

/-- A flow under way none of whose waits is too long. -/
def OnTime (scene : Scene) (f : Flow) (p : Platform) : Prop :=
  ∃ identity preorder domain, scene.InTime f.schedule identity preorder domain ∧
    scene.Drives identity preorder domain f p

/-- What holds when a command was carried out that drives a flow: it was paused, or it is done. -/
def Worked (scene : Scene) (flag : Bool) (p : Platform) (f : Flow) (reply : Reply) : Prop :=
  scene.OnTime f p ∧
    (reply = .flow none ∧ flag = true ∨ reply = .flow (some scene.completion) ∧ scene.IsDone p)

/-- A flow that has delivered its first outcome, and replied last, that it completed. -/
def HasCompleted (scene : Scene) (run : FlowRun) : Prop :=
  run.outcome = some scene.completion ∧
    ∀ reply ∈ run.replies.getLast?, reply.2 = .flow (some scene.completion)

/-- A flow that is held, is told nothing but to resume, and is on its way or done. -/
structure Steady (scene : Scene) (owed : Bool) (x : Encounter) : Prop where
  isHeld : x.run.isHeld = true
  resumes : ∀ waiting ∈ x.run.queue, waiting.2 = .resume
  outcome : ∀ outcome, x.run.outcome = some outcome → outcome = scene.completion
  activity : match x.run.activity with
    | .busy ticket task => task.Concludes scene.Worked x.run.isCancelled x.platform ∧
      (ticket = none → x.run.replies = [])
    | .idle f => scene.OnTime f x.platform ∧
      (x.run.isCancelled = true ∨ scene.HasCompleted x.run ∧ scene.IsDone x.platform)
    | .ended => False
  /-- What is not owed to a flow that is paused is on its way. -/
  owing : owed = false → x.run.isCancelled = false ∨ x.run.queue ≠ [] ∨ x.run.ClearsNext

variable {scene : Scene} {f : Flow} {p : Platform} {flag owed : Bool} {wi wp wd : Option Nat}
  {schedule? : Option Schedule} {x y : Encounter}

theorem InTime.waitAfter (h : scene.InTime schedule? wi wp wd) (passed passed' passed'' : Nat) :
    scene.InTime schedule? (waitAfter passed wi) (waitAfter passed' wp) (waitAfter passed'' wd) :=
  ⟨endsWithin_waitAfter passed h.1, endsWithin_waitAfter passed' h.2.1,
    endsWithin_waitAfter passed'' h.2.2⟩

/-- With looks enough a flow completes. -/
theorem Ends.eq_completion {outcome : FlowOutcome} (h : scene.Ends schedule? wi wp wd p outcome)
    (htime : scene.InTime schedule? wi wp wd) : outcome = scene.completion ∧ scene.IsDone p := by
  obtain ⟨hidentity, hpreorder, hdomain⟩ := htime
  dsimp only [Ends] at h
  rw [if_pos hidentity] at h
  unfold completion IsDone
  split at h
  next hnone =>
    rw [if_pos hnone, if_pos hnone]
    exact h
  next hsome =>
    obtain ⟨usernames, rfl, salt, hnames⟩ := h
    rw [if_pos hpreorder] at hnames
    obtain ⟨entries, hreveals, haccepted, rfl⟩ := hnames
    rw [if_neg hsome, if_neg hsome, if_pos hdomain]
    exact ⟨rfl, salt, entries, hreveals, haccepted⟩

theorem OnTime.concludes_drive (h : scene.OnTime f p) :
    (Flow.drive f).Concludes (fun flag p f' result => scene.Worked flag p f' (.flow result)) flag p := by
  obtain ⟨wi, wp, wd, htime, hdrives⟩ := h
  apply hdrives.concludes_drive.mono
  rintro flag p f' result ⟨hschedule, hleft, hended⟩
  have honTime (hall : result.all FlowOutcome.isCompleted = true) : scene.OnTime f' p := by
    obtain ⟨passed, passed', passed'', hstill⟩ := hleft hall
    exact ⟨_, _, _, hschedule ▸ htime.waitAfter passed passed' passed'', hstill⟩
  match result with
  | none => exact ⟨honTime rfl, .inl ⟨rfl, hended⟩⟩
  | some outcome =>
    rw [hschedule] at hended
    obtain ⟨rfl, hdone⟩ := hended.eq_completion htime
    refine ⟨honTime ?_, .inr ⟨rfl, hdone⟩⟩
    unfold completion
    split <;> rfl

/-- A flow that starts is on its way. -/
theorem OnTime.concludes_start (h : scene.OnTime f p) :
    (Flow.perform .start f).Concludes scene.Worked flag p :=
  h.concludes_drive.bind fun _ _ _ _ hworked => hworked

/-- A flow that resumes goes on with its flag cleared. -/
theorem OnTime.concludes_resume (h : scene.OnTime f p) :
    (Flow.perform .resume f).Concludes scene.Worked flag p := by
  have hperform : Flow.perform .resume f = .ask f .clearFlag fun _ => Flow.perform .start f := rfl
  rw [hperform]
  intro new _
  refine ⟨⟨(), p, rfl⟩, ?_⟩
  rintro ⟨⟩ p' rfl
  exact h.concludes_start

section Steadiness

/-- A steady flow that rests goes on to its next command. -/
theorem Steady.next {run : FlowRun} (h : scene.Steady owed ⟨run, p⟩)
    (hidle : run.activity = .idle f) : scene.Steady owed ⟨run.next f, p⟩ := by
  obtain ⟨hheld, hresumes, houtcome, hactivity, howing⟩ := h
  dsimp only at hheld hresumes houtcome hactivity howing
  rw [hidle] at hactivity
  unfold FlowRun.next
  split
  next ticket command rest hqueue =>
    obtain rfl : command = .resume := hresumes (ticket, command) (by simp [hqueue])
    refine ⟨hheld, ?_, houtcome, ⟨hactivity.1.concludes_resume, nofun⟩,
      fun _ => .inr (.inr ⟨_, _, _, rfl⟩)⟩
    intro waiting hwaiting
    exact hresumes waiting (by simp [hqueue, hwaiting])
  next hqueue =>
    rw [if_pos hheld]
    refine ⟨hheld, hresumes, houtcome, ?_, howing⟩
    dsimp only
    rw [hidle]
    exact hactivity

/-- A steady flow that has carried out a command rests. -/
theorem Steady.finish {run : FlowRun} {ticket : Option Nat} {reply : Reply}
    (h : scene.Steady owed ⟨run, p⟩) (hdone : run.activity = .busy ticket (.done f reply)) :
    scene.Steady owed ⟨run.finish ticket f reply, p⟩ := by
  obtain ⟨hheld, hresumes, houtcome, hactivity, howing⟩ := h
  dsimp only at hheld hresumes houtcome hactivity howing
  rw [hdone] at hactivity
  obtain ⟨⟨honTime, hworked⟩, hfirst⟩ :
      scene.Worked run.isCancelled p f reply ∧ (ticket = none → run.replies = []) := hactivity
  have hcompleted (hreply : reply = .flow (some scene.completion)) :
      scene.HasCompleted (run.finish ticket f reply) := by
    constructor
    · -- the first outcome is kept, and a later one is the same
      cases hbefore : run.outcome with
      | none => simp [FlowRun.finish, hbefore, hreply, Reply.outcome?]
      | some outcome => simp [FlowRun.finish, hbefore, houtcome outcome hbefore]
    · cases ticket with
      | none => simp [FlowRun.finish, hfirst rfl]
      | some ticket => simp [FlowRun.finish, hreply]
  refine ⟨hheld, hresumes, ?_, ⟨honTime, ?_⟩, ?_⟩
  · intro outcome hafter
    rcases hworked with ⟨rfl, -⟩ | ⟨hreply, -⟩
    · exact houtcome outcome (by simpa [FlowRun.finish, Reply.outcome?] using hafter)
    · exact Option.some.inj (hafter.symm.trans (hcompleted hreply).1)
  · rcases hworked with ⟨-, hset⟩ | ⟨hreply, hisDone⟩
    · exact .inl hset
    · exact .inr ⟨hcompleted hreply, hisDone⟩
  · intro hpaid
    rcases howing hpaid with hclear | hwaits | ⟨ticket', f', next, hbusy⟩
    · exact .inl hclear
    · exact .inr (.inl hwaits)
    · rw [hdone] at hbusy
      cases hbusy

theorem Steady.settle (h : scene.Steady owed x) : scene.Steady owed ⟨x.run.settle, x.platform⟩ := by
  unfold FlowRun.settle
  split
  next ticket f reply hdone => exact (h.finish hdone).next rfl
  next f hidle => exact h.next hidle
  next => exact h

/-- Every step keeps a flow steady. -/
theorem Steady.step (h : scene.Steady owed x) (hstep : x.Step y) : scene.Steady owed y := by
  cases hstep with
  | @answered ticket f q next answer p hasked hanswers =>
    obtain ⟨hheld, hresumes, houtcome, hactivity, howing⟩ := h
    rw [hasked] at hactivity
    refine ⟨hheld, hresumes, houtcome,
      ⟨(hactivity.1 _ fun hset => hset).2 answer p hanswers, hactivity.2⟩, ?_⟩
    intro hpaid
    rcases howing hpaid with hclear | hwaits | ⟨ticket', f', next', hclears⟩
    · refine .inl ?_
      cases q with
      | clearFlag => rfl
      | _ => exact hclear
    · exact .inr (.inl hwaits)
    · rw [hasked] at hclears
      cases hclears
      exact .inl rfl
  | settled hmoves => exact h.settle

theorem Steady.paused (h : scene.Steady owed x) :
    scene.Steady true { x with run := { x.run with isCancelled := true } } := by
  obtain ⟨hheld, hresumes, houtcome, hactivity, -⟩ := h
  refine ⟨hheld, hresumes, houtcome, ?_, nofun⟩
  dsimp only
  split
  next ticket task hbusy =>
    rw [hbusy] at hactivity
    refine ⟨hactivity.1.set ?_, hactivity.2⟩
    rintro p f reply ⟨honTime, hworked⟩
    exact ⟨honTime, hworked.imp_left fun hpaused => ⟨hpaused.1, rfl⟩⟩
  next f hidle =>
    rw [hidle] at hactivity
    exact ⟨hactivity.1, .inl rfl⟩
  next hended =>
    rw [hended] at hactivity
    exact hactivity

theorem Steady.resumed {run : FlowRun} {ticket : Nat} (h : scene.Steady owed x)
    (hsent : x.run.send? ticket .resume = some run) : scene.Steady false { x with run } := by
  unfold FlowRun.send? at hsent
  split at hsent
  · obtain rfl := Option.some.inj hsent
    obtain ⟨hheld, hresumes, houtcome, hactivity, -⟩ := h
    refine ⟨hheld, ?_, houtcome, hactivity, fun _ => .inr (.inl (by simp))⟩
    intro waiting hwaiting
    rcases List.mem_append.mp hwaiting with hold | hnew
    · exact hresumes waiting hold
    · rw [List.mem_singleton.mp hnew]
  · cases hsent

/-- However a flow is paused and resumed, it stays steady. -/
theorem Steady.interrupted {start : Encounter} (h : start.Interrupted owed x)
    (hstart : scene.Steady false start) : scene.Steady owed x := by
  induction h with
  | begun => exact hstart
  | worked _ hstep ih => exact ih.step hstep
  | paused _ ih => exact ih.paused
  | resumed ticket _ hsent ih => exact ih.resumed hsent

end Steadiness

/-- A flow at the end of its work. -/
def HasEnded (scene : Scene) (x : Encounter) : Prop :=
  (∃ f, x.run.activity = .idle f) ∧ x.run.queue = [] ∧ scene.HasCompleted x.run ∧
    scene.IsDone x.platform

/-- A steady flow that is owed nothing has ended if it rests and no command waits. -/
theorem Steady.hasEnded (h : scene.Steady false x) (hidle : x.run.activity = .idle f)
    (hqueue : x.run.queue = []) : scene.HasEnded x := by
  have hactivity := h.activity
  rw [hidle] at hactivity
  have hclear : x.run.isCancelled = false := by
    rcases h.owing rfl with hclear | hwaits | ⟨ticket, f', next, hbusy⟩
    · exact hclear
    · exact absurd hqueue hwaits
    · rw [hidle] at hbusy
      cases hbusy
  rcases hactivity.2 with hset | hdone
  · rw [hclear] at hset
    cases hset
  · exact ⟨⟨f, hidle⟩, hqueue, hdone⟩

/-- A steady flow that is busy carries its command out, and then takes up the next one or rests. -/
theorem Steady.comesTo_next {ticket : Option Nat} {task : Task Flow Reply}
    (h : scene.Steady false x) (hbusy : x.run.activity = .busy ticket task) :
    Encounter.ComesTo (fun y => scene.Steady false y ∧
      match x.run.queue with
      | [] => (∃ f, y.run.activity = .idle f) ∧ y.run.queue = []
      | _ :: rest => (∃ ticket task, y.run.activity = .busy ticket task) ∧ y.run.queue = rest) x := by
  have hactivity := h.activity
  rw [hbusy] at hactivity
  refine ((Encounter.comesTo_done hbusy hactivity.1).keeps h fun _ _ => Steady.step).trans ?_
  rintro ⟨run, p⟩ ⟨⟨f, reply, flag, hrun, -⟩, hdone⟩
  dsimp only at hrun
  subst hrun
  refine .later (.settled (FlowRun.settle_ne_of_done rfl)) ?_
  rintro z (⟨answer, hasked, -⟩ | -)
  · cases hasked
  refine .now ⟨hdone.settle, ?_⟩
  cases hqueue : x.run.queue with
  | nil => simp [FlowRun.settle, FlowRun.finish, FlowRun.next, h.isHeld]
  | cons waiting rest => simp [FlowRun.settle, FlowRun.finish, FlowRun.next]

/-- A steady flow that is busy and owed nothing comes to its end, through the commands that wait. -/
theorem Steady.comesTo_end_of_busy {ticket : Option Nat} {task : Task Flow Reply}
    (h : scene.Steady false x) (hbusy : x.run.activity = .busy ticket task) :
    Encounter.ComesTo scene.HasEnded x := by
  generalize hqueue : x.run.queue = queue
  induction queue generalizing x ticket task with
  | nil =>
    refine (h.comesTo_next hbusy).trans ?_
    rintro y ⟨hsteady, hnext⟩
    rw [hqueue] at hnext
    obtain ⟨⟨f, hidle⟩, hempty⟩ := hnext
    exact .now (hsteady.hasEnded hidle hempty)
  | cons waiting rest ih =>
    refine (h.comesTo_next hbusy).trans ?_
    rintro y ⟨hsteady, hnext⟩
    rw [hqueue] at hnext
    obtain ⟨⟨ticket', task', hbusy'⟩, hrest⟩ := hnext
    exact ih hsteady hbusy' hrest

/-- A steady flow that is owed nothing comes to its end. -/
theorem Steady.comesTo_end (h : scene.Steady false x) :
    Encounter.ComesTo scene.HasEnded x := by
  cases hactivity : x.run.activity with
  | busy ticket task => exact h.comesTo_end_of_busy hactivity
  | idle f =>
    cases hqueue : x.run.queue with
    | nil => exact .now (h.hasEnded hactivity hqueue)
    | cons waiting rest =>
      refine .later (.settled (FlowRun.settle_ne_of_queue hactivity hqueue)) ?_
      rintro z (⟨answer, hasked, -⟩ | -)
      · rw [hactivity] at hasked
        cases hasked
      · apply h.settle.comesTo_end_of_busy
        rw [FlowRun.settle, hactivity]
        dsimp only
        rw [FlowRun.next, hqueue]
  | ended =>
    have hended := h.activity
    rw [hactivity] at hended
    exact hended.elim

/-- However a flow is paused and resumed that is started for a new identity and has looks enough for
what it waits for, it delivers no outcome but the completed one. When it is owed no resumption it comes
to its end, and by then each of its transitions was accepted once. -/
theorem interrupted_flow_completes {c : Coordinator} {transaction : Transaction} {ledger : Ledger}
    {schedule? : Option Schedule} (scene : Scene) (hsettings : c.settings = scene.settings)
    (hlock : c.ledger.observe transaction = .ok (scene.lock, ledger))
    (hnew : c.registry.contains scene.id = false)
    (hvalid : ∀ schedule ∈ schedule?, schedule.validate = .ok ())
    (htime : scene.InTime schedule? scene.before.behaviour.identityHidden
      scene.before.behaviour.preorderHidden scene.before.behaviour.domainHidden) :
    ∃ position c' run,
      c.start transaction scene.burnKey scene.signingKey scene.requests schedule? =
        (.ok position, c') ∧
      c'.run? position = some run ∧
      ∀ owed x, Encounter.Interrupted ⟨run, scene.before⟩ owed x →
        (∀ outcome, x.run.outcome = some outcome → outcome = scene.completion) ∧
        (owed = false → Encounter.ComesTo scene.HasEnded x) := by
  obtain ⟨position, c', hstart, hrun⟩ := exists_start hsettings hlock hnew hvalid
  refine ⟨position, c', _, hstart, hrun, ?_⟩
  have honTime : scene.OnTime (scene.flow schedule?) scene.before :=
    ⟨_, _, _, htime, scene.drives_flow hvalid⟩
  have hsteady : scene.Steady false ⟨.launch (scene.flow schedule?), scene.before⟩ :=
    ⟨rfl, by simp [FlowRun.launch], nofun, ⟨honTime.concludes_start, fun _ => rfl⟩,
      fun _ => .inl rfl⟩
  intro owed x hinterrupted
  have hstays := Steady.interrupted hinterrupted hsteady
  refine ⟨hstays.outcome, ?_⟩
  rintro rfl
  exact hstays.comesTo_end

end Scene

end

open Rehearsal in
/-- A flow that is paused at once and then told to resume registers its name. -/
theorem Scene.interrupted_flow_completes_alice : ∃ run x,
    started.run? 0 = some run ∧ Encounter.Interrupted ⟨run, scene.before⟩ false x ∧
      x.run.isCancelled = true ∧ x.run.queue = [(0, .resume)] ∧
      Encounter.ComesTo (fun y => y.run.outcome =
          some ⟨.completed Rehearsal.lock.identity, some (.completed ["alice"])⟩ ∧
        (y.platform.accepted.map fun t => t.operation.name) =
          ["identity_create", "preorder", "domain_register"]) x := by
  have htime : scene.InTime none scene.before.behaviour.identityHidden
      scene.before.behaviour.preorderHidden scene.before.behaviour.domainHidden :=
    ⟨by decide, by decide, by decide⟩
  obtain ⟨ledger, hlock⟩ := exists_observed
  obtain ⟨position, c', run, hstart, hrun, hends⟩ :=
    Scene.interrupted_flow_completes scene rfl hlock rfl (by simp) htime
  have hstarted : coordinator.start funding scene.burnKey scene.signingKey scene.requests none =
      (.ok 0, started) := rfl
  obtain ⟨⟩ := hstarted.symm.trans hstart
  obtain rfl : FlowRun.launch (scene.flow none) = run := Option.some.inj hrun
  have hresumed : Encounter.Interrupted ⟨.launch (scene.flow none), scene.before⟩ false
      ⟨{ FlowRun.launch (scene.flow none) with
        isCancelled := true
        queue := [(0, .resume)] }, scene.before⟩ :=
    .resumed 0 (.paused .begun) rfl
  refine ⟨_, _, rfl, hresumed, rfl, rfl, ((hends false _ hresumed).2 rfl).trans ?_⟩
  rintro y ⟨-, -, ⟨houtcome, -⟩, hdone⟩
  dsimp only [Scene.IsDone] at hdone
  rw [if_neg (by decide)] at hdone
  obtain ⟨salt, entries, -, haccepted⟩ := hdone
  exact .now ⟨houtcome, haccepted.map_name⟩

namespace Sample

/-- What a simulated world makes of a flow that is left alone with a platform. -/
def leftAlone (flow : Flow) (p : Platform) : Encounter :=
  let left := World.proceed ⟨0, p, .platform, 0⟩ none (.launch flow) 2
  ⟨left.1, left.2.2.platform⟩

theorem interrupted_leftAlone (flow : Flow) (p : Platform) :
    Encounter.Interrupted ⟨.launch flow, p⟩ false (leftAlone flow p) :=
  World.proceed_keeps (fun _ _ h hstep => h.worked hstep) rfl none 2 .begun

end Sample

open Sample in
/-- On platforms that show everything at once, a flow fails whose key does not match its lock, and a flow
whose identity exists already completes without creating it. -/
theorem Encounter.interrupted_flow_creates_nothing :
    started.run? 0 = some (.launch flow) ∧
    (∃ x, Encounter.Interrupted ⟨.launch flow, .empty .instant⟩ false x ∧
      x.run.outcome =
        some ⟨.failed (.rejected "burn key does not match the funding record"), none⟩ ∧
      x.platform.accepted = []) ∧
    (coordinator.start funding signingKey signingKey [] none).2.run? 0 =
      some (.launch { flow with labels := [], schedule := none }) ∧
    ∃ x, Encounter.Interrupted ⟨.launch { flow with labels := [], schedule := none },
        (Platform.empty .instant).insertIdentity (.pending lock [])⟩ false x ∧
      x.run.outcome = some ⟨.completed lock.identity, none⟩ ∧
      x.platform.accepted = [] := by
  refine ⟨rfl, ⟨_, interrupted_leftAlone _ _, ?_, ?_⟩, rfl, ⟨_, interrupted_leftAlone _ _, ?_, ?_⟩⟩
  · decide +kernel
  · apply List.length_eq_zero_iff.mp
    decide +kernel
  · decide +kernel
  · apply List.length_eq_zero_iff.mp
    decide +kernel

end Enrolment
