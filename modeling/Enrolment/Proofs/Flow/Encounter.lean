import Enrolment.Proofs.Platform.Service

/-!
A flow and the platform that answers it.

They take steps together: the platform answers what the flow asks for, or the flow goes on by itself. A
goal is come to if some step can be taken until it holds, and it holds in the end whatever steps are
taken.
-/

namespace Enrolment

open Simulation

namespace FlowRun

variable [Suite]

/-- A flow that is done with a command goes on. -/
theorem settle_ne_of_done {run : FlowRun} {ticket : Option Nat} {f : Flow} {reply : Reply}
    (hdone : run.activity = .busy ticket (.done f reply)) : run.settle ≠ run := by
  intro heq
  cases hqueue : run.queue with
  | nil =>
    have hactivity := congrArg FlowRun.activity heq
    rw [hdone] at hactivity
    cases hheld : run.isHeld <;> simp [settle, next, finish, hdone, hqueue, hheld] at hactivity
  | cons waiting rest =>
    have hlength := congrArg (fun run => run.queue.length) heq
    simp [settle, next, finish, hdone, hqueue] at hlength

/-- An idle flow goes on if a command waits. -/
theorem settle_ne_of_queue {run : FlowRun} {f : Flow} {waiting : Nat × Command}
    {rest : List (Nat × Command)} (hidle : run.activity = .idle f)
    (hqueue : run.queue = waiting :: rest) : run.settle ≠ run := by
  intro heq
  have hlength := congrArg (fun run => run.queue.length) heq
  simp [settle, next, hidle, hqueue] at hlength

end FlowRun

structure Encounter [Suite] where
  run : FlowRun
  platform : Platform

namespace Encounter

variable [Suite]

/-- What a flow and its platform do next, if nobody else does anything to the flow. -/
inductive Step (x : Encounter) : Encounter → Prop where
  | answered {ticket : Option Nat} {f : Flow} {q : Request} {next : q.Answer → Task Flow Reply}
      (answer : q.Answer) {p : Platform} (hasked : x.run.activity = .busy ticket (.ask f q next))
      (hanswers : x.platform.Answers x.run.isCancelled q answer p) :
      Step x ⟨{ x.run with
        activity := .busy ticket (next answer)
        isCancelled := q.flagAfter x.run.isCancelled }, p⟩
  /-- A command is finished, or the next one begun. -/
  | settled (hmoves : x.run.settle ≠ x.run) : Step x ⟨x.run.settle, x.platform⟩

inductive ComesTo (goal : Encounter → Prop) : Encounter → Prop where
  | now {x : Encounter} (h : goal x) : ComesTo goal x
  | later {x y : Encounter} (hgoes : x.Step y) (hleads : ∀ z, x.Step z → ComesTo goal z) :
      ComesTo goal x

variable {x y : Encounter} {mid goal : Encounter → Prop}

theorem ComesTo.trans (h : ComesTo mid x) (hmid : ∀ y, mid y → ComesTo goal y) :
    ComesTo goal x := by
  induction h with
  | now h => exact hmid _ h
  | later hgoes _ ih => exact .later hgoes ih

/-- What every step keeps holds when a goal is come to. -/
theorem ComesTo.keeps {kept : Encounter → Prop} (h : ComesTo goal x) (hx : kept x)
    (hstep : ∀ x y, kept x → x.Step y → kept y) : ComesTo (fun y => goal y ∧ kept y) x := by
  induction h with
  | now h => exact .now ⟨h, hx⟩
  | later hgoes _ ih => exact .later hgoes fun z hz => ih z hz (hstep _ _ hx hz)

/-- A flow that meets a platform is a run of the flow. -/
theorem Step.run (h : x.Step y) : ∃ events, x.run.Step events y.run := by
  cases h with
  | answered answer hasked hanswers =>
    exact ⟨_, .answered answer hasked hanswers.admits⟩
  | settled => exact ⟨_, .settled⟩

/-- Work that concludes comes to its end, with what holds there. The flag is not set meanwhile. -/
theorem comesTo_done {post : Bool → Platform → Flow → Reply → Prop} {ticket : Option Nat}
    {task : Task Flow Reply} (hbusy : x.run.activity = .busy ticket task)
    (h : task.Concludes post x.run.isCancelled x.platform) :
    ComesTo (fun y => ∃ f reply flag, y.run =
        { x.run with activity := .busy ticket (.done f reply), isCancelled := flag } ∧
      (flag = true → x.run.isCancelled = true) ∧ post flag y.platform f reply) x := by
  induction task generalizing x with
  | done f reply =>
    refine .now ⟨f, reply, x.run.isCancelled, ?_, id, h⟩
    rw [← hbusy]
  | ask f q next ih =>
    obtain ⟨⟨answer, p, hanswer⟩, hnext⟩ := h x.run.isCancelled id
    refine .later (.answered answer hbusy hanswer) ?_
    rintro z (⟨answer, hasked, hanswer⟩ | hmoves)
    · rw [hbusy] at hasked
      cases hasked
      refine (ih answer rfl (hnext answer _ hanswer)).trans ?_
      rintro y ⟨f', reply, flag, hrun, hflag, hpost⟩
      refine .now ⟨f', reply, flag, hrun, ?_, hpost⟩
      intro hset
      have hkept := hflag hset
      cases q with
      | clearFlag => cases hkept
      | _ => exact hkept
    · exact absurd (by rw [FlowRun.settle, hbusy]) hmoves

end Encounter

namespace Simulation

variable [Suite]

/-- Surroundings that learn depths from the platform answer as the platform may. -/
theorem Surroundings.answers_of_answer? {s s' : Surroundings} {flag flag' : Bool} {made : Nat}
    {q : Request} {answer : q.Answer} (hsource : s.depthSource = .platform)
    (h : s.answer? flag made q = some (answer, flag', s')) :
    s.platform.Answers flag q answer s'.platform ∧ s'.depthSource = .platform := by
  -- what the platform is asked for is answered by the platform
  have hact {f : Platform → q.Answer × Platform} {due : Prop} [Decidable due]
      (h : (if due then some ((s.act f).1, flag, (s.act f).2) else none) =
        some (answer, flag', s')) :
      f s.platform = (answer, s'.platform) ∧ s'.depthSource = .platform := by
    split at h
    · obtain ⟨rfl, -, rfl⟩ : (s.act f).1 = answer ∧ flag = flag' ∧ (s.act f).2 = s' := by
        simpa using h
      exact ⟨rfl, hsource⟩
    · cases h
  cases q with
  | isCancelled =>
    obtain ⟨rfl, -, rfl⟩ : flag = answer ∧ flag = flag' ∧ s = s' := by
      simpa [Surroundings.answer?] using h
    exact ⟨⟨rfl, rfl⟩, hsource⟩
  | clearFlag =>
    obtain ⟨-, rfl⟩ : false = flag' ∧ s = s' := by simpa [Surroundings.answer?] using h
    exact ⟨rfl, hsource⟩
  | pause millis =>
    dsimp only [Surroundings.answer?] at h
    split at h
    next hset =>
      obtain ⟨rfl, -, rfl⟩ : true = answer ∧ flag = flag' ∧ s = s' := by simpa using h
      exact ⟨⟨fun _ => hset, rfl⟩, hsource⟩
    next =>
      split at h
      · obtain ⟨rfl, -, rfl⟩ : false = answer ∧ flag = flag' ∧ s = s' := by simpa using h
        exact ⟨⟨fun hset => absurd hset Bool.false_ne_true, rfl⟩, hsource⟩
      · cases h
  | awaitDepth tx required =>
    dsimp only [Surroundings.answer?] at h
    split at h
    next hset =>
      obtain ⟨rfl, -, rfl⟩ : none = answer ∧ flag = flag' ∧ s = s' := by simpa using h
      exact ⟨⟨rfl, hset⟩, hsource⟩
    next =>
      obtain ⟨known, hknown, heq⟩ := Option.map_eq_some_iff.mp h
      obtain ⟨rfl, -, rfl⟩ : some known = answer ∧ flag = flag' ∧ s = s' := by simpa using heq
      simp only [Surroundings.deepEnough?, Surroundings.depth, hsource] at hknown
      split at hknown
      next hdeep =>
        obtain rfl := Option.some.inj hknown
        exact ⟨⟨rfl, rfl, hdeep⟩, hsource⟩
      next => cases hknown
  | drawSalt label =>
    obtain ⟨-, -, rfl⟩ : saltOf s.draws = answer ∧ flag = flag' ∧ _ = s' := by
      simpa [Surroundings.answer?] using h
    exact ⟨rfl, hsource⟩
  | time =>
    obtain ⟨-, -, rfl⟩ : Surroundings.date = answer ∧ flag = flag' ∧ s = s' := by
      simpa [Surroundings.answer?] using h
    exact ⟨rfl, hsource⟩
  | submit t =>
    obtain ⟨hanswer, hsource'⟩ := hact (f := (·.submit t Surroundings.date)) h
    exact ⟨⟨_, hanswer⟩, hsource'⟩
  | findIdentity id => exact hact (f := (·.findIdentity id)) h
  | findDocuments kind filter => exact hact (f := (·.findDocuments kind filter)) h

variable {kept : Encounter → Prop}

theorem Surroundings.run_keeps (hkept : ∀ x y, kept x → x.Step y → kept y) {s : Surroundings}
    (hsource : s.depthSource = .platform) {run : FlowRun} {ticket : Option Nat}
    {task : Task Flow Reply} (hbusy : run.activity = .busy ticket task) (made : Nat)
    (h : kept ⟨run, s.platform⟩) :
    kept ⟨{ run with
      activity := .busy ticket (s.run run.isCancelled made task).1.task
      isCancelled := (s.run run.isCancelled made task).1.flag },
        (s.run run.isCancelled made task).2.platform⟩ ∧
      (s.run run.isCancelled made task).2.depthSource = .platform := by
  have hsame {run : FlowRun} {task : Task Flow Reply} (hbusy : run.activity = .busy ticket task) :
      { run with activity := .busy ticket task, isCancelled := run.isCancelled } = run := by
    rw [← hbusy]
  induction task generalizing s run made with
  | done f reply =>
    refine ⟨?_, hsource⟩
    unfold Surroundings.run
    rwa [hsame hbusy]
  | ask f q next ih =>
    unfold Surroundings.run
    cases hanswer : s.answer? run.isCancelled made q with
    | none =>
      refine ⟨?_, hsource⟩
      dsimp only
      rwa [hsame hbusy]
    | some answered =>
      obtain ⟨answer, flag', s'⟩ := answered
      obtain ⟨-, rfl⟩ := Surroundings.answer?_eq_some hanswer
      obtain ⟨hanswers, hsource'⟩ := Surroundings.answers_of_answer? hsource hanswer
      have hnext := hkept _ _ h (.answered answer hbusy hanswers)
      exact ih answer hsource' rfl s'.now hnext

/-- What steps keep is kept by a flow that goes on in a simulated world. -/
theorem World.proceed_keeps (hkept : ∀ x y, kept x → x.Step y → kept y) {s : Surroundings}
    (hsource : s.depthSource = .platform) (made : Option Nat) {run : FlowRun} (commands : Nat)
    (h : kept ⟨run, s.platform⟩) :
    kept ⟨(proceed s made run commands).1, (proceed s made run commands).2.2.platform⟩ := by
  induction commands generalizing s made run with
  | zero => exact h
  | succ commands ih =>
    have hsettled : kept ⟨run.settle, s.platform⟩ := by
      by_cases hmoves : run.settle = run
      · rwa [hmoves]
      · exact hkept _ _ h (.settled hmoves)
    unfold proceed
    dsimp only
    cases hactivity : run.settle.activity with
    | busy ticket task =>
      obtain ⟨hworked, hsource'⟩ :=
        Surroundings.run_keeps hkept hsource hactivity (made.getD s.now) hsettled
      dsimp only
      split
      · exact hworked
      · exact ih hsource' none hworked
    | idle f => exact hsettled
    | ended => exact hsettled

end Simulation

end Enrolment
