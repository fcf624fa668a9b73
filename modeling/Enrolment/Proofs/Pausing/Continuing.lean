import Enrolment.Proofs.Flow.Commands
import Enrolment.Proofs.Pausing.Registrations
import Enrolment.Proofs.Usernames.Outcomes

/-!
What resuming a flow finishes. A flow remembers the names that it was started with, and these are what a
command to resume goes on with: unless it is paused again or fails, none of them is left on its way. The
names of other commands stay where they are, even if such a command was paused.
-/

namespace Enrolment

namespace UsernameRegistration

variable {r r' start formed looked : UsernameRegistration} {log later found : Log}
  {labels : List Label} {batch : List String} {requests : List String} [Suite] {name : String}

/-- Taking up the listed names leaves a claim where it is, or makes a registered one. -/
theorem Recovery.stateOf?_cases {result : Except RegistrationError (List String)}
    (h : Recovery log r later r' result) (name : String) :
    r'.stateOf? name = r.stateOf? name ∨ r'.stateOf? name = some .registered := by
  cases h with
  | unanswered => exact .inl rfl
  | answered documents now => exact stateOf?_adoptAll_cases documents now name

theorem Looked.stateOf?_cases (h : Looked labels log r found looked) (name : String) :
    looked.stateOf? name = r.stateOf? name ∨ looked.stateOf? name = some .registered := by
  unfold Looked at h
  split at h
  · obtain ⟨result, hrecovery⟩ := h
    exact hrecovery.stateOf?_cases name
  · exact .inl (by rw [h.2])

/-- A call leaves the names that it is not about where they are, or finds them registered. -/
theorem Registers.stateOf?_cases {outcome : Option UsernameOutcome}
    (h : Registers start labels log r later r' outcome)
    (hnodup : (labels.map Label.fullName).Nodup) (hname : name ∉ labels.map Label.fullName) :
    r'.stateOf? name = r.stateOf? name ∨ r'.stateOf? name = some .registered := by
  cases h with
  | @intro found formedLog later looked formed r' batch step hlooked _ _ henlisted _ _ hcarried =>
    have hbatch : batch.Nodup := henlisted.nodup hnodup
    obtain rfl := henlisted.batch_eq
    have hout : name ∉ (looked.openLabels labels).map Label.fullName :=
      fun hmem => hname (mem_map_openLabels.mp hmem).1
    rw [hcarried.stateOf?_eq hbatch hout, henlisted.stateOf?_eq, if_neg hout]
    exact hlooked.stateOf?_cases name

/-- A call that ends without failing leaves none of its names on its way. -/
theorem Registers.isFinal {outcome : UsernameOutcome}
    (h : Registers start labels log r later r' (some outcome)) (hkept : start.IsKept)
    (hlabels : ∀ l ∈ labels, l.IsReadable) (hnodup : (labels.map Label.fullName).Nodup)
    (hfailed : outcome.isFailed = false) (hname : name ∈ labels.map Label.fullName) :
    ∃ state, r'.stateOf? name = some state ∧ state.isFinal := by
  generalize hended : some outcome = ended at h
  cases h with
  | @intro found formedLog later looked formed r' batch step _ _ hformed henlisted _ _ hcarried =>
    have hbatch : batch.Nodup := henlisted.nodup hnodup
    have hends := henlisted.batchEnds (hformed.isKept hkept) hlabels hnodup hcarried
    obtain rfl := henlisted.batch_eq
    by_cases hmem : name ∈ (looked.openLabels labels).map Label.fullName
    · cases hends with
      | completed h => exact ⟨.registered, h name hmem, rfl⟩
      | timedOut h => exact ⟨.timedOut, h name hmem, rfl⟩
      | failed t reason =>
        obtain rfl := Option.some.inj hended
        cases hfailed
      | paused => cases hended
    · have hregistered : looked.stateOf? name = some .registered :=
        Decidable.byContradiction fun hne => hmem (mem_map_openLabels.mpr ⟨hname, hne⟩)
      refine ⟨.registered, ?_, rfl⟩
      rw [hcarried.stateOf?_eq hbatch hmem, henlisted.stateOf?_eq, if_neg hmem]
      exact hregistered

end UsernameRegistration

namespace Flow

variable [Suite] {f f' : Flow} {outcome : FlowOutcome} {command : Command} {reply : Reply}
  {name : String}

/-- Names are not turned to before the identity is registered. -/
def Awaits (f : Flow) : Prop :=
  f.identity.phase = .registered ∨ ∀ name, f.usernames.stateOf? name = none

theorem Driven.awaits {result : Option FlowOutcome} (h : f.Driven f' result) (hf : f.Awaits) :
    f'.Awaits := by
  have hcalled {r : IdentityRegistration} {outcome : Option IdentityOutcome}
      (hcalled : f.identity.Called r outcome) : Awaits { f with identity := r } := by
    rcases hf with hregistered | hnone
    · obtain ⟨rfl, -⟩ := hcalled.stays hregistered
      exact .inl hregistered
    · exact .inr hnone
  cases h with
  | paused h => exact hcalled h
  | ended h => exact hcalled h
  | named h hcompleted _ hnamed =>
    obtain ⟨es, -, hphase⟩ := h.ends
    rw [hnamed.frame]
    exact .inl (hphase _ rfl hcompleted)

theorem Performed.awaits {opening : IdentityRegistration} {first : UsernameRegistration}
    {older log : Log} (h : f.Performed command f' reply) (hopening : opening.IsOpening)
    (hcourse : f.OnCourse opening first older log) (hf : f.Awaits) : f'.Awaits := by
  cases h with
  | started h => exact h.awaits hf
  | restarted h =>
    apply h.awaits
    rcases hf with hregistered | hnone
    · have hsame : f.restarted = f := by
        simp [Flow.restarted, IdentityRegistration.restart, hregistered,
          IdentityPhase.isRestartable]
      rw [hsame]
      exact .inl hregistered
    · exact .inr hnone
  | resumed h => exact h.awaits hf
  | refused => exact hf
  | registered hregistered hnamed =>
    rw [hnamed.frame]
    exact .inl ((hcourse.identity.isRegistered_iff hopening).mp hregistered)

/-- Names that are registered without failing are not left on their way, and all others stay where they
are or are found registered. -/
theorem Named.finishes {labels : List String} {usernames : UsernameOutcome}
    (h : Named labels f f' (.ok (some usernames))) (hkept : f.usernames.IsKept)
    (hfailed : usernames.isFailed = false) :
    (f.usernames.settings.Names labels name →
      ∃ state, f'.usernames.stateOf? name = some state ∧ state.isFinal) ∧
    (¬f.usernames.settings.Names labels name →
      f'.usernames.stateOf? name = f.usernames.stateOf? name ∨
        f'.usernames.stateOf? name = some .registered) := by
  obtain ⟨looked, later, hlooked, hanswers⟩ := h.names
  obtain ⟨hsettings, hlookedKept, hcases⟩ :
      looked.settings = f.usernames.settings ∧ looked.IsKept ∧
        (looked.stateOf? name = f.usernames.stateOf? name ∨
          looked.stateOf? name = some .registered) := by
    rcases hlooked with rfl | ⟨found, answer, hrecovery⟩
    · exact ⟨rfl, hkept, .inl rfl⟩
    · have hcourse := hrecovery.course .begun
      exact ⟨congrArg (fun setup => setup.2.2) hcourse.setup_eq, hcourse.isKept hkept,
        hrecovery.stateOf?_cases name⟩
  unfold UsernameRegistration.Answers at hanswers
  split at hanswers
  next => cases hanswers.1
  next batch hread =>
    obtain ⟨outcome, heq, hregisters⟩ := hanswers
    obtain rfl := Except.ok.inj heq
    obtain ⟨hreadable, hnodup⟩ := UsernameRegistration.readBatch_eq_ok hread
    rw [← hsettings, ← UsernameRegistration.mem_readBatch_iff hread]
    constructor
    · exact hregisters.isFinal hlookedKept hreadable hnodup hfailed
    · intro hother
      rcases hregisters.stateOf?_cases hnodup hother with hsame | hregistered
      · rw [hsame]
        exact hcases
      · exact .inr hregistered

/-- Driving a flow to an outcome without failing finishes its own names. -/
theorem Driven.finishes (h : f.Driven f' (some outcome)) (hf : f.Awaits)
    (hkept : f.usernames.IsKept) (hfailed : outcome.isFailed = false) :
    (f.usernames.settings.Names f.labels name → ∀ state,
      f'.usernames.stateOf? name = some state → state.isFinal) ∧
    (¬f.usernames.settings.Names f.labels name →
      f'.usernames.stateOf? name = f.usernames.stateOf? name ∨
        f'.usernames.stateOf? name = some .registered) := by
  generalize hresult : some outcome = result at h
  cases h with
  | paused => cases hresult
  | @ended r identity hcalled hends =>
    obtain rfl := Option.some.inj hresult
    refine ⟨?_, fun _ => .inl rfl⟩
    rintro ⟨request, hrequest, -⟩ state hstate
    rcases hf with hregistered | hnone
    · -- a registered identity is reported as completed, so that there are no names
      obtain ⟨-, htimely⟩ := hcalled.stays hregistered
      cases identity with
      | completed id => simp [hends rfl] at hrequest
      | timedOut u => cases htimely _ rfl
      | failed e => cases hfailed
    · rw [hnone] at hstate
      cases hstate
  | @named r identity f' names hcalled hcompleted hlabels hnamed =>
    match names with
    | .ok none => cases hresult
    | .ok (some usernames) =>
      obtain rfl := Option.some.inj hresult
      have hnames : usernames.isFailed = false := by
        cases husernames : usernames.isFailed with
        | false => rfl
        | true => simp [FlowOutcome.isFailed, husernames] at hfailed
      obtain ⟨hown, hothers⟩ := @Named.finishes _ _ _ name _ _ hnamed hkept hnames
      refine ⟨fun hname state hstate => ?_, hothers⟩
      obtain ⟨state', hstate', hfinal⟩ := hown hname
      rw [hstate'] at hstate
      exact Option.some.inj hstate ▸ hfinal
    | .error e =>
      obtain rfl := Option.some.inj hresult
      simp [FlowOutcome.isFailed, Outcome.isFailed] at hfailed

end Flow

namespace Coordinator

variable [Suite] {c c' : Coordinator} {transaction : Transaction} {burnKey signingKey : SecretKey}
  {labels : List String} {schedule : Option Schedule} {position : Nat} {run₀ run : FlowRun}
  {history : History} {f f' : Flow} {es : Log} {outcome : FlowOutcome}

/-- A flow that rests and is told to resume goes on with the names that it was started with. If it is
not paused again and nothing fails, none of them is left on its way. All other names stay where they are
or are found to be registered, also those of a command that was paused. -/
theorem resumed_flow_finishes_own_names
    (hstart : c.start transaction burnKey signingKey labels schedule = (.ok position, c'))
    (hrun₀ : c'.run? position = some run₀) (hreaches : run₀.Reaches history run)
    (hrest : run.resting? = some f)
    (hresumed : Task.Reaches (Flow.perform .resume f) es (.done f' (.flow (some outcome))))
    (hfailed : outcome.isFailed = false) (name : String) :
    (c.settings.Names labels name → ∀ state,
      f'.usernames.stateOf? name = some state → state.isFinal) ∧
    (¬c.settings.Names labels name →
      f'.usernames.stateOf? name = f.usernames.stateOf? name ∨
        f'.usernames.stateOf? name = some .registered) := by
  obtain ⟨lock, ledger, flow, -, hflow, hlaunch⟩ := start_eq_ok hstart
  obtain rfl : FlowRun.launch flow = run₀ := Option.some.inj (hlaunch.symm.trans hrun₀)
  obtain ⟨hidentity, husernames⟩ := makeFlow_eq_ok hflow
  have hempty (name : String) : flow.usernames.find? name = none := by
    rw [husernames]
    rfl
  have hopening : flow.identity.IsOpening := by
    rw [hidentity]
    exact ⟨rfl, rfl⟩
  have hnone (name : String) : flow.usernames.stateOf? name = none := by
    rw [UsernameRegistration.stateOf?, hempty]
    rfl
  have hupheld : run.Upholds fun f => f.labels = labels ∧ f.Awaits := by
    refine hreaches.upholds hopening ⟨labels_of_makeFlow hflow, .inr hnone⟩ ?_
    rintro opening older log f command f' reply hopening hcourse ⟨hlabels, hawaits⟩ hperformed
    exact ⟨hperformed.labels_eq.trans hlabels, hperformed.awaits hopening hcourse hawaits⟩
  obtain ⟨rfl, hawaits⟩ := hupheld.resting hrest
  obtain ⟨opening, older, -, hflowCourse⟩ :=
    (hreaches.onCourse (FlowRun.onCourse_launch hopening)).resting hrest
  have hsettings : f.usernames.settings = c.settings := by
    have hsetup := hflowCourse.usernames.setup_eq
    rw [husernames] at hsetup
    exact congrArg (fun setup => setup.2.2) hsetup
  have hkept : f.usernames.IsKept :=
    hflowCourse.usernames.isKept (UsernameRegistration.isKept_of_empty hempty)
  cases (Flow.ensures_perform .resume f).reaches hresumed with
  | resumed hdriven =>
    rw [← hsettings]
    exact hdriven.finishes hawaits hkept hfailed

end Coordinator

namespace Sample

/-- What is done with a flow: it is let go on, is sent a command or is paused. -/
inductive Deed where
  | goes
  | sent (ticket : Nat) (command : Command)
  | paused

/-- What a deed makes of a flow, if its requests are answered as told. -/
def act (answers : Bool → (q : Request) → q.Answer) (run : FlowRun) : Deed → FlowRun
  | .goes =>
    match run.activity with
    | .busy ticket (.ask _ q next) =>
      { run with
        activity := .busy ticket (next (answers run.isCancelled q))
        isCancelled := q.flagAfter run.isCancelled }
    | _ => run.settle
  | .sent ticket command => (run.send? ticket command).getD run
  | .paused => { run with isCancelled := true }

def replay (answers : Bool → (q : Request) → q.Answer) (run : FlowRun) (deeds : List Deed) :
    FlowRun := deeds.foldl (act answers) run

variable {answers : Bool → (q : Request) → q.Answer}

theorem exists_reaches_act (hadmits : ∀ (flag : Bool) (q : Request), q.Admits flag (answers flag q))
    (run : FlowRun) (deed : Deed) : ∃ history, run.Reaches history (act answers run deed) := by
  cases deed with
  | goes =>
    unfold act
    dsimp only
    split
    next hasked => exact ⟨_, FlowRun.Reaches.here.step (.answered _ hasked (hadmits _ _))⟩
    next => exact ⟨_, FlowRun.Reaches.here.step .settled⟩
  | sent ticket command =>
    unfold act
    dsimp only
    cases hsent : run.send? ticket command with
    | none => exact ⟨[], .here⟩
    | some run' => exact ⟨_, FlowRun.Reaches.here.step (.sent ticket command hsent)⟩
  | paused => exact ⟨_, FlowRun.Reaches.here.step .paused⟩

theorem exists_reaches_replay
    (hadmits : ∀ (flag : Bool) (q : Request), q.Admits flag (answers flag q)) (run : FlowRun)
    (deeds : List Deed) : ∃ history, run.Reaches history (replay answers run deeds) := by
  induction deeds generalizing run with
  | nil => exact ⟨[], .here⟩
  | cons deed deeds ih =>
    obtain ⟨history, hact⟩ := exists_reaches_act hadmits run deed
    obtain ⟨later, hrest⟩ := ih (act answers run deed)
    exact ⟨_, hact.trans hrest⟩

/-- What is answered if the identity exists already, everything is accepted and every preorder is shown,
and no name. -/
def hosting (flag : Bool) (q : Request) : q.Answer :=
  answerUnder flag q
    (oracle (.ok ⟨.zero⟩) (some (.pending lock [])) (unnamed lock.identity) [] q)

theorem exists_hosted (run : FlowRun) (deeds : List Deed) :
    ∃ history, run.Reaches history (replay hosting run deeds) :=
  exists_reaches_replay (admits_answerUnder _ _ _) run deeds

/-- A flow that is paused while it preorders its name. -/
def preordering : FlowRun :=
  replay hosting (.launch flow)
    (List.replicate 9 .goes ++ [.paused] ++ List.replicate 4 .goes)

/-- The flow as it rests then. -/
def preordered : Flow := preordering.resting?.getD flow

/-- What the flow comes to when it is told to resume. -/
def renewed : Log × Flow × Reply :=
  (Flow.perform .resume preordered).play
    (oracle (.ok ⟨.zero⟩) (some (.pending lock [])) (unnamed lock.identity)) []

theorem reaches_renewed :
    Task.Reaches (Flow.perform .resume preordered) renewed.1 (.done renewed.2.1 renewed.2.2) := by
  unfold renewed
  exact Task.reaches_play _ _ _

end Sample

open Sample in
/-- A flow that is paused while it preorders its name, and then resumes, comes to the end of the name. -/
theorem Coordinator.resumed_flow_finishes_own_names_alice : ∃ history es f' state,
    (FlowRun.launch flow).Reaches history preordering ∧
      preordering.resting? = some preordered ∧
      preordered.usernames.stateOf? "alice.dash" = some .preorderSubmitted ∧
      Task.Reaches (Flow.perform .resume preordered) es (.done f' (.flow
        (some ⟨.completed lock.identity, some (.timedOut ["alice"])⟩))) ∧
      f'.usernames.stateOf? "alice.dash" = some state ∧ state.isFinal := by
  have hrests : preordering.resting?.isSome = true := by decide +kernel
  have hrest : preordering.resting? = some preordered := by
    rw [preordered, ← Option.some_get hrests]
    rfl
  have hbefore : preordered.usernames.stateOf? "alice.dash" = some .preorderSubmitted := by
    decide +kernel
  have houtcome : renewed.2.2.outcome? =
      some ⟨.completed lock.identity, some (.timedOut ["alice"])⟩ := by decide +kernel
  have hafter : (renewed.2.1.usernames.stateOf? "alice.dash").isSome = true := by decide +kernel
  have hresumed := reaches_renewed
  rw [Reply.eq_flow houtcome] at hresumed
  obtain ⟨history, hreaches⟩ : ∃ history, (FlowRun.launch flow).Reaches history preordering :=
    exists_hosted _ _
  obtain ⟨state, hstate⟩ := Option.isSome_iff_exists.mp hafter
  have hnames : coordinator.settings.Names ["alice"] "alice.dash" :=
    ⟨"alice", by simp, alice, rfl, rfl⟩
  obtain ⟨hfinishes, -⟩ := Coordinator.resumed_flow_finishes_own_names start_coordinator
    run?_started hreaches hrest hresumed rfl "alice.dash"
  exact ⟨history, _, _, state, hreaches, hrest, hbefore, hresumed, hstate,
    hfinishes hnames state hstate⟩

namespace Sample

/-- A flow without names of its own. -/
def nameless : Flow := { flow with labels := [], schedule := none }

/-- The flow once its identity is registered and it was told to register a name. -/
def commanded : FlowRun :=
  replay hosting (.launch nameless) (List.replicate 4 .goes ++ [.sent 0 (.register ["alice"])])

/-- The flow once it was paused while it preordered the name. -/
def interrupted : FlowRun :=
  replay hosting commanded (List.replicate 8 .goes ++ [.paused] ++ List.replicate 4 .goes)

/-- The flow once it was told to resume. -/
def continued : FlowRun :=
  replay hosting interrupted ([.sent 1 .resume] ++ List.replicate 3 .goes)

end Sample

open Sample in
/-- A flow that is paused while it registers a name which it was not started with does not go on with the
name when it resumes: it completes, and the name is left preordered. -/
theorem Coordinator.resumed_flow_leaves_name :
    (coordinator.start funding signingKey signingKey [] none).2.run? 0 = some (.launch nameless) ∧
    (∃ history, (FlowRun.launch nameless).Reaches history commanded) ∧
    commanded.queue = [(0, .register ["alice"])] ∧
    (∃ history, commanded.Reaches history interrupted) ∧
    (interrupted.reply? 0).map Reply.isPaused = some true ∧
    (∃ history, interrupted.Reaches history continued) ∧
    (continued.reply? 1).bind Reply.outcome? = some ⟨.completed lock.identity, none⟩ ∧
    continued.isCancelled = false ∧
    ∃ state, (continued.resting?.bind fun f => f.usernames.stateOf? "alice.dash") = some state ∧
      state.isFinal = false := by
  refine ⟨rfl, exists_hosted _ _, ?_, exists_hosted _ _, ?_, exists_hosted _ _, ?_, ?_,
    .preorderSubmitted, ?_, rfl⟩
  · decide +kernel
  · decide +kernel
  · decide +kernel
  · decide +kernel
  · decide +kernel

end Enrolment
