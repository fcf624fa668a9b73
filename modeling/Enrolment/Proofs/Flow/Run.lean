import Enrolment.Proofs.Flow.Course
import Enrolment.Registration.Coordinator

/-!
Runs of flows. A flow is given answers, goes on from one command to the next, is sent commands, is paused
and is let go of, in any order. Whatever the order, what it works on stays on course.
-/

namespace Enrolment

/-- What may be answered under a flag. The flag is what it is, waiting is cut short only by the flag,
and waiting for a depth ends with no smaller one. -/
def Request.Admits (flag : Bool) : (q : Request) → q.Answer → Prop
  | .isCancelled, set => set = flag
  | .pause _, cut => cut → flag
  | .awaitDepth .., none => flag
  | .awaitDepth _ required, some (.ok depth) => required ≤ depth
  | _, _ => True

def Request.flagAfter (flag : Bool) : Request → Bool
  | .clearFlag => false
  | _ => flag

namespace Log

def flagAfter (flag : Bool) (log : Log) : Bool :=
  log.foldl (fun flag e => e.request.flagAfter flag) flag

/-- Answers each of which is admitted, from a flag on. -/
inductive Admissible : Bool → Log → Prop where
  | nil {flag : Bool} : Admissible flag []
  | cons {flag : Bool} {e : Exchange} {es : Log} (he : e.request.Admits flag e.answer)
      (hes : Admissible (e.request.flagAfter flag) es) : Admissible flag (e :: es)

theorem Admissible.of_append {flag : Bool} {first second : Log}
    (h : Admissible flag (first ++ second)) : Admissible flag first := by
  induction first generalizing flag with
  | nil => exact .nil
  | cons e rest ih =>
    cases h with
    | cons he hes => exact .cons he (ih hes)

end Log

inductive FlowEvent where
  | exchanged (e : Exchange)
  /-- The identity is started over, which it can be. -/
  | restarted

abbrev History := List FlowEvent

namespace History

def exchanges (history : History) : Log :=
  history.filterMap fun
    | .exchanged e => some e
    | .restarted => none

/-- What was exchanged since the start, or since the identity was last started over. -/
def recent (history : History) : Log :=
  history.foldl (fun log event => match event with
    | .exchanged e => log ++ [e]
    | .restarted => []) []

variable {history : History}

@[simp] theorem exchanges_exchanged (e : Exchange) :
    exchanges (history ++ [.exchanged e]) = history.exchanges ++ [e] := by
  simp [exchanges]

@[simp] theorem exchanges_restarted : exchanges (history ++ [.restarted]) = history.exchanges := by
  simp [exchanges]

@[simp] theorem recent_exchanged (e : Exchange) :
    recent (history ++ [.exchanged e]) = history.recent ++ [e] := by
  simp [recent]

@[simp] theorem recent_restarted : recent (history ++ [.restarted]) = [] := by
  simp [recent]

end History

variable [Suite]

namespace FlowRun

/-- The flow that no work is going on in. -/
def resting? (run : FlowRun) : Option Flow :=
  match run.activity with
  | .busy _ (.done f _) => some f
  | .idle f => some f
  | _ => none

/-- Whether the next thing that a flow does is to start its identity over. -/
def startsOver (run : FlowRun) : Bool :=
  match run.resting?, run.queue with
  | some f, (_, .restart) :: _ => f.identity.phase.isRestartable
  | _, _ => false

/-- What can happen to a flow next. -/
inductive Step (run : FlowRun) : History → FlowRun → Prop where
  | answered {ticket : Option Nat} {f : Flow} {q : Request} {next : q.Answer → Task Flow Reply}
      (answer : q.Answer) (hasked : run.activity = .busy ticket (.ask f q next))
      (hadmits : q.Admits run.isCancelled answer) :
      Step run [.exchanged ⟨q, answer⟩]
        { run with
          activity := .busy ticket (next answer)
          isCancelled := q.flagAfter run.isCancelled }
  /-- A command is finished, or the next one begun. -/
  | settled : Step run (if run.startsOver then [.restarted] else []) run.settle
  | sent {run' : FlowRun} (ticket : Nat) (command : Command)
      (hsent : run.send? ticket command = some run') : Step run [] run'
  | paused : Step run [] { run with isCancelled := true }
  | released : Step run [] { run with isHeld := false }

/-- What can become of a flow, and what happens in it until then. -/
inductive Reaches (start : FlowRun) : History → FlowRun → Prop where
  | here : Reaches start [] start
  | step {history events : History} {run run' : FlowRun} (h : Reaches start history run)
      (hstep : run.Step events run') : Reaches start (history ++ events) run'

theorem Reaches.trans {start run run' : FlowRun} {history later : History}
    (h : start.Reaches history run) (h' : run.Reaches later run') :
    start.Reaches (history ++ later) run' := by
  induction h' with
  | here => rwa [List.append_nil]
  | step _ hstep ih =>
    rw [← List.append_assoc]
    exact ih.step hstep

/-- A flow that is on course: in whatever it is at, its registrations are, and will be whatever is
answered. -/
def OnCourse (first : UsernameRegistration)
    (setup : CreditLock × SecretKey × SecretKey × Settings) (history : History) (run : FlowRun) :
    Prop :=
  ∃ opening older, opening.IsOpening ∧ opening.setup = setup ∧
    history.exchanges = older ++ history.recent ∧
    match run.activity with
    | .busy _ task => task.Meets (Flow.Permits opening first older)
      (fun log f _ => f.OnCourse opening first older log) history.recent
    | .idle f => f.OnCourse opening first older history.recent
    | .ended => True

variable {first : UsernameRegistration} {setup : CreditLock × SecretKey × SecretKey × Settings}
  {history events : History} {start run run' : FlowRun} {f : Flow}

omit [Suite] in
theorem startsOver_of_queue (h : ∀ ticket rest, run.queue ≠ (ticket, .restart) :: rest) :
    run.startsOver = false := by
  unfold startsOver
  split
  next ticket rest _ hqueue => exact absurd hqueue (h ticket rest)
  next => rfl

omit [Suite] in
theorem startsOver_of_resting (h : run.resting? = none) : run.startsOver = false := by
  unfold startsOver
  rw [h]

theorem onCourse_launch (hopening : f.identity.IsOpening) :
    (launch f).OnCourse f.usernames f.identity.setup [] :=
  ⟨f.identity, [], hopening, rfl, rfl, Flow.meets_perform hopening ⟨.begun, .begun⟩ (by simp)⟩

theorem OnCourse.restarts (hactivity : run.activity = .idle f) (h : run.OnCourse first setup history)
    {ticket : Nat} {rest : List (Nat × Command)} (hqueue : run.queue = (ticket, .restart) :: rest) :
    (run.next f).OnCourse first setup
      (history ++ if run.startsOver then [.restarted] else []) := by
  obtain ⟨opening, older, hopening, hsetup, hsplit, hcourse⟩ := h
  rw [hactivity] at hcourse
  have hstarts : run.startsOver = f.identity.phase.isRestartable := by
    unfold startsOver resting?
    rw [hactivity, hqueue]
  have hnext : run.next f =
      { run with activity := .busy (some ticket) (Flow.perform .restart f), queue := rest } := by
    unfold next
    rw [hqueue]
  rw [hnext, hstarts, Flow.perform_restart]
  cases hphase : f.identity.phase.isRestartable with
  | true =>
    have hrestart : f.identity.restart = some f.restarted.identity := by
      simp [Flow.restarted, IdentityRegistration.restart, hphase]
    obtain ⟨hrenewed, hsame⟩ := hcourse.identity.restart hopening hrestart
    refine ⟨f.restarted.identity, history.exchanges, hrenewed, ?_, by simp, ?_⟩
    · rw [hsame, hcourse.identity.setup_eq, hsetup]
    · have husernames : UsernameRegistration.Course first (history.exchanges ++ [])
          f.restarted.usernames := by
        rw [List.append_nil, hsplit]
        exact hcourse.usernames
      rw [if_pos rfl, History.recent_restarted]
      exact Flow.meets_perform hrenewed ⟨.begun, husernames⟩ (by simp)
  | false =>
    have hrestarted : f.restarted = f := by
      simp [Flow.restarted, IdentityRegistration.restart, hphase]
    rw [hrestarted, if_neg Bool.false_ne_true, List.append_nil]
    exact ⟨opening, older, hopening, hsetup, hsplit,
      Flow.meets_perform hopening hcourse (by simp)⟩

theorem OnCourse.next (hactivity : run.activity = .idle f) (h : run.OnCourse first setup history) :
    (run.next f).OnCourse first setup
      (history ++ if run.startsOver then [.restarted] else []) := by
  cases hqueue : run.queue with
  | nil =>
    have hstarts : run.startsOver = false := startsOver_of_queue (by simp [hqueue])
    rw [hstarts, if_neg Bool.false_ne_true, List.append_nil, FlowRun.next, hqueue]
    dsimp only
    split
    · exact h
    · obtain ⟨opening, older, hopening, hsetup, hsplit, -⟩ := h
      exact ⟨opening, older, hopening, hsetup, hsplit, trivial⟩
  | cons waiting rest =>
    obtain ⟨ticket, command⟩ := waiting
    by_cases hcommand : command = .restart
    · subst hcommand
      exact h.restarts hactivity hqueue
    · have hstarts : run.startsOver = false :=
        startsOver_of_queue (by simp [hqueue, hcommand])
      obtain ⟨opening, older, hopening, hsetup, hsplit, hcourse⟩ := h
      rw [hactivity] at hcourse
      rw [hstarts, if_neg Bool.false_ne_true, List.append_nil, FlowRun.next, hqueue]
      exact ⟨opening, older, hopening, hsetup, hsplit, Flow.meets_perform hopening hcourse hcommand⟩

/-- Every step keeps a flow on course. -/
theorem OnCourse.step (h : run.OnCourse first setup history) (hstep : run.Step events run') :
    run'.OnCourse first setup (history ++ events) := by
  cases hstep with
  | answered answer hasked hadmits =>
    obtain ⟨opening, older, hopening, hsetup, hsplit, hcourse⟩ := h
    rw [hasked] at hcourse
    refine ⟨opening, older, hopening, hsetup, ?_, ?_⟩
    · rw [History.exchanges_exchanged, History.recent_exchanged, hsplit, List.append_assoc]
    · rw [History.recent_exchanged]
      exact hcourse.2 answer
  | settled =>
    unfold settle
    cases hactivity : run.activity with
    | busy ticket task =>
      cases task with
      | done f reply =>
        have hfinished : (run.finish ticket f reply).OnCourse first setup history := by
          obtain ⟨opening, older, hopening, hsetup, hsplit, hcourse⟩ := h
          rw [hactivity] at hcourse
          exact ⟨opening, older, hopening, hsetup, hsplit, hcourse⟩
        have hstarts : run.startsOver = (run.finish ticket f reply).startsOver := by
          unfold startsOver resting?
          rw [hactivity]
          rfl
        rw [hstarts]
        exact hfinished.next rfl
      | ask f q next =>
        have hstarts : run.startsOver = false :=
          startsOver_of_resting (by rw [resting?, hactivity])
        rw [hstarts, if_neg Bool.false_ne_true, List.append_nil]
        exact h
    | idle f => exact h.next hactivity
    | ended =>
      have hstarts : run.startsOver = false := startsOver_of_resting (by rw [resting?, hactivity])
      rw [hstarts, if_neg Bool.false_ne_true, List.append_nil]
      exact h
  | sent ticket command hsent =>
    unfold send? at hsent
    split at hsent
    · obtain rfl := Option.some.inj hsent
      rw [List.append_nil]
      exact h
    · cases hsent
  | paused =>
    rw [List.append_nil]
    exact h
  | released =>
    rw [List.append_nil]
    exact h

theorem Reaches.onCourse (h : start.Reaches history run) (hstart : start.OnCourse first setup []) :
    run.OnCourse first setup history := by
  induction h with
  | here => exact hstart
  | step _ hstep ih => exact ih.step hstep

theorem Reaches.admits (h : start.Reaches history run) {e : Exchange}
    (he : e ∈ history.exchanges) : ∃ flag, e.request.Admits flag e.answer := by
  induction h with
  | here => cases he
  | step _ hstep ih =>
    cases hstep with
    | @answered ticket f q next answer hasked hadmits =>
      rw [History.exchanges_exchanged] at he
      rcases List.mem_append.mp he with hold | hnew
      · exact ih hold
      · obtain rfl := List.mem_singleton.mp hnew
        exact ⟨_, hadmits⟩
    | settled =>
      split at he
      · exact ih (by simpa using he)
      · exact ih (by simpa using he)
    | _ => exact ih (by simpa using he)

/-- Work that a flow is busy with goes on as the answers lead it. -/
theorem Reaches.works (h : start.Reaches history run) {ticket : Option Nat}
    {work work' : Task Flow Reply} {es : Log} (hbusy : run.activity = .busy ticket work)
    (hwork : Task.Reaches work es work') (hes : Log.Admissible run.isCancelled es) :
    start.Reaches (history ++ es.map .exchanged)
      { run with
        activity := .busy ticket work'
        isCancelled := Log.flagAfter run.isCancelled es } := by
  induction hwork generalizing history run with
  | here work =>
    have hsame : { run with activity := .busy ticket work, isCancelled := run.isCancelled } = run := by
      rw [← hbusy]
    rw [List.map_nil, List.append_nil]
    exact hsame ▸ h
  | @answered f q next answer es work' hrest ih =>
    obtain _ | ⟨hadmits, hes⟩ := hes
    have hstep := h.step (.answered answer hbusy hadmits)
    have hafter := ih hstep rfl hes
    rwa [List.append_assoc] at hafter

/-- Whatever the work that a flow is busy with submits, the flow comes to submit. -/
theorem exists_submitting {ticket : Option Nat} {work work' : Task Flow Reply} {es : Log}
    {t : Transition} (hbusy : run.activity = .busy ticket work) (hwork : Task.Reaches work es work')
    (hes : Log.Admissible run.isCancelled es) (ht : t ∈ Log.submitted es) :
    ∃ history run' f next, run.Reaches history run' ∧
      run'.activity = .busy ticket (.ask f (.submit t) next) := by
  obtain ⟨before, answer, after, rfl⟩ := Log.split_of_submitted ht
  obtain ⟨f, next, hbefore, -⟩ := hwork.split
  exact ⟨_, _, f, next, Reaches.here.works hbusy hbefore hes.of_append, rfl⟩

end FlowRun

end Enrolment
