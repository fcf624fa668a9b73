import Enrolment.Proofs.Flow.Accounts

/-!
What a flow says, and what was exchanged before it says it. A law that holds whenever the flow rests, and
that every command keeps which says only what may be said, governs all that the flow ever delivers or
replies.
-/

namespace Enrolment

namespace Task

variable {σ α : Type} {guard : Log → σ → Request → Prop} {log : Log} {t : Task σ α}

/-- What work meets over its own exchanges it meets over a log that these are added to. -/
theorem Meets.after {post : Log → σ → α → Prop} (h : t.Meets guard post log) (older : Log) :
    t.Meets (fun later s q => ∃ es, later = older ++ es ∧ guard es s q)
      (fun later s a => ∃ es, later = older ++ es ∧ post es s a) (older ++ log) := by
  induction t generalizing log with
  | done s a => exact ⟨log, rfl, h⟩
  | ask s q next ih =>
    refine ⟨⟨log, rfl, h.1⟩, fun answer => ?_⟩
    rw [List.append_assoc]
    exact ih answer (h.2 answer)

/-- What holds at the end whatever the answers holds there over any log. -/
theorem Ensures.meets {post : σ → α → Prop} (h : t.Ensures post) (log : Log) :
    t.Meets (fun _ _ _ => True) (fun later s a => log <+: later ∧ post s a) log := by
  have hmeets : t.Meets (fun _ _ _ => True) (fun _ => post) log := by
    induction t generalizing log with
    | done s a => exact h
    | ask s q next ih => exact ⟨trivial, fun answer => ih answer (h answer) _⟩
  exact hmeets.extends.weaken (fun _ _ _ _ => trivial) fun _ _ _ hpost => hpost

end Task

namespace History

/-- Settling exchanges nothing. -/
theorem exchanges_settled {history : History} {startsOver : Prop} [Decidable startsOver] :
    exchanges (history ++ if startsOver then [.restarted] else []) = history.exchanges := by
  split
  · exact exchanges_restarted
  · rw [List.append_nil]

theorem exchanges_map (es : Log) : exchanges (es.map .exchanged) = es := by
  induction es with
  | nil => rfl
  | cons e es ih => exact congrArg (e :: ·) ih

end History

variable [Suite]

/-- Laws of resting flows, and of what is said, that no command breaks. -/
structure Flow.Governs (first : UsernameRegistration) (law : Log → Flow → Prop)
    (said : Log → Reply → Prop) : Prop where
  lasting : ∀ {log later : Log} {reply : Reply}, log <+: later → said log reply → said later reply
  performed : ∀ {opening : IdentityRegistration} {older recent log : Log} {f : Flow}
    (command : Command), f.OnCourse opening first older recent → law log f →
    (Flow.perform command f).Meets (fun _ _ _ => True)
      (fun later f reply => law later f ∧ said later reply) log

namespace FlowRun

variable {first : UsernameRegistration} {law : Log → Flow → Prop} {said : Log → Reply → Prop}
  {setup : CreditLock × SecretKey × SecretKey × Settings} {history events : History} {log later : Log}
  {run run' : FlowRun} {f : Flow} {reply : Reply}

/-- A flow that rests under a law, and says only what may be said. -/
structure Obeys (law : Log → Flow → Prop) (said : Log → Reply → Prop) (log : Log) (run : FlowRun) :
    Prop where
  works : match run.activity with
    | .busy _ task => task.Meets (fun _ _ _ => True)
        (fun later f reply => law later f ∧ said later reply) log
    | .idle f => law log f
    | .ended => True
  delivered : ∀ outcome, run.outcome = some outcome → said log (.flow (some outcome))
  replied : ∀ entry ∈ run.replies, said log entry.2

theorem Obeys.next (hgoverns : Flow.Governs first law said) (hidle : run.activity = .idle f)
    {opening : IdentityRegistration} {older recent : Log}
    (hcourse : f.OnCourse opening first older recent) (h : run.Obeys law said log) :
    (run.next f).Obeys law said log := by
  have hworks := h.works
  rw [hidle] at hworks
  refine ⟨?_, ?_, ?_⟩
  · rcases activity_next hidle with ⟨ticket, command, rest, -, hbusy⟩ | ⟨-, hwaits | hended⟩
    · rw [hbusy]
      exact hgoverns.performed command hcourse hworks
    · rwa [hwaits]
    · rw [hended]
      trivial
  · rw [outcome_next]
    exact h.delivered
  · rw [replies_next]
    exact h.replied

omit [Suite] in
/-- A flow that is done with a command says what the command came to. -/
theorem Obeys.finish {ticket : Option Nat} (hactivity : run.activity = .busy ticket (.done f reply))
    (h : run.Obeys law said log) : (run.finish ticket f reply).Obeys law said log := by
  have hworks := h.works
  rw [hactivity] at hworks
  obtain ⟨hlaw, hsaid⟩ := hworks
  refine ⟨hlaw, ?_, ?_⟩
  · intro outcome houtcome
    rcases Option.or_eq_some_iff.mp houtcome with hbefore | ⟨-, hnew⟩
    · exact h.delivered outcome hbefore
    · obtain rfl := Reply.eq_flow hnew
      exact hsaid
  · intro entry hentry
    rcases List.mem_append.mp hentry with hbefore | hnew
    · exact h.replied entry hbefore
    · obtain ⟨t, -, rfl⟩ := Option.map_eq_some_iff.mp (Option.mem_toList.mp hnew)
      exact hsaid

theorem Obeys.settle (hgoverns : Flow.Governs first law said)
    (hcourse : run.OnCourse first setup history) (h : run.Obeys law said log) :
    run.settle.Obeys law said log := by
  cases hactivity : run.activity with
  | ended =>
    have hsame : run.settle = run := by rw [FlowRun.settle, hactivity]
    rwa [hsame]
  | idle f =>
    have hsettle : run.settle = run.next f := by rw [FlowRun.settle, hactivity]
    obtain ⟨opening, older, -, hflow⟩ := hcourse.resting (by rw [resting?, hactivity])
    rw [hsettle]
    exact h.next hgoverns hactivity hflow
  | busy ticket task =>
    cases task with
    | ask f q next =>
      have hsame : run.settle = run := by rw [FlowRun.settle, hactivity]
      rwa [hsame]
    | done f reply =>
      have hsettle : run.settle = (run.finish ticket f reply).next f := by
        rw [FlowRun.settle, hactivity]
      obtain ⟨opening, older, -, hflow⟩ := hcourse.resting (by rw [resting?, hactivity])
      rw [hsettle]
      exact (h.finish hactivity).next hgoverns rfl hflow

omit [Suite] in
/-- What could be said can be said of what is done since. -/
theorem Obeys.extend (h : run.Obeys law said log)
    (hlasting : ∀ reply, said log reply → said later reply) (houtcome : run'.outcome = run.outcome)
    (hreplies : run'.replies = run.replies)
    (hworks : match run'.activity with
      | .busy _ task => task.Meets (fun _ _ _ => True)
          (fun later f reply => law later f ∧ said later reply) later
      | .idle f => law later f
      | .ended => True) : run'.Obeys law said later := by
  refine ⟨hworks, ?_, ?_⟩
  · rw [houtcome]
    exact fun outcome hdelivered => hlasting _ (h.delivered outcome hdelivered)
  · rw [hreplies]
    exact fun entry hentry => hlasting _ (h.replied entry hentry)

/-- No step of a flow breaks the laws. -/
theorem Obeys.step (hgoverns : Flow.Governs first law said)
    (hcourse : run.OnCourse first setup history) (h : run.Obeys law said history.exchanges)
    (hstep : run.Step events run') : run'.Obeys law said (history ++ events).exchanges := by
  cases hstep with
  | @answered ticket f q next answer hasked hadmits =>
    have hworks := h.works
    rw [hasked] at hworks
    rw [History.exchanges_exchanged]
    exact h.extend (fun reply => hgoverns.lasting (List.prefix_append _ _)) rfl rfl
      (hworks.2 answer)
  | settled =>
    rw [History.exchanges_settled]
    exact h.settle hgoverns hcourse
  | sent ticket command hsent =>
    rw [List.append_nil]
    unfold send? at hsent
    split at hsent
    · obtain rfl := Option.some.inj hsent
      exact h.extend (fun _ hsaid => hsaid) rfl rfl h.works
    · cases hsent
  | paused =>
    rw [List.append_nil]
    exact h.extend (fun _ hsaid => hsaid) rfl rfl h.works
  | released =>
    rw [List.append_nil]
    exact h.extend (fun _ hsaid => hsaid) rfl rfl h.works

/-- A flow that is launched under laws that no command breaks obeys them ever after. -/
theorem Reaches.obeys (hreaches : (launch f).Reaches history run)
    (hgoverns : Flow.Governs f.usernames law said) (hopening : f.identity.IsOpening)
    (hlaw : law [] f) : run.Obeys law said history.exchanges := by
  have hcourse := onCourse_launch hopening
  induction hreaches with
  | here =>
    refine ⟨?_, fun _ houtcome => (nomatch houtcome), fun _ hentry => (nomatch hentry)⟩
    have hflow : f.OnCourse f.identity f.usernames [] [] := ⟨.begun, .begun⟩
    exact hgoverns.performed .start hflow hlaw
  | step hreaches hstep ih => exact ih.step hgoverns (hreaches.onCourse hcourse) hstep

end FlowRun

end Enrolment
