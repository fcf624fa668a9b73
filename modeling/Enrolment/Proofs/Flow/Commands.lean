import Enrolment.Proofs.Flow.Gates
import Enrolment.Proofs.Identity.Service

/-!
What the commands of a flow come to, whatever they are answered. A command works on the identity, on
the usernames or on both, and what it replies says what it did; the other parts of the flow stay as they
are. Laws that every command keeps are laws of all flows that rest.
-/

namespace Enrolment

def Outcome.isFailed {α π : Type} : Outcome α π → Bool
  | failed _ => true
  | _ => false

/-- Whether some part failed. -/
def FlowOutcome.isFailed (o : FlowOutcome) : Bool :=
  o.identity.isFailed || (o.usernames.map Outcome.isFailed).getD false

/-- Whether nothing came of a command, as it was paused. -/
def Reply.isPaused : Reply → Bool
  | usernames (.ok none) | flow none => true
  | _ => false

theorem Reply.eq_flow {reply : Reply} {outcome : FlowOutcome} (h : reply.outcome? = some outcome) :
    reply = .flow (some outcome) := by
  cases reply with
  | usernames result => cases h
  | flow result => exact congrArg flow h

namespace Task

variable {σ τ α β : Type} {post : σ → α → Prop}

/-- Whatever the answers, the postcondition holds at the end of some work. -/
def Ensures (post : σ → α → Prop) : Task σ α → Prop
  | .done s a => post s a
  | .ask _ _ next => ∀ answer, (next answer).Ensures post

theorem Ensures.mono {post' : σ → α → Prop} {t : Task σ α} (h : t.Ensures post)
    (hpost : ∀ s a, post s a → post' s a) : t.Ensures post' := by
  induction t with
  | done s a => exact hpost s a h
  | ask s q next ih => exact fun answer => ih answer (h answer)

theorem Ensures.bind {t : Task σ α} {f : α → σ → Task σ β} {post' : σ → β → Prop}
    (h : t.Ensures post) (hf : ∀ s a, post s a → (f a s).Ensures post') :
    (t.bind f).Ensures post' := by
  induction t with
  | done s a => exact hf s a h
  | ask s q next ih => exact fun answer => ih answer (h answer)

theorem Ensures.within {put : σ → τ} {post : τ → α → Prop} {t : Task σ α}
    (h : t.Ensures fun s a => post (put s) a) : (t.within put).Ensures post := by
  induction t with
  | done s a => exact h
  | ask s q next ih => exact fun answer => ih answer (h answer)

theorem Ensures.reaches {t t' : Task σ α} {es : Log} (h : t.Ensures post) (hr : Reaches t es t') :
    t'.Ensures post := by
  induction hr with
  | here => exact h
  | answered answer _ ih => exact ih (h answer)

/-- What is met over a log holds at the end over some log. -/
theorem Meets.ensures {guard : Log → σ → Request → Prop} {post : Log → σ → α → Prop} {log : Log}
    {t : Task σ α} (h : t.Meets guard post log) : t.Ensures fun s a => ∃ later, post later s a := by
  induction t generalizing log with
  | done s a => exact ⟨log, h⟩
  | ask s q next ih => exact fun answer => ih answer (h.2 answer)

end Task

namespace Routine

variable {σ α β : Type} {post : σ → β → Prop} {s : σ}

theorem ensures_get {k : σ → Routine σ β} (hk : (k s s).Ensures post) :
    ((get >>= k) s).Ensures post := hk

theorem ensures_ite {c : Prop} [Decidable c] {first second : Routine σ β}
    (hfirst : c → (first s).Ensures post) (hsecond : ¬c → (second s).Ensures post) :
    ((if c then first else second) s).Ensures post := by
  split
  next h => exact hfirst h
  next h => exact hsecond h

theorem ensures_bind {r : Routine σ α} {k : α → Routine σ β} {mid : σ → α → Prop}
    (hr : (r s).Ensures mid) (hk : ∀ s a, mid s a → (k a s).Ensures post) :
    ((r >>= k) s).Ensures post := Task.Ensures.bind hr hk

end Routine

variable [Suite]

namespace IdentityRegistration

/-- What a call to register an identity comes to. An identity that is registered stays as it is, and
is no longer waited for. -/
structure Called (r r' : IdentityRegistration) (outcome : Option IdentityOutcome) : Prop where
  ends : ∃ es, Ends r es r' outcome
  stays : r.phase = .registered → r' = r ∧ ∀ o, outcome = some o → o.isTimedOut = false

theorem ensures_register (schedule : Schedule) (r : IdentityRegistration) :
    (register schedule r).Ensures r.Called := by
  have hends := (meets_register schedule (.begun : Course r [] r)).ensures
  by_cases hphase : r.phase = .registered
  · have hdone : ∃ o, register schedule r = .done r (some o) ∧ o.isTimedOut = false := by
      cases hvalid : schedule.validate with
      | error e =>
        refine ⟨.failed e, ?_, rfl⟩
        unfold register
        rw [hvalid]
        rfl
      | ok u => exact ⟨_, Scene.registerIdentity_registered hvalid hphase, rfl⟩
    obtain ⟨o, hdone, htimely⟩ := hdone
    rw [hdone] at hends ⊢
    refine ⟨hends, fun _ => ⟨rfl, ?_⟩⟩
    rintro o' ⟨rfl⟩
    exact htimely
  · refine hends.mono ?_
    intro r' outcome hended
    exact ⟨hended, fun hregistered => absurd hregistered hphase⟩

end IdentityRegistration

namespace Flow

/-- What registering names comes to: those that the platform lists may have been taken up before. -/
structure Named (labels : List String) (f f' : Flow)
    (result : Except RegistrationError (Option UsernameOutcome)) : Prop where
  frame : f' = { f with usernames := f'.usernames, isRecovered := f'.isRecovered }
  names : ∃ looked later,
    (looked = f.usernames ∨
      ∃ found answer, UsernameRegistration.Recovery [] f.usernames found looked answer) ∧
    UsernameRegistration.Answers looked (f.schedule.getD looked.settings.preorder)
      (f.schedule.getD looked.settings.domain) labels [] looked later f'.usernames result

/-- The outcome that a flow makes of what its names came to. -/
def outcomeOf (identity : IdentityOutcome) :
    Except RegistrationError (Option UsernameOutcome) → Option FlowOutcome
  | .ok usernames => usernames.map fun usernames => ⟨identity, some usernames⟩
  | .error e => some ⟨identity, some (.failed e)⟩

/-- What driving a flow comes to. -/
inductive Driven (f : Flow) : Flow → Option FlowOutcome → Prop where
  | paused {r : IdentityRegistration} (hcalled : f.identity.Called r none) :
      Driven f { f with identity := r } none
  /-- The identity is not registered, or there are no names. -/
  | ended {r : IdentityRegistration} {outcome : IdentityOutcome}
      (hcalled : f.identity.Called r (some outcome))
      (hends : outcome.isCompleted = true → f.labels = []) :
      Driven f { f with identity := r } (some ⟨outcome, none⟩)
  | named {r : IdentityRegistration} {outcome : IdentityOutcome} {f' : Flow}
      {result : Except RegistrationError (Option UsernameOutcome)}
      (hcalled : f.identity.Called r (some outcome)) (hcompleted : outcome.isCompleted = true)
      (hlabels : f.labels ≠ []) (hnamed : Named f.labels { f with identity := r } f' result) :
      Driven f f' (outcomeOf outcome result)

/-- What carrying out a command comes to. -/
inductive Performed (f : Flow) : Command → Flow → Reply → Prop where
  | started {f' : Flow} {result : Option FlowOutcome} (h : f.Driven f' result) :
      Performed f .start f' (.flow result)
  | restarted {f' : Flow} {result : Option FlowOutcome} (h : f.restarted.Driven f' result) :
      Performed f .restart f' (.flow result)
  | resumed {f' : Flow} {result : Option FlowOutcome} (h : f.Driven f' result) :
      Performed f .resume f' (.flow result)
  | refused (labels : List String) (hpending : f.identity.identity.isRegistered = false) :
      Performed f (.register labels) f (.usernames (.error (.notRegistered f.identity.id)))
  | registered {labels : List String} {f' : Flow}
      {result : Except RegistrationError (Option UsernameOutcome)}
      (hregistered : f.identity.identity.isRegistered = true) (hnamed : Named labels f f' result) :
      Performed f (.register labels) f' (.usernames result)

variable {f f' : Flow} {labels : List String} {command : Command} {reply : Reply}

theorem ensures_registerLabels (labels : List String) (f : Flow) :
    (registerLabels labels f).Ensures (Named labels f) := by
  have hregister {looked : UsernameRegistration} (isRecovered : Bool)
      (hlooked : looked = f.usernames ∨
        ∃ found answer, UsernameRegistration.Recovery [] f.usernames found looked answer) :
      (onUsernames (UsernameRegistration.register f.schedule labels)
        { f with usernames := looked, isRecovered }).Ensures (Named labels f) := by
    have hmeets := UsernameRegistration.meets_register f.schedule labels
      (.begun : UsernameRegistration.Course looked [] looked)
    refine Task.Ensures.within (hmeets.ensures.mono ?_)
    rintro r result ⟨later, -, hanswers⟩
    exact ⟨rfl, looked, later, hlooked, hanswers⟩
  have hrecover : (onUsernames UsernameRegistration.recover f).Ensures fun f' _ =>
      ∃ looked, f' = { f with usernames := looked } ∧
        ∃ found answer, UsernameRegistration.Recovery [] f.usernames found looked answer := by
    have hmeets : (UsernameRegistration.recover f.usernames).Meets (fun _ _ _ => True)
        (UsernameRegistration.Recovery [] f.usernames) [] :=
      UsernameRegistration.meets_recover (fun _ _ _ _ => trivial) fun _ _ => trivial
    refine Task.Ensures.within (hmeets.ensures.mono ?_)
    rintro looked answer ⟨found, hrecovery⟩
    exact ⟨looked, rfl, found, answer, hrecovery⟩
  refine Routine.ensures_get (Routine.ensures_ite (fun _ => ?_) fun _ => ?_)
  · refine Routine.ensures_bind hrecover ?_
    rintro f' answer ⟨looked, rfl, hlooked⟩
    cases answer with
    | ok adopted => exact hregister true (.inr hlooked)
    | error e => exact hregister f.isRecovered (.inr hlooked)
  · exact hregister f.isRecovered (.inl rfl)

omit [Suite] in
/-- What is done about the identity leaves the rest of the flow. -/
theorem ensures_onIdentity {α : Type} {f : Flow} {r : Routine IdentityRegistration α}
    {post : IdentityRegistration → α → Prop} (h : (r f.identity).Ensures post) :
    (onIdentity r f).Ensures fun f' a => ∃ identity, f' = { f with identity } ∧ post identity a := by
  apply Task.Ensures.within
  apply h.mono
  intro identity a hpost
  exact ⟨identity, rfl, hpost⟩

theorem ensures_drive (f : Flow) : (drive f).Ensures f.Driven := by
  refine Routine.ensures_get (Routine.ensures_bind
    (@ensures_onIdentity _ f _ f.identity.Called ?_) ?_)
  · cases f.schedule with
    | some schedule => exact IdentityRegistration.ensures_register schedule f.identity
    | none => exact Routine.ensures_get (IdentityRegistration.ensures_register _ f.identity)
  rintro f' registered ⟨r, rfl, hcalled⟩
  cases registered with
  | none => exact .paused hcalled
  | some outcome =>
    refine Routine.ensures_ite (fun hends => ?_) fun hgo => ?_
    · refine Driven.ended hcalled fun hcompleted => ?_
      simpa [hcompleted] using hends
    · obtain ⟨hcompleted, hlabels⟩ : outcome.isCompleted = true ∧ f.labels ≠ [] := by
        simpa using hgo
      refine Routine.ensures_bind (ensures_registerLabels f.labels _) ?_
      intro f' result hnamed
      have hdriven := Driven.named hcalled hcompleted hlabels hnamed
      rcases result with e | _ | usernames
      · exact hdriven
      · exact hdriven
      · exact hdriven

/-- A command comes to nothing else. -/
theorem ensures_perform (command : Command) (f : Flow) :
    (perform command f).Ensures (f.Performed command) := by
  cases command with
  | start => exact Routine.ensures_bind (ensures_drive f) fun _ _ h => .started h
  | register labels =>
    have hmore : (registerMore labels f).Ensures fun f' result =>
        f.Performed (.register labels) f' (.usernames result) := by
      refine Routine.ensures_get (Routine.ensures_ite (fun hpending => ?_) fun hregistered => ?_)
      · exact .refused labels (by simpa using hpending)
      · intro answer
        refine (ensures_registerLabels labels f).mono fun f' result hnamed => ?_
        exact .registered (by simpa using hregistered) hnamed
    exact Routine.ensures_bind hmore fun _ _ h => h
  | restart =>
    intro answer
    exact Routine.ensures_bind (ensures_drive f.restarted) fun _ _ h => .restarted h
  | resume =>
    intro answer
    exact Routine.ensures_bind (ensures_drive f) fun _ _ h => .resumed h

theorem Driven.labels_eq {result : Option FlowOutcome} (h : f.Driven f' result) :
    f'.labels = f.labels := by
  cases h with
  | paused => rfl
  | ended => rfl
  | named _ _ _ hnamed => rw [hnamed.frame]

theorem Performed.labels_eq (h : f.Performed command f' reply) : f'.labels = f.labels := by
  cases h with
  | started h => exact h.labels_eq
  | restarted h => exact h.labels_eq
  | resumed h => exact h.labels_eq
  | refused => rfl
  | registered _ hnamed => rw [hnamed.frame]

end Flow

namespace FlowRun

/-- A law holds of a flow that rests, and of one that works when it is done. -/
def Upholds (law : Flow → Prop) (run : FlowRun) : Prop :=
  match run.activity with
  | .busy _ task => task.Ensures fun f _ => law f
  | .idle f => law f
  | .ended => True

variable {law : Flow → Prop} {first : UsernameRegistration}
  {setup : CreditLock × SecretKey × SecretKey × Settings} {history events : History}
  {start run run' : FlowRun} {f : Flow}

omit [Suite] in
theorem Upholds.resting (h : run.Upholds law) (hrest : run.resting? = some f) : law f := by
  unfold resting? at hrest
  unfold Upholds at h
  split at hrest
  next hactivity =>
    rw [hactivity] at h
    exact Option.some.inj hrest ▸ h
  next hactivity =>
    rw [hactivity] at h
    exact Option.some.inj hrest ▸ h
  next => cases hrest

/-- An idle flow takes up the command that waits first; without one it waits, or ends. -/
theorem activity_next (hidle : run.activity = .idle f) :
    (∃ ticket command rest, run.queue = (ticket, command) :: rest ∧
      (run.next f).activity = .busy (some ticket) (Flow.perform command f)) ∨
    run.queue = [] ∧ ((run.next f).activity = .idle f ∨ (run.next f).activity = .ended) := by
  cases hqueue : run.queue with
  | cons waiting rest =>
    refine .inl ⟨waiting.1, waiting.2, rest, rfl, ?_⟩
    rw [next, hqueue]
  | nil =>
    refine .inr ⟨rfl, ?_⟩
    rw [next, hqueue]
    dsimp only
    split
    · exact .inl hidle
    · exact .inr rfl

/-- A flow that rests takes up its next command or goes on without one, as an idle flow does. -/
theorem settle_eq_next (hrest : run.resting? = some f) :
    ∃ rested : FlowRun, run.settle = rested.next f ∧ rested.activity = .idle f ∧
      rested.queue = run.queue := by
  cases hactivity : run.activity with
  | ended =>
    rw [resting?, hactivity] at hrest
    cases hrest
  | idle f' =>
    rw [resting?, hactivity] at hrest
    obtain rfl := Option.some.inj hrest
    have hsettle : run.settle = run.next f' := by rw [settle, hactivity]
    exact ⟨run, hsettle, hactivity, rfl⟩
  | busy ticket task =>
    rw [resting?, hactivity] at hrest
    cases task with
    | ask f' q next => cases hrest
    | done f' reply =>
      obtain rfl := Option.some.inj hrest
      have hsettle : run.settle = (run.finish ticket f' reply).next f' := by rw [settle, hactivity]
      exact ⟨run.finish ticket f' reply, hsettle, rfl, rfl⟩

theorem settle_eq_self (hrest : run.resting? = none) : run.settle = run := by
  unfold resting? at hrest
  unfold settle
  split
  next ticket f reply hactivity => simp [hactivity] at hrest
  next f hactivity => simp [hactivity] at hrest
  next => rfl

theorem OnCourse.resting (h : run.OnCourse first setup history) (hrest : run.resting? = some f) :
    ∃ opening older, opening.IsOpening ∧ f.OnCourse opening first older history.recent := by
  obtain ⟨opening, older, hopening, -, -, hcourse⟩ := h
  unfold resting? at hrest
  split at hrest
  next hactivity =>
    rw [hactivity] at hcourse
    exact ⟨opening, older, hopening, Option.some.inj hrest ▸ hcourse⟩
  next hactivity =>
    rw [hactivity] at hcourse
    exact ⟨opening, older, hopening, Option.some.inj hrest ▸ hcourse⟩
  next => cases hrest

/-- A law that every command keeps is kept by every step of a flow that is on course. -/
theorem Upholds.step (h : run.Upholds law) (hcourse : run.OnCourse first setup history)
    (hkeeps : ∀ opening older log f command f' reply, opening.IsOpening →
      f.OnCourse opening first older log → law f → f.Performed command f' reply → law f')
    (hstep : run.Step events run') : run'.Upholds law := by
  cases hstep with
  | answered answer hasked =>
    unfold Upholds at h
    rw [hasked] at h
    exact h answer
  | settled =>
    cases hrest : run.resting? with
    | none => rwa [settle_eq_self hrest]
    | some f =>
      have hlaw := h.resting hrest
      obtain ⟨opening, older, hopening, hflow⟩ := hcourse.resting hrest
      obtain ⟨rested, hsettle, hidle, -⟩ := settle_eq_next hrest
      rw [hsettle]
      unfold Upholds
      rcases activity_next hidle with ⟨ticket, command, rest, -, hbusy⟩ | ⟨-, hwaits | hended⟩
      · rw [hbusy]
        exact (Flow.ensures_perform command f).mono fun f' reply hperformed =>
          hkeeps _ _ _ _ _ _ _ hopening hflow hlaw hperformed
      · rwa [hwaits]
      · rw [hended]
        trivial
  | sent ticket command hsent =>
    unfold send? at hsent
    split at hsent
    · obtain rfl := Option.some.inj hsent
      exact h
    · cases hsent
  | paused => exact h
  | released => exact h

/-- A law that holds of a flow that is launched and that every command keeps is a law of the flow ever
after. -/
theorem Reaches.upholds (hreaches : (launch f).Reaches history run)
    (hopening : f.identity.IsOpening) (hlaw : law f)
    (hkeeps : ∀ opening older log g command g' reply, opening.IsOpening →
      g.OnCourse opening f.usernames older log → law g → g.Performed command g' reply → law g') :
    run.Upholds law := by
  have hcourse := onCourse_launch hopening
  induction hreaches with
  | here =>
    exact (Flow.ensures_perform .start f).mono fun g reply hperformed =>
      hkeeps f.identity [] [] f .start g reply hopening ⟨.begun, .begun⟩ hlaw hperformed
  | step hreaches hstep ih => exact ih.step (hreaches.onCourse hcourse) hkeeps hstep

end FlowRun

end Enrolment
