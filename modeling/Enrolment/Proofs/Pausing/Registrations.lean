import Enrolment.Proofs.Flow.Gates
import Enrolment.Proofs.Pausing.Heed

/-!
What a set flag does to registrations. A call that goes on under a set flag submits nothing more, and
it times nothing out, with one exception: the last attempt of a submission was under way when the flag
was set, and is refused.
-/

namespace Enrolment

namespace IdentityRegistration

/-- A registration does not time out before its call ends, and what it asks for heeds the flag. -/
def Guards (flag : Bool) (_ : Log) (r : IdentityRegistration) (q : Request) : Prop :=
  r.phase ≠ .timedOut ∧ q.IsHeeding flag

/-- Under a set flag a registration that may submit has timed out only if it had before, or if its last
attempt to submit was just refused. -/
def Spares (first : IdentityRegistration) (flag : Bool) (log : Log) (r : IdentityRegistration) : Prop :=
  first.settings.submission.attempts ≠ 0 → flag = true → r.phase = .timedOut →
    first.phase = .timedOut ∨ log.Lapses first.settings.submission.attempts.toNat

variable {alters : Request → Prop} {first r : IdentityRegistration} {flag : Bool} {log : Log}

theorem heeds_awaitNetwork {schedule : Schedule} (hattempts : schedule.attempts ≠ 0)
    (hphase : r.phase = .awaitingNetwork) :
    (awaitNetwork schedule r).Heeds alters Guards (fun flag log r _ => first.Spares flag log r)
      flag log := by
  have hopen : r.phase ≠ .timedOut := by simp [hphase]
  refine Routine.heeds_get (Routine.heeds_bind (heeds_watch hattempts
    (fun _ _ => ⟨hopen, trivial⟩) (fun _ _ _ => ⟨hopen, trivial⟩) ?_) ?_)
  · intro number log
    refine Routine.heeds_ask ⟨hopen, trivial⟩ fun new answer _ _ => ?_
    match answer with
    | .ok (some identity) => rfl
    | .ok none => rfl
    | .error e => rfl
  rintro flag later r' ended ⟨rfl, hended⟩
  match ended with
  | none => exact fun _ _ htimedOut => absurd htimedOut hopen
  | some (.completed identity) =>
    refine Routine.heeds_ask ⟨hopen, trivial⟩ fun new now _ _ => ?_
    rintro - - ⟨⟩
  | some (.timedOut looks) =>
    intro _ hset
    rw [hended looks rfl] at hset
    cases hset

variable [Suite]

theorem heeds_submitCreate {schedule : Schedule} (hattempts : schedule.attempts ≠ 0)
    (hsettings : r.settings = first.settings) (hphase : r.phase = .submitting) :
    (submitCreate schedule r).Heeds alters Guards (fun flag log r _ => first.Spares flag log r)
      flag log := by
  have hopen : r.phase ≠ .timedOut := by simp [hphase]
  refine Routine.heeds_get (Routine.heeds_ite (fun _ => ?_) fun _ => ?_)
  · rintro - - ⟨⟩
  refine Routine.heeds_ask ⟨hopen, trivial⟩ fun new signed _ _ => ?_
  refine Routine.heeds_bind (heeds_submitUntilDecided (fun _ _ => ⟨hopen, trivial⟩)
    (fun _ _ _ => ⟨hopen, trivial⟩) fun _ => ⟨hopen, rfl⟩) ?_
  rintro flag later r' ended ⟨rfl, hended⟩
  match ended with
  | .accepted receipt =>
    refine Routine.heeds_modify (Routine.heeds_isCancelled ⟨nofun, trivial⟩ fun read => ?_)
    refine Routine.heeds_ite (fun _ => ?_) fun _ => heeds_awaitNetwork hattempts rfl
    rintro - - ⟨⟩
  | .rejected reason => rintro - - ⟨⟩
  | .exhausted .. =>
    intro hsubmission _ _
    rw [hsettings] at hended
    exact .inr (hended _ _ rfl hsubmission).lapses
  | .cancelled => exact fun _ _ htimedOut => absurd htimedOut hopen

theorem heeds_checkExisting {schedule : Schedule} (hattempts : schedule.attempts ≠ 0)
    (hsettings : r.settings = first.settings) (hphase : r.phase = .fundingConfirmed) :
    (checkExisting schedule r).Heeds alters Guards (fun flag log r _ => first.Spares flag log r)
      flag log := by
  have hopen : r.phase ≠ .timedOut := by simp [hphase]
  refine Routine.heeds_get (Routine.heeds_ask ⟨hopen, trivial⟩
    fun new answer _ _ => ?_)
  match answer with
  | .ok (some identity) =>
    refine Routine.heeds_ask ⟨hopen, trivial⟩ fun new now _ _ => ?_
    rintro - - ⟨⟩
  | .ok none => exact heeds_submitCreate hattempts hsettings rfl
  | .error e => exact heeds_submitCreate hattempts hsettings rfl

theorem heeds_awaitFunding {schedule : Schedule} (hattempts : schedule.attempts ≠ 0)
    (hsettings : r.settings = first.settings) (hphase : r.phase = .awaitingFunding) :
    (awaitFunding schedule r).Heeds alters Guards (fun flag log r _ => first.Spares flag log r)
      flag log := by
  have hopen : r.phase ≠ .timedOut := by simp [hphase]
  refine Routine.heeds_get (Routine.heeds_ask ⟨hopen, trivial⟩ fun new answer _ _ => ?_)
  match answer with
  | none => exact fun _ _ htimedOut => absurd htimedOut hopen
  | some (.error e) => exact fun _ _ htimedOut => absurd htimedOut hopen
  | some (.ok depth) => exact heeds_checkExisting hattempts hsettings rfl

/-- A call heeds the flag, whatever phase it goes on from. -/
theorem heeds_register (schedule : Schedule) :
    (register schedule r).Heeds alters Guards (fun flag log r' _ => r.Spares flag log r')
      flag log := by
  unfold register
  cases hvalid : schedule.validate with
  | error e => exact fun _ _ htimedOut => .inl htimedOut
  | ok u =>
    have hattempts := Schedule.attempts_ne_zero hvalid
    apply Routine.heeds_get
    cases hphase : r.phase with
    | awaitingFunding => exact heeds_awaitFunding hattempts rfl hphase
    | fundingConfirmed => exact heeds_checkExisting hattempts rfl hphase
    | submitting => exact heeds_submitCreate hattempts rfl hphase
    | awaitingNetwork => exact heeds_awaitNetwork hattempts hphase
    | registered => exact fun _ _ htimedOut => .inl htimedOut
    | timedOut => exact fun _ _ htimedOut => .inl htimedOut
    | failed => exact fun _ _ htimedOut => .inl htimedOut

end IdentityRegistration

namespace UsernameRegistration

/-- No name has timed out that had not before. -/
def Spares (first r : UsernameRegistration) : Prop :=
  ∀ name, r.stateOf? name = some .timedOut → first.stateOf? name = some .timedOut

/-- Nothing times out before its call ends, and what a call asks for heeds the flag. -/
def Guards (first : UsernameRegistration) (flag : Bool) (_ : Log) (r : UsernameRegistration)
    (q : Request) : Prop :=
  first.Spares r ∧ q.IsHeeding flag

/-- How calls end: under a set flag nothing has timed out that had not before, unless the last attempt
to submit was just refused. -/
def SparesUnlessLapsed (alters : Request → Prop) (first : UsernameRegistration) (flag : Bool)
    (log : Log) (r : UsernameRegistration) : Prop :=
  first.settings.submission.attempts ≠ 0 → ¬alters .time → flag = true →
    first.Spares r ∨ log.Lapses first.settings.submission.attempts.toNat

/-- How the steps of a batch end: a batch that goes on or is paused has nothing timed out. -/
def StepSpares (alters : Request → Prop) (first : UsernameRegistration) (flag : Bool) (log : Log)
    (r : UsernameRegistration) (step : Step) : Prop :=
  r.settings = first.settings ∧
    (first.Spares r ∨ (∃ outcome, step = .stop outcome) ∧ first.SparesUnlessLapsed alters flag log r)

variable {alters : Request → Prop} {first r r' : UsernameRegistration} {flag : Bool} {log : Log}
  {batch names : List String}

/-- The schedules of a batch that was read let something be attempted. -/
theorem attempts_of_readBatch {preorder domain : Schedule} {requests : List String}
    {labels : List Label} (h : r.readBatch preorder domain requests = .ok labels) :
    preorder.attempts ≠ 0 ∧ domain.attempts ≠ 0 := by
  unfold readBatch at h
  cases hpreorder : preorder.validate with
  | error e => simp [hpreorder, bind, Except.bind] at h
  | ok u =>
    cases hdomain : domain.validate with
    | error e => simp [hpreorder, hdomain, bind, Except.bind] at h
    | ok u => exact ⟨Schedule.attempts_ne_zero hpreorder, Schedule.attempts_ne_zero hdomain⟩

theorem Spares.of_stateOf? (h : first.Spares r) {fresh : ClaimState} (hfresh : fresh ≠ .timedOut)
    (hstate : ∀ name, r'.stateOf? name = r.stateOf? name ∨ r'.stateOf? name = some fresh) :
    first.Spares r' := by
  intro name htimedOut
  rcases hstate name with hsame | hnew
  · exact h name (hsame ▸ htimedOut)
  · rw [hnew] at htimedOut
    exact absurd (Option.some.inj htimedOut) hfresh

theorem stateOf?_advance_cases (names : List String) (target : ClaimState) (now : Timestamp)
    (name : String) :
    (r.advance names target now).stateOf? name = r.stateOf? name ∨
      (r.advance names target now).stateOf? name = some target := by
  have hfrom (names : List String) (claims : Table String Claim) :
      ((names.foldl (fun claims name => claims.adjust name (Claim.moved target now)) claims).find?
          name).map Claim.state = (claims.find? name).map Claim.state ∨
        ((names.foldl (fun claims name => claims.adjust name (Claim.moved target now)) claims).find?
          name).map Claim.state = some target := by
    induction names generalizing claims with
    | nil => exact .inl rfl
    | cons first rest ih =>
      rcases ih (claims.adjust first (Claim.moved target now)) with hsame | hmoved
      · rw [List.foldl_cons, hsame, Table.find?_adjust]
        split
        next heq =>
          subst heq
          cases hfound : claims.find? name with
          | none => exact .inl rfl
          | some c =>
            rcases c.moved_cases target now with hkept | ⟨-, hentered⟩
            · exact .inl (by simp [hkept])
            · exact .inr (by simp [hentered])
        next => exact .inl rfl
      · exact .inr hmoved
  exact hfrom names r.claims

theorem Spares.advance (h : first.Spares r) {target : ClaimState} (htarget : target ≠ .timedOut)
    (now : Timestamp) : first.Spares (r.advance names target now) :=
  h.of_stateOf? htarget fun name => stateOf?_advance_cases names target now name

theorem Spares.step (h : first.Spares r) (hsettings : r.settings = first.settings) (step : Step) :
    first.StepSpares alters flag log r step := ⟨hsettings, .inl h⟩

theorem Spares.notePrimary (h : first.Spares r) (names : List String) :
    first.Spares (r.notePrimary names) := by
  intro name
  rw [stateOf?_notePrimary]
  exact h name

theorem heeds_moveOn {target : ClaimState} (htarget : target ≠ .timedOut) (h : first.Spares r)
    (hsettings : r.settings = first.settings) :
    (moveOn names target r).Heeds alters first.Guards
      (first.StepSpares alters) flag log := by
  rw [moveOn_eq]
  refine Routine.heeds_ask ⟨h, trivial⟩ fun _ now _ _ => ?_
  obtain ⟨moved, -, hmoved⟩ := exists_advanceInTurn_eq r target now names
  rw [hmoved]
  exact (h.advance htarget now).step hsettings _

theorem heeds_proceedUnlessPaused (h : first.Spares r) (hsettings : r.settings = first.settings) :
    (proceedUnlessPaused r).Heeds alters first.Guards (first.StepSpares alters) flag log := by
  refine Routine.heeds_isCancelled ⟨h, trivial⟩ fun read => ?_
  split
  · exact h.step hsettings _
  · exact h.step hsettings _

/-- A batch times out under a set flag only if the flag was set before. -/
theorem heeds_timeOut (h : first.Spares r) (hsettings : r.settings = first.settings)
    (hlapses : first.settings.submission.attempts ≠ 0 → flag = true →
      log.Lapses first.settings.submission.attempts.toNat) :
    (timeOut batch r).Heeds alters first.Guards (first.StepSpares alters) flag log := by
  refine Routine.heeds_ask ⟨h, trivial⟩ fun new now hnew _ => ?_
  refine ⟨hsettings, .inr ⟨⟨_, rfl⟩, ?_⟩⟩
  intro hsubmission hkept hset
  have hsame : new = flag := Decidable.byContradiction fun hne => hkept (hnew hne)
  rw [hsame] at hset
  exact .inr ((hlapses hsubmission hset).time now)

theorem heeds_andThen {first second : Work Step} {start : UsernameRegistration}
    (hfirst : (first r).Heeds alters start.Guards (start.StepSpares alters) flag log)
    (hsecond : ∀ flag log r, start.Spares r → r.settings = start.settings →
      (second r).Heeds alters start.Guards (start.StepSpares alters) flag log) :
    (Step.andThen first second r).Heeds alters start.Guards (start.StepSpares alters) flag log := by
  refine Routine.heeds_bind hfirst ?_
  rintro flag log r step ⟨hsettings, hstep⟩
  match step with
  | .proceed =>
    rcases hstep with hspares | ⟨⟨outcome, hstop⟩, -⟩
    · exact hsecond flag log r hspares hsettings
    · cases hstop
  | .stop outcome => exact ⟨hsettings, hstep⟩
  | .paused => exact ⟨hsettings, hstep⟩

section

variable [Suite]

theorem heeds_broadcast {operation : Operation} (h : first.Spares r)
    (hsettings : r.settings = first.settings) :
    (broadcast batch operation r).Heeds alters first.Guards (first.StepSpares alters) flag log := by
  refine Routine.heeds_ask ⟨h, trivial⟩ fun new now _ _ => ?_
  refine Routine.heeds_get (Routine.heeds_bind (heeds_submitUntilDecided (fun _ _ => ⟨h, trivial⟩)
    (fun _ _ _ => ⟨h, trivial⟩) fun _ => ⟨h, rfl⟩) ?_)
  rintro flag later r' ended ⟨rfl, hended⟩
  match ended with
  | .accepted receipt => exact h.step hsettings _
  | .rejected reason => exact h.step hsettings _
  | .exhausted .. =>
    rw [hsettings] at hended
    exact heeds_timeOut h hsettings fun hsubmission _ => (hended _ _ rfl hsubmission).lapses
  | .cancelled => exact h.step hsettings _

theorem heeds_submitPreorder (h : first.Spares r)
    (hsettings : r.settings = first.settings) :
    (submitPreorder batch r).Heeds alters first.Guards (first.StepSpares alters) flag log := by
  refine Routine.heeds_get (Routine.heeds_ite (fun _ => h.step hsettings _) fun _ => ?_)
  refine heeds_andThen (heeds_broadcast h hsettings) fun flag log r h hsettings => ?_
  exact heeds_andThen (heeds_moveOn (by decide) h hsettings) fun _ _ _ h hsettings =>
    heeds_proceedUnlessPaused h hsettings

theorem heeds_submitDomains (h : first.Spares r)
    (hsettings : r.settings = first.settings) :
    (submitDomains batch r).Heeds alters first.Guards (first.StepSpares alters) flag log := by
  refine Routine.heeds_get (Routine.heeds_ite (fun _ => h.step hsettings _) fun _ => ?_)
  refine heeds_andThen (heeds_broadcast h hsettings) fun flag log r h hsettings => ?_
  refine heeds_andThen (heeds_moveOn (by decide) h hsettings) fun flag log r h hsettings => ?_
  refine Routine.heeds_modify (heeds_proceedUnlessPaused (h.notePrimary _) ?_)
  rw [← hsettings]
  unfold UsernameRegistration.notePrimary
  split <;> rfl

end

theorem heeds_watchDocuments {schedule : Schedule} {kind : DocumentKind} {filter : Filter}
    {isComplete : List Document → Bool} (hattempts : schedule.attempts ≠ 0) (h : first.Spares r) :
    (watchDocuments schedule kind filter isComplete r).Heeds alters first.Guards
      (fun flag _ s' ended => s' = r ∧ ∀ looks, ended = some (.timedOut looks) → flag = false)
      flag log := by
  refine heeds_watch hattempts (fun _ _ => ⟨h, trivial⟩) (fun _ _ _ => ⟨h, trivial⟩) ?_
  intro number log
  refine Routine.heeds_ask ⟨h, trivial⟩ fun new answer _ _ => ?_
  match answer with
  | .ok documents => rfl
  | .error e => rfl

theorem heeds_awaitPreorders {schedule : Schedule} [Suite] (hattempts : schedule.attempts ≠ 0)
    (h : first.Spares r) (hsettings : r.settings = first.settings) :
    (awaitPreorders schedule batch r).Heeds alters first.Guards (first.StepSpares alters) flag log := by
  refine Routine.heeds_get (Routine.heeds_ite (fun _ => h.step hsettings _) fun _ => ?_)
  refine Routine.heeds_bind (heeds_watchDocuments hattempts h) ?_
  rintro flag later r' ended ⟨rfl, hended⟩
  match ended with
  | none => exact h.step hsettings _
  | some (.completed _) => exact heeds_moveOn (by decide) h hsettings
  | some (.timedOut looks) =>
    have hclear : flag = false := hended looks rfl
    exact heeds_timeOut h hsettings (by simp [hclear])

theorem heeds_awaitDomains {schedule : Schedule} [Suite] (hattempts : schedule.attempts ≠ 0)
    (h : first.Spares r) (hsettings : r.settings = first.settings) :
    (awaitDomains schedule batch r).Heeds alters first.Guards (first.StepSpares alters) flag log := by
  refine Routine.heeds_get (Routine.heeds_ite (fun _ => h.step hsettings _) fun _ => ?_)
  refine Routine.heeds_bind (heeds_watchDocuments hattempts h) ?_
  rintro flag later r' ended ⟨rfl, hended⟩
  match ended with
  | none => exact h.step hsettings _
  | some (.completed _) =>
    refine heeds_andThen (heeds_moveOn (by decide) h hsettings) fun flag log r h hsettings => ?_
    refine Routine.heeds_modify ⟨?_, .inl ?_⟩
    · rw [← hsettings]
      unfold settlePrimary
      split <;> rfl
    · intro name
      rw [stateOf?_settlePrimary]
      exact h name
  | some (.timedOut looks) =>
    have hclear : flag = false := hended looks rfl
    exact heeds_timeOut h hsettings (by simp [hclear])

section

variable [Suite]

theorem heeds_carryOut {preorder domain : Schedule} (hpreorder : preorder.attempts ≠ 0)
    (hdomain : domain.attempts ≠ 0) (h : first.Spares r)
    (hsettings : r.settings = first.settings) :
    (carryOut preorder domain batch r).Heeds alters first.Guards (first.StepSpares alters)
      flag log := by
  refine heeds_andThen (heeds_submitPreorder h hsettings) fun _ _ r h hsettings => ?_
  refine heeds_andThen (heeds_awaitPreorders hpreorder h hsettings) fun _ _ r h hsettings => ?_
  exact heeds_andThen (heeds_submitDomains h hsettings) fun _ _ r h hsettings =>
    heeds_awaitDomains hdomain h hsettings

theorem Spares.adoptAll (h : first.Spares r) (documents : List Document) (now : Timestamp) :
    first.Spares (r.adoptAll documents now).2 :=
  h.of_stateOf? (by decide) (stateOf?_adoptAll_cases documents now)

theorem heeds_recover (h : first.Spares r) (hsettings : r.settings = first.settings) :
    (recover r).Heeds alters first.Guards
      (fun _ _ r' _ => first.Spares r' ∧ r'.settings = first.settings) flag log := by
  refine Routine.heeds_get (Routine.heeds_ask ⟨h, trivial⟩ fun new answer _ _ => ?_)
  match answer with
  | .error e => exact ⟨h, hsettings⟩
  | .ok documents =>
    refine Routine.heeds_ask ⟨h, trivial⟩ fun new now _ _ => ⟨h.adoptAll documents now, ?_⟩
    rw [← hsettings]
    exact congrArg (fun setup => setup.2.2) (setup_adoptAll documents now)

theorem heeds_enlist (labels : List Label) (h : first.Spares r)
    (hsettings : r.settings = first.settings) :
    (enlist labels r).Heeds alters first.Guards
      (fun _ _ r' _ => first.Spares r' ∧ r'.settings = first.settings) flag log := by
  induction labels generalizing r flag log with
  | nil => exact ⟨h, hsettings⟩
  | cons label rest ih =>
    have hnamed {r : UsernameRegistration} {flag : Bool} {log : Log} (h : first.Spares r)
        (hsettings : r.settings = first.settings) :
        ((do return label.fullName :: (← enlist rest) : Work (List String)) r).Heeds alters
          first.Guards (fun _ _ r' _ => first.Spares r' ∧ r'.settings = first.settings) flag log :=
      Routine.heeds_bind (ih h hsettings) fun _ _ _ _ hlater => hlater
    have hrenew :
        ((do
          let salt ← Routine.ask (.drawSalt label)
          let now ← Routine.ask .time
          modify fun r => r.put (.fresh label r.owner salt now)
          return label.fullName :: (← enlist rest) : Work (List String)) r).Heeds alters
            first.Guards (fun _ _ r' _ => first.Spares r' ∧ r'.settings = first.settings)
            flag log := by
      refine Routine.heeds_ask ⟨h, trivial⟩ fun _ salt _ _ => ?_
      refine Routine.heeds_ask ⟨h, trivial⟩ fun _ now _ _ => Routine.heeds_modify ?_
      have hfresh : ClaimState.unregistered ≠ .timedOut := by decide
      refine hnamed (h.of_stateOf? hfresh fun name => ?_) hsettings
      rw [stateOf?_put]
      split
      · exact .inr rfl
      · exact .inl rfl
    apply Routine.heeds_get
    cases r.stateOf? label.fullName with
    | none => exact hrenew
    | some state =>
      cases state with
      | registered => exact ih h hsettings
      | timedOut => exact hrenew
      | unregistered => exact hnamed h hsettings
      | preorderSubmitted => exact hnamed h hsettings
      | preorderConfirmed => exact hnamed h hsettings
      | domainSubmitted => exact hnamed h hsettings

theorem heeds_registerLabels {preorder domain : Schedule} (hpreorder : preorder.attempts ≠ 0)
    (hdomain : domain.attempts ≠ 0) (labels : List Label) :
    (registerLabels preorder domain labels r).Heeds alters r.Guards
      (fun flag log r' _ => r.Spares r' ∨ r.SparesUnlessLapsed alters flag log r') flag log := by
  have hrest {looked : UsernameRegistration} {flag : Bool} {log : Log} (h : r.Spares looked)
      (hsettings : looked.settings = r.settings) (reported : List String) :
      (registerLooked preorder domain labels reported looked).Heeds alters r.Guards
        (fun flag log r' _ => r.Spares r' ∨ r.SparesUnlessLapsed alters flag log r') flag log := by
    refine Routine.heeds_bind (heeds_enlist labels h hsettings) ?_
    rintro flag log formed batch ⟨h, hsettings⟩
    refine Routine.heeds_ite (fun _ => .inl h) fun _ => ?_
    refine Routine.heeds_bind (heeds_carryOut hpreorder hdomain h hsettings) ?_
    rintro flag log r' step ⟨-, hstep⟩
    cases step with
    | proceed => exact hstep.imp id fun h => h.2
    | stop outcome => exact hstep.imp id fun h => h.2
    | paused => exact hstep.imp id fun h => h.2
  have hbegun : r.Spares r := fun _ h => h
  rw [registerLabels_eq]
  refine Routine.heeds_get (Routine.heeds_ite (fun _ => ?_) fun _ => ?_)
  · refine Routine.heeds_bind (heeds_recover hbegun rfl) ?_
    rintro flag log looked - ⟨h, hsettings⟩
    exact hrest h hsettings _
  · exact hrest hbegun rfl _

/-- A call heeds the flag, whatever states the claims are in when it begins. -/
theorem heeds_register (schedule? : Option Schedule) (requests : List String) :
    (register schedule? requests r).Heeds alters r.Guards
      (fun flag log r' _ => r.Spares r' ∨ r.SparesUnlessLapsed alters flag log r') flag log := by
  refine Routine.heeds_get (Routine.heeds_get ?_)
  cases hread : r.readBatch (schedule?.getD r.settings.preorder)
      (schedule?.getD r.settings.domain) requests with
  | error e => exact .inl fun _ h => h
  | ok labels =>
    obtain ⟨hpreorder, hdomain⟩ := attempts_of_readBatch hread
    exact Routine.heeds_bind (heeds_registerLabels hpreorder hdomain labels)
      fun _ _ _ _ hlast => hlast

end

end UsernameRegistration

/-- While the flag is set nothing times out, with one exception. At whatever point of a call the flag is
set, the identity has not timed out and no name has that had not before, unless the call has ended and
the last thing that it waited for was its last attempt to submit, begun while the flag was not set and
refused for a reason that may clear up. -/
theorem paused_calls_time_nothing_out [Suite] {flag : Bool} {es : Log} :
    (∀ (r : IdentityRegistration) (schedule : Schedule)
      (t : Task IdentityRegistration (Option IdentityOutcome)),
      r.settings.submission.attempts ≠ 0 → Task.Passes flag (r.register schedule) es true t →
        t.state.phase = .timedOut → r.phase = .timedOut ∨
          t.result?.isSome ∧ es.Lapses r.settings.submission.attempts.toNat) ∧
    (∀ (r : UsernameRegistration) (schedule? : Option Schedule) (requests : List String)
      (t : Task UsernameRegistration (Except RegistrationError (Option UsernameOutcome))),
      r.settings.submission.attempts ≠ 0 → Task.Passes flag (r.register schedule? requests) es true t →
        ∀ name, t.state.stateOf? name = some .timedOut → r.stateOf? name = some .timedOut ∨
          t.result?.isSome ∧ es.Lapses r.settings.submission.attempts.toNat) ∧
    ∀ (r : UsernameRegistration)
      (t : Task UsernameRegistration (Except RegistrationError (List String))),
      Task.Passes flag r.recover es true t →
        ∀ name, t.state.stateOf? name = some .timedOut → r.stateOf? name = some .timedOut := by
  refine ⟨?_, ?_, ?_⟩
  · intro r schedule t hsubmission hrun htimedOut
    have hstands : t.Stands _ _ true ([] ++ es) :=
      (IdentityRegistration.heeds_register schedule).stands hrun
    cases t with
    | done r' result => exact (hstands hsubmission rfl htimedOut).imp id fun hlapses => ⟨rfl, hlapses⟩
    | ask r' q next =>
      obtain ⟨before, hopen, -⟩ := hstands
      exact absurd htimedOut hopen
  · intro r schedule? requests t hsubmission hrun name htimedOut
    have hstands : t.Stands _ _ true ([] ++ es) :=
      (UsernameRegistration.heeds_register schedule? requests).stands hrun
    cases t with
    | done r' result =>
      rcases hstands with hspares | hunless
      · exact .inl (hspares name htimedOut)
      · rcases hunless hsubmission (by simp [Request.isWaitedFor]) rfl with hspares | hlapses
        · exact .inl (hspares name htimedOut)
        · exact .inr ⟨rfl, hlapses⟩
    | ask r' q next =>
      obtain ⟨before, hspares, -⟩ := hstands
      exact .inl (hspares name htimedOut)
  · intro r t hrun name htimedOut
    have hbegun : r.Spares r := fun _ h => h
    have hstands : t.Stands _ _ true ([] ++ es) :=
      (UsernameRegistration.heeds_recover hbegun rfl).stands hrun
    cases t with
    | done r' result => exact hstands.1 name htimedOut
    | ask r' q next =>
      obtain ⟨before, hspares, -⟩ := hstands
      exact hspares name htimedOut

namespace Sample

/-- What is answered once the flag is known. -/
def answerUnder (flag : Bool) : (q : Request) → q.Answer → q.Answer
  | .isCancelled, _ => flag
  | .pause _, _ => flag
  | .awaitDepth .., answer => if flag then none else answer
  | _, answer => answer

theorem admits_answerUnder (judgement : Except Refusal Receipt) (shownIdentity : Option Identity)
    (shown : DocumentKind → Filter → List Document) (flag : Bool) (q : Request) :
    q.Admits flag (answerUnder flag q (oracle judgement shownIdentity shown [] q)) := by
  cases q with
  | awaitDepth tx depth =>
    cases flag with
    | true => rfl
    | false => exact UInt64.le_refl depth
  | isCancelled => rfl
  | pause millis => exact id
  | _ => trivial

/-- The flag once a request is answered, if it is set while something is submitted. -/
def flagDuring (flag : Bool) : Request → Bool
  | .submit _ => true
  | _ => flag

def busy (flag : Bool) (q : Request) : q.Answer :=
  answerUnder flag q (oracle (.error (.transient "busy")) none (fun _ _ => []) [] q)

/-- What work comes to if the flag is set while the first submission is under way, and every submission
is refused for a reason that may clear up. -/
def interrupt {σ α : Type} : Bool → Task σ α → Log × Bool × σ × α
  | flag, .done s a => ([], flag, s, a)
  | flag, .ask _ q next =>
    let flag := flagDuring flag q
    let (es, ended) := interrupt (q.flagAfter flag) (next (busy flag q))
    (⟨q, busy flag q⟩ :: es, ended)

theorem passes_interrupt {σ α : Type} (flag : Bool) (t : Task σ α) :
    Task.Passes flag t (interrupt flag t).1 (interrupt flag t).2.1
      (.done (interrupt flag t).2.2.1 (interrupt flag t).2.2.2) := by
  induction t generalizing flag with
  | done s a => exact .here _ _
  | ask s q next ih =>
    have hadmits (flag : Bool) : q.Admits flag (busy flag q) := admits_answerUnder _ _ _ flag q
    have hrest := Task.Passes.answered (s := s) _ (hadmits (flagDuring flag q)) (ih _ _)
    cases q with
    | submit t => exact .changed true rfl hrest
    | _ => exact hrest

/-- A call that comes to its end under a set flag if it is interrupted. -/
theorem exists_passes {σ α : Type} {t : Task σ α} (h : (interrupt false t).2.1 = true) :
    ∃ es last result, Task.Passes false t es true (.done last result) ∧
      last = (interrupt false t).2.2.1 := by
  refine ⟨(interrupt false t).1, _, (interrupt false t).2.2.2, ?_, rfl⟩
  have hrun := passes_interrupt false t
  rwa [h] at hrun

/-- Settings that let a transition be submitted once. -/
def submittingOnce : Settings := { Settings.default with submission := .linear 1 10 }

def creating : IdentityRegistration :=
  { flow.identity with
    lock := { lock with burnKey := signingKey.publicKey }
    settings := submittingOnce }

def calling : UsernameRegistration := { registration with settings := submittingOnce }

end Sample

open Sample in
/-- An interrupted identity times out after its only attempt was refused. -/
theorem paused_calls_time_nothing_out_creating :
    ∃ es r result, Task.Passes false (creating.register .default) es true (.done r result) ∧
      r.phase = .timedOut ∧ Log.Lapses 1 es := by
  have hset : (interrupt false (creating.register .default)).2.1 = true := by decide +kernel
  obtain ⟨es, r, result, hrun, hlast⟩ := exists_passes hset
  have htimedOut : r.phase = .timedOut := by
    rw [hlast]
    decide +kernel
  refine ⟨es, r, result, hrun, htimedOut, ?_⟩
  have hsubmission : creating.settings.submission.attempts ≠ 0 := by decide
  rcases paused_calls_time_nothing_out.1 creating .default _ hsubmission hrun htimedOut with
    hbefore | ⟨-, hlapses⟩
  · cases hbefore
  · exact hlapses

open Sample in
/-- An identity and a name time out while the flag is set: it is set while the only attempt to submit is
under way, and that attempt is refused. -/
theorem paused_calls_time_out :
    (∃ es r result, Task.Passes false (creating.register .default) es true (.done r result) ∧
      creating.phase = .awaitingFunding ∧ r.phase = .timedOut) ∧
    ∃ es r result, Task.Passes false (calling.register none ["alice"]) es true (.done r result) ∧
      calling.stateOf? "alice.dash" = none ∧ r.stateOf? "alice.dash" = some .timedOut := by
  constructor
  · have hset : (interrupt false (creating.register .default)).2.1 = true := by decide +kernel
    obtain ⟨es, r, result, hrun, hlast⟩ := exists_passes hset
    refine ⟨es, r, result, hrun, rfl, ?_⟩
    rw [hlast]
    decide +kernel
  · have hset : (interrupt false (calling.register none ["alice"])).2.1 = true := by decide +kernel
    obtain ⟨es, r, result, hrun, hlast⟩ := exists_passes hset
    refine ⟨es, r, result, hrun, rfl, ?_⟩
    rw [hlast]
    decide +kernel

end Enrolment
