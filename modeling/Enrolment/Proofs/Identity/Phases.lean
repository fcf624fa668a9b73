import Enrolment.Proofs.Evolution
import Enrolment.Proofs.Identity.Course

/-!
The routines that register an identity take no other courses, and move it as they should. Each is
entered in one phase; it submits what creates the identity in one phase only, asks for nothing in a
final phase, and says in the end what it ended in and why.
-/

namespace Enrolment

namespace IdentityRegistration

/-- Looking for an identity sees what the platform shows. -/
theorem meets_lookFor {r : IdentityRegistration} {log : Log}
    {guard : Log → IdentityRegistration → Request → Prop} {id : IdentityId}
    (hfind : guard log r (.findIdentity id)) :
    (lookFor id r).Meets guard (fun later r' saw => r' = r ∧ Log.Lulls log later ∧
      ∀ identity, saw = .ready identity → ⟨.findIdentity id, .ok (some identity)⟩ ∈ later) log := by
  refine Routine.meets_ask hfind fun answer => ?_
  have hlooked : Log.Lulls log (log ++ [⟨.findIdentity id, answer⟩]) :=
    (Log.Goes.refl log).snoc ⟨rfl, rfl⟩
  match answer with
  | .ok (some identity) =>
    refine ⟨rfl, hlooked, ?_⟩
    rintro identity' ⟨rfl⟩
    simp
  | .ok none => exact ⟨rfl, hlooked, by rintro identity ⟨⟩⟩
  | .error e => exact ⟨rfl, hlooked, by rintro identity ⟨⟩⟩

/-- What a registration can become by moves. -/
def Leads (r r' : IdentityRegistration) : Prop := ∃ path, Walks r path r'

theorem Leads.refl (r : IdentityRegistration) : r.Leads r := ⟨[], .stays r⟩

theorem Leads.trans {r r' r'' : IdentityRegistration} (h : r.Leads r') (h' : r'.Leads r'') :
    r.Leads r'' := by
  obtain ⟨path, hwalks⟩ := h
  obtain ⟨path', hwalks'⟩ := h'
  exact ⟨path ++ path', hwalks.append hwalks'⟩

theorem leads_trans (a b c : IdentityRegistration) : a.Leads b → b.Leads c → a.Leads c := .trans

theorem Move.leads {r r' : IdentityRegistration} (h : Move r r') : r.Leads r' := ⟨_, h.walks⟩

/-- From one phase to the next, where nothing else is to be remembered. -/
theorem leads_enter {r : IdentityRegistration} {phase phase' : IdentityPhase} (hphase : r.phase = phase)
    (hnext : phase' ∈ phase.next) (hsuccess : phase' ≠ .registered) (hfailure : phase' ≠ .failed) :
    r.Leads (r.enter phase') := by
  subst hphase
  exact Move.leads (.enters hnext hsuccess hfailure)

theorem leads_markRegistered {r : IdentityRegistration} {phase : IdentityPhase} (now : Timestamp)
    (hphase : r.phase = phase) (hnext : .registered ∈ phase.next) :
    r.Leads (r.markRegistered now) := by
  subst hphase
  exact Move.leads (.registers now hnext)

/-- Why a call fails: the burn key is not the one that the funding record names, a transition is
refused for good, or the depth of the funding transaction cannot be learnt. -/
inductive Blames (r : IdentityRegistration) (log : Log) [Suite] : RegistrationError → Prop where
  | mismatch (hkey : r.burnKey.publicKey ≠ r.lock.burnKey) :
      Blames r log (.rejected "burn key does not match the funding record")
  | refused {t : Transition} {reason : String} (hphase : r.phase = .failed)
      (hrefused : ⟨.submit t, .error (.invalid reason)⟩ ∈ log) : Blames r log (.rejected reason)
  | unknown {transaction : TxId} {depth : UInt64} {e : RegistrationError}
      (hunknown : ⟨.awaitDepth transaction depth, some (.error e)⟩ ∈ log) : Blames r log e

variable [Suite]

/-- What work on a registration may ask for: nothing in a final phase and no salts, and while it submits
what creates the identity the registration is on a course and its burn key the right one. -/
def Permits (start : IdentityRegistration) : Log → IdentityRegistration → Request → Prop
  | log, r, .submit t => Course start log r ∧ r.phase = .submitting ∧
    r.burnKey.publicKey = r.lock.burnKey ∧ ∃ signed, t = .sign r.operation signed r.burnKey
  | _, _, .drawSalt _ => False
  | _, r, _ => r.phase.isFinal = false

/-- How work on a registration ends: on a course, with the identity registered if the call reports
so. -/
def Ends (start : IdentityRegistration) (log : Log) (r : IdentityRegistration)
    (outcome : Option IdentityOutcome) : Prop :=
  Course start log r ∧ ∀ o, outcome = some o → o.isCompleted → r.phase = .registered

/-- How a call ends that did something: on a course, reporting the phase that it ended in, and a failure
with what is to blame for it. -/
structure Closes (start : IdentityRegistration) (log : Log) (r : IdentityRegistration)
    (outcome : Option IdentityOutcome) : Prop where
  course : Course start log r
  completed : ∀ o, outcome = some o → o.isCompleted → r.phase = .registered
  failed : r.phase = .failed → ∃ e, r.lastError = some e ∧ outcome = some (.failed e)
  blames : ∀ e, outcome = some (.failed e) → r.Blames log e

variable {start r : IdentityRegistration} {log : Log} {outcome : Option IdentityOutcome}

theorem Permits.isFinal {q : Request} (h : Permits start log r q) : r.phase.isFinal = false := by
  cases q with
  | submit t =>
    rw [h.2.1]
    rfl
  | drawSalt label => exact h.elim
  | _ => exact h

theorem Closes.ends (h : Closes start log r outcome) : Ends start log r outcome :=
  ⟨h.course, h.completed⟩

theorem Course.ends (h : Course start log r)
    (houtcome : ∀ o, outcome = some o → o.isCompleted = false) : Ends start log r outcome := by
  refine ⟨h, ?_⟩
  intro o ho hcompleted
  rw [houtcome o ho] at hcompleted
  cases hcompleted

/-- A call that is paused has nothing to report. -/
theorem Course.closes_paused (h : Course start log r) (hphase : r.phase.isFinal = false) :
    Closes start log r none := by
  refine ⟨h, nofun, ?_, nofun⟩
  intro hfailed
  rw [hfailed] at hphase
  cases hphase

theorem Course.closes_timedOut (h : Course start log r) (hphase : r.phase = .timedOut) :
    Closes start log r (some (.timedOut ())) := by
  refine ⟨h, ?_, by simp [hphase], nofun⟩
  rintro o ⟨rfl⟩ ⟨⟩

theorem Course.closes_completed (h : Course start log r) (hphase : r.phase = .registered) :
    Closes start log r (some (.completed r.id)) :=
  ⟨h, fun _ _ _ => hphase, by simp [hphase], nofun⟩

theorem evolves_awaitNetwork (schedule : Schedule) (h : Course start log r)
    (hphase : r.phase = .awaitingNetwork) :
    (awaitNetwork schedule r).Evolves Leads (Permits start) (Closes start) r log := by
  have hopen : r.phase.isFinal = false := by rw [hphase]; rfl
  have hwatch : (watch schedule (fun _ => lookFor r.id) r).Meets
      (fun log r' q => r' = r ∧ Permits start log r' q)
      (fun later r' ended => r' = r ∧ Log.Lulls log later ∧ ∀ identity,
        ended = some (.completed identity) →
          ⟨.findIdentity r.id, .ok (some identity)⟩ ∈ later) log := by
    refine meets_watch (fun _ => ⟨rfl, hopen⟩) (fun _ _ => ⟨rfl, hopen⟩) ?_ fun number later hlog => ?_
    · intro later e identity hmem
      exact List.mem_append_left _ hmem
    · refine (meets_lookFor ⟨rfl, hopen⟩).mono ?_
      rintro last r' saw ⟨rfl, hlast, hsaw⟩
      exact ⟨rfl, hlog.trans hlast, hsaw⟩
  refine Routine.evolves_get (Routine.evolves_bind leads_trans (hwatch.evolves (.refl r)) ?_)
  rintro later r' ended ⟨rfl, hlater, hseen⟩
  match ended with
  | none => exact ⟨.refl r', (h.lulls hlater).closes_paused hopen⟩
  | some (.completed identity) =>
    refine Routine.evolves_ask (.refl r') hopen fun now => ?_
    have hshown := List.mem_append_left [⟨.time, now⟩] (hseen identity rfl)
    have htime := (h.lulls hlater).lulls ((Log.Goes.refl later).snoc (quiet_time now))
    have hseen := htime.seen now (.inr hphase) hshown
    exact ⟨leads_markRegistered now hphase (by decide), hseen.closes_completed rfl⟩
  | some (.timedOut looks) =>
    have hexpired := (h.lulls hlater).expired (.inr hphase)
    exact ⟨leads_enter hphase (by decide) (by decide) (by decide), hexpired.closes_timedOut rfl⟩

theorem evolves_giveUp {e : RegistrationError} (h : Course start log r)
    (hphase : r.phase = .submitting) (hblames : (r.fail e).Blames log e) :
    (giveUp e r).Evolves Leads (Permits start) (Closes start) r log := by
  have hmove : Move r (r.fail e) := .fails e (by simp [hphase, IdentityPhase.next])
  refine ⟨hmove.leads, h.refused e hphase, ?_, fun _ => ⟨e, rfl, rfl⟩, ?_⟩
  · rintro o ⟨rfl⟩ ⟨⟩
  · rintro e' ⟨rfl⟩
    exact hblames

theorem evolves_submitCreate (schedule : Schedule) (h : Course start log r)
    (hphase : r.phase = .submitting) :
    (submitCreate schedule r).Evolves Leads (Permits start) (Closes start) r log := by
  have hopen : r.phase.isFinal = false := by rw [hphase]; rfl
  refine Routine.evolves_get (Routine.evolves_ite
    (fun hmismatch => evolves_giveUp h hphase (.mismatch hmismatch)) fun hmatch => ?_)
  refine Routine.evolves_ask (.refl r) hopen fun signed => ?_
  have hsigned := (Log.Goes.refl log).snoc (quiet_time signed)
  have hsubmit : (submitUntilDecided r.settings.submission
      (Routine.ask (.submit (.sign r.operation signed r.burnKey))) r).Meets
      (fun log r' q => r' = r ∧ Permits start log r' q)
      (fun later r' ended => r' = r ∧ ended.Writes (.sign r.operation signed r.burnKey)
        (log ++ [⟨.time, signed⟩]) later) (log ++ [⟨.time, signed⟩]) :=
    meets_submitUntilDecided (fun _ => ⟨rfl, hopen⟩) (fun _ _ => ⟨rfl, hopen⟩) fun later hlog =>
      ⟨rfl, h.lulls (hsigned.trans hlog), hphase, Decidable.not_not.mp hmatch, signed, rfl⟩
  refine Routine.evolves_bind leads_trans (hsubmit.evolves (.refl r)) ?_
  rintro later r' ended ⟨rfl, hended⟩
  match ended with
  | .accepted receipt =>
    obtain ⟨before, hbefore, rfl⟩ := hended
    have haccepted := (h.lulls (hsigned.trans hbefore)).accepted signed receipt hphase
    have hleads : r'.Leads (r'.enter .awaitingNetwork) :=
      leads_enter hphase (by decide) (by decide) (by decide)
    refine Routine.evolves_modify leads_trans hleads ?_
    refine Routine.evolves_isCancelled (.refl _) rfl fun set => ?_
    have hread := haccepted.lulls ((Log.Goes.refl _).snoc (quiet_isCancelled set))
    refine Routine.evolves_ite (fun _ => ⟨.refl _, hread.closes_paused rfl⟩) fun _ => ?_
    exact evolves_awaitNetwork schedule hread rfl
  | .rejected reason =>
    obtain ⟨before, hbefore, rfl⟩ := hended
    have hrefused := (hsigned.trans hbefore).snoc
      (quiet_refused (.sign r'.operation signed r'.burnKey) (.invalid reason))
    exact evolves_giveUp (h.lulls hrefused) hphase (.refused rfl List.mem_concat_self)
  | .exhausted .. =>
    have hexpired := (h.lulls (hsigned.trans hended)).expired (.inl hphase)
    exact ⟨leads_enter hphase (by decide) (by decide) (by decide), hexpired.closes_timedOut rfl⟩
  | .cancelled => exact ⟨.refl r', (h.lulls (hsigned.trans hended)).closes_paused hopen⟩

theorem evolves_checkExisting (schedule : Schedule) (h : Course start log r)
    (hphase : r.phase = .fundingConfirmed) :
    (checkExisting schedule r).Evolves Leads (Permits start) (Closes start) r log := by
  have hopen : r.phase.isFinal = false := by rw [hphase]; rfl
  refine Routine.evolves_get (Routine.evolves_ask (.refl r) hopen fun answer => ?_)
  have hlooked : Course start (log ++ [⟨.findIdentity r.id, answer⟩]) r :=
    h.lulls ((Log.Goes.refl log).snoc ⟨rfl, rfl⟩)
  have hanswered : ⟨.findIdentity r.id, answer⟩ ∈ log ++ [⟨.findIdentity r.id, answer⟩] := by simp
  -- an answer that shows nothing and one that fails lead to the same work
  have hsubmit (hanswer : ∀ identity, answer ≠ .ok (some identity)) :
      (submitCreate schedule (r.enter .submitting)).Evolves Leads (Permits start) (Closes start) r
        (log ++ [⟨.findIdentity r.id, answer⟩]) := by
    have hleads : r.Leads (r.enter .submitting) :=
      leads_enter hphase (by decide) (by decide) (by decide)
    exact (evolves_submitCreate schedule (hlooked.unseen hphase hanswered hanswer) rfl).after
      leads_trans hleads
  match answer with
  | .ok (some identity) =>
    refine Routine.evolves_ask (.refl r) hopen fun now => ?_
    have htime := hlooked.lulls ((Log.Goes.refl _).snoc (quiet_time now))
    have hshown := htime.seen now (.inl hphase) (List.mem_append_left _ hanswered)
    exact ⟨leads_markRegistered now hphase (by decide), hshown.closes_completed rfl⟩
  | .ok none => exact hsubmit (by rintro identity ⟨⟩)
  | .error e => exact hsubmit (by rintro identity ⟨⟩)

theorem evolves_awaitFunding (schedule : Schedule) (h : Course start log r)
    (hphase : r.phase = .awaitingFunding) :
    (awaitFunding schedule r).Evolves Leads (Permits start) (Closes start) r log := by
  have hopen : r.phase.isFinal = false := by rw [hphase]; rfl
  refine Routine.evolves_get (Routine.evolves_ask (.refl r) hopen fun answer => ?_)
  have hanswered : Course start
      (log ++ [⟨.awaitDepth r.lock.transaction r.settings.confirmations, answer⟩]) r :=
    h.lulls ((Log.Goes.refl log).snoc ⟨rfl, rfl⟩)
  match answer with
  | none => exact ⟨.refl r, hanswered.closes_paused hopen⟩
  | some (.error e) =>
    refine ⟨.refl r, hanswered, ?_, by simp [hphase], ?_⟩
    · rintro o ⟨rfl⟩ ⟨⟩
    · rintro e' ⟨rfl⟩
      exact .unknown List.mem_concat_self
  | some (.ok depth) =>
    have hleads : r.Leads (r.enter .fundingConfirmed) :=
      leads_enter hphase (by decide) (by decide) (by decide)
    refine Routine.evolves_modify leads_trans hleads ?_
    exact evolves_checkExisting schedule (hanswered.funded depth hphase List.mem_concat_self) rfl

/-- A call goes on from the phase that the registration is in. -/
theorem evolves_register {schedule : Schedule} (h : Course start log r)
    (hvalid : schedule.validate = .ok ()) (hphase : r.phase.isFinal = false) :
    (register schedule r).Evolves Leads (Permits start) (Closes start) r log := by
  unfold register
  rw [hvalid]
  refine Routine.evolves_get ?_
  cases hcase : r.phase with
  | awaitingFunding => exact evolves_awaitFunding schedule h hcase
  | fundingConfirmed => exact evolves_checkExisting schedule h hcase
  | submitting => exact evolves_submitCreate schedule h hcase
  | awaitingNetwork => exact evolves_awaitNetwork schedule h hcase
  | registered => simp [hcase, IdentityPhase.isFinal] at hphase
  | timedOut => simp [hcase, IdentityPhase.isFinal] at hphase
  | failed => simp [hcase, IdentityPhase.isFinal] at hphase

/-- In a final phase a call does nothing but report it. -/
theorem register_of_isFinal {schedule : Schedule} (hvalid : schedule.validate = .ok ())
    (hphase : r.phase.isFinal = true) : register schedule r = .done r r.finalOutcome := by
  unfold register
  rw [hvalid]
  dsimp only
  rw [Routine.get_bind]
  cases hcase : r.phase with
  | registered => rfl
  | timedOut => rfl
  | failed => rfl
  | _ => simp [hcase, IdentityPhase.isFinal] at hphase

theorem register_of_invalid {schedule : Schedule} {e : RegistrationError}
    (hinvalid : schedule.validate = .error e) :
    register schedule r = .done r (some (.failed e)) := by
  unfold register
  rw [hinvalid]
  rfl

theorem Course.ends_finalOutcome (h : Course start log r) : Ends start log r r.finalOutcome := by
  refine ⟨h, ?_⟩
  intro o ho hcompleted
  cases hphase : r.phase with
  | registered => rfl
  | _ =>
    simp only [finalOutcome, hphase] at ho
    cases ho <;> cases hcompleted

theorem meets_register (schedule : Schedule) (h : Course start log r) :
    (register schedule r).Meets (Permits start) (Ends start) log := by
  cases hvalid : schedule.validate with
  | error e =>
    rw [register_of_invalid hvalid]
    apply h.ends
    rintro o ⟨rfl⟩
    rfl
  | ok u =>
    cases hphase : r.phase.isFinal with
    | true =>
      rw [register_of_isFinal hvalid hphase]
      exact h.ends_finalOutcome
    | false => exact (evolves_register h hvalid hphase).meets.mono fun _ _ _ hcloses => hcloses.ends

end IdentityRegistration

end Enrolment
