import Enrolment.Proofs.Identity.Phases
import Enrolment.Proofs.Usernames.Calls

/-!
Calls of the registration of an identity, one after the other.

Calls are carried out under any answers, or given up on the way, and the registration may start over in
between. Whatever calls were made, what the registration remembers is in step with its phase; one that
is registered stays as it is, and one that failed repeats its failure without doing anything.
-/

namespace Enrolment

namespace IdentityRegistration

section

variable {r r' : IdentityRegistration} {schedule? : Option Schedule}

theorem setup_of_leads (h : r.Leads r') : r'.setup = r.setup := by
  obtain ⟨path, hwalks⟩ := h
  induction hwalks with
  | stays => rfl
  | moves hmove _ ih => exact ih.trans (by cases hmove <;> rfl)

theorem setup_restart (h : r.restart = some r') : r'.setup = r.setup := by
  unfold IdentityRegistration.restart at h
  split at h
  · obtain rfl := Option.some.inj h
    rfl
  · cases h

/-- The schedule of a call is valid if the given one is, since those of the settings are. -/
theorem validate_schedule (hvalid : r.settings.validate = .ok ())
    (hschedule : ∀ schedule ∈ schedule?, schedule.validate = .ok ()) :
    (schedule?.getD r.settings.identity).validate = .ok () :=
  Schedule.validate_getD (Settings.validate_schedules hvalid).2.1 hschedule

theorem asksAtMost_lookFor (id : IdentityId) : (lookFor id r).AsksAtMost 1 := by
  refine Routine.asksAtMost_ask fun answer => ?_
  match answer with
  | .ok (some identity) => exact trivial
  | .ok none => exact trivial
  | .error e => exact trivial

theorem asksAtMost_awaitNetwork (schedule : Schedule) (r : IdentityRegistration) :
    (awaitNetwork schedule r).AsksAtMost (4 * schedule.attempts.toNat + 1) := by
  refine Routine.asksAtMost_get
    (Routine.asksAtMost_bind (asksAtMost_watch fun _ r' => asksAtMost_lookFor r.id) ?_)
  intro ended r'
  match ended with
  | none => exact trivial
  | some (.completed identity) => exact Routine.asksAtMost_ask fun now => trivial
  | some (.timedOut looks) => exact trivial

end

variable [Suite]

/-- Registers the identity, watching the network on a schedule if it is given, and otherwise on that of
the settings. -/
def call (schedule? : Option Schedule) : Work := do
  register (schedule?.getD (← get).settings.identity)

/-- What a registration has become after some calls, and what they exchanged. -/
inductive Calls (first : IdentityRegistration) : Log → IdentityRegistration → Prop where
  | begun : Calls first [] first
  /-- A call that is given up leaves the state that it has reached. -/
  | called {log es : Log} {r : IdentityRegistration} {schedule? : Option Schedule}
      {work : Task IdentityRegistration (Option IdentityOutcome)} (h : Calls first log r)
      (hrun : Task.Reaches (call schedule? r) es work) : Calls first (log ++ es) work.state
  | restarted {log : Log} {r r' : IdentityRegistration} (h : Calls first log r)
      (hrestart : r.restart = some r') : Calls first log r'

variable {lock : CreditLock} {burnKey signingKey : SecretKey} {settings : Settings}
  {first r r' : IdentityRegistration} {log later es : Log} {schedule? : Option Schedule}
  {work : Task IdentityRegistration (Option IdentityOutcome)}

/-- A call either is turned down, or only reports a final phase, or goes on from the phase. -/
theorem call_cases (schedule? : Option Schedule) (r : IdentityRegistration) :
    (∃ e, (schedule?.getD r.settings.identity).validate = .error e ∧
      call schedule? r = .done r (some (.failed e))) ∨
    (r.phase.isFinal = true ∧ call schedule? r = .done r r.finalOutcome) ∨
    (r.phase.isFinal = false ∧
      (call schedule? r).Evolves Leads (Permits r) (Closes r) r []) := by
  have hcall : call schedule? r = register (schedule?.getD r.settings.identity) r := rfl
  rw [hcall]
  cases hvalid : (schedule?.getD r.settings.identity).validate with
  | error e => exact .inl ⟨e, rfl, register_of_invalid hvalid⟩
  | ok u =>
    cases hphase : r.phase.isFinal with
    | true => exact .inr (.inl ⟨rfl, register_of_isFinal hvalid hphase⟩)
    | false => exact .inr (.inr ⟨rfl, evolves_register .begun hvalid hphase⟩)

/-- A call that asks for anything goes on from the phase. -/
theorem call_eq_done_or (schedule? : Option Schedule) (r : IdentityRegistration) :
    (∃ outcome, call schedule? r = .done r outcome) ∨
    (r.phase.isFinal = false ∧
      (call schedule? r).Evolves Leads (Permits r) (Closes r) r []) := by
  rcases call_cases schedule? r with ⟨e, -, hcall⟩ | ⟨-, hcall⟩ | hopen
  · exact .inl ⟨_, hcall⟩
  · exact .inl ⟨_, hcall⟩
  · exact .inr hopen

/-- Every point of a call is reached by moves, and so is what comes after it. -/
theorem leads_call {es' : Log} {work' : Task IdentityRegistration (Option IdentityOutcome)}
    (hrun : Task.Reaches (call schedule? r) es work) (hrest : Task.Reaches work es' work') :
    r.Leads work.state ∧ work.state.Leads work'.state := by
  rcases call_eq_done_or schedule? r with ⟨outcome, hcall⟩ | ⟨-, hevolves⟩
  · rw [hcall] at hrun
    obtain ⟨-, rfl⟩ := hrun.of_done
    obtain ⟨-, rfl⟩ := hrest.of_done
    exact ⟨.refl r, .refl r⟩
  · obtain ⟨hbefore, hafter⟩ := hevolves.reaches .refl leads_trans hrun
    exact ⟨hbefore, (hafter.reaches .refl leads_trans hrest).1⟩

theorem Calls.setup_eq (h : Calls first log r) : r.setup = first.setup := by
  induction h with
  | begun => rfl
  | called _ hrun ih => exact (setup_of_leads (leads_call hrun (.here _)).1).trans ih
  | restarted _ hrestart ih => exact (setup_restart hrestart).trans ih

theorem Calls.inStep (h : Calls first log r) (hfirst : first.InStep) : r.InStep := by
  induction h with
  | begun => exact hfirst
  | called _ hrun ih =>
    obtain ⟨path, hwalks⟩ := (leads_call hrun (.here _)).1
    exact hwalks.inStep ih
  | restarted _ hrestart ih => exact ih.restart hrestart

/-- Nothing happens any more to a registration that was a success. -/
theorem Calls.eq_of_registered (h : Calls r log r') (hphase : r.phase = .registered) : r' = r := by
  induction h with
  | begun => rfl
  | called _ hrun ih =>
    subst ih
    obtain ⟨path, hwalks⟩ := (leads_call hrun (.here _)).1
    exact hwalks.eq_of_isFinal (by rw [hphase]; rfl)
  | restarted _ hrestart ih =>
    subst ih
    have hrestartable := (restart_eq_some hrestart).1
    rw [hphase] at hrestartable
    cases hrestartable

/-- A registration that failed is as some call left it, which returned the error and had something to
blame for it. -/
theorem Calls.failing_call (h : Calls first log r) (hfirst : first.phase ≠ .failed)
    (hphase : r.phase = .failed) :
    ∃ before es schedule? r₀ e, log = before ++ es ∧ Calls first before r₀ ∧
      r₀.phase.isFinal = false ∧
      Task.Reaches (call schedule? r₀) es (.done r (some (.failed e))) ∧ r.lastError = some e ∧
      r.Blames es e := by
  induction h with
  | begun => exact absurd hphase hfirst
  | @called log es r schedule? work h hrun ih =>
    rcases call_eq_done_or schedule? r with ⟨outcome, hcall⟩ | ⟨hopen, hevolves⟩
    · rw [hcall] at hrun
      obtain ⟨rfl, rfl⟩ := hrun.of_done
      rw [List.append_nil]
      exact ih hphase
    · have hend := hevolves.meets.reaches hrun
      cases work with
      | done r' outcome =>
        obtain ⟨e, herror, rfl⟩ := hend.failed hphase
        exact ⟨log, es, schedule?, r, e, rfl, h, hopen, hrun, herror, hend.blames e rfl⟩
      | ask r' q next =>
        -- nothing is asked for in a final phase
        have hopen' : r'.phase.isFinal = false := hend.1.isFinal
        have hfailed : r'.phase = .failed := hphase
        rw [hfailed] at hopen'
        cases hopen'
  | restarted h hrestart ih =>
    rw [(restart_eq_some hrestart).2.1] at hphase
    cases hphase

/-- With another burn key than the one that the funding record names nothing is submitted. -/
theorem submitted_eq_nil_of_mismatch (hkey : r.burnKey.publicKey ≠ r.lock.burnKey)
    (hrun : Task.Reaches (call schedule? r) es work) : Log.submitted es = [] := by
  rcases call_eq_done_or schedule? r with ⟨outcome, hcall⟩ | ⟨-, hevolves⟩
  · rw [hcall] at hrun
    obtain ⟨rfl, -⟩ := hrun.of_done
    rfl
  · apply List.filterMap_eq_nil_iff.mpr
    intro e member
    obtain ⟨before, after, rfl⟩ := List.append_of_mem member
    obtain ⟨s, hpermits⟩ := hevolves.meets.at_request hrun
    obtain ⟨q, answer⟩ := e
    cases q with
    | submit t =>
      obtain ⟨hcourse, -, hmatch, -⟩ := hpermits
      obtain ⟨hlock, hburns, -, -⟩ := setup_inj.mp hcourse.setup_eq
      rw [hlock, hburns] at hmatch
      exact absurd hmatch hkey
    | _ => rfl

/-- Without a transition that was submitted there is none in a log that goes on from it. -/
theorem Calls.submitted_eq_nil (h : Calls first log r)
    (hkey : first.burnKey.publicKey ≠ first.lock.burnKey) : log.submitted = [] := by
  induction h with
  | begun => rfl
  | called h hrun ih =>
    obtain ⟨hlock, hburns, -, -⟩ := setup_inj.mp h.setup_eq
    rw [Log.submitted_append, ih, List.nil_append]
    refine submitted_eq_nil_of_mismatch ?_ hrun
    rw [hlock, hburns]
    exact hkey
  | restarted _ _ ih => exact ih

section Counting

variable (schedule : Schedule) (r : IdentityRegistration)

theorem asksAtMost_submitCreate : (submitCreate schedule r).AsksAtMost
    (3 * r.settings.submission.attempts.toNat + (4 * schedule.attempts.toNat + 2) + 1) := by
  apply Routine.asksAtMost_get
  split
  · exact trivial
  refine Routine.asksAtMost_ask fun now =>
    Routine.asksAtMost_bind asksAtMost_submitUntilDecided fun ended r' => ?_
  match ended with
  | .accepted receipt =>
    refine Routine.asksAtMost_isCancelled fun set => ?_
    split
    · exact trivial
    · exact asksAtMost_awaitNetwork schedule _
  | .rejected reason => exact trivial
  | .exhausted .. => exact trivial
  | .cancelled => exact trivial

theorem asksAtMost_checkExisting : (checkExisting schedule r).AsksAtMost
    (3 * r.settings.submission.attempts.toNat + (4 * schedule.attempts.toNat + 2) + 1 + 1) := by
  refine Routine.asksAtMost_ask fun answer => ?_
  match answer with
  | .ok (some identity) => exact fun now => trivial
  | .ok none => exact asksAtMost_submitCreate schedule (r.enter .submitting)
  | .error e => exact asksAtMost_submitCreate schedule (r.enter .submitting)

theorem asksAtMost_awaitFunding : (awaitFunding schedule r).AsksAtMost
    (3 * r.settings.submission.attempts.toNat + (4 * schedule.attempts.toNat + 2) + 1 + 1 + 1) := by
  refine Routine.asksAtMost_ask fun answer => ?_
  match answer with
  | none => exact trivial
  | some (.error e) => exact trivial
  | some (.ok depth) => exact asksAtMost_checkExisting schedule (r.enter .fundingConfirmed)

/-- The most requests that a call makes. -/
def requestBound (schedule? : Option Schedule) (r : IdentityRegistration) : Nat :=
  5 + 3 * r.settings.submission.attempts.toNat +
    4 * (schedule?.getD r.settings.identity).attempts.toNat

theorem asksAtMost_call (schedule? : Option Schedule) :
    (call schedule? r).AsksAtMost (requestBound schedule? r) := by
  change (register (schedule?.getD r.settings.identity) r).AsksAtMost _
  unfold requestBound
  generalize schedule?.getD r.settings.identity = schedule
  unfold register
  cases schedule.validate with
  | error e => exact trivial
  | ok u =>
    dsimp only
    rw [Routine.get_bind]
    cases r.phase with
    | awaitingFunding => exact (asksAtMost_awaitFunding schedule r).mono (by omega)
    | fundingConfirmed => exact (asksAtMost_checkExisting schedule r).mono (by omega)
    | submitting => exact (asksAtMost_submitCreate schedule r).mono (by omega)
    | awaitingNetwork => exact (asksAtMost_awaitNetwork schedule r).mono (by omega)
    | registered => exact trivial
    | timedOut => exact trivial
    | failed => exact trivial

end Counting

/-- The registration of an identity is a machine of phases: after any calls what it remembers is in
step with its phase, which moves only as phases may, few times in a call, and goes back only by
starting over after a timeout or a failure. A success is for good; a failure is repeated by every
call until the registration starts over. -/
theorem moves_in_phases (hcreate : create lock burnKey signingKey settings = .ok first)
    (h : Calls first log r) :
    (r.phase = .registered ↔ r.identity.isRegistered = true) ∧
    (r.identity.isRegistered = true ↔ r.identity.registeredAt.isSome = true) ∧
    (r.phase = .registered → ∀ later r', Calls r later r' → r' = r) ∧
    (r.phase = .failed ↔ r.lastError.isSome = true) ∧
    (∀ schedule? es work es' work', Task.Reaches (call schedule? r) es work →
      Task.Reaches work es' work' → (es ++ es').length ≤ requestBound schedule? r ∧
        ∃ path path', Walks r path work.state ∧ Walks work.state path' work'.state ∧
          (path ++ path').length ≤ 4) ∧
    (∀ r', r.restart = some r' →
      (r.phase = .timedOut ∨ r.phase = .failed) ∧ r'.phase = .awaitingFunding) ∧
    (r.phase.isFinal = true → ∀ schedule?, (∀ schedule ∈ schedule?, schedule.validate = .ok ()) →
      call schedule? r = .done r r.finalOutcome) ∧
    (r.phase = .failed → ∃ before es schedule? r₀ e, log = before ++ es ∧ Calls first before r₀ ∧
      r₀.phase.isFinal = false ∧
      Task.Reaches (call schedule? r₀) es (.done r (some (.failed e))) ∧
      ∀ schedule?, (∀ schedule ∈ schedule?, schedule.validate = .ok ()) →
        call schedule? r = .done r (some (.failed e))) ∧
    (burnKey.publicKey ≠ lock.burnKey → log.submitted = []) := by
  obtain ⟨hvalid, hfirst⟩ := create_eq_ok hcreate
  have hin := h.inStep (inStep_of_create hcreate)
  have hkeys : first.burnKey = burnKey ∧ first.lock = lock := by rw [hfirst]; exact ⟨rfl, rfl⟩
  have hsettings : r.settings.validate = .ok () := by
    obtain ⟨-, -, -, hsettings⟩ := setup_inj.mp h.setup_eq
    rw [hsettings, hfirst]
    exact hvalid
  have hrepeats (hphase : r.phase.isFinal = true) (schedule? : Option Schedule)
      (hschedule : ∀ schedule ∈ schedule?, schedule.validate = .ok ()) :
      call schedule? r = .done r r.finalOutcome :=
    register_of_isFinal (validate_schedule hsettings hschedule) hphase
  refine ⟨hin.registered, hin.dated, fun hphase _ _ hlater => hlater.eq_of_registered hphase,
    hin.failed, ?_, ?_, hrepeats, ?_, ?_⟩
  · intro schedule? es work es' work' hrun hrest
    obtain ⟨⟨path, hpath⟩, path', hpath'⟩ := leads_call hrun hrest
    exact ⟨(asksAtMost_call r schedule?).reaches (hrun.trans hrest), path, path', hpath, hpath',
      (hpath.append hpath').length_le⟩
  · intro r' hrestart
    obtain ⟨hphase, hstart, -⟩ := restart_eq_some hrestart
    refine ⟨?_, hstart⟩
    cases hcase : r.phase with
    | timedOut => exact .inl rfl
    | failed => exact .inr rfl
    | _ => simp [hcase, IdentityPhase.isRestartable] at hphase
  · intro hphase
    have hopening : first.phase ≠ .failed := by rw [hfirst]; nofun
    obtain ⟨before, es, schedule?, r₀, e, hlog, hbefore, hopen, hrun, herror, -⟩ :=
      h.failing_call hopening hphase
    refine ⟨before, es, schedule?, r₀, e, hlog, hbefore, hopen, hrun, ?_⟩
    intro schedule? hschedule
    rw [hrepeats (by rw [hphase]; rfl) schedule? hschedule, finalOutcome, hphase, herror]
    rfl
  · intro hmismatch
    exact h.submitted_eq_nil (by rw [hkeys.1, hkeys.2]; exact hmismatch)

end IdentityRegistration

namespace Sample

/-- A credit lock that the signing key spends. -/
def ownLock : CreditLock :=
  ⟨⟨.zero⟩, ⟨⟨.zero⟩, 0⟩, 50000, signingKey.publicKey, .ofOutPoint ⟨⟨.zero⟩, 0⟩⟩

def newcomer : IdentityRegistration :=
  ⟨ownLock, signingKey, signingKey, .default, .pending ownLock [signingKey.publicKey],
    .awaitingFunding, none⟩

/-- A registration whose creation the platform refuses. -/
def turnedDown : Log × IdentityRegistration × Option IdentityOutcome :=
  (IdentityRegistration.call none newcomer).play
    (oracle (.error (.invalid "no")) none fun _ _ => []) []

theorem reaches_turnedDown : Task.Reaches (IdentityRegistration.call none newcomer) turnedDown.1
    (.done turnedDown.2.1 turnedDown.2.2) := by
  unfold turnedDown
  exact Task.reaches_play _ _ _

end Sample

open Sample in
/-- A creation that is refused is refused to every later call, which asks the platform nothing. -/
theorem IdentityRegistration.moves_in_phases_refused :
    ∃ log r, Calls newcomer log r ∧ log.submitted.length = 1 ∧ r.phase = .failed ∧
      r.lastError.isSome = true ∧
      ∀ schedule?, (∀ schedule ∈ schedule?, schedule.validate = .ok ()) →
        call schedule? r = .done r (some (.failed (.rejected "no"))) := by
  obtain ⟨es, r, outcome, hrun, hsubmitted, hphase, houtcome⟩ :
      ∃ es r outcome, Task.Reaches (call none newcomer) es (.done r outcome) ∧
        (Log.submitted es).length = 1 ∧ r.phase = .failed ∧
        r.finalOutcome = some (.failed (.rejected "no")) :=
    ⟨_, _, _, reaches_turnedDown, by decide +kernel, by decide +kernel, by decide +kernel⟩
  have hcalls : Calls newcomer ([] ++ es) r := Calls.begun.called hrun
  have hcreate : create ownLock Sample.signingKey Sample.signingKey .default = .ok newcomer := rfl
  obtain ⟨-, -, -, hfailed, -, -, hrepeats, -, -⟩ := moves_in_phases hcreate hcalls
  refine ⟨_, _, hcalls, hsubmitted, hphase, hfailed.mp hphase, ?_⟩
  intro schedule? hschedule
  rw [hrepeats (by rw [hphase]; rfl) schedule? hschedule, houtcome]

end Enrolment
