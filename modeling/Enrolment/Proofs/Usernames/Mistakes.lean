import Enrolment.Proofs.Usernames.Outcomes
import Enrolment.Proofs.Usernames.Succession

/-!
The errors of calls to register names. A call that is made by mistake, on a schedule that is not allowed
or for a name that cannot be read, is an error and touches nothing. Whatever else may go wrong is an
outcome, and the only failure among the outcomes is a refusal of the platform.
-/

namespace Enrolment

/-- A schedule is faulty if it has no attempts, or a bound below its first delay. -/
def Schedule.IsFaulty (s : Schedule) : Prop :=
  s.attempts = 0 ∨ ∃ bound ∈ s.maxDelay, bound < s.baseDelay

theorem Schedule.validate_eq_ok_iff {s : Schedule} : s.validate = .ok () ↔ ¬ s.IsFaulty := by
  unfold validate IsFaulty
  split
  next hzero => simp [hzero]
  next hsome =>
    split
    next bound hbound => by_cases hlt : bound < s.baseDelay <;> simp [hsome, hbound, hlt]
    next hnone => simp [hsome, hnone]

/-- The errors that say that something was asked for by mistake. -/
def RegistrationError.IsMistake : RegistrationError → Prop
  | value (.invalidLabel ..) | settings _ => True
  | _ => False

theorem Schedule.exists_settings_of_validate {s : Schedule} {e : RegistrationError}
    (h : s.validate = .error e) : ∃ reason, e = .settings reason := by
  unfold validate at h
  split at h
  · exact ⟨_, (Except.error.inj h).symm⟩
  · split at h
    · split at h
      · exact ⟨_, (Except.error.inj h).symm⟩
      · cases h
    · cases h

theorem Schedule.isMistake_of_validate {s : Schedule} {e : RegistrationError}
    (h : s.validate = .error e) : e.IsMistake := by
  obtain ⟨reason, rfl⟩ := exists_settings_of_validate h
  trivial

theorem Label.isMistake_of_parse {request parent : String} {e : Error}
    (h : Label.parse request parent = .error e) : (RegistrationError.value e).IsMistake := by
  unfold parse at h
  cases hread : read request.toList parent.toList with
  | error fault =>
    rw [hread] at h
    obtain rfl := Except.error.inj h
    trivial
  | ok label =>
    rw [hread] at h
    cases h

/-- Registering names is asked for by mistake if a step is to be watched on a faulty schedule, or if one
of the names cannot be read under the parent of the settings. -/
def Settings.IsMistaken (settings : Settings) (schedule? : Option Schedule)
    (requests : List String) : Prop :=
  (schedule?.getD settings.preorder).IsFaulty ∨ (schedule?.getD settings.domain).IsFaulty ∨
    ∃ request ∈ requests, ∀ l, Label.parse request settings.parent ≠ .ok l

namespace UsernameRegistration

variable {first r r' : UsernameRegistration} {schedule? : Option Schedule} {requests : List String}

/-- A call is read unless it is made by mistake. -/
theorem exists_readCall_iff :
    (∃ labels, r.readCall schedule? requests = .ok labels) ↔
      ¬ r.settings.IsMistaken schedule? requests := by
  have hnames : (¬ ∃ request ∈ requests, ∀ l, Label.parse request r.settings.parent ≠ .ok l) ↔
      ∃ labels, r.readRequests requests = .ok labels := by
    have hread : (∃ all, requests.mapM r.settings.naming.resolve = .ok all) ↔
        ∀ request ∈ requests, ∃ l, Label.parse request r.settings.parent = .ok l :=
      exists_mapM_ok_iff
    simp only [ne_eq, not_exists, not_and, Classical.not_forall, Classical.not_not]
    rw [← hread]
    unfold readRequests
    constructor
    · rintro ⟨all, hall⟩
      exact ⟨distinct all, by rw [hall]⟩
    · rintro ⟨labels, hlabels⟩
      split at hlabels
      next all hall => exact ⟨all, hall⟩
      next => cases hlabels
  rw [Settings.IsMistaken, not_or, not_or, hnames, ← Schedule.validate_eq_ok_iff,
    ← Schedule.validate_eq_ok_iff]
  unfold readCall readBatch
  cases (schedule?.getD r.settings.preorder).validate with
  | error e => simp [bind, Except.bind]
  | ok u =>
    cases (schedule?.getD r.settings.domain).validate with
    | error e => simp [bind, Except.bind]
    | ok u => simp [bind, Except.bind]

/-- What is wrong with a call that cannot be read. -/
theorem isMistake_of_readCall {e : RegistrationError}
    (h : r.readCall schedule? requests = .error e) : e.IsMistake := by
  unfold readCall readBatch at h
  cases hpreorder : (schedule?.getD r.settings.preorder).validate with
  | error e' =>
    rw [hpreorder] at h
    obtain rfl := Except.error.inj h
    exact Schedule.isMistake_of_validate hpreorder
  | ok u =>
    cases hdomain : (schedule?.getD r.settings.domain).validate with
    | error e' =>
      rw [hpreorder, hdomain] at h
      obtain rfl := Except.error.inj h
      exact Schedule.isMistake_of_validate hdomain
    | ok u =>
      rw [hpreorder, hdomain] at h
      change r.readRequests requests = .error e at h
      unfold readRequests at h
      split at h
      next => cases h
      next e' hall =>
        obtain rfl := Except.error.inj h
        obtain ⟨request, -, hparse⟩ := exists_of_mapM_error hall
        exact Label.isMistake_of_parse hparse

section

variable [Suite]

/-- A call that cannot be read is over before anything is asked. -/
theorem register_of_readCall_error {e : RegistrationError}
    (h : r.readCall schedule? requests = .error e) :
    register schedule? requests r = .done r (.error e) := by
  rw [readCall] at h
  unfold register registerOn
  rw [Routine.get_bind, Routine.get_bind, h]
  rfl

/-- What comes of a call that was read is an outcome, and a failure among the outcomes is what the
platform refused last. -/
theorem Answers.of_readCall {labels : List Label} {later : Log}
    {result : Except RegistrationError (Option UsernameOutcome)} (hkept : r.IsKept)
    (hread : r.readCall schedule? requests = .ok labels)
    (h : Answers r (schedule?.getD r.settings.preorder) (schedule?.getD r.settings.domain) requests
      [] r later r' result) :
    ∃ outcome, result = .ok outcome ∧ ∀ e, outcome = some (.failed e) → ∃ before t reason,
      later = before ++ [⟨.submit t, .error (.invalid reason)⟩] ∧ e = .rejected reason := by
  obtain ⟨hlabels, hnodup⟩ := readBatch_eq_ok hread
  rw [readCall] at hread
  rw [Answers, hread] at h
  obtain ⟨outcome, rfl, hregisters⟩ := h
  refine ⟨outcome, rfl, ?_⟩
  rintro e rfl
  obtain ⟨-, -, -, -, -, -, ⟨hrefused, -⟩, -⟩ := hregisters.endsAsOne hkept hlabels hnodup
  exact hrefused

/-- In every state that a registration can reach, a call is an error exactly if it is made by mistake,
and then it is over at once and leaves everything as it is. If the names fail, then the platform refused
what was submitted last in this call, and the failure gives its reason: no claim is ever moved where it
may not go. -/
theorem register_errors_are_foreseen {owner : IdentityId} {key : SecretKey} {settings : Settings}
    (hcreate : create owner key settings = .ok first) (h : Attempts first r)
    (schedule? : Option Schedule) (requests : List String) :
    (settings.IsMistaken schedule? requests →
      ∃ e, e.IsMistake ∧ register schedule? requests r = .done r (.error e)) ∧
    ∀ es r' result, Task.Reaches (register schedule? requests r) es (.done r' result) →
      ((∃ e, result = .error e) ↔ settings.IsMistaken schedule? requests) ∧
      ((∃ e, result = .error e) → es = [] ∧ r' = r) ∧
      ∀ e, result = .ok (some (.failed e)) → ∃ before t reason,
        es = before ++ [⟨.submit t, .error (.invalid reason)⟩] ∧ e = .rejected reason := by
  have hsettings : r.settings = settings := by
    have hsetup : r.setup = first.setup :=
      h.keeps (P := fun s => s.setup = first.setup) rfl
        fun _ _ _ _ hsuccession hsame => hsuccession.setup_eq.trans hsame
    rw [create_eq_ok hcreate] at hsetup
    exact congrArg (fun s => s.2.2) hsetup
  have hkept : r.IsKept :=
    h.keeps (isKept_of_create hcreate) fun _ _ _ _ hsuccession => hsuccession.isKept
  rw [← hsettings]
  cases hread : r.readCall schedule? requests with
  | error e =>
    have hmistaken : r.settings.IsMistaken schedule? requests := by
      refine Classical.byContradiction fun hnot => ?_
      obtain ⟨labels, hlabels⟩ := exists_readCall_iff.mpr hnot
      rw [hread] at hlabels
      cases hlabels
    have hdone := register_of_readCall_error hread
    refine ⟨fun _ => ⟨e, isMistake_of_readCall hread, hdone⟩, ?_⟩
    intro es r' result hrun
    rw [hdone] at hrun
    cases hrun
    exact ⟨iff_of_true ⟨e, rfl⟩ hmistaken, fun _ => ⟨rfl, rfl⟩, nofun⟩
  | ok labels =>
    have hnot := exists_readCall_iff.mp ⟨labels, hread⟩
    refine ⟨fun hmistaken => absurd hmistaken hnot, ?_⟩
    intro es r' result hrun
    have hmeets := meets_register schedule? requests (.begun : Course r [] r)
    obtain ⟨-, hanswers⟩ := hmeets.reaches hrun
    obtain ⟨outcome, rfl, hfailed⟩ := hanswers.of_readCall hkept hread
    refine ⟨iff_of_false nofun hnot, nofun, ?_⟩
    intro e he
    exact hfailed e (Except.ok.inj he)

end

open Sample in
/-- A name that was refused is asked for again, once together with one that is too short, and once on its
own on a platform that refuses it still. -/
theorem register_errors_are_foreseen_unfunded :
    create identity signingKey .default = .ok registration ∧
      Attempts registration (holding [alice]) ∧
      (∃ e, e.IsMistake ∧
        register none ["alice", "al"] (holding [alice]) = .done (holding [alice]) (.error e)) ∧
      ∃ es before t reason,
        Task.Reaches (register none ["alice"] (holding [alice])) es
          (.done (holding [alice]) (.ok (some (.failed (.rejected "unfunded"))))) ∧
        es = before ++ [⟨.submit t, .error (.invalid reason)⟩] ∧
        RegistrationError.rejected "unfunded" = .rejected reason := by
  have hcreate : create identity signingKey .default = .ok registration := rfl
  have hrefused (r : UsernameRegistration) (hr : ((register none ["alice"] r).play
      (oracle (.error (.invalid "unfunded")) none fun _ _ => []) []).2 =
        (holding [alice], .ok (some (.failed (.rejected "unfunded"))))) :=
    Task.exists_reaches_of_play _ hr
  obtain ⟨log, hfirst⟩ := hrefused registration rfl
  obtain ⟨es, hagain⟩ := hrefused (holding [alice]) rfl
  have hattempts : Attempts registration (holding [alice]) := Attempts.begun.registering hfirst
  have hmistaken : Settings.default.IsMistaken none ["alice", "al"] := by
    refine .inr (.inr ⟨"al", by simp, ?_⟩)
    intro l hl
    have hfault : Label.parse "al" Settings.default.parent =
      .error (.invalidLabel "al" "length 2 outside 3..=63") := by rfl
    rw [hfault] at hl
    cases hl
  obtain ⟨hmistake, -⟩ := register_errors_are_foreseen hcreate hattempts none ["alice", "al"]
  obtain ⟨-, hresults⟩ := register_errors_are_foreseen hcreate hattempts none ["alice"]
  obtain ⟨-, -, hfailed⟩ := hresults es _ _ hagain
  obtain ⟨before, t, reason, hes, hreason⟩ := hfailed _ rfl
  exact ⟨hcreate, hattempts, hmistake hmistaken, es, before, t, reason, hagain, hes, hreason⟩

end UsernameRegistration

end Enrolment
