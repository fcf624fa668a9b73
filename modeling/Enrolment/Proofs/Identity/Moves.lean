import Enrolment.Registration.Identity

/-!
The moves of the registration of an identity from phase to phase.

What a registration remembers besides its phase is in step with it: the identity is registered, and has
a date, just in the phase of success, and an error is remembered just in the phase of failure. Moves
keep it so. They lead towards a final phase, so that only few of them can follow one another.
-/

namespace Enrolment

namespace IdentityPhase

/-- The phases that a registration may move to. -/
def next : IdentityPhase → List IdentityPhase
  | awaitingFunding => [fundingConfirmed]
  | fundingConfirmed => [registered, submitting]
  | submitting => [awaitingNetwork, timedOut, failed]
  | awaitingNetwork => [registered, timedOut]
  | registered | timedOut | failed => []

/-- How many moves may still be made from a phase. -/
def movesLeft : IdentityPhase → Nat
  | awaitingFunding => 4
  | fundingConfirmed => 3
  | submitting => 2
  | awaitingNetwork => 1
  | registered | timedOut | failed => 0

theorem movesLeft_le (phase : IdentityPhase) : phase.movesLeft ≤ 4 := by
  cases phase <;> decide

theorem movesLeft_lt {phase phase' : IdentityPhase} (h : phase' ∈ phase.next) :
    phase'.movesLeft < phase.movesLeft := by
  cases phase <;> cases phase' <;> simp_all [next, movesLeft]

theorem next_of_isFinal {phase : IdentityPhase} (h : phase.isFinal) : phase.next = [] := by
  cases phase with
  | registered => rfl
  | timedOut => rfl
  | failed => rfl
  | _ => cases h

theorem not_isFinal_of_next {phase phase' : IdentityPhase} (h : phase' ∈ phase.next) :
    phase.isFinal = false := by
  apply Bool.eq_false_iff.mpr
  intro hfinal
  rw [next_of_isFinal hfinal] at h
  cases h

end IdentityPhase

namespace Identity

variable {i : Identity}

theorem isRegistered_register (now : Timestamp) : (i.register now).isRegistered = true := by
  unfold register
  split
  next hset => exact hset
  next => rfl

theorem registeredAt_register (now : Timestamp) (h : i.isRegistered = false) :
    (i.register now).registeredAt = some now := by
  unfold register
  rw [if_neg (by simp [h])]

end Identity

namespace IdentityRegistration

/-- The moves of a registration. -/
inductive Move (r : IdentityRegistration) : IdentityRegistration → Prop where
  | enters {phase : IdentityPhase} (hnext : phase ∈ r.phase.next) (hsuccess : phase ≠ .registered)
      (hfailure : phase ≠ .failed) : Move r (r.enter phase)
  | registers (now : Timestamp) (hnext : .registered ∈ r.phase.next) : Move r (r.markRegistered now)
  | fails (e : RegistrationError) (hnext : .failed ∈ r.phase.next) : Move r (r.fail e)

/-- What a registration becomes by moves one after the other, and the phases that it enters. -/
inductive Walks : IdentityRegistration → List IdentityPhase → IdentityRegistration → Prop where
  | stays (r : IdentityRegistration) : Walks r [] r
  | moves {r r' r'' : IdentityRegistration} {path : List IdentityPhase} (h : Move r r')
      (rest : Walks r' path r'') : Walks r (r'.phase :: path) r''

/-- What a registration remembers agrees with its phase. -/
structure InStep (r : IdentityRegistration) : Prop where
  registered : r.phase = .registered ↔ r.identity.isRegistered = true
  dated : r.identity.isRegistered = true ↔ r.identity.registeredAt.isSome = true
  failed : r.phase = .failed ↔ r.lastError.isSome = true

variable {r r' r'' : IdentityRegistration} {path path' : List IdentityPhase}

theorem Move.next (h : Move r r') : r'.phase ∈ r.phase.next := by
  cases h with
  | enters hnext => exact hnext
  | registers now hnext => exact hnext
  | fails e hnext => exact hnext

theorem Move.walks (h : Move r r') : Walks r [r'.phase] r' := .moves h (.stays r')

theorem Walks.append (h : Walks r path r') (h' : Walks r' path' r'') :
    Walks r (path ++ path') r'' := by
  induction h with
  | stays => exact h'
  | moves hmove _ ih => exact .moves hmove (ih h')

/-- Every move uses up one of those that are left. -/
theorem Walks.length_add (h : Walks r path r') :
    path.length + r'.phase.movesLeft ≤ r.phase.movesLeft := by
  induction h with
  | stays => simp
  | moves hmove _ ih =>
    have hlt := IdentityPhase.movesLeft_lt hmove.next
    rw [List.length_cons]
    omega

theorem Walks.length_le (h : Walks r path r') : path.length ≤ 4 := by
  have hlength := h.length_add
  have hleft := r.phase.movesLeft_le
  omega

/-- Nothing follows a final phase. -/
theorem Walks.eq_of_isFinal (h : Walks r path r') (hfinal : r.phase.isFinal) : r' = r := by
  cases h with
  | stays => rfl
  | moves hmove =>
    rw [IdentityPhase.not_isFinal_of_next hmove.next] at hfinal
    cases hfinal

theorem InStep.pending (h : r.InStep) (hphase : r.phase.isFinal = false) :
    r.identity.isRegistered = false ∧ r.lastError.isSome = false := by
  constructor
  · apply Bool.eq_false_iff.mpr
    intro hregistered
    rw [h.registered.mpr hregistered] at hphase
    cases hphase
  · apply Bool.eq_false_iff.mpr
    intro herror
    rw [h.failed.mpr herror] at hphase
    cases hphase

theorem Move.inStep (hmove : Move r r') (h : r.InStep) : r'.InStep := by
  obtain ⟨hpending, hclear⟩ := h.pending (IdentityPhase.not_isFinal_of_next hmove.next)
  cases hmove with
  | @enters phase _ hsuccess hfailure =>
    exact ⟨by simp [enter, hsuccess, hpending], h.dated, by simp [enter, hfailure, hclear]⟩
  | registers now =>
    have hregistered := r.identity.isRegistered_register now
    have hdate := r.identity.registeredAt_register now hpending
    exact ⟨by simp [markRegistered, hregistered], by simp [markRegistered, hregistered, hdate],
      by simp [markRegistered, hclear]⟩
  | fails e => exact ⟨by simp [fail, hpending], h.dated, by simp [fail]⟩

theorem Walks.inStep (hwalks : Walks r path r') (h : r.InStep) : r'.InStep := by
  induction hwalks with
  | stays => exact h
  | moves hmove _ ih => exact ih (hmove.inStep h)

/-- A registration starts over only after a timeout or a failure, and with nothing remembered. -/
theorem restart_eq_some (h : r.restart = some r') :
    r.phase.isRestartable = true ∧ r'.phase = .awaitingFunding ∧ r'.lastError = none ∧
      r'.identity = r.identity := by
  unfold restart at h
  split at h
  next hphase =>
    obtain rfl := Option.some.inj h
    exact ⟨hphase, rfl, rfl, rfl⟩
  next => cases h

theorem InStep.restart (h : r.InStep) (hrestart : r.restart = some r') : r'.InStep := by
  obtain ⟨hphase, hstart, hclear, hsame⟩ := restart_eq_some hrestart
  have hpending : r.identity.isRegistered = false := by
    apply Bool.eq_false_iff.mpr
    intro hregistered
    rw [h.registered.mpr hregistered] at hphase
    cases hphase
  exact ⟨by simp [hstart, hsame, hpending], by rw [hsame]; exact h.dated, by simp [hstart, hclear]⟩

variable [Suite] {lock : CreditLock} {burnKey signingKey : SecretKey} {settings : Settings}

theorem create_eq_ok (h : create lock burnKey signingKey settings = .ok r) :
    settings.validate = .ok () ∧
      r = ⟨lock, burnKey, signingKey, settings, .pending lock [signingKey.publicKey],
        .awaitingFunding, none⟩ := by
  unfold create at h
  cases hvalid : settings.validate with
  | error e => simp [hvalid, bind, Except.bind] at h
  | ok u => simpa [hvalid, bind, Except.bind, pure, Except.pure, eq_comm] using h

theorem inStep_of_create (h : create lock burnKey signingKey settings = .ok r) : r.InStep := by
  obtain ⟨-, rfl⟩ := create_eq_ok h
  exact ⟨⟨nofun, nofun⟩, ⟨nofun, nofun⟩, ⟨nofun, nofun⟩⟩

end IdentityRegistration

end Enrolment
