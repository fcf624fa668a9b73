import Enrolment.Proofs.Platform.Share

/-!
How the registration of an identity ends on a platform that does not have it yet. The platform accepts
its creation, and the watch for it decides: it completes the registration if the identity is hidden
from fewer looks than it has. A call that is paused leaves a registration from which the next call goes
on, with what is left of the wait.
-/

namespace Enrolment

open Simulation

namespace Scene

variable [Suite]

def keys (scene : Scene) : List PublicKey := (KeySet.ofList [scene.signingKey.publicKey]).toList

/-- What creates the identity. -/
def creation (scene : Scene) : Operation := .createIdentity scene.id scene.lock scene.keys

/-- A registration of the identity of a scene. -/
structure Registers (scene : Scene) (r : IdentityRegistration) : Prop where
  lock : r.lock = scene.lock
  burnKey : r.burnKey = scene.burnKey
  settings : r.settings = scene.settings
  keys : r.identity.keys.toList = scene.keys

/-- A registration that is under way on a platform, and what is left of the wait for its identity. -/
def Identifies (scene : Scene) (wait : Option Nat) (r : IdentityRegistration) (p : Platform) : Prop :=
  scene.Registers r ∧
    match r.phase with
    | .awaitingFunding | .fundingConfirmed | .submitting =>
      wait = scene.before.behaviour.identityHidden ∧ scene.Shows ⟨none, [], []⟩ p
    | .awaitingNetwork => scene.Shows ⟨some wait, [], [scene.creation]⟩ p
    | _ => False

/-- How a call ends, by the wait that was left when it began. -/
def IdentityEnds (scene : Scene) (schedule : Schedule) (wait : Option Nat) (flag : Bool) (p : Platform)
    (r : IdentityRegistration) (result : Option IdentityOutcome) : Prop :=
  match result with
  | none => flag = true ∧ ∃ looks, scene.Identifies (waitAfter looks wait) r p
  | some outcome => scene.Registers r ∧ (∃ rest, scene.Shows ⟨some rest, [], [scene.creation]⟩ p) ∧
    if endsWithin schedule.attempts.toNat wait then
      outcome = .completed scene.id ∧ r.phase = .registered
    else outcome = .timedOut ()

variable {scene : Scene} {r : IdentityRegistration} {p : Platform} {flag : Bool} {wait : Option Nat}
  {schedule : Schedule}

theorem Registers.operation_eq (h : scene.Registers r) : r.operation = scene.creation := by
  unfold IdentityRegistration.operation IdentityRegistration.id creation Scene.id
  rw [h.lock, h.keys]

theorem Registers.id_eq (h : scene.Registers r) : r.id = scene.id :=
  congrArg CreditLock.identity h.lock

theorem Registers.enter (h : scene.Registers r) (phase : IdentityPhase) :
    scene.Registers (r.enter phase) := ⟨h.lock, h.burnKey, h.settings, h.keys⟩

theorem Registers.markRegistered (h : scene.Registers r) (now : Timestamp) :
    scene.Registers (r.markRegistered now) := by
  refine ⟨h.lock, h.burnKey, h.settings, ?_⟩
  rw [← h.keys]
  unfold IdentityRegistration.markRegistered Identity.register
  split <;> rfl

/-- A look for the identity sees it or brings it nearer. -/
theorem concludes_lookFor (hshows : scene.Shows ⟨some wait, [], [scene.creation]⟩ p) :
    (IdentityRegistration.lookFor scene.id r).Concludes
      (fun _ p' r' saw => r' = r ∧ scene.Shows ⟨some (waitAfter 1 wait), [], [scene.creation]⟩ p' ∧
        ((∃ v, saw = .ready v) ↔ wait = some 0)) flag p := by
  obtain ⟨seen, p', hfound, hlater, hseen⟩ := hshows.findIdentity_known
  refine Routine.concludes_findIdentity fun flag' _ => ?_
  rw [hfound]
  cases seen with
  | some identity => exact ⟨rfl, hlater, by simpa using hseen⟩
  | none => exact ⟨rfl, hlater, by simpa using hseen⟩

theorem concludes_awaitNetwork (h : scene.Registers r) (hphase : r.phase = .awaitingNetwork)
    (hshows : scene.Shows ⟨some wait, [], [scene.creation]⟩ p) :
    (IdentityRegistration.awaitNetwork schedule r).Concludes (scene.IdentityEnds schedule wait)
      flag p := by
  apply Routine.concludes_get
  rw [h.id_eq]
  refine Routine.concludes_bind (concludes_watch
    (fun wait p => scene.Shows ⟨some wait, [], [scene.creation]⟩ p)
    (fun _ _ _ _ hshows => concludes_lookFor hshows) hshows) ?_
  rintro flag p' r' ended ⟨rfl, looks, hlater, hended⟩
  match ended with
  | none =>
    refine ⟨hended, looks, h, ?_⟩
    rw [hphase]
    exact hlater
  | some (.completed identity) =>
    refine Routine.concludes_time fun flag' now _ => ?_
    refine ⟨h.markRegistered now, ⟨_, hlater⟩, ?_⟩
    rw [if_pos hended.1]
    exact ⟨rfl, rfl⟩
  | some (.timedOut looks) =>
    have hvain : endsWithin schedule.attempts.toNat wait = false := hended
    refine ⟨h.enter .timedOut, ⟨_, hlater⟩, ?_⟩
    rw [if_neg (by simp [hvain])]

theorem concludes_submitCreate (h : scene.Registers r) (hphase : r.phase = .submitting)
    (hshows : scene.Shows ⟨none, [], []⟩ p) (hwait : wait = scene.before.behaviour.identityHidden) :
    (IdentityRegistration.submitCreate schedule r).Concludes (scene.IdentityEnds schedule wait)
      flag p := by
  refine Routine.concludes_get (Routine.concludes_ite (fun hmismatch => ?_) fun _ => ?_)
  · rw [h.burnKey, h.lock] at hmismatch
    exact absurd scene.burns hmismatch
  refine Routine.concludes_time fun flag' now _ => ?_
  rw [h.operation_eq, h.burnKey, h.settings]
  refine Routine.concludes_bind (hshows.concludes_submit
    (hshows.check_creation rfl scene.keys now) fun p now' hshows =>
      hshows.apply_creation scene.keys scene.burnKey now now') ?_
  rintro flag p' r' ended ⟨rfl, hended⟩
  match ended with
  | .accepted receipt =>
    refine Routine.concludes_modify (Routine.concludes_isCancelled fun read _ => ?_)
    subst hwait
    refine Routine.concludes_ite (fun hset => ?_) fun _ => ?_
    · exact ⟨hset, 0, h.enter _, by rwa [waitAfter_zero]⟩
    · exact concludes_awaitNetwork (h.enter _) rfl hended
  | .cancelled =>
    refine ⟨hended.1, 0, h, ?_⟩
    rw [hphase]
    exact ⟨by rwa [waitAfter_zero], hended.2⟩
  | .rejected reason => exact hended.elim
  | .exhausted .. => exact hended.elim

theorem concludes_checkExisting (h : scene.Registers r)
    (hshows : scene.Shows ⟨none, [], []⟩ p) (hwait : wait = scene.before.behaviour.identityHidden) :
    (IdentityRegistration.checkExisting schedule r).Concludes (scene.IdentityEnds schedule wait)
      flag p := by
  obtain ⟨p', hfound, hlater⟩ := hshows.findIdentity_unknown rfl
  apply Routine.concludes_get
  rw [h.id_eq]
  refine Routine.concludes_findIdentity fun flag' _ => ?_
  rw [hfound]
  exact concludes_submitCreate (h.enter _) rfl hlater hwait

theorem concludes_awaitFunding (h : scene.Registers r) (hphase : r.phase = .awaitingFunding)
    (hshows : scene.Shows ⟨none, [], []⟩ p) (hwait : wait = scene.before.behaviour.identityHidden) :
    (IdentityRegistration.awaitFunding schedule r).Concludes (scene.IdentityEnds schedule wait)
      flag p := by
  apply Routine.concludes_get
  rw [h.lock, h.settings]
  refine Routine.concludes_awaitDepth hshows.depth ?_ fun flag' _ => ?_
  · refine ⟨rfl, 0, h, ?_⟩
    rw [hphase]
    exact ⟨by rwa [waitAfter_zero], hshows⟩
  · exact concludes_checkExisting (h.enter _) hshows hwait

/-- A call that goes on with a registration ends by what is left of the wait for the identity. -/
theorem concludes_registerIdentity (hvalid : schedule.validate = .ok ())
    (h : scene.Identifies wait r p) :
    (IdentityRegistration.register schedule r).Concludes (scene.IdentityEnds schedule wait)
      flag p := by
  obtain ⟨hregisters, hunderway⟩ := h
  unfold IdentityRegistration.register
  rw [hvalid]
  apply Routine.concludes_get
  cases hphase : r.phase with
  | awaitingFunding =>
    rw [hphase] at hunderway
    exact concludes_awaitFunding hregisters hphase hunderway.2 hunderway.1
  | fundingConfirmed =>
    rw [hphase] at hunderway
    exact concludes_checkExisting hregisters hunderway.2 hunderway.1
  | submitting =>
    rw [hphase] at hunderway
    exact concludes_submitCreate hregisters hphase hunderway.2 hunderway.1
  | awaitingNetwork =>
    rw [hphase] at hunderway
    exact concludes_awaitNetwork hregisters hphase hunderway
  | registered => exact (hphase ▸ hunderway).elim
  | timedOut => exact (hphase ▸ hunderway).elim
  | failed => exact (hphase ▸ hunderway).elim

/-- A call does nothing more for an identity that is registered. -/
theorem registerIdentity_registered (hvalid : schedule.validate = .ok ())
    (hphase : r.phase = .registered) :
    IdentityRegistration.register schedule r = .done r (some (.completed r.id)) := by
  unfold IdentityRegistration.register
  rw [hvalid]
  dsimp only
  rw [Routine.get_bind, hphase]
  change Task.done r r.finalOutcome = _
  unfold IdentityRegistration.finalOutcome
  rw [hphase]

end Scene

end Enrolment
