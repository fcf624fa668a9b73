import Enrolment.Proofs.Identity.Moves
import Enrolment.Proofs.Trace

/-!
The courses that the registration of an identity can take.

A course says once what can happen to a registration and what was answered before it does: a depth that
is reported confirms the funding, an identity that is shown is registered, an acceptance leads to
waiting for the network. Laws of registrations are proved by induction on it.
-/

namespace Enrolment

def Exchange.CreatesNothing (e : Exchange) : Prop :=
  ∀ t, e.accepted? = some t → t.operation.isCreation = false

theorem Exchange.IsQuiet.createsNothing {e : Exchange} (h : e.IsQuiet) : e.CreatesNothing := by
  intro t ht
  rw [h.1] at ht
  cases ht

namespace IdentityRegistration

/-- What never changes of a registration. -/
def setup (r : IdentityRegistration) : CreditLock × SecretKey × SecretKey × Settings :=
  (r.lock, r.burnKey, r.signingKey, r.settings)

/-- A registration that starts, or starts over. -/
structure IsOpening (r : IdentityRegistration) : Prop where
  phase : r.phase = .awaitingFunding
  pending : r.identity.isRegistered = false

/-- The funding transaction was reported deep enough. -/
def Funded (r : IdentityRegistration) (log : Log) : Prop :=
  ∃ depth, ⟨.awaitDepth r.lock.transaction r.settings.confirmations, some (.ok depth)⟩ ∈ log

def Shown (r : IdentityRegistration) (log : Log) : Prop :=
  ∃ identity, ⟨.findIdentity r.id, .ok (some identity)⟩ ∈ log

variable {start r r' : IdentityRegistration} {log later : Log}

theorem setup_inj : r.setup = r'.setup ↔
    r.lock = r'.lock ∧ r.burnKey = r'.burnKey ∧ r.signingKey = r'.signingKey ∧
      r.settings = r'.settings := by
  simp only [setup, Prod.mk.injEq]

theorem Funded.extend (h : r.Funded log) (hlog : log <+: later) : r.Funded later := by
  obtain ⟨depth, hmem⟩ := h
  exact ⟨depth, hlog.subset hmem⟩

theorem Shown.extend (h : r.Shown log) (hlog : log <+: later) : r.Shown later := by
  obtain ⟨identity, hmem⟩ := h
  exact ⟨identity, hlog.subset hmem⟩

variable [Suite]

/-- What a registration can become over which exchanges. -/
inductive Course (start : IdentityRegistration) : Log → IdentityRegistration → Prop where
  | begun : Course start [] start
  | idle {log : Log} {r : IdentityRegistration} {e : Exchange} (h : Course start log r)
      (he : e.CreatesNothing) : Course start (log ++ [e]) r
  | funded {log : Log} {r : IdentityRegistration} (depth : UInt64) (h : Course start log r)
      (hphase : r.phase = .awaitingFunding)
      (hanswered : ⟨.awaitDepth r.lock.transaction r.settings.confirmations, some (.ok depth)⟩ ∈ log) :
      Course start log (r.enter .fundingConfirmed)
  /-- The platform does not show the identity yet, or is out of order. -/
  | unseen {log : Log} {r : IdentityRegistration}
      {answer : Except RegistrationError (Option Identity)} (h : Course start log r)
      (hphase : r.phase = .fundingConfirmed) (hanswered : ⟨.findIdentity r.id, answer⟩ ∈ log)
      (hanswer : ∀ identity, answer ≠ .ok (some identity)) : Course start log (r.enter .submitting)
  | seen {log : Log} {r : IdentityRegistration} {identity : Identity} (now : Timestamp)
      (h : Course start log r) (hphase : r.phase = .fundingConfirmed ∨ r.phase = .awaitingNetwork)
      (hanswered : ⟨.findIdentity r.id, .ok (some identity)⟩ ∈ log) :
      Course start log (r.markRegistered now)
  | accepted {log : Log} {r : IdentityRegistration} (signed : Timestamp) (receipt : Receipt)
      (h : Course start log r) (hphase : r.phase = .submitting) :
      Course start (log ++ [⟨.submit (.sign r.operation signed r.burnKey), .ok receipt⟩])
        (r.enter .awaitingNetwork)
  /-- The transition is refused, or cannot be made. -/
  | refused {log : Log} {r : IdentityRegistration} (e : RegistrationError) (h : Course start log r)
      (hphase : r.phase = .submitting) : Course start log (r.fail e)
  | expired {log : Log} {r : IdentityRegistration} (h : Course start log r)
      (hphase : r.phase = .submitting ∨ r.phase = .awaitingNetwork) :
      Course start log (r.enter .timedOut)

theorem Course.goes (h : Course start log r) (hlog : Log.Goes Exchange.CreatesNothing log later) :
    Course start later r := by
  obtain ⟨es, rfl, hes⟩ := hlog
  induction es generalizing log with
  | nil => simpa using h
  | cons e es ih =>
    have hrest := ih (h.idle (hes e (by simp))) fun e' he' => hes e' (by simp [he'])
    simpa using hrest

theorem Course.lulls (h : Course start log r) (hlog : Log.Lulls log later) :
    Course start later r := by
  obtain ⟨es, rfl, hes⟩ := hlog
  exact h.goes ⟨es, rfl, fun e he => (hes e he).createsNothing⟩

theorem Course.setup_eq (h : Course start log r) : r.setup = start.setup := by
  induction h with
  | begun => rfl
  | idle _ _ ih => exact ih
  | funded _ _ _ _ ih => exact ih
  | unseen _ _ _ _ ih => exact ih
  | seen _ _ _ _ ih => exact ih
  | accepted _ _ _ _ ih => exact ih
  | refused _ _ _ ih => exact ih
  | expired _ _ ih => exact ih

/-- Nothing is done for an identity before its funding is confirmed. -/
theorem Course.funded_of_phase (h : Course start log r) (hstart : start.IsOpening)
    (hphase : r.phase ≠ .awaitingFunding) : r.Funded log := by
  induction h with
  | begun => exact absurd hstart.phase hphase
  | idle _ _ ih => exact (ih hphase).extend (List.prefix_append _ _)
  | funded depth _ _ hanswered => exact ⟨depth, hanswered⟩
  | unseen _ hold _ _ ih => exact ih (by simp [hold])
  | seen _ _ hold _ ih => exact ih (by rcases hold with hold | hold <;> simp [hold])
  | accepted _ _ _ hold ih => exact (ih (by simp [hold])).extend (List.prefix_append _ _)
  | refused _ _ hold ih => exact ih (by simp [hold])
  | expired _ hold ih => exact ih (by rcases hold with hold | hold <;> simp [hold])

/-- An identity is registered in the last phase of success and in no other one. -/
theorem Course.isRegistered_iff (h : Course start log r) (hstart : start.IsOpening) :
    r.identity.isRegistered ↔ r.phase = .registered := by
  -- in every phase that is left the identity is pending, and it stays so unless it is seen
  have hleft {r r' : IdentityRegistration} (ih : r.identity.isRegistered ↔ r.phase = .registered)
      (hold : r.phase ≠ .registered) (hsame : r'.identity = r.identity)
      (hnew : r'.phase ≠ .registered) : r'.identity.isRegistered ↔ r'.phase = .registered := by
    rw [hsame]
    exact ⟨fun hregistered => absurd (ih.mp hregistered) hold, fun heq => absurd heq hnew⟩
  induction h with
  | begun => simp [hstart.phase, hstart.pending]
  | idle _ _ ih => exact ih
  | funded _ _ hold _ ih => exact hleft ih (by simp [hold]) rfl nofun
  | unseen _ hold _ _ ih => exact hleft ih (by simp [hold]) rfl nofun
  | @seen _ r _ now _ hold _ ih =>
    exact ⟨fun _ => rfl, fun _ => r.identity.isRegistered_register now⟩
  | accepted _ _ _ hold ih => exact hleft ih (by simp [hold]) rfl nofun
  | refused _ _ hold ih => exact hleft ih (by simp [hold]) rfl nofun
  | expired _ hold ih =>
    exact hleft ih (by rcases hold with hold | hold <;> simp [hold]) rfl nofun

/-- Only an identity that was seen is registered. -/
theorem Course.shown (h : Course start log r) (hstart : start.IsOpening)
    (hphase : r.phase = .registered) : r.Shown log := by
  induction h with
  | begun =>
    rw [hstart.phase] at hphase
    cases hphase
  | idle _ _ ih => exact (ih hphase).extend (List.prefix_append _ _)
  | seen _ _ _ hanswered => exact ⟨_, hanswered⟩
  | _ => cases hphase

/-- A registration that was not a success may start over as it started at first. -/
theorem Course.restart (h : Course start log r) (hstart : start.IsOpening)
    (hrestart : r.restart = some r') : r'.IsOpening ∧ r'.setup = r.setup := by
  unfold IdentityRegistration.restart at hrestart
  split at hrestart
  next hphase =>
    obtain rfl := Option.some.inj hrestart
    refine ⟨⟨rfl, ?_⟩, rfl⟩
    apply Bool.eq_false_iff.mpr
    intro hregistered
    rw [(h.isRegistered_iff hstart).mp hregistered] at hphase
    cases hphase
  next => cases hrestart

end IdentityRegistration

end Enrolment
