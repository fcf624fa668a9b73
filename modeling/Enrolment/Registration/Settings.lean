import Enrolment.Name.Commitment
import Enrolment.Retry.Schedule

/-!
Settings of registration.
-/

namespace Enrolment

/-- The settings that registrations share. -/
structure Settings where
  /-- The depth at which a funding transaction counts as locked. -/
  confirmations : UInt64
  /-- Attempts to submit a transition. -/
  submission : Schedule
  /-- Looks for a created identity. -/
  identity : Schedule
  /-- Looks for preorder documents. -/
  preorder : Schedule
  /-- Looks for domain documents. -/
  domain : Schedule
  /-- The parent of names that name none. -/
  parent : String
deriving DecidableEq

namespace Settings

def default : Settings :=
  ⟨1, .linear 3 500, .default, .default, .default, Label.defaultParent⟩

/-- Settings with short delays and the given number of looks. -/
def fast (attempts : UInt32) : Settings :=
  { default with
    submission := .linear 3 100
    identity := .exponential attempts 100
    preorder := .linear attempts 100
    domain := .linear attempts 100 }

def naming (s : Settings) : Naming := ⟨s.parent⟩

/-- Checks the depth, then the parent domain, then each schedule. -/
def validate (s : Settings) : Except RegistrationError Unit := do
  if s.confirmations = 0 then throw (.settings "funding_confirmations must be at least 1")
  if s.parent.isEmpty then throw (.settings "parent_domain is required")
  s.submission.validate
  s.identity.validate
  s.preorder.validate
  s.domain.validate

/-- The schedules of valid settings are valid. -/
theorem validate_schedules {s : Settings} (h : s.validate = .ok ()) :
    s.submission.validate = .ok () ∧ s.identity.validate = .ok () ∧ s.preorder.validate = .ok () ∧
      s.domain.validate = .ok () := by
  unfold validate at h
  simp only [bind, Except.bind, throw, throwThe, MonadExceptOf.throw] at h
  split at h
  · cases h
  split at h
  · cases h
  cases hsubmission : s.submission.validate with
  | error e => simp [hsubmission] at h
  | ok u =>
    cases hidentity : s.identity.validate with
    | error e => simp [hsubmission, hidentity] at h
    | ok u' =>
      cases hpreorder : s.preorder.validate with
      | error e => simp [hsubmission, hidentity, hpreorder] at h
      | ok u'' =>
        rw [hsubmission, hidentity, hpreorder] at h
        exact ⟨rfl, rfl, rfl, h⟩

end Settings

def Format.settings : Format Settings :=
  record
    (.cons "funding_confirmations" uint64 (.cons "submission_policy" schedule
      (.cons "identity_policy" schedule (.cons "preorder_policy" schedule
        (.cons "domain_policy" schedule (.last "parent_domain" text))))))
    (fun s => (s.confirmations, s.submission, s.identity, s.preorder, s.domain, s.parent))
    (fun (c, s, i, p, d, n) => ⟨c, s, i, p, d, n⟩)

end Enrolment
