import Enrolment.Proofs.Usernames.Batches

/-!
Calls of a registration of usernames, one after the other. Calls are carried out to their end, under
any answers; what the last one submits is judged while it is still under way.
-/

namespace Enrolment

namespace UsernameRegistration

def readCall (r : UsernameRegistration) (schedule? : Option Schedule) (requests : List String) :
    Except RegistrationError (List Label) :=
  r.readBatch (schedule?.getD r.settings.preorder) (schedule?.getD r.settings.domain) requests

theorem create_eq_ok {owner : IdentityId} {key : SecretKey} {settings : Settings}
    {first : UsernameRegistration} (h : create owner key settings = .ok first) :
    first = ⟨owner, key, settings, .empty, none, none⟩ := by
  unfold create at h
  cases hvalid : settings.validate with
  | error e => simp [hvalid, bind, Except.bind] at h
  | ok u => simpa [hvalid, bind, Except.bind, pure, Except.pure, eq_comm] using h

/-- Only valid settings make a registration. -/
theorem validate_of_create {owner : IdentityId} {key : SecretKey} {settings : Settings}
    {first : UsernameRegistration} (h : create owner key settings = .ok first) :
    settings.validate = .ok () := by
  unfold create at h
  cases hvalid : settings.validate with
  | error e => simp [hvalid, bind, Except.bind] at h
  | ok u => rfl

variable [Suite]

/-- What a registration has become after some calls, and what they exchanged. -/
inductive Calls (first : UsernameRegistration) : Log → UsernameRegistration → Prop where
  | begun : Calls first [] first
  | registered {log es : Log} {r r' : UsernameRegistration} {schedule? : Option Schedule}
      {requests : List String} {result : Except RegistrationError (Option UsernameOutcome)}
      (h : Calls first log r)
      (hrun : Task.Reaches (register schedule? requests r) es (.done r' result)) :
      Calls first (log ++ es) r'
  | recovered {log es : Log} {r r' : UsernameRegistration}
      {result : Except RegistrationError (List String)} (h : Calls first log r)
      (hrun : Task.Reaches (recover r) es (.done r' result)) : Calls first (log ++ es) r'

variable {first r r' : UsernameRegistration} {log es : Log} {schedule? : Option Schedule}
  {requests : List String}

theorem isKept_of_create {owner : IdentityId} {key : SecretKey} {settings : Settings}
    (h : create owner key settings = .ok first) : first.IsKept := by
  obtain rfl := create_eq_ok h
  exact isKept_of_empty fun _ => rfl

/-- Registering is specified by the schedules that it watches on. -/
theorem meets_register (schedule? : Option Schedule) (requests : List String)
    (h : Course first log r) :
    (register schedule? requests r).Meets (Permits first)
      (fun later r' result => Course first later r' ∧
        Answers first (schedule?.getD r.settings.preorder) (schedule?.getD r.settings.domain)
          requests log r later r' result) log :=
  Routine.meets_get (meets_registerOn _ _ requests h)

theorem Calls.course (h : Calls first log r) : Course first log r := by
  induction h with
  | begun => exact .begun
  | registered _ hrun ih => exact ((meets_register _ _ ih).reaches hrun).1
  | @recovered log es r r' result _ hrun ih =>
    have hmeets : r.recover.Meets (fun _ _ _ => True) (Recovery log r) log :=
      meets_recover (fun _ _ _ _ => trivial) fun _ _ => trivial
    exact (hmeets.reaches hrun).course ih

/-- What is submitted while names are registered is offered at that moment. -/
theorem Course.offers {t : Transition} {answer : Except Refusal Receipt} {before after : Log}
    {work : Task UsernameRegistration (Except RegistrationError (Option UsernameOutcome))}
    (h : Course first log r)
    (hrun : Task.Reaches (register schedule? requests r) (before ++ ⟨.submit t, answer⟩ :: after)
      work) : ∃ s names, Course first (log ++ before) s ∧ s.Offers names t := by
  obtain ⟨s, hcourse, names, hoffers⟩ := (meets_register schedule? requests h).at_request hrun
  exact ⟨s, names, hcourse, hoffers⟩

theorem Calls.offers {t : Transition} {answer : Except Refusal Receipt} {before after : Log}
    (h : Calls first log r) (hlog : log = before ++ ⟨.submit t, answer⟩ :: after) :
    ∃ s names, Course first before s ∧ s.Offers names t := by
  induction h generalizing after with
  | begun => simp at hlog
  | registered h hrun ih =>
    rcases Log.split_append hlog with ⟨rest, hold⟩ | ⟨rest, rfl, rfl⟩
    · exact ih hold
    · exact h.course.offers hrun
  | @recovered log es r r' result h hrun ih =>
    rcases Log.split_append hlog with ⟨rest, hold⟩ | ⟨rest, rfl, rfl⟩
    · exact ih hold
    · have hmeets : r.recover.Meets (fun _ _ q => ∀ t, q ≠ .submit t) (Recovery log r) log :=
        meets_recover (by simp) (by simp)
      obtain ⟨s, hguard⟩ := hmeets.at_request hrun
      exact absurd rfl (hguard t)

/-- The same with a call that may still be under way. -/
theorem Calls.offers_underway {t : Transition} {answer : Except Refusal Receipt}
    {before after : Log}
    {work : Task UsernameRegistration (Except RegistrationError (Option UsernameOutcome))}
    (h : Calls first log r) (hrun : Task.Reaches (register schedule? requests r) es work)
    (hlog : log ++ es = before ++ ⟨.submit t, answer⟩ :: after) :
    ∃ s names, Course first before s ∧ s.Offers names t := by
  rcases Log.split_append hlog with ⟨rest, hold⟩ | ⟨rest, rfl, rfl⟩
  · exact h.offers hold
  · exact h.course.offers hrun

end UsernameRegistration

/-! Names and registrations for instances of laws. -/

namespace Sample

scoped instance : Suite := .standard

def identity : IdentityId := ⟨.zero⟩

def signingKey : SecretKey := ⟨.zero⟩

def alice : Label := ⟨"alice", "alice", "dash"⟩

def bob : Label := ⟨"Bob", "bob", "dash"⟩

def salt (label : Label) : Salt := ⟨.ofPadded (Bytes.ofText label.display)⟩

def registration : UsernameRegistration := ⟨identity, signingKey, .default, .empty, none, none⟩

/-- A registration with new claims on some names. -/
def holding (labels : List Label) : UsernameRegistration :=
  labels.foldl (fun r label => r.put (.fresh label identity (salt label) .epoch)) registration

/-- Answers of a platform that judges every submission alike, shows a given identity and the documents
that it is told to show. The flag is never set, and no time passes. -/
def oracle (judgement : Except Refusal Receipt) (shownIdentity : Option Identity)
    (shown : DocumentKind → Filter → List Document) (_ : Log) :
    (request : Request) → request.Answer
  | .isCancelled => false
  | .clearFlag => ()
  | .pause _ => false
  | .submit _ => judgement
  | .awaitDepth _ depth => some (.ok depth)
  | .findIdentity _ => .ok shownIdentity
  | .findDocuments kind filter => .ok (shown kind filter)
  | .drawSalt label => salt label
  | .time => .epoch

/-- Documents that show every preorder, and that one name is owned. -/
def shown (label : Label) : DocumentKind → Filter → List Document
  | _, .commitmentIn commitments => commitments.map (.ofCommitment identity .epoch)
  | _, .labelIn _ _ => []
  | _, .ownedBy owner =>
    [.ofEntry owner .epoch ⟨label.display, label.normalized, label.parent, salt label,
      .unique owner⟩]

/-- Documents that show every preorder of an owner, and no name. -/
def unnamed (owner : IdentityId) : DocumentKind → Filter → List Document
  | _, .commitmentIn commitments => commitments.map (.ofCommitment owner .epoch)
  | _, _ => []

def registered : Log × UsernameRegistration × Except RegistrationError (Option UsernameOutcome) :=
  (UsernameRegistration.register none ["alice"] registration).play
    (oracle (.ok ⟨.zero⟩) none (shown alice)) []

theorem reaches_registered :
    Task.Reaches (UsernameRegistration.register none ["alice"] registration) registered.1
      (.done registered.2.1 registered.2.2) := by
  unfold registered
  exact Task.reaches_play _ _ _

end Sample

end Enrolment
