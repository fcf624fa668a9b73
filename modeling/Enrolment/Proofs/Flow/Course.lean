import Enrolment.Proofs.Identity.Phases
import Enrolment.Proofs.Usernames.Calls
import Enrolment.Registration.Flow

/-!
Flows keep both of their registrations on course. What one of them exchanges leaves the other where it
is, and the usernames are not turned to before the identity is registered.

The log of a flow is cut where its identity was last started over: the course of the identity is over
the later part, that of the usernames over both.
-/

namespace Enrolment

variable [Suite]

theorem IdentityRegistration.Permits.isIdle {opening r : IdentityRegistration} {log : Log}
    {q : Request} (h : Permits opening log r q) (answer : q.Answer) :
    Exchange.IsIdle ⟨q, answer⟩ := by
  constructor
  · intro t ht
    obtain rfl : q = .submit t := Exchange.request_of_accepted? ht
    obtain ⟨-, -, -, signed, rfl⟩ := h
    rfl
  · cases q with
    | drawSalt label => cases h
    | _ => rfl

theorem UsernameRegistration.Permits.createsNothing {first r : UsernameRegistration} {log : Log}
    {q : Request} (h : Permits first log r q) (answer : q.Answer) :
    Exchange.CreatesNothing ⟨q, answer⟩ := by
  intro t ht
  obtain rfl : q = .submit t := Exchange.request_of_accepted? ht
  obtain ⟨-, names, hoffers⟩ := h
  cases hoffers <;> rfl

namespace Flow

/-- A flow whose registrations are on their courses, over a log that was cut. -/
structure OnCourse (opening : IdentityRegistration) (first : UsernameRegistration)
    (older log : Log) (f : Flow) : Prop where
  identity : IdentityRegistration.Course opening log f.identity
  usernames : UsernameRegistration.Course first (older ++ log) f.usernames

/-- What a flow may submit: what creates its identity, and what its usernames offer once the identity
is registered. -/
def Permits (opening : IdentityRegistration) (first : UsernameRegistration) (older : Log) :
    Log → Flow → Request → Prop
  | log, f, .submit t => f.OnCourse opening first older log ∧
    ((f.identity.phase = .submitting ∧ ∃ signed, t = .sign f.identity.operation signed f.identity.burnKey) ∨
      f.identity.phase = .registered ∧ ∃ names, f.usernames.Offers names t)
  | _, _, _ => True

variable {opening : IdentityRegistration} {first : UsernameRegistration} {older log : Log} {f : Flow}
  {α : Type}

theorem OnCourse.idle (h : f.OnCourse opening first older log) {e : Exchange} (he : e.IsQuiet) :
    f.OnCourse opening first older (log ++ [e]) := by
  refine ⟨h.identity.lulls ((Log.Goes.refl log).snoc he), ?_⟩
  rw [← List.append_assoc]
  exact h.usernames.lulls ((Log.Goes.refl _).snoc he)

theorem meets_onIdentity {work : Routine IdentityRegistration α}
    {post : Log → IdentityRegistration → α → Prop} (h : f.OnCourse opening first older log)
    (hwork : (work f.identity).Meets (IdentityRegistration.Permits opening) post log) :
    (onIdentity work f).Meets (Permits opening first older) (fun later f' a =>
      post later f'.identity a ∧ UsernameRegistration.Course first (older ++ later)
        f'.usernames) log := by
  have husernames {later : Log} (hlog : Log.Goes Exchange.IsIdle log later) :
      UsernameRegistration.Course first (older ++ later) f.usernames := by
    obtain ⟨es, rfl, hes⟩ := hlog
    rw [← List.append_assoc]
    exact h.usernames.goes ⟨es, rfl, hes⟩
  refine Task.Meets.within ((hwork.goes fun _ _ _ hq => hq.isIdle).weaken ?_ ?_)
  · rintro later s q ⟨hlog, hpermits⟩
    cases q with
    | submit t =>
      obtain ⟨hcourse, hphase, -, signed, rfl⟩ := hpermits
      exact ⟨⟨hcourse, husernames hlog⟩, .inl ⟨hphase, signed, rfl⟩⟩
    | _ => trivial
  · rintro later s a ⟨hlog, hpost⟩
    exact ⟨hpost, husernames hlog⟩

theorem meets_onUsernames {work : Routine UsernameRegistration α}
    {post : Log → UsernameRegistration → α → Prop} (h : f.OnCourse opening first older log)
    (hphase : f.identity.phase = .registered)
    (hwork : (work f.usernames).Meets (UsernameRegistration.Permits first)
      (fun later r a => UsernameRegistration.Course first later r ∧ post later r a) (older ++ log)) :
    (onUsernames work f).Meets (Permits opening first older) (fun later f' _ =>
      f'.OnCourse opening first older later ∧ f'.identity = f.identity) log := by
  refine Task.Meets.within ((hwork.drop.goes fun _ _ _ hq => hq.createsNothing).weaken ?_ ?_)
  · rintro later s q ⟨hlog, hpermits⟩
    cases q with
    | submit t =>
      obtain ⟨hcourse, hoffers⟩ := hpermits
      exact ⟨⟨h.identity.goes hlog, hcourse⟩, .inr ⟨hphase, hoffers⟩⟩
    | _ => trivial
  · rintro later s a ⟨hlog, hcourse, -⟩
    exact ⟨⟨h.identity.goes hlog, hcourse⟩, rfl⟩

theorem meets_registerLabels (labels : List String) (h : f.OnCourse opening first older log)
    (hphase : f.identity.phase = .registered) :
    (registerLabels labels f).Meets (Permits opening first older)
      (fun later f' _ => f'.OnCourse opening first older later) log := by
  have hregister {log : Log} {f : Flow} (h : f.OnCourse opening first older log)
      (hphase : f.identity.phase = .registered) :
      (onUsernames (UsernameRegistration.register f.schedule labels) f).Meets
        (Permits opening first older) (fun later f' _ => f'.OnCourse opening first older later)
        log := by
    refine (meets_onUsernames h hphase (UsernameRegistration.meets_register _ _ h.usernames)).mono ?_
    rintro later f' a ⟨hcourse, -⟩
    exact hcourse
  have hrecover : (UsernameRegistration.recover f.usernames).Meets
      (UsernameRegistration.Permits first) (fun later r _ =>
        UsernameRegistration.Course first later r ∧ True) (older ++ log) := by
    refine (UsernameRegistration.meets_recover (fun _ _ _ _ => trivial) fun _ _ => trivial).mono ?_
    exact fun later r result hrecovery => ⟨hrecovery.course h.usernames, trivial⟩
  refine Routine.meets_get (Routine.meets_ite (fun _ => ?_) fun _ => ?_)
  · refine Routine.meets_bind (meets_onUsernames h hphase hrecover) ?_
    rintro later f' result ⟨hcourse, hsame⟩
    rw [← hsame] at hphase
    cases result with
    | ok adopted => exact hregister ⟨hcourse.identity, hcourse.usernames⟩ hphase
    | error e => exact hregister hcourse hphase
  · exact hregister h hphase

/-- The initial names are turned to only if the identity was just seen to be registered, or was
before. -/
theorem meets_drive (h : f.OnCourse opening first older log) :
    (drive f).Meets (Permits opening first older)
      (fun later f' _ => f'.OnCourse opening first older later) log := by
  refine Routine.meets_get (Routine.meets_bind
    (@meets_onIdentity _ opening first older log f _ _ (IdentityRegistration.Ends opening) h ?_) ?_)
  · cases f.schedule with
    | some schedule => exact IdentityRegistration.meets_register schedule h.identity
    | none => exact Routine.meets_get (IdentityRegistration.meets_register _ h.identity)
  rintro later f' registered ⟨⟨hcourse, hcompleted⟩, husernames⟩
  have h' : f'.OnCourse opening first older later := ⟨hcourse, husernames⟩
  cases registered with
  | none => exact h'
  | some outcome =>
    refine Routine.meets_ite (fun _ => h') fun hgo => ?_
    have hdone : outcome.isCompleted := by
      cases hcase : outcome.isCompleted with
      | true => rfl
      | false => simp [hcase] at hgo
    refine Routine.meets_bind (meets_registerLabels f.labels h' (hcompleted outcome rfl hdone)) ?_
    intro last f'' result hlast
    match result with
    | .ok none => exact hlast
    | .ok (some usernames) => exact hlast
    | .error e => exact hlast

/-- Further names are turned to only if the identity is registered. -/
theorem meets_registerMore (labels : List String) (hopening : opening.IsOpening)
    (h : f.OnCourse opening first older log) :
    (registerMore labels f).Meets (Permits opening first older)
      (fun later f' _ => f'.OnCourse opening first older later) log := by
  refine Routine.meets_get (Routine.meets_ite (fun _ => h) fun hregistered => ?_)
  have hphase : f.identity.phase = .registered := by
    apply (h.identity.isRegistered_iff hopening).mp
    simpa using hregistered
  refine Routine.meets_ask trivial fun _ => ?_
  have hcleared : f.OnCourse opening first older (log ++ [⟨.clearFlag, ()⟩]) :=
    h.idle ⟨rfl, rfl⟩
  exact meets_registerLabels labels hcleared hphase

/-- A command other than one that starts over goes on from where the flow is. -/
theorem meets_perform {command : Command} (hopening : opening.IsOpening)
    (h : f.OnCourse opening first older log) (hcommand : command ≠ .restart) :
    (perform command f).Meets (Permits opening first older)
      (fun later f' _ => f'.OnCourse opening first older later) log := by
  cases command with
  | start => exact Routine.meets_bind (meets_drive h) fun _ _ _ hlast => hlast
  | register labels =>
    exact Routine.meets_bind (meets_registerMore labels hopening h) fun _ _ _ hlast => hlast
  | restart => exact absurd rfl hcommand
  | resume =>
    refine Routine.meets_ask trivial fun _ => ?_
    exact Routine.meets_bind (meets_drive (h.idle ⟨rfl, rfl⟩)) fun _ _ _ hlast => hlast

/-- Starting over is going on from the identity as it starts over, if it can. -/
theorem perform_restart (f : Flow) : perform .restart f = perform .resume f.restarted := rfl

end Flow

end Enrolment
