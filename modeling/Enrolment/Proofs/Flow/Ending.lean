import Enrolment.Proofs.Flow.Encounter
import Enrolment.Proofs.Usernames.Ending

/-!
How the registration of a whole flow ends.

A flow drives its identity and then its names, each from where it was paused. What the platform hides
from too many looks is what the flow times out on, and nothing else stops it.
-/

namespace Enrolment

open Simulation

namespace Scene

variable [Suite]

/-- How a flow ends, with schedules of its own or else those of the settings, by what is left of the
waits for the identity, for the preorders and for the names. -/
def Ends (scene : Scene) (schedule? : Option Schedule) (identity preorder domain : Option Nat)
    (p : Platform) (outcome : FlowOutcome) : Prop :=
  if endsWithin (schedule?.getD scene.settings.identity).attempts.toNat identity then
    if scene.requests = [] then
      outcome = ⟨.completed scene.id, none⟩ ∧ scene.Accepted [scene.creation] p
    else
      ∃ usernames, outcome = ⟨.completed scene.id, some usernames⟩ ∧
        scene.NamesEnd (schedule?.getD scene.settings.preorder).attempts.toNat
          (schedule?.getD scene.settings.domain).attempts.toNat preorder domain p usernames
  else outcome = ⟨.timedOut (), none⟩ ∧ scene.Accepted [scene.creation] p

/-- A flow that registers its identity. -/
structure Identifying (scene : Scene) (identity preorder domain : Option Nat) (f : Flow)
    (p : Platform) : Prop where
  identifies : scene.Identifies identity f.identity p
  isRecovered : f.isRecovered = false
  untouched : scene.Untouched f.usernames
  preorder_eq : preorder = scene.before.behaviour.preorderHidden
  domain_eq : domain = scene.before.behaviour.domainHidden

/-- A flow whose identity is registered, and whose names are not or are under way. -/
structure Naming (scene : Scene) (preorder domain : Option Nat) (f : Flow) (p : Platform) :
    Prop where
  registers : scene.Registers f.identity
  phase : f.identity.phase = .registered
  named : if f.isRecovered then scene.requests ≠ [] ∧ scene.Named preorder domain f.usernames p
    else scene.Unnamed preorder domain f.usernames p

/-- A flow under way for a scene, and what is left of its waits. -/
structure Drives (scene : Scene) (identity preorder domain : Option Nat) (f : Flow) (p : Platform) :
    Prop where
  labels : f.labels = scene.requests
  valid : ∀ schedule ∈ f.schedule, schedule.validate = .ok ()
  stands : scene.Identifying identity preorder domain f p ∨
    endsWithin (f.schedule.getD scene.settings.identity).attempts.toNat identity = true ∧
      scene.Naming preorder domain f p

/-- How a flow leaves its identity. -/
def IdentityLeft (scene : Scene) (identity preorder domain : Option Nat) (flag : Bool) (p : Platform)
    (f : Flow) : Option IdentityOutcome → Prop
  | none => flag = true ∧ ∃ passed, scene.Identifying (waitAfter passed identity) preorder domain f p
  | some outcome =>
    if endsWithin (f.schedule.getD scene.settings.identity).attempts.toNat identity then
      outcome = .completed scene.id ∧ scene.Naming preorder domain f p
    else outcome = .timedOut () ∧ scene.Accepted [scene.creation] p

/-- How a call that drives a flow ends. -/
def DriveEnds (scene : Scene) (identity preorder domain : Option Nat) (flag : Bool) (p : Platform)
    (f : Flow) (result : Option FlowOutcome) : Prop :=
  (result.all FlowOutcome.isCompleted = true → ∃ passed passed' passed'',
    scene.Drives (waitAfter passed identity) (waitAfter passed' preorder)
      (waitAfter passed'' domain) f p) ∧
  match result with
  | none => flag = true
  | some outcome => scene.Ends f.schedule identity preorder domain p outcome

variable {scene : Scene} {f : Flow} {r : UsernameRegistration} {p : Platform} {flag : Bool}
  {wi wp wd : Option Nat}

theorem names_ne_nil (h : scene.requests ≠ []) : scene.names ≠ [] := by
  intro hnone
  have hlabels : scene.labels = [] := by
    unfold names at hnone
    cases hlabels : scene.labels with
    | nil => rfl
    | cons l rest => simp [hlabels, UsernameRegistration.distinct] at hnone
  have hread := scene.read
  rw [hlabels] at hread
  cases hrequests : scene.requests with
  | nil => exact h hrequests
  | cons request rest =>
    rw [hrequests, List.mapM_cons] at hread
    cases hfirst : scene.settings.naming.resolve request with
    | error e => simp [hfirst, bind, Except.bind] at hread
    | ok l =>
      cases hrest : rest.mapM scene.settings.naming.resolve with
      | error e => simp [hfirst, hrest, bind, Except.bind] at hread
      | ok ls => simp [hfirst, hrest, bind, Except.bind, pure, Except.pure] at hread

/-- The platform lists no names that could be taken up. -/
theorem Unnamed.concludes_recover (h : scene.Unnamed wp wd r p) :
    (UsernameRegistration.recover r).Concludes
      (fun _ p' r' result => result = .ok [] ∧ scene.Unnamed wp wd r' p') flag p := by
  obtain ⟨huntouched, rfl, rfl, hidden, hshows⟩ := h
  have howner : r.owner = scene.id := congrArg Prod.fst huntouched.setup
  obtain ⟨p', hfound, hlater⟩ := hshows.findNothing rfl
  apply Routine.concludes_get
  rw [howner]
  refine Routine.concludes_findDocuments fun flag' _ => ?_
  rw [hfound]
  refine Routine.concludes_time fun flag'' now _ => Routine.concludes_get ?_
  exact ⟨rfl, huntouched, rfl, rfl, hidden, hlater⟩

/-- Without names nothing but the identity was submitted. -/
theorem Naming.accepted (h : scene.Naming wp wd f p) (hnone : scene.requests = []) :
    scene.Accepted [scene.creation] p := by
  have hnamed := h.named
  split at hnamed
  · exact absurd hnone hnamed.1
  · obtain ⟨-, -, -, hidden, hshows⟩ := hnamed
    exact hshows.accepted

/-- The initial names of a flow are registered once its identity is, from wherever they are. -/
theorem concludes_registerLabels (hsome : scene.requests ≠ [])
    (hvalid : ∀ schedule ∈ f.schedule, schedule.validate = .ok ())
    (h : scene.Naming wp wd f p) :
    (Flow.registerLabels scene.requests f).Concludes (fun flag p f' result =>
      f' = { f with usernames := f'.usernames, isRecovered := true } ∧
      ∃ outcome, result = .ok outcome ∧
        scene.CallEnds (f.schedule.getD scene.settings.preorder).attempts.toNat
          (f.schedule.getD scene.settings.domain).attempts.toNat wp wd flag p f'.usernames outcome)
      flag p := by
  have hregister {flag : Bool} {p : Platform} (r : UsernameRegistration)
      (hnamed : scene.Named wp wd r p) :
      (Flow.onUsernames (UsernameRegistration.register f.schedule scene.requests)
        { f with usernames := r, isRecovered := true }).Concludes
        (fun flag p f' result =>
          f' = { f with usernames := f'.usernames, isRecovered := true } ∧
          ∃ outcome, result = .ok outcome ∧
            scene.CallEnds (f.schedule.getD scene.settings.preorder).attempts.toNat
              (f.schedule.getD scene.settings.domain).attempts.toNat wp wd flag p f'.usernames
              outcome) flag p := by
    refine Task.Concludes.within
      ((hnamed.concludes_register (names_ne_nil hsome) hvalid).mono ?_)
    intro flag p r result hends
    exact ⟨rfl, hends⟩
  have hnamed := h.named
  cases f with
  | mk identity usernames labels schedule isRecovered =>
    cases isRecovered with
    | true => exact Routine.concludes_get (Routine.concludes_get (hregister usernames hnamed.2))
    | false =>
      have hrecover : (Flow.onUsernames UsernameRegistration.recover
          ⟨identity, usernames, labels, schedule, false⟩).Concludes (fun _ p f' result =>
            result = .ok [] ∧ ∃ r, f' = ⟨identity, r, labels, schedule, false⟩ ∧
              scene.Unnamed wp wd r p) flag p := by
        refine Task.Concludes.within ((Unnamed.concludes_recover hnamed).mono ?_)
        rintro flag p r result ⟨rfl, hstill⟩
        exact ⟨rfl, r, rfl, hstill⟩
      refine Routine.concludes_get (Routine.concludes_bind hrecover ?_)
      rintro flag p f' result ⟨rfl, r, rfl, hstill⟩
      exact Routine.concludes_modify (Routine.concludes_get (hregister r (.inl hstill)))

/-- A flow registers its identity on its own schedule, or on that of the settings. -/
theorem Drives.concludes_identify (h : scene.Drives wi wp wd f p) :
    (Flow.onIdentity (match f.schedule with
      | some schedule => IdentityRegistration.register schedule
      | none => IdentityRegistration.registerAsSet) f).Concludes
      (fun flag p f' result => f' = { f with identity := f'.identity } ∧
        scene.IdentityLeft wi wp wd flag p f' result) flag p := by
  obtain ⟨-, hidentity, -⟩ := Settings.validate_schedules scene.valid
  have hvalid := Schedule.validate_getD hidentity h.valid
  have hregisters : scene.Registers f.identity := by
    rcases h.stands with hidentifying | ⟨-, hnaming⟩
    · exact hidentifying.identifies.1
    · exact hnaming.registers
  have hschedule : (match f.schedule with
      | some schedule => IdentityRegistration.register schedule
      | none => IdentityRegistration.registerAsSet) f.identity =
        IdentityRegistration.register (f.schedule.getD scene.settings.identity) f.identity := by
    rw [← hregisters.settings]
    cases f.schedule <;> rfl
  unfold Flow.onIdentity Routine.within
  rw [hschedule]
  apply Task.Concludes.within
  rcases h.stands with hidentifying | ⟨hends, hnaming⟩
  · refine (concludes_registerIdentity hvalid hidentifying.identifies).mono ?_
    intro flag p r result hended
    refine ⟨rfl, ?_⟩
    match result with
    | none =>
      obtain ⟨hset, passed, hidentifies⟩ := hended
      exact ⟨hset, passed, ⟨hidentifies, hidentifying.isRecovered, hidentifying.untouched,
        hidentifying.preorder_eq, hidentifying.domain_eq⟩⟩
    | some outcome =>
      obtain ⟨hregisters, ⟨rest, hshows⟩, houtcome⟩ := hended
      dsimp only [IdentityLeft]
      split at houtcome
      next hseen =>
        rw [if_pos hseen]
        refine ⟨houtcome.1, hregisters, houtcome.2, ?_⟩
        rw [hidentifying.isRecovered]
        exact ⟨hidentifying.untouched, hidentifying.preorder_eq, hidentifying.domain_eq, rest, hshows⟩
      next hvain =>
        rw [if_neg hvain]
        exact ⟨houtcome, hshows.accepted⟩
  · rw [registerIdentity_registered hvalid hnaming.phase]
    refine ⟨rfl, ?_⟩
    dsimp only [IdentityLeft]
    rw [if_pos hends, hnaming.registers.id_eq]
    exact ⟨rfl, hnaming⟩

/-- A flow that was asked for no names is done when its identity is registered. -/
theorem Naming.driveEnds (h : scene.Naming wp wd f p) (hlabels : f.labels = scene.requests)
    (hvalid : ∀ schedule ∈ f.schedule, schedule.validate = .ok ())
    (hseen : endsWithin (f.schedule.getD scene.settings.identity).attempts.toNat wi = true)
    (hnone : scene.requests = []) :
    scene.DriveEnds wi wp wd flag p f (some ⟨.completed scene.id, none⟩) := by
  constructor
  · intro _
    refine ⟨0, 0, 0, hlabels, hvalid, .inr ?_⟩
    rw [waitAfter_zero, waitAfter_zero, waitAfter_zero]
    exact ⟨hseen, h⟩
  · dsimp only [Ends]
    rw [if_pos hseen, if_pos hnone]
    exact ⟨rfl, h.accepted hnone⟩

/-- A flow ends as its names do when its identity is registered. -/
theorem CallEnds.driveEnds {usernames : Option UsernameOutcome}
    (h : scene.CallEnds (f.schedule.getD scene.settings.preorder).attempts.toNat
      (f.schedule.getD scene.settings.domain).attempts.toNat wp wd flag p f.usernames usernames)
    (hlabels : f.labels = scene.requests)
    (hvalid : ∀ schedule ∈ f.schedule, schedule.validate = .ok ())
    (hseen : endsWithin (f.schedule.getD scene.settings.identity).attempts.toNat wi = true)
    (hsome : scene.requests ≠ []) (hregisters : scene.Registers f.identity)
    (hphase : f.identity.phase = .registered) (hrecovered : f.isRecovered = true) :
    scene.DriveEnds wi wp wd flag p f
      (usernames.map fun usernames => ⟨.completed scene.id, some usernames⟩) := by
  have hstands {preorder domain : Option Nat} {state : ClaimState}
      (hat : scene.At state preorder domain f.usernames p) :
      scene.Drives (waitAfter 0 wi) preorder domain f p := by
    refine ⟨hlabels, hvalid, .inr ⟨by rwa [waitAfter_zero], hregisters, hphase, ?_⟩⟩
    rw [if_pos hrecovered]
    exact ⟨hsome, .inr ⟨state, hat⟩⟩
  match usernames with
  | none =>
    obtain ⟨hset, passed, passed', state, hat⟩ := h
    exact ⟨fun _ => ⟨0, passed, passed', hstands hat⟩, hset⟩
  | some usernames =>
    obtain ⟨hnames, hregistered⟩ := h
    constructor
    · intro hall
      have hcompleted : usernames.isCompleted = true := by
        simpa [FlowOutcome.isCompleted, Outcome.isCompleted] using hall
      obtain ⟨hwp, hwd⟩ := hnames.seen hcompleted
      obtain ⟨passed, hpassed⟩ := exists_waitAfter hwp
      obtain ⟨passed', hpassed'⟩ := exists_waitAfter hwd
      refine ⟨0, passed, passed', ?_⟩
      rw [hpassed, hpassed']
      exact hstands (hregistered hcompleted)
    · dsimp only [Ends, Option.map_some]
      rw [if_pos hseen, if_neg hsome]
      exact ⟨usernames, rfl, hnames⟩

/-- A call that drives a flow ends by what is left of its waits, or it is paused and leaves less of
them. -/
theorem Drives.concludes_drive (h : scene.Drives wi wp wd f p) :
    (Flow.drive f).Concludes (fun flag p f' result => f'.schedule = f.schedule ∧
      scene.DriveEnds wi wp wd flag p f' result) flag p := by
  refine Routine.concludes_get (Routine.concludes_bind h.concludes_identify ?_)
  rintro flag p f' registered ⟨hf', hleft⟩
  have hlabels : f'.labels = scene.requests := by rw [hf', ← h.labels]
  have hschedule : f'.schedule = f.schedule := by rw [hf']
  have hvalid : ∀ schedule ∈ f'.schedule, schedule.validate = .ok () := by
    rw [hschedule]
    exact h.valid
  match registered with
  | none =>
    obtain ⟨hset, passed, hidentifying⟩ := hleft
    refine ⟨hschedule, fun _ => ⟨passed, 0, 0, hlabels, hvalid, .inl ?_⟩, hset⟩
    rwa [waitAfter_zero, waitAfter_zero]
  | some outcome =>
    dsimp only [IdentityLeft] at hleft
    rw [h.labels]
    split at hleft
    next hseen =>
      obtain ⟨rfl, hnaming⟩ := hleft
      refine Routine.concludes_ite (fun hnone => ?_) fun hmore => ?_
      · have hrequests : scene.requests = [] := by
          simpa [Outcome.isCompleted] using hnone
        exact ⟨hschedule, hnaming.driveEnds hlabels hvalid hseen hrequests⟩
      have hrequests : scene.requests ≠ [] := by
        intro hnone
        simp [hnone] at hmore
      refine Routine.concludes_bind (concludes_registerLabels hrequests hvalid hnaming) ?_
      rintro flag p g result ⟨hg, usernames, rfl, hends⟩
      have hgschedule : g.schedule = f'.schedule := by rw [hg]
      rw [← hgschedule] at hends hvalid hseen
      have hgidentity : g.identity = f'.identity := by rw [hg]
      have hended := hends.driveEnds (by rw [hg, ← hlabels]) hvalid hseen hrequests
        (hgidentity ▸ hnaming.registers) (hgidentity ▸ hnaming.phase) (by rw [hg])
      match usernames with
      | none => exact ⟨hgschedule.trans hschedule, hended⟩
      | some usernames => exact ⟨hgschedule.trans hschedule, hended⟩
    next hvain =>
      obtain ⟨rfl, haccepted⟩ := hleft
      refine ⟨hschedule, nofun, ?_⟩
      dsimp only [Ends]
      rw [if_neg hvain]
      exact ⟨rfl, haccepted⟩

/-- The flow that a coordinator makes for a scene. -/
def flow (scene : Scene) (schedule? : Option Schedule) : Flow where
  identity := ⟨scene.lock, scene.burnKey, scene.signingKey, scene.settings,
    .pending scene.lock [scene.signingKey.publicKey], .awaitingFunding, none⟩
  usernames := ⟨scene.id, scene.signingKey, scene.settings, .empty, none, none⟩
  labels := scene.requests
  schedule := schedule?
  isRecovered := false

theorem drives_flow (scene : Scene) {schedule? : Option Schedule}
    (hvalid : ∀ schedule ∈ schedule?, schedule.validate = .ok ()) :
    scene.Drives scene.before.behaviour.identityHidden scene.before.behaviour.preorderHidden
      scene.before.behaviour.domainHidden (scene.flow schedule?) scene.before := by
  refine ⟨rfl, hvalid, .inl ⟨⟨⟨rfl, rfl, rfl, rfl⟩, rfl, scene.shows_before⟩, rfl, ?_, rfl, rfl⟩⟩
  exact ⟨rfl, UsernameRegistration.isKept_of_empty fun _ => rfl, fun _ _ => rfl⟩

/-- A coordinator starts the flow of a scene, unless it has one for the identity. -/
theorem exists_start {c : Coordinator} {transaction : Transaction} {ledger : Ledger}
    {schedule? : Option Schedule} (hsettings : c.settings = scene.settings)
    (hlock : c.ledger.observe transaction = .ok (scene.lock, ledger))
    (hnew : c.registry.contains scene.id = false)
    (hvalid : ∀ schedule ∈ schedule?, schedule.validate = .ok ()) :
    ∃ position c', c.start transaction scene.burnKey scene.signingKey scene.requests schedule? =
        (.ok position, c') ∧
      c'.run? position = some (.launch (scene.flow schedule?)) := by
  have hcheck : c.checkStart scene.requests schedule? = .ok () := by
    unfold Coordinator.checkStart
    rw [hsettings, scene.read]
    cases schedule? with
    | none => rfl
    | some schedule => exact hvalid schedule rfl
  have hflow : Coordinator.makeFlow { c with ledger } scene.lock scene.burnKey scene.signingKey
      scene.requests schedule? = .ok (scene.flow schedule?) := by
    unfold Coordinator.makeFlow IdentityRegistration.create UsernameRegistration.create
    rw [hsettings, scene.valid]
    rfl
  unfold Coordinator.start
  rw [hcheck, hlock]
  dsimp only
  rw [hflow]
  dsimp only
  unfold Coordinator.enter
  dsimp only
  rw [if_neg (by simpa [flow, IdentityRegistration.id, Scene.id] using hnew)]
  exact ⟨_, _, rfl, by simp [Coordinator.run?]⟩

/-- A flow that is started for a new identity and left alone comes to the end that is due. -/
theorem flow_ends_as_due {c : Coordinator} {transaction : Transaction} {ledger : Ledger}
    (scene : Scene) (hsettings : c.settings = scene.settings)
    (hlock : c.ledger.observe transaction = .ok (scene.lock, ledger))
    (hnew : c.registry.contains scene.id = false) :
    ∃ position c' run,
      c.start transaction scene.burnKey scene.signingKey scene.requests none =
        (.ok position, c') ∧
      c'.run? position = some run ∧
      Encounter.ComesTo (fun x => ∃ f outcome, x.run.activity = .idle f ∧
        x.run.outcome = some outcome ∧
        scene.Ends none scene.before.behaviour.identityHidden scene.before.behaviour.preorderHidden
          scene.before.behaviour.domainHidden x.platform outcome) ⟨run, scene.before⟩ := by
  have hvalid : ∀ schedule ∈ (none : Option Schedule), schedule.validate = .ok () := by simp
  obtain ⟨position, c', hstart, hrun⟩ := exists_start hsettings hlock hnew hvalid
  refine ⟨position, c', _, hstart, hrun, ?_⟩
  have hwork : (Flow.perform .start (scene.flow none)).Concludes (fun flag p f reply =>
      ∃ result, reply = .flow result ∧ f.schedule = none ∧
        scene.DriveEnds scene.before.behaviour.identityHidden scene.before.behaviour.preorderHidden
          scene.before.behaviour.domainHidden flag p f result) false scene.before :=
    (scene.drives_flow hvalid).concludes_drive.bind fun _ _ _ result h => ⟨result, rfl, h⟩
  refine (Encounter.comesTo_done (x := ⟨.launch (scene.flow none), scene.before⟩) rfl hwork).trans ?_
  rintro ⟨run, p⟩ ⟨f, reply, flag, hrun, hflag, result, rfl, hschedule, -, hends⟩
  dsimp only at hrun
  subst hrun
  cases result with
  | none => exact absurd (hflag hends) Bool.false_ne_true
  | some outcome =>
    rw [hschedule] at hends
    refine .later (.settled (FlowRun.settle_ne_of_done rfl)) ?_
    rintro z (⟨answer, hasked, -⟩ | -)
    · cases hasked
    · exact .now ⟨f, outcome, rfl, rfl, hends⟩

end Scene

namespace Rehearsal

/-- A name that is registered on a new platform, which refuses the first submission. -/
def scene : Scene where
  lock := lock
  burnKey := key
  signingKey := key
  settings := .default
  requests := ["alice"]
  labels := [alice]
  before := (Platform.empty .default).refuseNext [.transient "busy"]
  valid := rfl
  read := rfl
  burns := rfl
  burnKey_isSound := isSound_key
  signingKey_isSound := isSound_key
  deep := by decide
  answers := rfl
  transient := by simp [Platform.refuseNext, Platform.empty]
  few := by decide
  unknown := rfl
  unowned := by simp [Platform.refuseNext, Platform.empty]
  free := by simp [Platform.refuseNext, Platform.empty]

def coordinator : Coordinator := ⟨.default, .empty, [], .empty, ⟨0, 0, 0, 0⟩⟩

def started : Coordinator := (coordinator.start funding key key ["alice"] none).2

theorem exists_observed : ∃ ledger,
    coordinator.ledger.observe funding = .ok (scene.lock, ledger) := ⟨_, rfl⟩

end Rehearsal

open Rehearsal in
/-- A name is registered although the first submission is refused. -/
theorem Scene.flow_ends_as_due_alice : ∃ position c' run,
    coordinator.start funding key key ["alice"] none = (.ok position, c') ∧
      c'.run? position = some run ∧
      Encounter.ComesTo (fun x => x.run.outcome =
          some ⟨.completed Rehearsal.lock.identity, some (.completed ["alice"])⟩ ∧
        (x.platform.accepted.map fun t => t.operation.name) =
          ["identity_create", "preorder", "domain_register"]) ⟨run, scene.before⟩ := by
  obtain ⟨ledger, hlock⟩ := exists_observed
  obtain ⟨position, c', run, hstart, hrun, hends⟩ := Scene.flow_ends_as_due scene rfl hlock rfl
  refine ⟨position, c', run, hstart, hrun, hends.trans ?_⟩
  rintro x ⟨f, outcome, -, houtcome, hended⟩
  dsimp only [Scene.Ends] at hended
  rw [if_pos (by decide), if_neg (by decide)] at hended
  obtain ⟨usernames, rfl, salt, hnames⟩ := hended
  rw [if_pos (by decide)] at hnames
  obtain ⟨entries, -, haccepted, husernames⟩ := hnames
  rw [if_pos (by decide)] at husernames
  refine .now ⟨?_, haccepted.map_name⟩
  rw [houtcome, husernames]
  rfl

end Enrolment
