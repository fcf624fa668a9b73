import Enrolment.Proofs.Usernames.Course

/-!
The stages of a batch. Every step of a batch moves the claims that it finds in one state to the state
after it, or leaves all claims alone, or times the batch out; each routine is proved once to follow a
course and to end its stage in one of these ways, and callers use nothing else of it.
-/

namespace Enrolment

namespace UsernameRegistration

/-- The names that a timeout of a batch reports. -/
def overdue (r : UsernameRegistration) (batch : List String) : List String :=
  (r.unfinished batch).map fun claim => r.reportName claim.label

/-- A stage that a batch passes: claims in one state move to the one after it. -/
structure Stage where
  source : ClaimState
  target : ClaimState
  /-- What the platform has accepted when they do. -/
  operation? : UsernameRegistration → List String → Option Operation
  /-- What else changes with the claims on some names. -/
  finish : List String → UsernameRegistration → UsernameRegistration
  next : source.next? = some target
  find?_finish : ∀ names r name, (finish names r).find? name = r.find? name
  setup_finish : ∀ names r, (finish names r).setup = r.setup

namespace Stage

def shift (stage : Stage) (batch : List String) (now : Timestamp) (r : UsernameRegistration) :
    UsernameRegistration :=
  let names := r.inState batch stage.source
  stage.finish names (r.advance names stage.target now)

/-- How a stage ends for a batch: with which log, which registration and which step. -/
inductive Ends (stage : Stage) (batch : List String) (log : Log) (r : UsernameRegistration) :
    Log → UsernameRegistration → Step → Prop where
  | passed (hnone : r.inState batch stage.source = []) : Ends stage batch log r log r .proceed
  | moved {later : Log} (now : Timestamp) (hsome : r.inState batch stage.source ≠ [])
      (hlog : later.operations =
        log.operations ++ (stage.operation? r (r.inState batch stage.source)).toList) :
      Ends stage batch log r later (stage.shift batch now r) .proceed
  /-- The claims moved and the flag was set by then. -/
  | held {later : Log} (now : Timestamp) (hsome : r.inState batch stage.source ≠ [])
      (hopen : stage.target.isFinal = false)
      (hlog : later.operations =
        log.operations ++ (stage.operation? r (r.inState batch stage.source)).toList) :
      Ends stage batch log r later (stage.shift batch now r) .paused
  | paused {later : Log} (hlog : later.operations = log.operations) :
      Ends stage batch log r later r .paused
  /-- Only what was submitted can be refused. -/
  | refused {before : Log} (t : Transition) (reason : String)
      (hsubmits : stage.operation? r (r.inState batch stage.source) ≠ none)
      (hlog : before.operations = log.operations) :
      Ends stage batch log r (before ++ [⟨.submit t, .error (.invalid reason)⟩]) r
        (.stop (.failed (.rejected reason)))
  | expired {later : Log} (now : Timestamp) (hlog : later.operations = log.operations) :
      Ends stage batch log r later (r.expire batch now) (.stop (.timedOut (r.overdue batch)))

end Stage

variable {batch names : List String} {r : UsernameRegistration} {log : Log}

theorem mem_inState {state : ClaimState} {name : String} :
    name ∈ r.inState batch state ↔ name ∈ batch ∧ r.stateOf? name = some state := by
  simp [inState]

theorem nodup_inState (hbatch : batch.Nodup) (state : ClaimState) :
    (r.inState batch state).Nodup := hbatch.filter _

theorem Stage.found (stage : Stage) (r : UsernameRegistration) (hbatch : batch.Nodup) :
    (r.inState batch stage.source).Nodup ∧
      ∀ name ∈ r.inState batch stage.source, r.stateOf? name = some stage.source :=
  ⟨nodup_inState hbatch _, fun _ hname => (mem_inState.mp hname).2⟩

theorem Stage.stateOf?_shift (stage : Stage) (hbatch : batch.Nodup) (now : Timestamp)
    (r : UsernameRegistration) (name : String) :
    (stage.shift batch now r).stateOf? name =
      if name ∈ r.inState batch stage.source then some stage.target else r.stateOf? name := by
  unfold stateOf? shift
  rw [stage.find?_finish]
  exact stateOf?_advance (nodup_inState hbatch stage.source) (fun n hn => (mem_inState.mp hn).2)
    stage.next

theorem Stage.setup_shift (stage : Stage) (batch : List String) (now : Timestamp)
    (r : UsernameRegistration) : (stage.shift batch now r).setup = r.setup := by
  unfold shift
  rw [stage.setup_finish, setup_advance]

section

variable {guard : Log → UsernameRegistration → Request → Prop}

theorem meets_timeOut (htime : ∀ log r, guard log r .time) :
    (timeOut batch r).Meets guard (fun later r' step => ∃ now, Log.Lulls log later ∧
      r' = r.expire batch now ∧ step = .stop (.timedOut (r.overdue batch))) log := by
  refine Routine.meets_ask (htime log r) fun now => ?_
  exact ⟨now, (Log.Goes.refl log).snoc (quiet_time now), rfl, rfl⟩

/-- The names that a stage finds can all be moved past it. -/
theorem meets_moveOn (stage : Stage) (htime : ∀ log r, guard log r .time) (hbatch : batch.Nodup) :
    (moveOn (r.inState batch stage.source) stage.target r).Meets guard (fun later r' step =>
      step = .proceed ∧ ∃ now : Timestamp, later = log ++ [⟨.time, now⟩] ∧
        r' = r.advance (r.inState batch stage.source) stage.target now) log := by
  obtain ⟨hnames, hstate⟩ := stage.found r hbatch
  rw [moveOn_eq]
  refine Routine.meets_ask (htime log r) fun now => ?_
  rw [advanceInTurn_eq hnames hstate stage.next]
  exact ⟨rfl, now, rfl, rfl⟩

theorem meets_proceedUnlessPaused (hflag : ∀ log r, guard log r .isCancelled) :
    (proceedUnlessPaused r).Meets guard (fun later r' step => Log.Lulls log later ∧ r' = r ∧
      (step = .proceed ∨ step = .paused)) log := by
  refine Routine.meets_isCancelled (hflag log r) fun set => ?_
  have hlog := (Log.Goes.refl log).snoc (quiet_isCancelled set)
  split
  · exact ⟨hlog, rfl, .inr rfl⟩
  · exact ⟨hlog, rfl, .inl rfl⟩

/-- A watch for documents that is completed was shown documents that complete it. -/
theorem meets_watchDocuments {schedule : Schedule} {kind : DocumentKind} {filter : Filter}
    {isComplete : List Document → Bool} (hflag : ∀ log r, guard log r .isCancelled)
    (hpause : ∀ log r millis, guard log r (.pause millis))
    (hfind : ∀ log r, guard log r (.findDocuments kind filter)) :
    (watchDocuments schedule kind filter isComplete r).Meets guard
      (fun later r' ended => r' = r ∧ Log.Lulls log later ∧ ∀ v, ended = some (.completed v) →
        ∃ documents, ⟨.findDocuments kind filter, .ok documents⟩ ∈ later ∧ isComplete documents)
      log := by
  refine meets_watch (fun log => hflag log r) (fun log => hpause log r) ?_ ?_
  · rintro log e v ⟨documents, hshown, hcomplete⟩
    exact ⟨documents, by simp [hshown], hcomplete⟩
  · intro number later hlog
    refine Routine.meets_ask (hfind later r) fun answer => ?_
    have hlooked : Log.Lulls log (later ++ [⟨.findDocuments kind filter, answer⟩]) :=
      hlog.snoc ⟨rfl, rfl⟩
    match answer with
    | .error e => exact ⟨rfl, hlooked, by simp⟩
    | .ok documents =>
      by_cases hcomplete : isComplete documents
      · simp only [hcomplete]
        exact ⟨rfl, hlooked, fun v _ => ⟨documents, by simp, hcomplete⟩⟩
      · simp only [hcomplete]
        exact ⟨rfl, hlooked, by simp⟩

/-- To proceed after a step is to go on as the step says. -/
theorem andThen_proceed (first : Work Step) : Step.andThen first (pure .proceed) = first := by
  refine Eq.trans ?_ (bind_pure first)
  apply congrArg (first >>= ·)
  funext step
  cases step <;> rfl

theorem meets_andThen {first second : Work Step} {mid post : Log → UsernameRegistration → Step → Prop}
    (hfirst : (first r).Meets guard mid log)
    (hstop : ∀ later r' outcome, mid later r' (.stop outcome) → post later r' (.stop outcome))
    (hpaused : ∀ later r', mid later r' .paused → post later r' .paused)
    (hsecond : ∀ later r', mid later r' .proceed → (second r').Meets guard post later) :
    (Step.andThen first second r).Meets guard post log := by
  refine Routine.meets_bind hfirst ?_
  rintro later r' step hmid
  match step with
  | .proceed => exact hsecond later r' hmid
  | .stop outcome => exact hstop later r' outcome hmid
  | .paused => exact hpaused later r' hmid

end

/-- How the stages of a batch end, one after the other. -/
inductive Carried (batch : List String) :
    List Stage → Log → UsernameRegistration → Log → UsernameRegistration → Step → Prop where
  | finished {log : Log} {r : UsernameRegistration} : Carried batch [] log r log r .proceed
  | stopped {stage : Stage} {rest : List Stage} {log later : Log} {r r' : UsernameRegistration}
      {step : Step} (hend : stage.Ends batch log r later r' step) (hstep : step ≠ .proceed) :
      Carried batch (stage :: rest) log r later r' step
  | passed {stage : Stage} {rest : List Stage} {log between later : Log}
      {r r₁ r' : UsernameRegistration} {step : Step}
      (hend : stage.Ends batch log r between r₁ .proceed)
      (hrest : Carried batch rest between r₁ later r' step) :
      Carried batch (stage :: rest) log r later r' step

variable [Suite]

/-- How a broadcast for a batch ends. What an acceptance changes is left to the caller. -/
inductive Broadcast (batch : List String) (operation : Operation) (log : Log)
    (r : UsernameRegistration) : Log → UsernameRegistration → Step → Prop where
  | accepted {before : Log} (signed : Timestamp) (receipt : Receipt)
      (hlog : Log.Lulls log before) :
      Broadcast batch operation log r
        (before ++ [⟨.submit (.sign operation signed r.key), .ok receipt⟩]) r .proceed
  | refused {before : Log} (t : Transition) (reason : String) (hlog : Log.Lulls log before) :
      Broadcast batch operation log r (before ++ [⟨.submit t, .error (.invalid reason)⟩]) r
        (.stop (.failed (.rejected reason)))
  | expired {later : Log} (now : Timestamp) (hlog : Log.Lulls log later) :
      Broadcast batch operation log r later (r.expire batch now)
        (.stop (.timedOut (r.overdue batch)))
  | paused {later : Log} (hlog : Log.Lulls log later) :
      Broadcast batch operation log r later r .paused

section

variable {guard : Log → UsernameRegistration → Request → Prop} {operation : Operation}

/-- A broadcast that is refused or called off changes nothing. -/
theorem meets_broadcast (hflag : ∀ log r, guard log r .isCancelled)
    (hpause : ∀ log r millis, guard log r (.pause millis)) (htime : ∀ log r, guard log r .time)
    (hsubmit : ∀ later signed, Log.Lulls log later →
      guard later r (.submit (.sign operation signed r.key))) :
    (broadcast batch operation r).Meets guard (Broadcast batch operation log r) log := by
  refine Routine.meets_ask (htime log r) fun signed => ?_
  have hsigned := (Log.Goes.refl log).snoc (quiet_time signed)
  refine Routine.meets_get ?_
  refine Routine.meets_bind (meets_submitUntilDecided (fun log => hflag log r)
    (fun log => hpause log r) fun later hlog => hsubmit later signed (hsigned.trans hlog)) ?_
  rintro later r' ended ⟨rfl, hended⟩
  match ended with
  | .accepted receipt =>
    obtain ⟨before, hbefore, rfl⟩ := hended
    exact .accepted signed receipt (hsigned.trans hbefore)
  | .rejected reason =>
    obtain ⟨before, hbefore, rfl⟩ := hended
    exact .refused _ reason (hsigned.trans hbefore)
  | .exhausted .. =>
    refine (meets_timeOut htime).mono ?_
    rintro last r'' step ⟨now, hlast, rfl, rfl⟩
    exact .expired now (hsigned.trans (Log.Goes.trans hended hlast))
  | .cancelled => exact .paused (hsigned.trans hended)

end

/-- At every submission the registration is on a course and offers what it submits. -/
def Permits (start : UsernameRegistration) : Log → UsernameRegistration → Request → Prop
  | log, r, .submit t => Course start log r ∧ ∃ names, r.Offers names t
  | _, _, _ => True

namespace Stage

/-- The unregistered names of a batch are preordered. -/
def preordering : Stage where
  source := .unregistered
  target := .preorderSubmitted
  operation? r names := some (r.preorderOf names)
  finish _ r := r
  next := rfl
  find?_finish _ _ _ := rfl
  setup_finish _ _ := rfl

/-- The preordered names of a batch are seen to be. -/
def confirming : Stage where
  source := .preorderSubmitted
  target := .preorderConfirmed
  operation? _ _ := none
  finish _ r := r
  next := rfl
  find?_finish _ _ _ := rfl
  setup_finish _ _ := rfl

/-- The names of a batch whose preorders were seen are revealed. -/
def revealing : Stage where
  source := .preorderConfirmed
  target := .domainSubmitted
  operation? r names := some (r.revealOf names)
  finish names r := r.notePrimary names
  next := rfl
  find?_finish names _ _ := find?_notePrimary names
  setup_finish names _ := setup_notePrimary names

/-- The revealed names of a batch are seen to be owned. -/
def registering : Stage where
  source := .domainSubmitted
  target := .registered
  operation? _ _ := none
  finish _ r := r.settlePrimary
  next := rfl
  find?_finish _ _ _ := find?_settlePrimary
  setup_finish _ _ := setup_settlePrimary

/-- What is proved of the routine of a stage: it follows a course and ends as the stage does. -/
def Follows (stage : Stage) (start : UsernameRegistration) (batch : List String) (log : Log)
    (r : UsernameRegistration) (later : Log) (r' : UsernameRegistration) (step : Step) : Prop :=
  Course start later r' ∧ stage.Ends batch log r later r' step

end Stage

section

variable {start r' : UsernameRegistration} {later : Log} {operation : Operation} {step : Step}

/-- A broadcast that does not let the batch proceed ends the stage that it is made in. -/
theorem Broadcast.follows (stage : Stage) (h : Course start log r) (hbatch : batch.Nodup)
    (hsubmits : stage.operation? r (r.inState batch stage.source) ≠ none)
    (hend : Broadcast batch operation log r later r' step) (hstep : step ≠ .proceed) :
    stage.Follows start batch log r later r' step := by
  cases hend with
  | accepted => exact absurd rfl hstep
  | refused t reason hlog =>
    refine ⟨h.lulls (hlog.snoc (quiet_refused t (.invalid reason))), ?_⟩
    exact .refused t reason hsubmits hlog.operations
  | expired now hlog => exact ⟨(h.lulls hlog).expired now hbatch, .expired now hlog.operations⟩
  | paused hlog => exact ⟨h.lulls hlog, .paused hlog.operations⟩

/-- A stage that submits: the claims move once the transition is accepted, and then it only matters
whether the flag is set. -/
theorem meets_submitting (stage : Stage) {rest : Work Step} (h : Course start log r)
    (hbatch : batch.Nodup) (hsome : r.inState batch stage.source ≠ [])
    (hopen : stage.target.isFinal = false)
    (hoperation : stage.operation? r (r.inState batch stage.source) = some operation)
    (hoffers : ∀ signed, ∃ names, r.Offers names (.sign operation signed r.key))
    (hcourse : ∀ before signed receipt now, Course start before r →
      Course start (before ++ [⟨.submit (.sign operation signed r.key), .ok receipt⟩, ⟨.time, now⟩])
        (stage.shift batch now r))
    (hrest : ∀ now, rest (r.advance (r.inState batch stage.source) stage.target now) =
      proceedUnlessPaused (stage.shift batch now r)) :
    (Step.andThen (broadcast batch operation)
      (Step.andThen (moveOn (r.inState batch stage.source) stage.target) rest) r).Meets (Permits start)
        (stage.Follows start batch log r) log := by
  have hsubmits : stage.operation? r (r.inState batch stage.source) ≠ none := by simp [hoperation]
  refine meets_andThen
    (meets_broadcast (fun _ _ => trivial) (fun _ _ _ => trivial) (fun _ _ => trivial) ?_) ?_ ?_ ?_
  · intro later signed hlog
    exact ⟨h.lulls hlog, hoffers signed⟩
  · intro later r' outcome hend
    exact hend.follows stage h hbatch hsubmits (by simp)
  · intro later r' hend
    exact hend.follows stage h hbatch hsubmits (by simp)
  intro later r' hend
  cases hend with
  | @accepted before signed receipt hlog =>
    refine Routine.meets_bind (meets_moveOn stage (fun _ _ => trivial) hbatch) ?_
    rintro moved r' step ⟨rfl, now, rfl, rfl⟩
    dsimp only
    rw [hrest now]
    refine (meets_proceedUnlessPaused fun _ _ => trivial).mono ?_
    rintro later r' step ⟨hlater, rfl, hstep⟩
    have hoperations : later.operations =
        log.operations ++ (stage.operation? r (r.inState batch stage.source)).toList := by
      rw [hlater.operations, Log.operations_append, Log.operations_append, hlog.operations,
        hoperation, List.append_assoc]
      rfl
    rw [List.append_assoc] at hlater
    refine ⟨(hcourse before signed receipt now (h.lulls hlog)).lulls hlater, ?_⟩
    rcases hstep with rfl | rfl
    · exact .moved now hsome hoperations
    · exact .held now hsome hopen hoperations

/-- A stage that watches: the claims move once the platform shows all that is watched for. -/
theorem meets_watching (stage : Stage) {schedule : Schedule} {kind : DocumentKind}
    {filter : Filter} {isComplete : List Document → Bool} {rest : Work Step}
    {next : Option (WatchOutcome Unit) → Work Step} (h : Course start log r)
    (hbatch : batch.Nodup) (hsome : r.inState batch stage.source ≠ [])
    (hoperation : stage.operation? r (r.inState batch stage.source) = none)
    (hcourse : ∀ later now documents, Course start later r →
      ⟨.findDocuments kind filter, .ok documents⟩ ∈ later → isComplete documents →
      Course start later (stage.shift batch now r))
    (hpaused : next none = pure .paused)
    (hcompleted : ∀ v, next (some (.completed v)) =
      Step.andThen (moveOn (r.inState batch stage.source) stage.target) rest)
    (htimedOut : ∀ looks, next (some (.timedOut looks)) = timeOut batch)
    (hrest : ∀ now, rest (r.advance (r.inState batch stage.source) stage.target now) =
      .done (stage.shift batch now r) .proceed) :
    ((watchDocuments schedule kind filter isComplete >>= next) r).Meets (Permits start)
      (stage.Follows start batch log r) log := by
  refine Routine.meets_bind
    (meets_watchDocuments (fun _ _ => trivial) (fun _ _ _ => trivial) fun _ _ => trivial) ?_
  rintro later r' ended ⟨rfl, hlater, hseen⟩
  match ended with
  | none =>
    rw [hpaused]
    exact ⟨h.lulls hlater, .paused hlater.operations⟩
  | some (.completed v) =>
    obtain ⟨documents, hshown, hcomplete⟩ := hseen v rfl
    rw [hcompleted]
    refine Routine.meets_bind (meets_moveOn stage (fun _ _ => trivial) hbatch) ?_
    rintro moved r'' step ⟨rfl, now, rfl, rfl⟩
    dsimp only
    rw [hrest now]
    have htime := (Log.Goes.refl later).snoc (quiet_time now)
    refine ⟨(hcourse later now documents (h.lulls hlater) hshown hcomplete).lulls htime, ?_⟩
    apply Stage.Ends.moved now hsome
    have hmoved : Log.Lulls log _ := hlater.trans htime
    rw [hoperation, hmoved.operations]
    simp
  | some (.timedOut looks) =>
    rw [htimedOut]
    refine (meets_timeOut fun _ _ => trivial).mono ?_
    rintro last r'' step ⟨now, hlast, rfl, rfl⟩
    have hlog : Log.Lulls log last := hlater.trans hlast
    exact ⟨(h.lulls hlog).expired now hbatch, .expired now hlog.operations⟩

theorem meets_submitPreorder (h : Course start log r) (hbatch : batch.Nodup) :
    (submitPreorder batch r).Meets (Permits start) (Stage.preordering.Follows start batch log r)
      log := by
  obtain ⟨hnames, hstate⟩ := Stage.preordering.found r hbatch
  refine Routine.meets_get (Routine.meets_ite (fun hnone => ?_) fun hsome => ?_)
  · exact ⟨h, .passed (List.isEmpty_iff.mp hnone)⟩
  · refine meets_submitting Stage.preordering h hbatch (mt List.isEmpty_iff.mpr hsome) rfl rfl
      (fun signed => ⟨_, .preorder signed hstate (mt List.isEmpty_iff.mpr hsome)⟩) ?_ fun _ => rfl
    intro before signed receipt now hbefore
    exact hbefore.preordered signed receipt now hnames hstate

theorem meets_awaitPreorders (schedule : Schedule) (h : Course start log r) (hbatch : batch.Nodup) :
    (awaitPreorders schedule batch r).Meets (Permits start)
      (Stage.confirming.Follows start batch log r) log := by
  obtain ⟨hnames, hstate⟩ := Stage.confirming.found r hbatch
  refine Routine.meets_get (Routine.meets_ite (fun hnone => ?_) fun hsome => ?_)
  · exact ⟨h, .passed (List.isEmpty_iff.mp hnone)⟩
  · refine meets_watching Stage.confirming h hbatch (mt List.isEmpty_iff.mpr hsome) rfl ?_ rfl
      (fun _ => (andThen_proceed _).symm) (fun _ => rfl) fun _ => rfl
    intro later now documents hlater hshown hholds
    exact hlater.confirmed now hnames hstate hshown hholds

theorem meets_submitDomains (h : Course start log r) (hbatch : batch.Nodup) :
    (submitDomains batch r).Meets (Permits start) (Stage.revealing.Follows start batch log r)
      log := by
  obtain ⟨hnames, hstate⟩ := Stage.revealing.found r hbatch
  refine Routine.meets_get (Routine.meets_ite (fun hnone => ?_) fun hsome => ?_)
  · exact ⟨h, .passed (List.isEmpty_iff.mp hnone)⟩
  · refine meets_submitting Stage.revealing h hbatch (mt List.isEmpty_iff.mpr hsome) rfl rfl
      (fun signed => ⟨_, .reveal signed hstate (mt List.isEmpty_iff.mpr hsome)⟩) ?_ fun _ => rfl
    intro before signed receipt now hbefore
    exact hbefore.revealed signed receipt now hnames hstate

theorem meets_awaitDomains (schedule : Schedule) (h : Course start log r) (hbatch : batch.Nodup) :
    (awaitDomains schedule batch r).Meets (Permits start)
      (Stage.registering.Follows start batch log r) log := by
  obtain ⟨hnames, hstate⟩ := Stage.registering.found r hbatch
  refine Routine.meets_get (Routine.meets_ite (fun hnone => ?_) fun hsome => ?_)
  · exact ⟨h, .passed (List.isEmpty_iff.mp hnone)⟩
  · refine meets_watching Stage.registering h hbatch (mt List.isEmpty_iff.mpr hsome) rfl ?_ rfl
      (fun _ => rfl) (fun _ => rfl) fun _ => rfl
    intro later now documents hlater hshown hholds
    exact hlater.registered now hnames hstate

/-- Every batch goes through the same stages. -/
def stages : List Stage := [.preordering, .confirming, .revealing, .registering]

theorem meets_carryOut (preorder domain : Schedule) (h : Course start log r)
    (hbatch : batch.Nodup) :
    (carryOut preorder domain batch r).Meets (Permits start)
      (fun later r' step => Course start later r' ∧ Carried batch stages log r later r' step)
      log := by
  refine meets_andThen (meets_submitPreorder h hbatch) ?_ ?_ ?_
  · exact fun later r' outcome ⟨hcourse, hend⟩ => ⟨hcourse, .stopped hend (by simp)⟩
  · exact fun later r' ⟨hcourse, hend⟩ => ⟨hcourse, .stopped hend (by simp)⟩
  intro log₁ r₁ ⟨h₁, hend₁⟩
  refine meets_andThen (meets_awaitPreorders preorder h₁ hbatch) ?_ ?_ ?_
  · exact fun later r' outcome ⟨hcourse, hend⟩ =>
      ⟨hcourse, .passed hend₁ (.stopped hend (by simp))⟩
  · exact fun later r' ⟨hcourse, hend⟩ => ⟨hcourse, .passed hend₁ (.stopped hend (by simp))⟩
  intro log₂ r₂ ⟨h₂, hend₂⟩
  refine meets_andThen (meets_submitDomains h₂ hbatch) ?_ ?_ ?_
  · exact fun later r' outcome ⟨hcourse, hend⟩ =>
      ⟨hcourse, .passed hend₁ (.passed hend₂ (.stopped hend (by simp)))⟩
  · exact fun later r' ⟨hcourse, hend⟩ =>
      ⟨hcourse, .passed hend₁ (.passed hend₂ (.stopped hend (by simp)))⟩
  intro log₃ r₃ ⟨h₃, hend₃⟩
  refine (meets_awaitDomains domain h₃ hbatch).mono ?_
  intro later r' step ⟨hcourse, hend⟩
  refine ⟨hcourse, .passed hend₁ (.passed hend₂ (.passed hend₃ ?_))⟩
  by_cases hstep : step = .proceed
  · subst hstep
    exact .passed hend .finished
  · exact .stopped hend hstep

end

end UsernameRegistration

end Enrolment
