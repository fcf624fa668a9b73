import Enrolment.Proofs.Credit.Ledger
import Enrolment.Proofs.Flow.Bookkeeping
import Enrolment.Proofs.Flow.Replies
import Enrolment.Proofs.Identity.Calls
import Enrolment.Proofs.Usernames.Mistakes

/-!
Starting flows. A flow is started or refused as a whole: everything that can be wrong with the request is
found out before the flow is entered, and a flow that was started never fails for anything that could
have been found out then.
-/

namespace Enrolment

/-- The source of confirmations failed with an error. -/
def Log.Reports (log : Log) (e : RegistrationError) : Prop :=
  ∃ transaction depth, ⟨.awaitDepth transaction depth, some (.error e)⟩ ∈ log

/-- The errors of an identity that its exchanges account for: those of refused transitions, and those of
the source of confirmations. -/
def Log.Foresees (log : Log) (e : RegistrationError) : Prop :=
  (∃ reason, e = .rejected reason) ∨ log.Reports e

theorem Log.Foresees.extend {log later : Log} {e : RegistrationError} (h : log.Foresees e)
    (hlog : log <+: later) : later.Foresees e := by
  refine h.imp_right ?_
  rintro ⟨transaction, depth, hmem⟩
  exact ⟨transaction, depth, hlog.subset hmem⟩

/-- An outcome that is accounted for, in which names fail only by being refused. -/
structure FlowOutcome.IsForeseen (log : Log) (o : FlowOutcome) : Prop where
  identity : ∀ e, o.identity = .failed e → log.Foresees e
  usernames : ∀ e, o.usernames = some (.failed e) → ∃ reason, e = .rejected reason

theorem FlowOutcome.IsForeseen.extend {log later : Log} {o : FlowOutcome} (h : o.IsForeseen log)
    (hlog : log <+: later) : o.IsForeseen later :=
  ⟨fun e he => (h.identity e he).extend hlog, h.usernames⟩

/-- The errors that an outcome carries. -/
def FlowOutcome.Carries (o : FlowOutcome) (e : RegistrationError) : Prop :=
  o.identity = .failed e ∨ o.usernames = some (.failed e)

/-- That something was asked for by mistake an accounted outcome says only of the identity, and only if the
source of confirmations said so. -/
theorem FlowOutcome.IsForeseen.of_isMistake {log : Log} {o : FlowOutcome} {e : RegistrationError}
    (h : o.IsForeseen log) (he : o.Carries e) (hmistake : e.IsMistake) :
    o.identity = .failed e ∧ log.Reports e := by
  rcases he with hidentity | hnames
  · rcases h.identity e hidentity with ⟨reason, rfl⟩ | hreported
    · exact hmistake.elim
    · exact ⟨hidentity, hreported⟩
  · obtain ⟨reason, rfl⟩ := h.usernames e hnames
    exact hmistake.elim

section

variable [Suite]

namespace IdentityRegistration

variable {r : IdentityRegistration} {log : Log}

theorem Blames.foreseen {e : RegistrationError} (h : r.Blames log e) : log.Foresees e := by
  cases h with
  | mismatch => exact .inl ⟨_, rfl⟩
  | refused => exact .inl ⟨_, rfl⟩
  | unknown hunknown => exact .inr ⟨_, _, hunknown⟩

omit [Suite] in
theorem phase_of_finalOutcome {e : RegistrationError} (h : r.finalOutcome = some (.failed e)) :
    r.phase = .failed := by
  cases hphase : r.phase with
  | failed => rfl
  | _ => simp [finalOutcome, hphase] at h

/-- What a call comes to whose exchanges account for every failure. -/
structure Accounts (r : IdentityRegistration) (later : Log) (r' : IdentityRegistration)
    (outcome : Option IdentityOutcome) : Prop where
  setup_eq : r'.setup = r.setup
  final : ∀ e, r'.finalOutcome = some (.failed e) → later.Foresees e
  failed : ∀ e, outcome = some (.failed e) → later.Foresees e

/-- A call on a schedule that is allowed fails as the exchanges account for, if the registration has not
failed otherwise before. -/
theorem meets_register_accounts {schedule : Schedule} (hvalid : schedule.validate = .ok ())
    (h : ∀ e, r.finalOutcome = some (.failed e) → log.Foresees e) :
    (register schedule r).Meets (fun _ _ _ => True) r.Accounts log := by
  cases hphase : r.phase.isFinal with
  | true =>
    rw [register_of_isFinal hvalid hphase]
    exact ⟨rfl, h, h⟩
  | false =>
    have hmeets := (evolves_register (.begun : Course r [] r) hvalid hphase).meets.after log
    rw [List.append_nil] at hmeets
    refine hmeets.weaken (fun _ _ _ _ => trivial) ?_
    rintro later r' outcome ⟨es, rfl, hcloses⟩
    have hforeseen (e : RegistrationError) (he : outcome = some (.failed e)) :
        (log ++ es).Foresees e := by
      rcases (hcloses.blames e he).foreseen with hrejected | ⟨transaction, depth, hmem⟩
      · exact .inl hrejected
      · exact .inr ⟨transaction, depth, List.mem_append_right log hmem⟩
    refine ⟨hcloses.course.setup_eq, ?_, hforeseen⟩
    intro e he
    have hfailed := phase_of_finalOutcome he
    obtain ⟨e', herror, houtcome⟩ := hcloses.failed hfailed
    obtain rfl : e' = e := by simpa [finalOutcome, hfailed, herror] using he
    exact hforeseen e' houtcome

end IdentityRegistration

namespace Flow

variable {settings : Settings} {labels : List String} {schedule? : Option Schedule} {log later : Log}
  {f f' : Flow}

/-- A flow that works on what it was started with, and whose identity has failed, if at all, as the
exchanges account for. -/
structure IsReady (settings : Settings) (labels : List String) (schedule? : Option Schedule)
    (log : Log) (f : Flow) : Prop where
  labels_eq : f.labels = labels
  schedule_eq : f.schedule = schedule?
  settings_eq : f.identity.settings = settings
  foreseen : ∀ e, f.identity.finalOutcome = some (.failed e) → log.Foresees e

omit [Suite] in
theorem IsReady.extend (h : f.IsReady settings labels schedule? log) (hlog : log <+: later) :
    f.IsReady settings labels schedule? later :=
  ⟨h.labels_eq, h.schedule_eq, h.settings_eq, fun e he => (h.foreseen e he).extend hlog⟩

theorem IsReady.named {requests : List String}
    {result : Except RegistrationError (Option UsernameOutcome)}
    (h : f.IsReady settings labels schedule? log) (hnamed : Named requests f f' result) :
    f'.IsReady settings labels schedule? log := by
  rw [hnamed.frame]
  exact ⟨h.labels_eq, h.schedule_eq, h.settings_eq, h.foreseen⟩

omit [Suite] in
theorem IsReady.restarted (h : f.IsReady settings labels schedule? log) :
    f.restarted.IsReady settings labels schedule? log := by
  cases hrestart : f.identity.restart with
  | none =>
    have hsame : f.restarted = f := by rw [Flow.restarted, hrestart]; rfl
    rwa [hsame]
  | some r =>
    have hrenewed : f.restarted = { f with identity := r } := by rw [Flow.restarted, hrestart]; rfl
    obtain ⟨-, hphase, -⟩ := IdentityRegistration.restart_eq_some hrestart
    obtain ⟨-, -, -, hsettings⟩ :=
      IdentityRegistration.setup_inj.mp (IdentityRegistration.setup_restart hrestart)
    rw [hrenewed]
    refine ⟨h.labels_eq, h.schedule_eq, hsettings.trans h.settings_eq, ?_⟩
    intro e he
    have hfailed : r.phase = .failed := IdentityRegistration.phase_of_finalOutcome he
    rw [hphase] at hfailed
    cases hfailed

/-- Names that can be read fail only by being refused. -/
theorem Named.rejected {result : Except RegistrationError (Option UsernameOutcome)}
    (hnamed : Named labels f f' result) (hkept : f.usernames.IsKept)
    (hsettings : f.usernames.settings = settings) (hschedule : f.schedule = schedule?)
    (hread : ¬ settings.IsMistaken schedule? labels) :
    ∃ outcome, result = .ok outcome ∧
      ∀ e, outcome = some (.failed e) → ∃ reason, e = .rejected reason := by
  obtain ⟨looked, later, hlooked, hanswers⟩ := hnamed.names
  have hfound : looked.IsKept ∧ looked.settings = settings := by
    rcases hlooked with rfl | ⟨found, answer, hrecovery⟩
    · exact ⟨hkept, hsettings⟩
    · have hcourse := hrecovery.course (.begun : UsernameRegistration.Course f.usernames [] f.usernames)
      have hsame : looked.settings = f.usernames.settings :=
        congrArg (fun setup => setup.2.2) hcourse.setup_eq
      exact ⟨hcourse.isKept hkept, hsame.trans hsettings⟩
  obtain ⟨hkept, rfl⟩ := hfound
  subst hschedule
  obtain ⟨batch, hbatch⟩ := UsernameRegistration.exists_readCall_iff.mpr hread
  obtain ⟨outcome, rfl, hfailed⟩ := hanswers.of_readCall hkept hbatch
  refine ⟨outcome, rfl, fun e he => ?_⟩
  obtain ⟨-, -, reason, -, rfl⟩ := hfailed e he
  exact ⟨reason, rfl⟩

omit [Suite] in
/-- Work on the identity leaves the rest of a flow. -/
theorem meets_onIdentity_part {α : Type} {work : Routine IdentityRegistration α}
    {post : Log → IdentityRegistration → α → Prop}
    (h : (work f.identity).Meets (fun _ _ _ => True) post log) :
    (onIdentity work f).Meets (fun _ _ _ => True) (fun later f' a =>
      ∃ r, f' = { f with identity := r } ∧ post later r a) log :=
  Task.Meets.within (h.mono fun _ r _ hpost => ⟨r, rfl, hpost⟩)

section Governing

variable (hvalid : settings.validate = .ok ())
  (hschedule : ∀ schedule ∈ schedule?, schedule.validate = .ok ())
  (hread : ¬ settings.IsMistaken schedule? labels)
include hvalid hschedule hread

/-- Driving a flow that works on what could be read comes to what is accounted for. -/
theorem meets_drive_foreseen (hkept : f.usernames.IsKept) (hsettings : f.usernames.settings = settings)
    (h : f.IsReady settings labels schedule? log) :
    (drive f).Meets (fun _ _ _ => True) (fun later f' result =>
      f'.IsReady settings labels schedule? later ∧ ∀ o, result = some o → o.IsForeseen later) log := by
  refine Routine.meets_get (Routine.meets_bind
    (@meets_onIdentity_part log f _ _ f.identity.Accounts ?_) ?_)
  · rw [h.schedule_eq]
    cases schedule? with
    | some schedule =>
      exact IdentityRegistration.meets_register_accounts (hschedule schedule rfl) h.foreseen
    | none =>
      obtain ⟨-, hset, -, -⟩ := Settings.validate_schedules hvalid
      rw [← h.settings_eq] at hset
      exact Routine.meets_get (IdentityRegistration.meets_register_accounts hset h.foreseen)
  rintro later f' registered ⟨r, rfl, haccounts⟩
  have hsame : r.settings = settings := by
    rw [← h.settings_eq]
    exact (IdentityRegistration.setup_inj.mp haccounts.setup_eq).2.2.2
  have hready : IsReady settings labels schedule? later { f with identity := r } :=
    ⟨h.labels_eq, h.schedule_eq, hsame, haccounts.final⟩
  cases registered with
  | none => exact ⟨hready, fun _ ho => by cases ho⟩
  | some outcome =>
    refine Routine.meets_ite (fun _ => ?_) fun hgo => ?_
    · refine ⟨hready, ?_⟩
      rintro o ⟨rfl⟩
      exact ⟨fun e he => haccounts.failed e (congrArg some he), fun _ he => by cases he⟩
    · have hcompleted : outcome.isCompleted = true := by
        cases hcase : outcome.isCompleted with
        | true => rfl
        | false => simp [hcase] at hgo
      have hnames := (ensures_registerLabels f.labels { f with identity := r }).meets later
      refine Routine.meets_bind hnames ?_
      rintro last f' result ⟨hlog, hnamed⟩
      have hlast := (hready.named hnamed).extend hlog
      rw [h.labels_eq] at hnamed
      obtain ⟨names, rfl, hrejected⟩ := hnamed.rejected hkept hsettings h.schedule_eq hread
      cases names with
      | none => exact ⟨hlast, fun _ ho => by cases ho⟩
      | some usernames =>
        refine ⟨hlast, ?_⟩
        rintro o ⟨rfl⟩
        refine ⟨?_, fun e he => hrejected e he⟩
        rintro e rfl
        cases hcompleted

/-- Whatever a flow is told that was started with what could be read, its outcomes are accounted for. -/
theorem governs_foreseen {first : UsernameRegistration} (hkept : first.IsKept)
    (hsettings : first.settings = settings) :
    Governs first (fun log f => f.IsReady settings labels schedule? log)
      (fun log reply => ∀ o, reply.outcome? = some o → o.IsForeseen log) := by
  refine ⟨fun hlog hsaid o ho => (hsaid o ho).extend hlog, ?_⟩
  intro opening older recent log f command hcourse h
  have hnames : f.usernames.IsKept ∧ f.usernames.settings = settings := by
    refine ⟨hcourse.usernames.isKept hkept, ?_⟩
    rw [← hsettings]
    exact congrArg (fun setup => setup.2.2) hcourse.usernames.setup_eq
  have hdrive {f : Flow} {log : Log} (hnames : f.usernames.IsKept ∧ f.usernames.settings = settings)
      (h : f.IsReady settings labels schedule? log) :
      ((do return .flow (← drive) : Work Reply) f).Meets (fun _ _ _ => True) (fun later f' reply =>
        f'.IsReady settings labels schedule? later ∧
          ∀ o, reply.outcome? = some o → o.IsForeseen later) log :=
    Routine.meets_bind
      (meets_drive_foreseen hvalid hschedule hread hnames.1 hnames.2 h) fun _ _ _ hlast => hlast
  have hresume {f : Flow} (hnames : f.usernames.IsKept ∧ f.usernames.settings = settings)
      (h : f.IsReady settings labels schedule? log) :
      (perform .resume f).Meets (fun _ _ _ => True) (fun later f' reply =>
        f'.IsReady settings labels schedule? later ∧
          ∀ o, reply.outcome? = some o → o.IsForeseen later) log :=
    Routine.meets_ask trivial fun _ => hdrive hnames (h.extend (List.prefix_append _ _))
  cases command with
  | start => exact hdrive hnames h
  | resume => exact hresume hnames h
  | restart =>
    rw [perform_restart]
    exact hresume hnames h.restarted
  | register requests =>
    refine ((ensures_perform (.register requests) f).meets log).mono ?_
    rintro later f' reply ⟨hlog, hperformed⟩
    cases hperformed with
    | refused => exact ⟨h.extend hlog, fun _ ho => by cases ho⟩
    | registered _ hnamed => exact ⟨(h.named hnamed).extend hlog, fun _ ho => by cases ho⟩

end Governing

end Flow

/-- A transaction funds an identity: its lock is in the ledger already, or its first burn is of some
credit. -/
def Ledger.Funds (l : Ledger) (tx : Transaction) (id : IdentityId) : Prop :=
  (∃ lock, l.find? tx.txid = some lock ∧ lock.identity = id) ∨
    l.find? tx.txid = none ∧ ∃ index amount key, tx.creditBurn? = some (index, amount, key) ∧
      amount ≠ 0 ∧ id = .ofOutPoint ⟨tx.txid, UInt32.ofNat index⟩

theorem CreditLock.exists_ofTransaction_iff {tx : Transaction} {id : IdentityId} :
    (∃ lock, CreditLock.ofTransaction tx = .ok lock ∧ lock.identity = id) ↔
      ∃ index amount key, tx.creditBurn? = some (index, amount, key) ∧ amount ≠ 0 ∧
        id = .ofOutPoint ⟨tx.txid, UInt32.ofNat index⟩ := by
  constructor
  · rintro ⟨lock, hlock, rfl⟩
    obtain ⟨index, amount, key, hburn, hsome, rfl⟩ := ofTransaction_eq_ok_iff.mp hlock
    exact ⟨index, amount, key, hburn, hsome, rfl⟩
  · rintro ⟨index, amount, key, hburn, hsome, rfl⟩
    exact ⟨_, ofTransaction_eq_ok_iff.mpr ⟨index, amount, key, hburn, hsome, rfl⟩, rfl⟩

/-- Observing succeeds for the transactions that fund an identity. -/
theorem Ledger.funds_iff {l : Ledger} {tx : Transaction} {id : IdentityId} :
    l.Funds tx id ↔ ∃ lock ledger, l.observe tx = .ok (lock, ledger) ∧ lock.identity = id := by
  unfold Funds
  rw [← CreditLock.exists_ofTransaction_iff]
  cases hheld : l.find? tx.txid with
  | some lock => simp [observe_of_held hheld]
  | none =>
    rw [observe_of_new hheld]
    cases CreditLock.ofTransaction tx with
    | error e => simp [Except.map]
    | ok lock => simp [Except.map]

namespace Coordinator

variable {c c' : Coordinator} {accounts accounts' : List Account} {transaction : Transaction}
  {burnKey signingKey : SecretKey} {labels : List String} {schedule? : Option Schedule}

/-- The coordinators with some settings that can be. Their ledger may be shared, and become another one
at any time. -/
inductive Arises (settings : Settings) : Coordinator → List Account → Prop where
  | created {ledger : Ledger} {c : Coordinator} (h : create settings ledger = .ok c) :
      Arises settings c []
  | stepped {c c' : Coordinator} {accounts accounts' : List Account} (h : Arises settings c accounts)
      (hstep : c.Step accounts c' accounts') : Arises settings c' accounts'
  | shared {c : Coordinator} {accounts : List Account} (h : Arises settings c accounts)
      (ledger : Ledger) : Arises settings { c with ledger } accounts

theorem Step.settings_eq (h : c.Step accounts c' accounts') : c'.settings = c.settings := by
  have hadjust (position : Nat) (f : FlowRun → FlowRun) :
      (c.adjust position f).settings = c.settings := by
    unfold adjust
    split
    · rfl
    · exact settings_replace
  cases h with
  | started hstart =>
    obtain ⟨-, -, -, -, -, -, -, rfl⟩ := start_eq_entered hstart
    rfl
  | refused hstart =>
    obtain ⟨ledger, rfl⟩ := start_eq_error hstart
    rfl
  | answered => exact settings_replace
  | settled => exact settings_replace
  | sent => exact settings_replace
  | cancelled hcancel =>
    unfold cancel at hcancel
    split at hcancel
    · cases hcancel
    · obtain rfl := Except.ok.inj hcancel
      exact hadjust _ _
  | paused position => exact hadjust position _
  | released position => exact hadjust position _

/-- Every coordinator that can be has valid settings, and agrees with the accounts of its flows. -/
theorem Arises.sound {settings : Settings} (h : Arises settings c accounts) :
    settings.validate = .ok () ∧ c.settings = settings ∧ c.Agrees accounts := by
  induction h with
  | @created ledger c hcreate =>
    have hagrees := agrees_create hcreate
    unfold create at hcreate
    cases hvalid : settings.validate with
    | error e => simp [hvalid, bind, Except.bind] at hcreate
    | ok u =>
      obtain rfl : _ = c := by simpa [hvalid, bind, Except.bind, pure, Except.pure] using hcreate
      exact ⟨rfl, rfl, hagrees⟩
  | stepped _ hstep ih =>
    obtain ⟨hvalid, hsettings, hagrees⟩ := ih
    exact ⟨hvalid, hstep.settings_eq.trans hsettings, (hagrees.step hstep).1⟩
  | shared _ ledger ih =>
    obtain ⟨hvalid, hsettings, h⟩ := ih
    have htallies := h.tallies
    exact ⟨hvalid, hsettings, h.length_eq, h.fits, h.registered_iff, h.active_eq,
      htallies.started_eq, htallies.completed_eq, htallies.timedOut_eq, htallies.failed_eq⟩

omit [Suite] in
/-- The registry knows the identities that have a live flow, and no others. -/
theorem Agrees.contains_iff (h : c.Agrees accounts) {id : IdentityId} :
    c.registry.contains id = true ↔ ∃ run ∈ c.runs, run.isLive = true ∧ run.id = id := by
  unfold Table.contains
  rw [Option.isSome_iff_exists]
  constructor
  · rintro ⟨position, hposition⟩
    obtain ⟨run, hrun, hid, hlive⟩ := h.registered_iff.mp hposition
    exact ⟨run, List.mem_of_getElem? hrun, hlive, hid⟩
  · rintro ⟨run, hmem, hlive, hid⟩
    obtain ⟨position, hrun⟩ := List.getElem?_of_mem hmem
    exact ⟨position, h.registered_iff.mpr ⟨run, hrun, hid, hlive⟩⟩

omit [Suite] in
theorem checkStart_eq_ok_iff : c.checkStart labels schedule? = .ok () ↔
    (∀ label ∈ labels, ∃ l, Label.parse label c.settings.parent = .ok l) ∧
      ∀ schedule ∈ schedule?, ¬ schedule.IsFaulty := by
  have hread : (∃ all, labels.mapM c.settings.naming.resolve = .ok all) ↔
      ∀ label ∈ labels, ∃ l, Label.parse label c.settings.parent = .ok l := exists_mapM_ok_iff
  rw [← hread]
  unfold checkStart
  cases labels.mapM c.settings.naming.resolve with
  | error e => simp
  | ok all =>
    cases schedule? with
    | none => simp
    | some schedule => simp [Schedule.validate_eq_ok_iff]

omit [Suite] in
theorem isMistake_of_checkStart {e : RegistrationError}
    (h : c.checkStart labels schedule? = .error e) : e.IsMistake := by
  unfold checkStart at h
  cases hread : labels.mapM c.settings.naming.resolve with
  | error e' =>
    rw [hread] at h
    obtain rfl := Except.error.inj h
    obtain ⟨label, -, hparse⟩ := exists_of_mapM_error hread
    exact Label.isMistake_of_parse hparse
  | ok all =>
    rw [hread] at h
    cases schedule? with
    | none => cases h
    | some schedule => exact Schedule.isMistake_of_validate h

/-- The flow that a start opens on a lock. -/
def opened (c : Coordinator) (lock : CreditLock) (burnKey signingKey : SecretKey)
    (labels : List String) (schedule? : Option Schedule) : Flow where
  identity := ⟨lock, burnKey, signingKey, c.settings, .pending lock [signingKey.publicKey],
    .awaitingFunding, none⟩
  usernames := ⟨lock.identity, signingKey, c.settings, .empty, none, none⟩
  labels
  schedule := schedule?
  isRecovered := false

theorem start_of_error {e : RegistrationError} (h : c.checkStart labels schedule? = .error e) :
    c.start transaction burnKey signingKey labels schedule? = (.error e, c) := by
  unfold start
  rw [h]

theorem start_of_unfunded {e : Error} (h : c.checkStart labels schedule? = .ok ())
    (hobserved : c.ledger.observe transaction = .error e) :
    c.start transaction burnKey signingKey labels schedule? = (.error (.value e), c) := by
  unfold start
  rw [h, hobserved]

/-- A start that passes the checks is up to the registry. -/
theorem start_of_funded {lock : CreditLock} {ledger : Ledger}
    (hvalid : c.settings.validate = .ok ()) (h : c.checkStart labels schedule? = .ok ())
    (hobserved : c.ledger.observe transaction = .ok (lock, ledger)) :
    c.start transaction burnKey signingKey labels schedule? =
      if c.registry.contains lock.identity then
        (.error (.flowExists lock.identity), { c with ledger })
      else
        (.ok c.runs.length, c.entered ledger (c.opened lock burnKey signingKey labels schedule?)) := by
  have hflow : makeFlow { c with ledger } lock burnKey signingKey labels schedule? =
      .ok (c.opened lock burnKey signingKey labels schedule?) := by
    unfold makeFlow IdentityRegistration.create UsernameRegistration.create
    rw [hvalid]
    rfl
  unfold start
  rw [h, hobserved]
  dsimp only
  rw [hflow]
  rfl

/-- A start that is refused leaves everything as it is, but for the ledger, which observed the
transaction if the identity that it funds has a live flow. -/
inductive Refused (c : Coordinator) (transaction : Transaction) :
    RegistrationError → Coordinator → Prop where
  | outright {e : RegistrationError} (he : ∀ id, e ≠ .flowExists id) : Refused c transaction e c
  | taken {lock : CreditLock} {ledger : Ledger}
      (hobserved : c.ledger.observe transaction = .ok (lock, ledger)) :
      Refused c transaction (.flowExists lock.identity) { c with ledger }

theorem start_eq_refused {e : RegistrationError} (hvalid : c.settings.validate = .ok ())
    (h : c.start transaction burnKey signingKey labels schedule? = (.error e, c')) :
    c.Refused transaction e c' := by
  cases hcheck : c.checkStart labels schedule? with
  | error e' =>
    rw [start_of_error hcheck] at h
    obtain ⟨rfl, rfl⟩ : e' = e ∧ c = c' := by simpa using h
    refine .outright ?_
    rintro id rfl
    exact isMistake_of_checkStart hcheck
  | ok u =>
    cases hobserved : c.ledger.observe transaction with
    | error e' =>
      rw [start_of_unfunded hcheck hobserved] at h
      obtain ⟨rfl, rfl⟩ : RegistrationError.value e' = e ∧ c = c' := by simpa using h
      exact .outright nofun
    | ok observed =>
      obtain ⟨lock, ledger⟩ := observed
      rw [start_of_funded hvalid hcheck hobserved] at h
      split at h
      · obtain ⟨rfl, rfl⟩ : RegistrationError.flowExists lock.identity = e ∧
          { c with ledger } = c' := by simpa using h
        exact .taken hobserved
      · cases h

/-- Starts succeed that are asked for properly and funded, for identities that are not in the
registry. -/
theorem exists_start_iff (hvalid : c.settings.validate = .ok ()) :
    (∃ position c', c.start transaction burnKey signingKey labels schedule? = (.ok position, c')) ↔
      (∀ label ∈ labels, ∃ l, Label.parse label c.settings.parent = .ok l) ∧
        (∀ schedule ∈ schedule?, ¬ schedule.IsFaulty) ∧
          ∃ id, c.ledger.Funds transaction id ∧ ¬ c.registry.contains id = true := by
  rw [← and_assoc, ← checkStart_eq_ok_iff]
  cases hcheck : c.checkStart labels schedule? with
  | error e =>
    rw [start_of_error hcheck]
    simp
  | ok u =>
    cases hobserved : c.ledger.observe transaction with
    | error e =>
      rw [start_of_unfunded hcheck hobserved]
      simp [Ledger.funds_iff, hobserved]
    | ok observed =>
      obtain ⟨lock, ledger⟩ := observed
      rw [start_of_funded hvalid hcheck hobserved]
      by_cases htaken : c.registry.contains lock.identity = true
      · simp [Ledger.funds_iff, hobserved, htaken]
      · simp [Ledger.funds_iff, hobserved, htaken]

end Coordinator

/-- A flow that was launched comes to deliver what its first command comes to. -/
theorem FlowRun.exists_delivering {f f' : Flow} {reply : Reply} {es : Log}
    (hwork : Task.Reaches (Flow.perform .start f) es (.done f' reply))
    (hes : Log.Admissible false es) :
    ∃ history run, (launch f).Reaches history run ∧ history.exchanges = es ∧
      run.outcome = reply.outcome? := by
  have hbusy : (launch f).activity = .busy none (Flow.perform .start f) := rfl
  refine ⟨_, _, (Reaches.here.works hbusy hwork hes).step .settled, ?_, ?_⟩
  · rw [History.exchanges_settled, List.nil_append, History.exchanges_map]
  · unfold settle
    rw [outcome_next]
    rfl

/-- A flow delivered an outcome, or replied with it. -/
def FlowRun.Brought (run : FlowRun) (o : FlowOutcome) : Prop :=
  run.outcome = some o ∨ ∃ ticket, (ticket, .flow (some o)) ∈ run.replies

namespace Coordinator

variable {c c' : Coordinator} {accounts : List Account} {transaction : Transaction}
  {burnKey signingKey : SecretKey} {labels : List String} {schedule? : Option Schedule}

/-- Whatever becomes of a flow that was started, its outcomes are accounted for by what it exchanged. -/
theorem isForeseen_of_start {position : Nat} {run₀ run : FlowRun} {history : History}
    (hvalid : c.settings.validate = .ok ())
    (hstart : c.start transaction burnKey signingKey labels schedule? = (.ok position, c'))
    (hrun₀ : c'.run? position = some run₀) (hreaches : run₀.Reaches history run) {o : FlowOutcome}
    (ho : run.Brought o) : o.IsForeseen history.exchanges := by
  obtain ⟨hlabels, hschedule, -⟩ := (exists_start_iff hvalid).mp ⟨position, c', hstart⟩
  have hcheck : c.checkStart labels schedule? = .ok () := checkStart_eq_ok_iff.mpr ⟨hlabels, hschedule⟩
  cases hobserved : c.ledger.observe transaction with
  | error e =>
    rw [start_of_unfunded hcheck hobserved] at hstart
    cases hstart
  | ok observed =>
    obtain ⟨lock, ledger⟩ := observed
    rw [start_of_funded hvalid hcheck hobserved] at hstart
    split at hstart
    · cases hstart
    obtain ⟨rfl, rfl⟩ : c.runs.length = position ∧
      c.entered ledger (c.opened lock burnKey signingKey labels schedule?) = c' := by simpa using hstart
    rw [run?_entered, if_pos rfl] at hrun₀
    obtain rfl := Option.some.inj hrun₀
    have hallowed : ∀ schedule ∈ schedule?, schedule.validate = .ok () :=
      fun schedule hmem => Schedule.validate_eq_ok_iff.mpr (hschedule schedule hmem)
    have hread : ¬ c.settings.IsMistaken schedule? labels := by
      obtain ⟨-, -, hpreorder, hdomain⟩ := Settings.validate_schedules hvalid
      rintro (hfaulty | hfaulty | ⟨label, hlabel, hunread⟩)
      · exact Schedule.validate_eq_ok_iff.mp (Schedule.validate_getD hpreorder hallowed) hfaulty
      · exact Schedule.validate_eq_ok_iff.mp (Schedule.validate_getD hdomain hallowed) hfaulty
      · obtain ⟨l, hl⟩ := hlabels label hlabel
        exact hunread l hl
    let first := (c.opened lock burnKey signingKey labels schedule?).usernames
    have hkept : first.IsKept := UsernameRegistration.isKept_of_empty fun _ => rfl
    have hgoverns := Flow.governs_foreseen hvalid hallowed hread hkept rfl
    have hobeys := hreaches.obeys hgoverns ⟨rfl, rfl⟩ ⟨rfl, rfl, rfl, fun _ he => by cases he⟩
    rcases ho with hdelivered | ⟨ticket, hreplied⟩
    · exact hobeys.delivered o hdelivered o rfl
    · exact hobeys.replied _ hreplied o rfl

/-- A start is carried out or refused as a whole. It succeeds exactly if every name can be read under
the parent of the settings, the schedule, if there is one, is not faulty, and the transaction funds an
identity that has no live flow of this coordinator. A start that is refused leaves the flows, the registry
and the counters as they are, and the ledger too, unless it is refused for a live flow, which leaves an
observation behind. Whatever becomes of a flow that was started, its names fail only by being refused, and
its identity only so or with an error that the source of confirmations reported: an outcome that says that
something was asked for by mistake hands on what that source said of the identity's funding. -/
theorem start_is_atomic {settings : Settings} (h : Arises settings c accounts)
    (transaction : Transaction) (burnKey signingKey : SecretKey) (labels : List String)
    (schedule? : Option Schedule) :
    ((∃ position c', c.start transaction burnKey signingKey labels schedule? = (.ok position, c')) ↔
      (∀ label ∈ labels, ∃ l, Label.parse label settings.parent = .ok l) ∧
        (∀ schedule ∈ schedule?, ¬ schedule.IsFaulty) ∧
          ∃ id, c.ledger.Funds transaction id ∧ ∀ run ∈ c.runs, run.isLive = true → run.id ≠ id) ∧
    (∀ e c', c.start transaction burnKey signingKey labels schedule? = (.error e, c') →
      c.Refused transaction e c') ∧
    ∀ position c' run₀ history run o,
      c.start transaction burnKey signingKey labels schedule? = (.ok position, c') →
      c'.run? position = some run₀ → run₀.Reaches history run → run.Brought o →
        o.IsForeseen history.exchanges ∧
          ∀ e, o.Carries e → e.IsMistake → o.identity = .failed e ∧ history.exchanges.Reports e := by
  obtain ⟨hvalid, rfl, hagrees⟩ := h.sound
  refine ⟨?_, fun e c' hstart => start_eq_refused hvalid hstart, ?_⟩
  · have hfree (id : IdentityId) : (¬ c.registry.contains id = true) ↔
        ∀ run ∈ c.runs, run.isLive = true → run.id ≠ id := by
      rw [hagrees.contains_iff]
      simp
    simp only [exists_start_iff hvalid, hfree]
  · intro position c' run₀ history run o hstart hrun₀ hreaches ho
    have hforeseen := isForeseen_of_start hvalid hstart hrun₀ hreaches ho
    exact ⟨hforeseen, fun e he hmistake => hforeseen.of_isMistake he hmistake⟩

end Coordinator

end

namespace Sample

/-- A source of confirmations that is not set up. -/
def misconfigured (log : Log) : (q : Request) → q.Answer
  | .awaitDepth _ _ => some (.error (.settings "no depth source"))
  | q => oracle (.ok ⟨.zero⟩) none (unnamed lock.identity) log q

/-- What the flow comes to if the source of confirmations is not set up. -/
def unconfirmed : Log × Flow × Reply := (Flow.perform .start flow).play misconfigured []

theorem reaches_unconfirmed :
    Task.Reaches (Flow.perform .start flow) unconfirmed.1 (.done unconfirmed.2.1 unconfirmed.2.2) := by
  unfold unconfirmed
  exact Task.reaches_play _ _ _

theorem admissible_unconfirmed : Log.Admissible false unconfirmed.1 := by
  unfold unconfirmed
  apply admissible_play
  intro log q
  cases q with
  | awaitDepth => trivial
  | _ => exact admits_oracle (.ok ⟨.zero⟩) none (unnamed lock.identity) log _

/-- The outcome of a flow whose source of confirmations is not set up. -/
def failedOutcome : FlowOutcome := ⟨.failed (.settings "no depth source"), none⟩

theorem exists_failing : ∃ history run, (FlowRun.launch flow).Reaches history run ∧
    run.outcome = some failedOutcome := by
  obtain ⟨history, run, hreaches, -, hdelivered⟩ :=
    FlowRun.exists_delivering reaches_unconfirmed admissible_unconfirmed
  have houtcome : unconfirmed.2.2.outcome? = some failedOutcome := by decide +kernel
  exact ⟨history, run, hreaches, hdelivered.trans houtcome⟩

theorem observe_started : started.ledger.observe funding =
    .ok (lock, { started.ledger with repeated := started.ledger.repeated + 1 }) := by
  have hheld : started.ledger.find? funding.txid = some lock := by decide +kernel
  unfold Ledger.observe
  rw [hheld]

/-- Another coordinator on the ledger of the one that started the flow. -/
def neighbour : Coordinator := ⟨.default, started.ledger, [], .empty, ⟨0, 0, 0, 0⟩⟩

end Sample

open Sample in
/-- A flow that was started is not started again while it is live. Its source of confirmations is not set
up, and its outcome hands that on. -/
theorem Coordinator.start_is_atomic_alice : ∃ history run refused,
    Arises .default coordinator [] ∧ Arises .default started [.opened ["alice"]] ∧
      coordinator.start funding signingKey signingKey ["alice"] (some (.linear 1 0)) =
        (.ok 0, started) ∧
      started.start funding signingKey signingKey [] none =
        (.error (.flowExists lock.identity), refused) ∧
      started.Refused funding (.flowExists lock.identity) refused ∧
      (FlowRun.launch flow).Reaches history run ∧ run.outcome = some failedOutcome ∧
      failedOutcome.Carries (.settings "no depth source") ∧
      failedOutcome.IsForeseen history.exchanges ∧
      history.exchanges.Reports (.settings "no depth source") := by
  have hcreate : create .default .empty = .ok coordinator := rfl
  have harises : Arises .default coordinator [] := .created hcreate
  have hlater : Arises .default started [.opened ["alice"]] :=
    harises.stepped (.started start_coordinator)
  have hlive : started.registry.contains lock.identity = true := by decide +kernel
  have hagain :=
    @start_of_funded _ started funding signingKey signingKey [] none _ _ rfl rfl observe_started
  rw [if_pos hlive] at hagain
  obtain ⟨history, run, hreaches, houtcome⟩ := exists_failing
  obtain ⟨-, -, hends⟩ := Coordinator.start_is_atomic harises funding signingKey signingKey
    ["alice"] (some (.linear 1 0))
  obtain ⟨-, hrefused, -⟩ := Coordinator.start_is_atomic hlater funding signingKey signingKey [] none
  obtain ⟨hforeseen, hmistakes⟩ :=
    hends 0 started _ _ _ _ start_coordinator run?_started hreaches (.inl houtcome)
  have hcarries : failedOutcome.Carries (.settings "no depth source") := .inl rfl
  obtain ⟨-, hreported⟩ := hmistakes _ hcarries trivial
  exact ⟨history, run, _, harises, hlater, start_coordinator, hagain, hrefused _ _ hagain, hreaches,
    houtcome, hcarries, hforeseen, hreported⟩

open Sample in
/-- A flow that was started fails with an error of settings, which its source of confirmations reported,
and another coordinator on the same ledger starts a flow for the identity of that live one. -/
theorem Coordinator.started_despite_settings_and_live_flow :
    Arises .default coordinator [] ∧
      coordinator.start funding signingKey signingKey ["alice"] (some (.linear 1 0)) =
        (.ok 0, started) ∧
      started.run? 0 = some (.launch flow) ∧
      (∃ history run o, (FlowRun.launch flow).Reaches history run ∧ run.outcome = some o ∧
        o.Carries (.settings "no depth source")) ∧
      (FlowRun.launch flow).isLive = true ∧ (FlowRun.launch flow).id = lock.identity ∧
      create .default started.ledger = .ok neighbour ∧
      neighbour.ledger.Funds funding lock.identity ∧
      ∃ c, neighbour.start funding signingKey signingKey ["alice"] none = (.ok 0, c) := by
  have hcreate : create .default .empty = .ok coordinator := rfl
  have hfunds : neighbour.ledger.Funds funding lock.identity :=
    Ledger.funds_iff.mpr ⟨_, _, observe_started, rfl⟩
  obtain ⟨history, run, hreaches, houtcome⟩ := exists_failing
  have hfree : ¬ neighbour.registry.contains lock.identity = true := by decide
  have hstart := @start_of_funded _ neighbour funding signingKey signingKey ["alice"] none _ _ rfl rfl
    observe_started
  rw [if_neg hfree] at hstart
  exact ⟨.created hcreate, start_coordinator, run?_started,
    ⟨history, run, failedOutcome, hreaches, houtcome, .inl rfl⟩, rfl, rfl, rfl, hfunds, _, hstart⟩

end Enrolment
