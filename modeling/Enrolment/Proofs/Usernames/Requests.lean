import Enrolment.Proofs.Pausing.Registrations

/-!
What holds at every request of a call that registers names. What is submitted or watched for is asked
for while the flag is not set, and a law of registrations that no change breaks but the last one, which
makes a pending name the primary one, holds at every point that a call can stop at.
-/

namespace Enrolment

/-- What the platform is asked for: to take a transition, or to show something. -/
def Request.isScheduled : Request → Bool
  | .submit _ | .findIdentity _ | .findDocuments .. => true
  | _ => false

/-- Work adds to the log. -/
theorem Task.Heeds.extends {σ α : Type} {alters : Request → Prop}
    {guard : Bool → Log → σ → Request → Prop} {post : Bool → Log → σ → α → Prop} {flag : Bool}
    {log : Log} {t : Task σ α} (h : t.Heeds alters guard post flag log) :
    t.Heeds alters (fun flag later s q => log <+: later ∧ guard flag later s q)
      (fun flag later s a => log <+: later ∧ post flag later s a) flag log := by
  have hfrom (start log : Log) (flag : Bool) (t : Task σ α) (hlog : start <+: log)
      (h : t.Heeds alters guard post flag log) :
      t.Heeds alters (fun flag later s q => start <+: later ∧ guard flag later s q)
        (fun flag later s a => start <+: later ∧ post flag later s a) flag log := by
    induction t generalizing flag log with
    | done s a => exact ⟨hlog, h⟩
    | ask s q next ih =>
      refine ⟨⟨hlog, h.1⟩, ?_⟩
      intro new answer hnew hadmits
      exact ih answer _ _ (hlog.trans (List.prefix_append _ _)) (h.2 new answer hnew hadmits)
  exact hfrom log log flag t (List.prefix_refl log) h

namespace UsernameRegistration

variable {alters : Request → Prop} {inv : UsernameRegistration → Prop} {α : Type}
  {r : UsernameRegistration} {flag : Bool} {log : Log} {batch names : List String}

/-- Laws that are in force until a batch is seen to be owned. -/
structure IsLasting [Suite] (inv : UsernameRegistration → Prop) : Prop where
  renewed : ∀ {r : UsernameRegistration} (label : Label) (salt : Salt) (now : Timestamp), inv r →
    (r.stateOf? label.fullName = none ∨ r.stateOf? label.fullName = some .timedOut) →
      inv (r.put (.fresh label r.owner salt now))
  advanced : ∀ {r : UsernameRegistration} (names : List String) (target : ClaimState)
    (now : Timestamp), inv r → inv (r.advance names target now)
  noted : ∀ {r : UsernameRegistration} (names : List String), inv r → inv (r.notePrimary names)
  expired : ∀ {r : UsernameRegistration} (batch : List String) (now : Timestamp), inv r →
    inv (r.expire batch now)

/-- A law holds at a request, and the platform is asked while the flag is not set. -/
def Asks (inv : UsernameRegistration → Prop) (flag : Bool) (_ : Log) (r : UsernameRegistration)
    (q : Request) : Prop :=
  inv r ∧ (q.isScheduled → flag = false)

/-- What is not asked of the platform may be asked for under any flag. -/
theorem asks_unscheduled {q : Request} (h : inv r) (hunscheduled : q.isScheduled = false) :
    Asks inv flag log r q :=
  ⟨h, fun hscheduled => absurd (hunscheduled.symm.trans hscheduled) Bool.false_ne_true⟩

/-- Work that asks under a law and leaves it in force. -/
abbrev Keeps (alters : Request → Prop) (inv : UsernameRegistration → Prop) (flag : Bool) (log : Log)
    (t : Task UsernameRegistration α) : Prop :=
  t.Heeds alters (Asks inv) (fun _ _ r _ => inv r) flag log

theorem keeps_proceedUnlessPaused (h : inv r) :
    Keeps alters inv flag log (proceedUnlessPaused r) := by
  refine Routine.heeds_isCancelled (asks_unscheduled h rfl) fun read => ?_
  split
  · exact h
  · exact h

theorem keeps_andThen {first second : Work Step} (hfirst : Keeps alters inv flag log (first r))
    (hsecond : ∀ flag log r, inv r → Keeps alters inv flag log (second r)) :
    Keeps alters inv flag log (Step.andThen first second r) := by
  refine Routine.heeds_bind hfirst ?_
  intro flag log r step h
  match step with
  | .proceed => exact hsecond flag log r h
  | .stop outcome => exact h
  | .paused => exact h

/-- A watch for documents looks for them while the flag is not set. -/
theorem asks_watchDocuments {schedule : Schedule} {kind : DocumentKind} {filter : Filter}
    {isComplete : List Document → Bool} (hattempts : schedule.attempts ≠ 0) (h : inv r) :
    (watchDocuments schedule kind filter isComplete r).Heeds alters (Asks inv)
      (fun _ _ r' _ => r' = r) flag log := by
  have hwatch : (watchDocuments schedule kind filter isComplete r).Heeds alters (Asks inv)
      (fun flag _ r' ended => r' = r ∧ ∀ looks, ended = some (.timedOut looks) → flag = false)
      flag log := by
    refine heeds_watch hattempts (fun _ _ => asks_unscheduled h rfl)
      (fun _ _ _ => asks_unscheduled h rfl) ?_
    intro number log
    refine Routine.heeds_ask ⟨h, fun _ => rfl⟩ fun new answer _ _ => ?_
    cases answer with
    | ok documents => rfl
    | error e => rfl
  exact hwatch.weaken (fun _ _ _ _ hasks => hasks) fun _ _ _ _ hended => hended.1

variable [Suite]

theorem keeps_timeOut (hinv : IsLasting inv) (h : inv r) :
    Keeps alters inv flag log (timeOut batch r) :=
  Routine.heeds_ask (asks_unscheduled h rfl) fun _ now _ _ => hinv.expired batch now h

theorem keeps_moveOn (hinv : IsLasting inv) (h : inv r) (target : ClaimState) :
    Keeps alters inv flag log (moveOn names target r) := by
  rw [moveOn_eq]
  refine Routine.heeds_ask (asks_unscheduled h rfl) fun _ now _ _ => ?_
  obtain ⟨moved, -, hmoved⟩ := exists_advanceInTurn_eq r target now names
  rw [hmoved]
  exact hinv.advanced moved target now h

theorem keeps_broadcast (hinv : IsLasting inv) (h : inv r) (operation : Operation) :
    Keeps alters inv flag log (broadcast batch operation r) := by
  refine Routine.heeds_ask (asks_unscheduled h rfl) fun new now _ _ => Routine.heeds_get ?_
  refine Routine.heeds_bind (heeds_submitUntilDecided (fun _ _ => asks_unscheduled h rfl)
    (fun _ _ _ => asks_unscheduled h rfl) fun _ => ⟨h, fun _ => rfl⟩) ?_
  rintro flag later r' ended ⟨rfl, -⟩
  match ended with
  | .accepted receipt => exact h
  | .rejected reason => exact h
  | .exhausted .. => exact keeps_timeOut hinv h
  | .cancelled => exact h

theorem keeps_submitPreorder (hinv : IsLasting inv) (h : inv r) :
    Keeps alters inv flag log (submitPreorder batch r) := by
  refine Routine.heeds_get (Routine.heeds_ite (fun _ => h) fun _ => ?_)
  refine keeps_andThen (keeps_broadcast hinv h _) fun flag log r h => ?_
  exact keeps_andThen (keeps_moveOn hinv h _) fun _ _ _ h => keeps_proceedUnlessPaused h

theorem keeps_awaitPreorders {schedule : Schedule} (hattempts : schedule.attempts ≠ 0)
    (hinv : IsLasting inv) (h : inv r) :
    Keeps alters inv flag log (awaitPreorders schedule batch r) := by
  refine Routine.heeds_get (Routine.heeds_ite (fun _ => h) fun _ => ?_)
  refine Routine.heeds_bind (asks_watchDocuments hattempts h) ?_
  rintro flag later r' ended rfl
  match ended with
  | none => exact h
  | some (.completed _) => exact keeps_moveOn hinv h _
  | some (.timedOut looks) => exact keeps_timeOut hinv h

theorem keeps_submitDomains (hinv : IsLasting inv) (h : inv r) :
    Keeps alters inv flag log (submitDomains batch r) := by
  refine Routine.heeds_get (Routine.heeds_ite (fun _ => h) fun _ => ?_)
  refine keeps_andThen (keeps_broadcast hinv h _) fun flag log r h => ?_
  refine keeps_andThen (keeps_moveOn hinv h _) fun _ _ _ h => ?_
  exact Routine.heeds_modify (keeps_proceedUnlessPaused (hinv.noted _ h))

/-- The last step of a batch asks under the law as well, and may break it as it ends. -/
theorem asks_awaitDomains {schedule : Schedule} (hattempts : schedule.attempts ≠ 0)
    (hinv : IsLasting inv) (h : inv r) :
    (awaitDomains schedule batch r).Heeds alters (Asks inv) (fun _ _ _ _ => True) flag log := by
  refine Routine.heeds_get (Routine.heeds_ite (fun _ => trivial) fun _ => ?_)
  refine Routine.heeds_bind (asks_watchDocuments hattempts h) ?_
  rintro flag later r' ended rfl
  match ended with
  | none => trivial
  | some (.completed _) =>
    refine Routine.heeds_bind (keeps_moveOn hinv h _) ?_
    intro flag log r step _
    match step with
    | .proceed => trivial
    | .stop outcome => trivial
    | .paused => trivial
  | some (.timedOut looks) =>
    exact (keeps_timeOut hinv h).weaken (fun _ _ _ _ hasks => hasks) fun _ _ _ _ _ => trivial

theorem asks_carryOut {preorder domain : Schedule} (hpreorder : preorder.attempts ≠ 0)
    (hdomain : domain.attempts ≠ 0) (hinv : IsLasting inv) (h : inv r) :
    (carryOut preorder domain batch r).Heeds alters (Asks inv) (fun _ _ _ _ => True) flag log := by
  have hlast {flag : Bool} {log : Log} {r : UsernameRegistration} {first second : Work Step}
      (hfirst : Keeps alters inv flag log (first r))
      (hsecond : ∀ flag log r, inv r →
        (second r).Heeds alters (Asks inv) (fun _ _ _ _ => True) flag log) :
      (Step.andThen first second r).Heeds alters (Asks inv) (fun _ _ _ _ => True) flag log := by
    refine Routine.heeds_bind hfirst ?_
    intro flag log r step h
    match step with
    | .proceed => exact hsecond flag log r h
    | .stop outcome => trivial
    | .paused => trivial
  refine hlast (keeps_submitPreorder hinv h) fun _ _ r h => ?_
  refine hlast (keeps_awaitPreorders hpreorder hinv h) fun _ _ r h => ?_
  exact hlast (keeps_submitDomains hinv h) fun _ _ r h => asks_awaitDomains hdomain hinv h

theorem keeps_enlist (labels : List Label) (hinv : IsLasting inv) (h : inv r) :
    Keeps alters inv flag log (enlist labels r) := by
  induction labels generalizing r flag log with
  | nil => exact h
  | cons label rest ih =>
    have hnamed {r : UsernameRegistration} {flag : Bool} {log : Log} (h : inv r) :
        Keeps alters inv flag log
          ((do return label.fullName :: (← enlist rest) : Work (List String)) r) :=
      Routine.heeds_bind (ih h) fun _ _ _ _ h => h
    have hrenewed (hstate : r.stateOf? label.fullName = none ∨
        r.stateOf? label.fullName = some .timedOut) : Keeps alters inv flag log
          ((do
            let salt ← Routine.ask (.drawSalt label)
            let now ← Routine.ask .time
            modify fun r : UsernameRegistration => r.put (.fresh label r.owner salt now)
            return label.fullName :: (← enlist rest) : Work (List String)) r) := by
      refine Routine.heeds_ask (asks_unscheduled h rfl) fun _ salt _ _ => ?_
      refine Routine.heeds_ask (asks_unscheduled h rfl) fun _ now _ _ => ?_
      exact Routine.heeds_modify (hnamed (hinv.renewed label salt now h hstate))
    apply Routine.heeds_get
    generalize hstate : r.stateOf? label.fullName = state
    cases state with
    | none => exact hrenewed (.inl hstate)
    | some state =>
      cases state with
      | registered => exact ih h
      | timedOut => exact hrenewed (.inr hstate)
      | unregistered => exact hnamed h
      | preorderSubmitted => exact hnamed h
      | preorderConfirmed => exact hnamed h
      | domainSubmitted => exact hnamed h

/-- Laws that a call keeps: they last, what the log says makes them no less true, and they hold of the
names that the platform lists. -/
structure IsKeptFrom (law : Log → UsernameRegistration → Prop) (start : Log)
    (r : UsernameRegistration) : Prop where
  lasting : ∀ log, IsLasting (law log)
  extended : ∀ {log later : Log} {r : UsernameRegistration}, log <+: later → law log r → law later r
  begun : law start r
  adopted : ∀ documents now, law (start ++
    [⟨.findDocuments .domain (.ownedBy r.owner), .ok documents⟩, ⟨.time, now⟩])
      (r.adoptAll documents now).2

/-- A call asks under a law. It asks the platform while the flag is not set, except for the names that
are listed, which it asks for first of all. -/
def AsksFrom (law : Log → UsernameRegistration → Prop) (start : Log) (flag : Bool) (log : Log)
    (r : UsernameRegistration) (q : Request) : Prop :=
  law log r ∧ (q.isScheduled → flag = false ∨
    log = start ∧ q = .findDocuments .domain (.ownedBy r.owner))

variable {law : Log → UsernameRegistration → Prop} {start : Log}

theorem asks_recover (hlaw : IsKeptFrom law log r) :
    (recover r).Heeds alters (AsksFrom law log) (fun _ later r' _ => law later r') flag log := by
  refine Routine.heeds_get (Routine.heeds_ask ⟨hlaw.begun, fun _ => .inr ⟨rfl, rfl⟩⟩
    fun new answer _ _ => ?_)
  have hlooked : law (log ++ [⟨.findDocuments .domain (.ownedBy r.owner), answer⟩]) r :=
    hlaw.extended (List.prefix_append _ _) hlaw.begun
  match answer with
  | .error e => exact hlooked
  | .ok documents =>
    refine Routine.heeds_ask ⟨hlooked, fun hscheduled => absurd hscheduled Bool.false_ne_true⟩ fun new now _ _ => ?_
    rw [List.append_assoc]
    exact hlaw.adopted documents now

theorem asks_registerLabels {preorder domain : Schedule} (hpreorder : preorder.attempts ≠ 0)
    (hdomain : domain.attempts ≠ 0) (labels : List Label) (hlaw : IsKeptFrom law log r) :
    (registerLabels preorder domain labels r).Heeds alters (AsksFrom law log)
      (fun _ _ _ _ => True) flag log := by
  have hrest {looked : UsernameRegistration} {flag : Bool} {found : Log} (h : law found looked)
      (reported : List String) :
      (registerLooked preorder domain labels reported looked).Heeds alters (AsksFrom law log)
        (fun _ _ _ _ => True) flag found := by
    have hlasting := hlaw.lasting found
    suffices hasks : Task.Heeds alters (Asks (law found)) (fun _ _ _ _ => True) flag found _ by
      refine hasks.extends.weaken ?_ fun _ _ _ _ _ => trivial
      rintro flag later s q ⟨hextends, hkept, hclear⟩
      exact ⟨hlaw.extended hextends hkept, fun hscheduled => .inl (hclear hscheduled)⟩
    refine Routine.heeds_bind (keeps_enlist labels hlasting h) fun flag log formed batch h => ?_
    refine Routine.heeds_ite (fun _ => trivial) fun _ => ?_
    refine Routine.heeds_bind (asks_carryOut hpreorder hdomain hlasting h) ?_
    intro flag log r' step _
    cases step with
    | proceed => trivial
    | stop outcome => trivial
    | paused => trivial
  rw [registerLabels_eq]
  refine Routine.heeds_get (Routine.heeds_ite (fun _ => ?_) fun _ => ?_)
  · exact Routine.heeds_bind (asks_recover hlaw) fun _ _ _ _ hlooked => hrest hlooked _
  · exact hrest hlaw.begun _

/-- Every request of a call is made under the laws that the call keeps. -/
theorem asks_register (schedule? : Option Schedule) (requests : List String)
    (hlaw : IsKeptFrom law log r) :
    (register schedule? requests r).Heeds alters (AsksFrom law log) (fun _ _ _ _ => True)
      flag log := by
  refine Routine.heeds_get (Routine.heeds_get ?_)
  cases hread : r.readBatch (schedule?.getD r.settings.preorder)
      (schedule?.getD r.settings.domain) requests with
  | error e => trivial
  | ok labels =>
    obtain ⟨hpreorder, hdomain⟩ := attempts_of_readBatch hread
    exact Routine.heeds_bind (asks_registerLabels hpreorder hdomain labels hlaw)
      fun _ _ _ _ _ => trivial

end UsernameRegistration

end Enrolment
