import Enrolment.Proofs.Flow.Run

/-!
The gates of a flow. A flow submits nothing that is not yet due: the identity is created on a funding
transaction that is deep enough, names are turned to once the platform showed the identity, and a name
is revealed once the platform showed what preorders it.
-/

namespace Enrolment

namespace UsernameRegistration

variable [Suite] {first r : UsernameRegistration} {log : Log} {names : List String}

/-- Only names whose preorders the platform showed are offered to be revealed. -/
theorem Offers.shows_preorders {t : Transition} (h : r.Offers names t) (hcourse : Course first log r)
    (hfirst : ∀ name, first.find? name = none) {owner : IdentityId} {domains : List DomainEntry}
    (ht : t.operation = .registerDomains owner domains) :
    owner = r.owner ∧
      ∀ e ∈ domains, ShowsPreorder r.owner log (commitment e.salt e.toLabel r.owner) := by
  have hkept : r.IsKept := hcourse.isKept (isKept_of_empty hfirst)
  cases h with
  | preorder => cases ht
  | reveal signed hstate =>
    obtain ⟨rfl, rfl⟩ : r.owner = owner ∧ r.entries (r.claimsOn names) = domains :=
      Operation.registerDomains.inj ht
    refine ⟨rfl, ?_⟩
    intro e he
    obtain ⟨c, hclaim, hlabel, hsalt⟩ := mem_entries he
    obtain ⟨name, hname, hfound⟩ := mem_claimsOn.mp hclaim
    obtain ⟨c', hc', hconfirmed⟩ := stateOf?_eq_some.mp (hstate name hname)
    obtain rfl : c' = c := Option.some.inj (hc'.symm.trans hfound)
    rw [hlabel, hsalt, ← (hkept name c' hfound).committed]
    exact hcourse.shows_confirmed hfirst hfound hconfirmed

end UsernameRegistration

namespace Coordinator

variable [Suite] {c c' : Coordinator} {transaction : Transaction} {lock : CreditLock}
  {burnKey signingKey : SecretKey} {labels : List String} {schedule : Option Schedule}
  {position : Nat} {flow : Flow}

theorem makeFlow_eq_ok (h : c.makeFlow lock burnKey signingKey labels schedule = .ok flow) :
    flow.identity = ⟨lock, burnKey, signingKey, c.settings, .pending lock [signingKey.publicKey],
        .awaitingFunding, none⟩ ∧
      flow.usernames = ⟨lock.identity, signingKey, c.settings, .empty, none, none⟩ := by
  unfold makeFlow IdentityRegistration.create UsernameRegistration.create at h
  cases hvalid : c.settings.validate with
  | error e => simp [hvalid, bind, Except.bind] at h
  | ok u =>
    obtain rfl : _ = flow := by
      simpa [hvalid, bind, Except.bind, pure, Except.pure] using h
    exact ⟨rfl, rfl⟩

theorem labels_of_makeFlow
    (h : c.makeFlow lock burnKey signingKey labels schedule = .ok flow) : flow.labels = labels := by
  unfold makeFlow IdentityRegistration.create UsernameRegistration.create at h
  cases hvalid : c.settings.validate with
  | error e => simp [hvalid, bind, Except.bind] at h
  | ok u =>
    obtain rfl : _ = flow := by simpa [hvalid, bind, Except.bind, pure, Except.pure] using h
    rfl

/-- The coordinator once a flow is entered: it comes after the others, and the registry leads to it. -/
def entered (c : Coordinator) (ledger : Ledger) (flow : Flow) : Coordinator :=
  { c with
    ledger
    runs := c.runs ++ [.launch flow]
    registry := c.registry.insert flow.identity.id c.runs.length
    tally := { c.tally with started := c.tally.started + 1 } }

theorem start_eq_entered
    (h : c.start transaction burnKey signingKey labels schedule = (.ok position, c')) :
    ∃ lock ledger flow, c.ledger.observe transaction = .ok (lock, ledger) ∧
      makeFlow { c with ledger } lock burnKey signingKey labels schedule = .ok flow ∧
      c.registry.contains flow.identity.id = false ∧ position = c.runs.length ∧
      c' = c.entered ledger flow := by
  unfold start at h
  split at h
  · cases h
  split at h
  · cases h
  next lock ledger hobserved =>
    dsimp only at h
    split at h
    · cases h
    next flow hflow =>
      unfold enter at h
      dsimp only at h
      split at h
      · cases h
      next hnew =>
        obtain ⟨hposition, rfl⟩ := Prod.mk.inj h
        exact ⟨lock, ledger, flow, hobserved, hflow, by simpa using hnew,
          (Except.ok.inj hposition).symm, rfl⟩

theorem start_eq_ok
    (h : c.start transaction burnKey signingKey labels schedule = (.ok position, c')) :
    ∃ lock ledger flow, c.ledger.observe transaction = .ok (lock, ledger) ∧
      makeFlow { c with ledger } lock burnKey signingKey labels schedule = .ok flow ∧
      c'.run? position = some (.launch flow) := by
  obtain ⟨lock, ledger, flow, hobserved, hflow, -, rfl, rfl⟩ := start_eq_entered h
  exact ⟨lock, ledger, flow, hobserved, hflow, by simp [run?, entered]⟩

/-- A start that is refused leaves at most a ledger behind. -/
theorem start_eq_error {e : RegistrationError}
    (h : c.start transaction burnKey signingKey labels schedule = (.error e, c')) :
    ∃ ledger, c' = { c with ledger } := by
  unfold start at h
  split at h
  · exact ⟨c.ledger, (Prod.mk.inj h).2.symm⟩
  split at h
  · exact ⟨c.ledger, (Prod.mk.inj h).2.symm⟩
  next lock ledger _ =>
    dsimp only at h
    split at h
    · exact ⟨ledger, (Prod.mk.inj h).2.symm⟩
    next flow hflow =>
      unfold enter at h
      dsimp only at h
      split at h
      · exact ⟨ledger, (Prod.mk.inj h).2.symm⟩
      · cases h

variable {history : History} {run₀ run : FlowRun}

/-- A flow that is started submits nothing that is not due. What creates the identity is submitted
after the funding transaction was reported as deep as the settings ask for, since the start or since
the identity was last started over. What concerns names is submitted after the platform showed the
identity. Every name that is revealed was committed to in a preorder of the identity that the platform
showed. -/
theorem started_flow_is_gated
    (hstart : c.start transaction burnKey signingKey labels schedule = (.ok position, c'))
    (hrun₀ : c'.run? position = some run₀) (hreaches : run₀.Reaches history run)
    {ticket : Option Nat} {f : Flow} {t : Transition}
    {next : Except Refusal Receipt → Task Flow Reply}
    (hsubmits : run.activity = .busy ticket (.ask f (.submit t) next)) :
    ∃ lock ledger, c.ledger.observe transaction = .ok (lock, ledger) ∧
      (t.operation.isCreation → ∃ depth, c.settings.confirmations ≤ depth ∧
        ⟨.awaitDepth lock.transaction c.settings.confirmations, some (.ok depth)⟩ ∈
          history.recent) ∧
      (t.operation.isCreation = false → ∃ identity,
        ⟨.findIdentity lock.identity, .ok (some identity)⟩ ∈ history.exchanges) ∧
      ∀ owner domains, t.operation = .registerDomains owner domains → owner = lock.identity ∧
        ∀ e ∈ domains, UsernameRegistration.ShowsPreorder lock.identity history.exchanges
          (commitment e.salt e.toLabel lock.identity) := by
  obtain ⟨lock, ledger, flow, hobserved, hflow, hlaunch⟩ := start_eq_ok hstart
  obtain rfl : FlowRun.launch flow = run₀ := Option.some.inj (hlaunch.symm.trans hrun₀)
  obtain ⟨hidentity, husernames⟩ := makeFlow_eq_ok hflow
  have hopening : flow.identity.IsOpening := by
    rw [hidentity]
    exact ⟨rfl, rfl⟩
  obtain ⟨opening, older, hopening, hsetup, hsplit, hcourse⟩ :=
    hreaches.onCourse (FlowRun.onCourse_launch hopening)
  rw [hsubmits] at hcourse
  obtain ⟨⟨⟨hidentityCourse, husernamesCourse⟩, hpermits⟩, -⟩ := hcourse
  obtain ⟨hlock, -, -, hsettings⟩ : f.identity.lock = lock ∧ _ ∧ _ ∧
      f.identity.settings = c.settings := by
    have hsame := hidentityCourse.setup_eq.trans hsetup
    rw [hidentity] at hsame
    simpa [IdentityRegistration.setup] using hsame
  have hid : f.identity.id = lock.identity := congrArg CreditLock.identity hlock
  have howner : f.usernames.owner = lock.identity := by
    rw [UsernameRegistration.owner_eq_of_setup husernamesCourse.setup_eq, husernames]
  rw [← hsplit] at husernamesCourse
  have hrecent : history.recent ⊆ history.exchanges := by
    rw [hsplit]
    exact List.subset_append_right older history.recent
  refine ⟨lock, ledger, hobserved, ?_⟩
  rcases hpermits with ⟨hphase, signed, rfl⟩ | ⟨hphase, names, hoffers⟩
  · refine ⟨?_, by rintro ⟨⟩, fun owner domains ht => by cases ht⟩
    intro _
    obtain ⟨depth, hmem⟩ := hidentityCourse.funded_of_phase hopening (by simp [hphase])
    obtain ⟨flag, hdeep⟩ := hreaches.admits (hrecent hmem)
    rw [hlock, hsettings] at hmem
    rw [hsettings] at hdeep
    exact ⟨depth, hdeep, hmem⟩
  · refine ⟨?_, ?_, ?_⟩
    · intro hcreation
      cases hoffers <;> cases hcreation
    · intro _
      obtain ⟨identity, hmem⟩ := hidentityCourse.shown hopening hphase
      rw [hid] at hmem
      exact ⟨identity, hrecent hmem⟩
    · intro owner domains ht
      have hfirst (name : String) : flow.usernames.find? name = none := by
        rw [husernames]
        rfl
      have hshows := hoffers.shows_preorders husernamesCourse hfirst ht
      rwa [howner] at hshows

end Coordinator

namespace Sample

def funding : Transaction := ⟨⟨.zero⟩, [⟨50000, .creditBurn .neutral⟩]⟩

def coordinator : Coordinator := ⟨.default, .empty, [], .empty, ⟨0, 0, 0, 0⟩⟩

def lock : CreditLock := ⟨⟨.zero⟩, ⟨⟨.zero⟩, 0⟩, 50000, .neutral, .ofOutPoint ⟨⟨.zero⟩, 0⟩⟩

def flow : Flow where
  identity := ⟨lock, signingKey, signingKey, .default, .pending lock [signingKey.publicKey],
    .awaitingFunding, none⟩
  usernames := ⟨lock.identity, signingKey, .default, .empty, none, none⟩
  labels := ["alice"]
  schedule := some (.linear 1 0)
  isRecovered := false

def started : Coordinator :=
  (coordinator.start funding signingKey signingKey ["alice"] (some (.linear 1 0))).2

theorem start_coordinator : coordinator.start funding signingKey signingKey ["alice"]
    (some (.linear 1 0)) = (.ok 0, started) := rfl

theorem run?_started : started.run? 0 = some (.launch flow) := rfl

/-- What the flow comes to if its identity exists already and its name is never shown. -/
def driven : Log × Flow × Reply :=
  (Flow.perform .start flow).play
    (oracle (.ok ⟨.zero⟩) (some (.pending lock [])) (unnamed lock.identity)) []

theorem reaches_driven :
    Task.Reaches (Flow.perform .start flow) driven.1 (.done driven.2.1 driven.2.2) := by
  unfold driven
  exact Task.reaches_play _ _ _

theorem admits_oracle (judgement : Except Refusal Receipt) (shownIdentity : Option Identity)
    (shown : DocumentKind → Filter → List Document) (log : Log) (q : Request) :
    q.Admits false (oracle judgement shownIdentity shown log q) := by
  cases q with
  | isCancelled => rfl
  | pause millis => exact id
  | awaitDepth tx depth => exact UInt64.le_refl depth
  | _ => trivial

/-- Answers that may be given under an unset flag are admitted all along: no request sets it. -/
theorem admissible_play {σ α : Type} {answer : Log → (q : Request) → q.Answer}
    (hadmits : ∀ log (q : Request), q.Admits false (answer log q)) (log : Log) (t : Task σ α) :
    Log.Admissible false (t.play answer log).1 := by
  induction t generalizing log with
  | done s a => exact .nil
  | ask s q next ih =>
    have hflag : q.flagAfter false = false := by cases q <;> rfl
    apply Log.Admissible.cons (hadmits log q)
    rw [hflag]
    exact ih _ _

theorem admissible_driven : Log.Admissible false driven.1 := by
  unfold driven
  apply admissible_play
  exact admits_oracle (.ok ⟨.zero⟩) (some (.pending lock [])) (unnamed lock.identity)

end Sample

open Sample in
/-- A flow whose identity exists already reveals its name. -/
theorem Coordinator.started_flow_is_gated_alice :
    ∃ history run f t next lock ledger owner domains,
      coordinator.start funding signingKey signingKey ["alice"] (some (.linear 1 0)) =
        (.ok 0, started) ∧
      started.run? 0 = some (.launch flow) ∧ (FlowRun.launch flow).Reaches history run ∧
      run.activity = .busy none (.ask f (.submit t) next) ∧
      coordinator.ledger.observe funding = .ok (lock, ledger) ∧
      t.operation = .registerDomains owner domains ∧
      (∃ identity, ⟨.findIdentity lock.identity, .ok (some identity)⟩ ∈ history.exchanges) ∧
      ∀ e ∈ domains, UsernameRegistration.ShowsPreorder lock.identity history.exchanges
        (commitment e.salt e.toLabel lock.identity) := by
  have hnames : (Log.submitted driven.1).map (fun t => t.operation.name) =
      ["preorder", "domain_register"] := by decide +kernel
  obtain ⟨t, ht, hname⟩ : ∃ t ∈ Log.submitted driven.1, t.operation.name = "domain_register" := by
    apply List.mem_map.mp
    rw [hnames]
    simp
  have hbusy : (FlowRun.launch flow).activity = .busy none (Flow.perform .start flow) := rfl
  obtain ⟨history, run, f, next, hreaches, hsubmits⟩ :=
    FlowRun.exists_submitting hbusy reaches_driven admissible_driven ht
  obtain ⟨lock, ledger, hobserved, -, hshown, hpreordered⟩ :=
    Coordinator.started_flow_is_gated start_coordinator run?_started hreaches hsubmits
  cases hoperation : t.operation with
  | registerDomains owner domains =>
    exact ⟨history, run, f, t, next, lock, ledger, owner, domains, start_coordinator, run?_started,
      hreaches, hsubmits, hobserved, hoperation, hshown (by rw [hoperation]; rfl),
      (hpreordered owner domains hoperation).2⟩
  | createIdentity => simp [hoperation, Operation.name] at hname
  | preorder => simp [hoperation, Operation.name] at hname

end Enrolment
