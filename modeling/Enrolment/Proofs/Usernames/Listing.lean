import Enrolment.Proofs.Usernames.Calls
import Enrolment.Proofs.Usernames.Recovering

/-!
Registered names were listed. A claim is registered when a look for the domains of its owner shows its
name, or when its name is adopted from such a look, and in no other way.
-/

namespace Enrolment

/-- A document with the name of a label lists the full name of the label. -/
theorem Document.listed?_of_name? {d : Document} {label : Label} (hlabel : label.IsReadable)
    (h : d.name? = some (label.normalized, label.parent)) :
    ∃ l, d.listed? = some l ∧ l.1.fullName = label.fullName := by
  cases hdata : d.data with
  | preorder commitment =>
    simp only [name?, hdata, reduceCtorEq] at h
  | domain shown normalized parent salt record =>
    simp only [name?, hdata, Option.some.injEq, Prod.mk.injEq] at h
    obtain ⟨rfl, rfl⟩ := h
    refine ⟨(⟨label.normalized, label.normalized, label.parent⟩, salt, record), ?_, rfl⟩
    simp [listed?, hdata, hlabel.parse_normalized, Except.toOption]

namespace UsernameRegistration

variable {start r r' : UsernameRegistration} {log later es : Log} {batch : List String}
  {name : String} {owner : IdentityId} {step : Step}

/-- The platform listed a name for an owner. -/
def ListsName (owner : IdentityId) (log : Log) (name : String) : Prop :=
  ∃ documents, ⟨.findDocuments .domain (.ownedBy owner), .ok documents⟩ ∈ log ∧
    (Document.firstListing? documents name).isSome

/-- The platform listed every registered name. -/
def IsAttested (owner : IdentityId) (log : Log) (r : UsernameRegistration) : Prop :=
  ∀ name, r.stateOf? name = some .registered → ListsName owner log name

theorem IsAttested.of_registered (h : IsAttested owner log r) (hlog : log <+: later)
    (hbefore : ∀ name, r'.stateOf? name = some .registered → r.stateOf? name = some .registered) :
    IsAttested owner later r' := by
  intro name hname
  obtain ⟨documents, hmem, hlisted⟩ := h name (hbefore name hname)
  exact ⟨documents, hlog.subset hmem, hlisted⟩

theorem IsAttested.extend (h : IsAttested owner log r) (hlog : log <+: later) :
    IsAttested owner later r := h.of_registered hlog fun _ hname => hname

theorem IsAttested.expire (h : IsAttested owner log r) (hbatch : batch.Nodup) (now : Timestamp) :
    IsAttested owner log (r.expire batch now) := by
  apply h.of_registered (List.prefix_refl log)
  intro name hname
  rw [stateOf?_expire hbatch] at hname
  split at hname
  · obtain ⟨s, hs, hexpired⟩ := Option.map_eq_some_iff.mp hname
    split at hexpired
    · rw [hs, hexpired]
    · cases hexpired
  · exact hname

/-- Only the last stage registers names. -/
theorem Stage.Ends.attested {stage : Stage} (hend : stage.Ends batch log r later r' step)
    (h : IsAttested owner log r) (hlog : log <+: later) (hbatch : batch.Nodup)
    (hopen : stage.target.isFinal = false) : IsAttested owner later r' := by
  have hshift (now : Timestamp) : IsAttested owner later (stage.shift batch now r) := by
    apply h.of_registered hlog
    intro name hname
    rw [stage.stateOf?_shift hbatch] at hname
    split at hname
    · rw [Option.some.inj hname] at hopen
      cases hopen
    · exact hname
  cases hend with
  | passed => exact h
  | moved now => exact hshift now
  | held now => exact hshift now
  | paused => exact h.extend hlog
  | refused => exact h.extend hlog
  | expired now => exact (h.extend hlog).expire hbatch now

theorem Enlisted.attested {labels : List Label} (henlisted : Enlisted labels log r later r' batch)
    (h : IsAttested owner log r) : IsAttested owner later r' := by
  apply h.of_registered henlisted.spares.isPrefix
  intro name hname
  rw [henlisted.stateOf?_eq] at hname
  split at hname
  · generalize r.stateOf? name = state at hname ⊢
    cases state with
    | none => cases hname
    | some state => cases state <;> first | rfl | cases hname
  · exact hname

variable [Suite]

/-- What is adopted was listed. -/
theorem Recovery.attested {result : Except RegistrationError (List String)}
    (hrecovery : Recovery log r later r' result) (h : IsAttested r.owner log r) :
    IsAttested r.owner later r' := by
  cases hrecovery with
  | unanswered e => exact h.extend (List.prefix_append _ _)
  | answered documents now =>
    intro name hname
    by_cases hbefore : r.stateOf? name = some .registered
    · exact h.extend (List.prefix_append _ _) name hbefore
    · refine ⟨documents, by simp, ?_⟩
      rw [stateOf?, find?_adoptAll, if_neg hbefore] at hname
      split at hname
      next hlisted => simp [hlisted]
      next => exact absurd hname hbefore

/-- A call of the last stage registers names that it was shown. -/
theorem meets_awaitDomains_attested (schedule : Schedule) (h : IsAttested r.owner log r)
    (hkept : r.IsKept) (hbatch : batch.Nodup) :
    (awaitDomains schedule batch r).Meets (fun _ _ _ => True)
      (fun later r' _ => IsAttested r.owner later r') log := by
  obtain ⟨hnames, hstate⟩ : (r.inState batch .domainSubmitted).Nodup ∧
      ∀ name ∈ r.inState batch .domainSubmitted, r.stateOf? name = some .domainSubmitted :=
    Stage.registering.found r hbatch
  refine Routine.meets_get (Routine.meets_ite (fun _ => h) fun _ => ?_)
  refine Routine.meets_bind
    (meets_watchDocuments (fun _ _ => trivial) (fun _ _ _ => trivial) fun _ _ => trivial) ?_
  rintro later r' ended ⟨rfl, hlater, hseen⟩
  have hattested := h.extend hlater.isPrefix
  match ended with
  | none => exact hattested
  | some (.completed v) =>
    obtain ⟨documents, hshown, hholds⟩ := hseen v rfl
    refine Routine.meets_bind (meets_moveOn .registering (fun _ _ => trivial) hbatch) ?_
    rintro moved r'' step ⟨rfl, now, rfl, rfl⟩
    refine Routine.meets_modify ?_
    have hlog : later <+: later ++ [⟨.time, now⟩] := List.prefix_append _ _
    intro name hname
    change (r'.advance (r'.inState batch .domainSubmitted) .registered now).settlePrimary.stateOf?
      name = some .registered at hname
    rw [stateOf?_settlePrimary, stateOf?_advance hnames hstate rfl] at hname
    split at hname
    next hmem =>
      obtain ⟨c, hc, -⟩ := stateOf?_eq_some.mp (hstate name hmem)
      have hclaim := hkept name c hc
      have hwanted : (c.label.normalized, c.label.parent) ∈
          (r'.claimsOn (r'.inState batch .domainSubmitted)).map fun claim =>
            (claim.label.normalized, claim.label.parent) :=
        List.mem_map_of_mem (mem_claimsOn.mpr ⟨name, hmem, hc⟩)
      obtain ⟨d, hd, hname⟩ := List.any_eq_true.mp (List.all_eq_true.mp hholds _ hwanted)
      obtain ⟨l, hlisted, hfull⟩ :=
        Document.listed?_of_name? hclaim.readable (of_decide_eq_true hname)
      rw [hclaim.named] at hfull
      exact ⟨documents, hlog.subset hshown, Document.isSome_firstListing? hd hlisted hfull⟩
    next => exact hattested.extend hlog name hname
  | some (.timedOut looks) =>
    refine (meets_timeOut fun _ _ => trivial).mono ?_
    rintro last r'' step ⟨now, hlast, rfl, rfl⟩
    exact (hattested.extend hlast.isPrefix).expire hbatch now

/-- A stage before the last keeps to names that were listed. -/
theorem attested_of_follows {stage : Stage} {work : Work Step}
    (hmeets : (work r).Meets (Permits start) (stage.Follows start batch log r) log)
    (h : IsAttested owner log r) (hbatch : batch.Nodup) (hopen : stage.target.isFinal = false) :
    (work r).Meets (fun _ _ _ => True)
      (fun later r' _ => Course start later r' ∧ IsAttested owner later r') log := by
  apply hmeets.extends.weaken (fun _ _ _ _ => trivial)
  rintro later r' step ⟨hlog, hcourse, hend⟩
  exact ⟨hcourse, hend.attested h hlog hbatch hopen⟩

theorem meets_carryOut_attested (preorder domain : Schedule) (h : Course start log r)
    (hkept : start.IsKept) (hattested : IsAttested start.owner log r) (hbatch : batch.Nodup) :
    (carryOut preorder domain batch r).Meets (fun _ _ _ => True)
      (fun later r' _ => IsAttested start.owner later r') log := by
  have hstop (later : Log) (r' : UsernameRegistration) (outcome : UsernameOutcome)
      (h : Course start later r' ∧ IsAttested start.owner later r') :
      IsAttested start.owner later r' := h.2
  have hpaused (later : Log) (r' : UsernameRegistration)
      (h : Course start later r' ∧ IsAttested start.owner later r') :
      IsAttested start.owner later r' := h.2
  refine meets_andThen
    (attested_of_follows (meets_submitPreorder h hbatch) hattested hbatch rfl) hstop hpaused ?_
  rintro log₁ r₁ ⟨h₁, hattested₁⟩
  refine meets_andThen
    (attested_of_follows (meets_awaitPreorders preorder h₁ hbatch) hattested₁ hbatch rfl)
    hstop hpaused ?_
  rintro log₂ r₂ ⟨h₂, hattested₂⟩
  refine meets_andThen
    (attested_of_follows (meets_submitDomains h₂ hbatch) hattested₂ hbatch rfl) hstop hpaused ?_
  rintro log₃ r₃ ⟨h₃, hattested₃⟩
  rw [← owner_eq_of_setup h₃.setup_eq] at hattested₃ ⊢
  exact meets_awaitDomains_attested domain hattested₃ (h₃.isKept hkept) hbatch

theorem meets_registerLabels_attested (preorder domain : Schedule) {labels : List Label}
    (h : Course start log r) (hkept : start.IsKept) (hattested : IsAttested start.owner log r)
    (hlabels : ∀ l ∈ labels, l.IsReadable) (hnodup : (labels.map Label.fullName).Nodup) :
    (registerLabels preorder domain labels r).Meets (fun _ _ _ => True)
      (fun later r' _ => IsAttested start.owner later r') log := by
  have hrest {found : Log} {looked : UsernameRegistration} (hcourse : Course start found looked)
      (hattested : IsAttested start.owner found looked) :
      (registerLooked preorder domain labels (labels.map r.reportName) looked).Meets
        (fun _ _ _ => True) (fun later r' _ => IsAttested start.owner later r') found := by
    refine Routine.meets_bind (meets_enlist (fun _ _ _ => trivial) (fun _ _ => trivial) labels
      hcourse hlabels hnodup) ?_
    rintro formedLog formed batch ⟨hformed, henlisted⟩
    have hbatch : batch.Nodup := henlisted.nodup hnodup
    have hattested := henlisted.attested hattested
    refine Routine.meets_ite (fun _ => hattested) fun _ => ?_
    refine Routine.meets_bind
      (meets_carryOut_attested preorder domain hformed hkept hattested hbatch) ?_
    intro later r' step hlater
    cases step <;> exact hlater
  rw [registerLabels_eq]
  refine Routine.meets_get (Routine.meets_ite (fun _ => ?_) fun _ => hrest h hattested)
  refine Routine.meets_bind (meets_recover (fun _ _ _ _ => trivial) fun _ _ => trivial) ?_
  intro found looked result hrecovery
  rw [← owner_eq_of_setup h.setup_eq] at hattested
  have hlooked := hrecovery.attested hattested
  rw [owner_eq_of_setup h.setup_eq] at hlooked
  exact hrest (hrecovery.course h) hlooked

theorem meets_register_attested (schedule? : Option Schedule) (requests : List String)
    (h : Course start log r) (hkept : start.IsKept) (hattested : IsAttested start.owner log r) :
    (register schedule? requests r).Meets (fun _ _ _ => True)
      (fun later r' _ => IsAttested start.owner later r') log := by
  refine Routine.meets_get (Routine.meets_get ?_)
  generalize hread : r.readBatch _ _ requests = read
  cases read with
  | error e => exact hattested
  | ok labels =>
    obtain ⟨hlabels, hnodup⟩ := readBatch_eq_ok hread
    exact Routine.meets_bind
      (meets_registerLabels_attested _ _ h hkept hattested hlabels hnodup) fun _ _ _ hlater => hlater

/-- Whatever is answered, a name is registered only after the platform listed it for the owner. -/
theorem Calls.attested {first : UsernameRegistration} (h : Calls first log r)
    (hempty : ∀ name, first.find? name = none) : IsAttested first.owner log r := by
  have hkept : first.IsKept := isKept_of_empty hempty
  induction h with
  | begun =>
    intro name hname
    rw [stateOf?, hempty] at hname
    cases hname
  | registered hcalls hrun ih =>
    exact (meets_register_attested _ _ hcalls.course hkept ih).reaches hrun
  | @recovered log es r r' result hcalls hrun ih =>
    have hmeets : r.recover.Meets (fun _ _ _ => True) (Recovery log r) log :=
      meets_recover (fun _ _ _ _ => trivial) fun _ _ => trivial
    have howner := owner_eq_of_setup hcalls.course.setup_eq
    rw [← howner] at ih ⊢
    exact (hmeets.reaches hrun).attested ih

end UsernameRegistration

end Enrolment
