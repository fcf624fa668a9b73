import Enrolment.Proofs.Usernames.Submissions

/-!
Which names are carried as the unique one. A batch that reveals names while there is neither a primary
name nor a pending one carries its first one so, and the name is pending until the platform shows it,
which makes it the primary name, or until the batch times out, which clears it. From the moment that a
primary name is known no further name is carried as the unique one.
-/

namespace Enrolment

/-- The full names that an operation carries as the unique one. -/
def Operation.uniqueNames : Operation → List String
  | registerDomains _ domains =>
    (domains.filter fun e => e.record.isUnique).map fun e => e.toLabel.fullName
  | _ => []

/-- If only the first name may be unique, no other one is carried so. -/
theorem Operation.uniqueNames_cons {owner id : IdentityId} {first : DomainEntry}
    {rest : List DomainEntry} (hrest : ∀ e ∈ rest, e.record = .secondary id) :
    (registerDomains owner (first :: rest)).uniqueNames =
      if first.record.isUnique then [first.toLabel.fullName] else [] := by
  have hnone : (rest.filter fun e => e.record.isUnique) = [] := by
    apply List.filter_eq_nil_iff.mpr
    intro e he
    rw [hrest e he]
    exact Bool.false_ne_true
  rw [uniqueNames, List.filter_cons, hnone]
  split <;> rfl

def Log.uniqueNames (log : Log) : List String := log.operations.flatMap Operation.uniqueNames

namespace UsernameRegistration

/-- The first of some revealed names is carried as a further one if a primary name is known, and as the
unique one if there is none and none is pending; all others are carried as further ones. Of the first
name that is revealed while another one is pending nothing is said. -/
def Leads (r : UsernameRegistration) : Operation → Prop
  | .registerDomains owner domains =>
    owner = r.owner ∧
    (∀ e ∈ domains.head?,
      (r.primary.isSome → e.record = .secondary r.owner) ∧
        (r.primaries = (none, none) → e.record = .unique r.owner)) ∧
    ∀ e ∈ domains.tail, e.record = .secondary r.owner
  | _ => True

/-- A name is the primary one, or waits to be shown as it. -/
def HasUnique (r : UsernameRegistration) : Prop := r.primary.isSome ∨ r.pendingPrimary.isSome

def Step.timesOut : Step → Bool
  | stop outcome => outcome.isTimedOut
  | _ => false

variable {r r' : UsernameRegistration} {log later : Log} {batch names : List String}
  {step : Step}

/-- A primary name leaves no room for a unique one. -/
theorem Leads.uniqueNames_eq_nil {operation : Operation} (h : r.Leads operation)
    (hprimary : r.primary.isSome) : operation.uniqueNames = [] := by
  cases operation with
  | registerDomains owner domains =>
    obtain ⟨-, hfirst, hrest⟩ := h
    cases domains with
    | nil => rfl
    | cons first rest =>
      rw [List.tail_cons] at hrest
      obtain ⟨hknown, -⟩ := hfirst first rfl
      rw [Operation.uniqueNames_cons hrest, hknown hprimary]
      rfl
  | _ => rfl

theorem entries_cons (r : UsernameRegistration) (c : Claim) (claims : List Claim) :
    ∃ first rest, r.entries (c :: claims) = first :: rest ∧ first.toLabel = c.label ∧
      first.record = (if r.primary.isNone then .unique r.owner else .secondary r.owner) ∧
      ∀ e ∈ rest, e.record = .secondary r.owner := by
  refine ⟨_, _, rfl, rfl, by simp, ?_⟩
  intro e he
  obtain ⟨⟨claim, position⟩, hmem, rfl⟩ := List.mem_map.mp he
  have hposition : 1 ≤ position := (List.mem_zipIdx hmem).1
  have hne : position ≠ 0 := by omega
  simp [hne]

theorem leads_revealOf (r : UsernameRegistration) (names : List String) :
    r.Leads (r.revealOf names) := by
  unfold revealOf
  generalize r.claimsOn names = claims
  cases claims with
  | nil => exact ⟨rfl, by simp [entries], by simp [entries]⟩
  | cons c rest =>
    obtain ⟨first, others, hentries, -, hfirst, hothers⟩ := r.entries_cons c rest
    rw [hentries]
    refine ⟨rfl, ?_, hothers⟩
    intro e he
    obtain rfl := Option.some.inj he
    constructor
    · intro hknown
      rw [hfirst, ← Option.not_isSome, hknown]
      rfl
    · intro hfree
      obtain ⟨hnone, -⟩ := Prod.mk.inj hfree
      rw [hfirst, hnone]
      rfl

theorem uniqueNames_revealOf [Suite] {state : ClaimState} (hkept : r.IsKept)
    (hstate : ∀ name ∈ names, r.stateOf? name = some state) :
    (r.revealOf names).uniqueNames = if r.primary.isNone then names.head?.toList else [] := by
  cases names with
  | nil => simp [revealOf, claimsOn, entries, Operation.uniqueNames]
  | cons name rest =>
    obtain ⟨c, hfound, -⟩ := stateOf?_eq_some.mp (hstate name (by simp))
    have hclaims : r.claimsOn (name :: rest) = c :: r.claimsOn rest :=
      List.filterMap_cons_some hfound
    obtain ⟨first, others, hentries, hlabel, hfirst, hothers⟩ := r.entries_cons c (r.claimsOn rest)
    have hname : first.toLabel.fullName = name := by rw [hlabel, (hkept name c hfound).named]
    rw [revealOf, hclaims, hentries, Operation.uniqueNames_cons hothers, hfirst, hname]
    cases r.primary.isNone <;> rfl

theorem primaries_notePrimary (h : r.primary = none) (names : List String) :
    (r.notePrimary names).primaries = (none, names.head?) := by
  unfold notePrimary
  simp [h, primaries]

theorem primary_notePrimary (names : List String) : (r.notePrimary names).primary = r.primary := by
  unfold notePrimary
  split <;> rfl

theorem primary_settlePrimary (h : r.primary.isSome) : r.settlePrimary.primary = r.primary := by
  unfold settlePrimary
  split
  next hnone => simp [Option.isNone_iff_eq_none.mp hnone] at h
  next => rfl

theorem primaries_settlePrimary (h : r.primary = none) :
    r.settlePrimary.primaries = (r.pendingPrimary, none) := by
  unfold settlePrimary
  simp [h, primaries]

section Stages

variable {stage : Stage}

/-- A stage moves the claims that it finds, or leaves all as it is, or times the batch out. -/
theorem Stage.Ends.moved_or_kept_or_expired (h : stage.Ends batch log r later r' step) :
    (∃ now, r' = stage.shift batch now r ∧ r.inState batch stage.source ≠ [] ∧
      (step = .proceed ∨ step = .paused ∧ stage.target.isFinal = false) ∧
      later.operations =
        log.operations ++ (stage.operation? r (r.inState batch stage.source)).toList) ∨
    later.operations = log.operations ∧
      (r' = r ∧ (step = .proceed ∧ r.inState batch stage.source = [] ∨ step = .paused ∨
        (∃ e, step = .stop (.failed e)) ∧
          stage.operation? r (r.inState batch stage.source) ≠ none) ∨
      ∃ now late, r' = r.expire batch now ∧ step = .stop (.timedOut late)) := by
  cases h with
  | passed hnone => exact .inr ⟨rfl, .inl ⟨rfl, .inl ⟨rfl, hnone⟩⟩⟩
  | moved now hsome hlog => exact .inl ⟨now, rfl, hsome, .inl rfl, hlog⟩
  | held now hsome hopen hlog => exact .inl ⟨now, rfl, hsome, .inr ⟨rfl, hopen⟩, hlog⟩
  | paused hlog => exact .inr ⟨hlog, .inl ⟨rfl, .inr (.inl rfl)⟩⟩
  | @refused before t reason hsubmits hlog =>
    refine .inr ⟨?_, .inl ⟨rfl, .inr (.inr ⟨⟨_, rfl⟩, hsubmits⟩)⟩⟩
    rw [Log.operations_append, hlog]
    exact List.append_nil _
  | expired now hlog => exact .inr ⟨hlog, .inr ⟨now, _, rfl, rfl⟩⟩

theorem uniqueNames_eq_of_operations (hlog : later.operations = log.operations) :
    later.uniqueNames = log.uniqueNames := by
  unfold Log.uniqueNames
  rw [hlog]

theorem Carried.ends (h : Carried batch [stage] log r later r' step) :
    stage.Ends batch log r later r' step := by
  cases h with
  | stopped hend => exact hend
  | passed hend hrest =>
    cases hrest
    exact hend

/-- A stage adds nothing to what is read off operations if nothing is read off its own. -/
theorem Stage.Ends.flatMap_operations_eq {α : Type} {f : Operation → List α}
    (h : stage.Ends batch log r later r' step)
    (hnone : ∀ r names, ∀ o ∈ stage.operation? r names, f o = []) :
    later.operations.flatMap f = log.operations.flatMap f := by
  rcases h.moved_or_kept_or_expired with ⟨now, -, -, -, hlog⟩ | ⟨hlog, -⟩
  · have hstage := hnone r (r.inState batch stage.source)
    rw [hlog, List.flatMap_append]
    cases ho : stage.operation? r (r.inState batch stage.source) with
    | none => simp
    | some o => simp [hstage o ho]
  · rw [hlog]

theorem Stage.Ends.uniqueNames_eq (h : stage.Ends batch log r later r' step)
    (hnames : ∀ r names, ∀ o ∈ stage.operation? r names, o.uniqueNames = []) :
    later.uniqueNames = log.uniqueNames := h.flatMap_operations_eq hnames

theorem Stage.Ends.primaries_eq (h : stage.Ends batch log r later r' .proceed)
    (hfinish : ∀ names r, stage.finish names r = r) : r'.primaries = r.primaries := by
  rcases h.moved_or_kept_or_expired with ⟨now, rfl, -⟩ | ⟨-, ⟨rfl, -⟩ | ⟨now, late, -, hstep⟩⟩
  · rw [Stage.shift, hfinish]
    rfl
  · rfl
  · cases hstep

/-- What has become of a name that a batch carried as the unique one. -/
def Settles (r' : UsernameRegistration) (name : String) : Step → Prop
  | .proceed => r'.primary = some name
  | .paused => r'.pendingPrimary = some name
  | .stop outcome => outcome.isTimedOut ∧ r'.pendingPrimary = none

/-- Seeing names as owned makes the pending one of them the primary name. -/
theorem Stage.Ends.registering_settles (h : Stage.registering.Ends batch log r later r' step)
    {name : String} (hprimaries : r.primaries = (none, some name)) (hname : name ∈ batch)
    (hstate : r.stateOf? name = some .domainSubmitted) :
    later.uniqueNames = log.uniqueNames ∧ r'.Settles name step := by
  obtain ⟨hprimary, hpending⟩ := Prod.mk.inj hprimaries
  rcases h.moved_or_kept_or_expired with ⟨now, rfl, -, hstep, hlog⟩ |
    ⟨hlog, ⟨rfl, hstep⟩ | ⟨now, late, rfl, rfl⟩⟩
  · rcases hstep with rfl | ⟨-, hopen⟩
    · refine ⟨uniqueNames_eq_of_operations (hlog.trans (List.append_nil _)), ?_⟩
      have hmoved : (r.advance (r.inState batch Stage.registering.source) .registered
          now).primary = none := hprimary
      have hsettled : (Stage.registering.shift batch now r).primaries = (r.pendingPrimary, none) :=
        primaries_settlePrimary hmoved
      exact (congrArg Prod.fst hsettled).trans hpending
    · cases hopen
  · refine ⟨uniqueNames_eq_of_operations hlog, ?_⟩
    rcases hstep with ⟨-, hnone⟩ | rfl | ⟨-, hsubmits⟩
    · have hmem : name ∈ r'.inState batch Stage.registering.source :=
        mem_inState.mpr ⟨hname, hstate⟩
      rw [hnone] at hmem
      cases hmem
    · exact hpending
    · exact absurd rfl hsubmits
  · exact ⟨uniqueNames_eq_of_operations hlog, rfl, rfl⟩

variable [Suite]

/-- Revealing names carries the first of them as the unique one if no primary name is known. From then
on it is pending. -/
theorem Stage.Ends.revealing_primaries (h : Stage.revealing.Ends batch log r later r' step)
    (hbatch : batch.Nodup) (hkept : r.IsKept) :
    later.uniqueNames = log.uniqueNames ∨
      ∃ name ∈ batch, r.primary = none ∧ later.uniqueNames = log.uniqueNames ++ [name] ∧
        (step = .proceed ∨ step = .paused) ∧ r'.primaries = (none, some name) ∧
        r'.stateOf? name = some .domainSubmitted := by
  rcases h.moved_or_kept_or_expired with ⟨now, rfl, hsome, hstep, hlog⟩ | ⟨hlog, -⟩
  · obtain ⟨-, hstate⟩ := Stage.revealing.found r hbatch
    obtain ⟨name, rest, hnames⟩ := List.exists_cons_of_ne_nil hsome
    have hmem : name ∈ r.inState batch .preorderConfirmed := by
      change name ∈ r.inState batch Stage.revealing.source
      rw [hnames]
      exact List.mem_cons_self
    have hunique : later.uniqueNames =
        log.uniqueNames ++ if r.primary.isNone then [name] else [] := by
      unfold Log.uniqueNames
      rw [hlog, List.flatMap_append]
      refine congrArg (log.operations.flatMap Operation.uniqueNames ++ ·) ?_
      refine (List.flatMap_singleton ..).trans ((uniqueNames_revealOf hkept hstate).trans ?_)
      rw [hnames]
      rfl
    cases hprimary : r.primary with
    | some primary =>
      rw [hprimary] at hunique
      exact .inl (hunique.trans (List.append_nil _))
    | none =>
      rw [hprimary] at hunique
      refine .inr ⟨name, (mem_inState.mp hmem).1, rfl, hunique, hstep.imp_right And.left, ?_, ?_⟩
      · have hmoved : (r.advance (r.inState batch Stage.revealing.source) .domainSubmitted
            now).primary = none := hprimary
        have hnoted : (Stage.revealing.shift batch now r).primaries =
            (none, (r.inState batch Stage.revealing.source).head?) :=
          primaries_notePrimary hmoved _
        rw [hnoted, hnames]
        rfl
      · rw [Stage.stateOf?_shift _ hbatch]
        exact if_pos hmem
  · exact .inl (uniqueNames_eq_of_operations hlog)

/-- A batch carries at most one name as the unique one, and none if a primary name is known. -/
theorem Carried.uniqueNames (h : Carried batch stages log r later r' step) (hbatch : batch.Nodup)
    (hkept : r.IsKept) :
    later.uniqueNames = log.uniqueNames ∨
      ∃ name, r.primary = none ∧ later.uniqueNames = log.uniqueNames ++ [name] ∧
        r'.Settles name step := by
  have hpreorder {log later : Log} {r r' : UsernameRegistration} {step : Step}
      (h : Stage.preordering.Ends batch log r later r' step) :=
    h.uniqueNames_eq (by rintro r names o ⟨rfl⟩; rfl)
  have hconfirm {log later : Log} {r r' : UsernameRegistration} {step : Step}
      (h : Stage.confirming.Ends batch log r later r' step) :=
    h.uniqueNames_eq (by rintro r names o ⟨⟩)
  have hregister {log later : Log} {r r' : UsernameRegistration} {step : Step}
      (h : Stage.registering.Ends batch log r later r' step) :=
    h.uniqueNames_eq (by rintro r names o ⟨⟩)
  cases h with
  | stopped h₁ => exact .inl (hpreorder h₁)
  | @passed _ _ _ log₁ _ _ r₁ _ _ h₁ h =>
  have hlog₁ := hpreorder h₁
  obtain ⟨hkept₁, -⟩ := h₁.kept hbatch hkept
  cases h with
  | stopped h₂ => exact .inl ((hconfirm h₂).trans hlog₁)
  | @passed _ _ _ log₂ _ _ r₂ _ _ h₂ h =>
  have hlog₂ := (hconfirm h₂).trans hlog₁
  obtain ⟨hkept₂, -⟩ := h₂.kept hbatch hkept₁
  have hprimaries₂ : r₂.primaries = r.primaries :=
    (h₂.primaries_eq fun _ _ => rfl).trans (h₁.primaries_eq fun _ _ => rfl)
  have hprimary₂ : r₂.primary = r.primary := congrArg Prod.fst hprimaries₂
  cases h with
  | stopped h₃ hstep =>
    rcases h₃.revealing_primaries hbatch hkept₂ with
      hlog | ⟨name, -, hnone, hlog, rfl | rfl, hprimaries, -⟩
    · exact .inl (hlog.trans hlog₂)
    · exact absurd rfl hstep
    · exact .inr ⟨name, hprimary₂ ▸ hnone, by rw [hlog, hlog₂], congrArg Prod.snd hprimaries⟩
  | passed h₃ h =>
  have h₄ := h.ends
  rcases h₃.revealing_primaries hbatch hkept₂ with
    hlog₃ | ⟨name, hname, hnone, hlog₃, -, hprimaries, hstate⟩
  · exact .inl ((hregister h₄).trans (hlog₃.trans hlog₂))
  · obtain ⟨hlog₄, hsettles⟩ := h₄.registering_settles hprimaries hname hstate
    exact .inr ⟨name, hprimary₂ ▸ hnone, by rw [hlog₄, hlog₃, hlog₂], hsettles⟩

end Stages

section Unique

theorem HasUnique.notePrimary (h : r.HasUnique) (hnames : names ≠ []) :
    (r.notePrimary names).HasUnique := by
  cases hprimary : r.primary with
  | none =>
    obtain ⟨-, hpending⟩ := Prod.mk.inj (primaries_notePrimary hprimary names)
    obtain ⟨name, rest, rfl⟩ := List.exists_cons_of_ne_nil hnames
    exact .inr (by rw [hpending]; rfl)
  | some name => simpa [UsernameRegistration.notePrimary, hprimary] using h

theorem HasUnique.settlePrimary (h : r.HasUnique) : r.settlePrimary.HasUnique := by
  cases hprimary : r.primary with
  | none =>
    obtain ⟨hsettled, -⟩ := Prod.mk.inj (primaries_settlePrimary hprimary)
    have hpending : r.pendingPrimary.isSome := by simpa [HasUnique, hprimary] using h
    exact .inl (by rw [hsettled]; exact hpending)
  | some name => simpa [UsernameRegistration.settlePrimary, hprimary] using h

theorem HasUnique.finish {stage : Stage} (h : r.HasUnique) (hstage : stage ∈ stages)
    (hnames : names ≠ []) : (stage.finish names r).HasUnique := by
  simp only [stages, List.mem_cons, List.not_mem_nil, or_false] at hstage
  rcases hstage with rfl | rfl | rfl | rfl
  · exact h
  · exact h
  · exact h.notePrimary hnames
  · exact h.settlePrimary

/-- Only a timeout clears the pending name. -/
theorem Carried.hasUnique {rest : List Stage} (h : Carried batch rest log r later r' step)
    (hrest : rest ⊆ stages) (hstep : step.timesOut = false) (hunique : r.HasUnique) :
    r'.HasUnique := by
  have hend {stage : Stage} {log later : Log} {r r' : UsernameRegistration} {step : Step}
      (hstage : stage ∈ stages) (h : stage.Ends batch log r later r' step)
      (hstep : step.timesOut = false) (hunique : r.HasUnique) : r'.HasUnique := by
    rcases h.moved_or_kept_or_expired with
      ⟨now, rfl, hsome, -⟩ | ⟨-, ⟨rfl, -⟩ | ⟨now, late, -, rfl⟩⟩
    · have hmoved : (r.advance (r.inState batch stage.source) stage.target now).HasUnique := hunique
      exact hmoved.finish hstage hsome
    · exact hunique
    · cases hstep
  induction h with
  | finished => exact hunique
  | stopped hstopped _ => exact hend (hrest List.mem_cons_self) hstopped hstep hunique
  | passed hpassed _ ih =>
    obtain ⟨hstage, hlater⟩ := List.cons_subset.mp hrest
    exact ih hlater hstep (hend hstage hpassed rfl hunique)

variable [Suite] {documents : List Document} {now : Timestamp}

theorem primaries_adopt (r : UsernameRegistration) (d : Document) (now : Timestamp) :
    (r.adopt d now).2.pendingPrimary = r.pendingPrimary ∧
    (r.primary.isSome → (r.adopt d now).2.primary.isSome) := by
  have hmark (record : DomainRecord) (name : String) :
      (r.mark record name).pendingPrimary = r.pendingPrimary ∧
        (r.primary.isSome → (r.mark record name).primary.isSome) := by
    unfold mark
    split
    · exact ⟨rfl, fun _ => rfl⟩
    · exact ⟨rfl, id⟩
  cases hd : d.listed? with
  | none =>
    rw [adopt_unlisted hd]
    exact ⟨rfl, id⟩
  | some listed =>
    obtain ⟨label, salt, record⟩ := listed
    rw [adopt_listed hd]
    split
    · exact hmark record label.fullName
    · exact hmark record label.fullName

theorem HasUnique.adoptAll (h : r.HasUnique) : (r.adoptAll documents now).2.HasUnique := by
  apply adoptAll_keeps h
  intro s d _ hs
  obtain ⟨hpending, hprimary⟩ := s.primaries_adopt d now
  exact hs.imp hprimary fun hsome => hpending ▸ hsome

theorem Recovery.hasUnique {result : Except RegistrationError (List String)}
    (h : Recovery log r later r' result) (hunique : r.HasUnique) : r'.HasUnique := by
  cases h with
  | unanswered => exact hunique
  | answered documents now => exact hunique.adoptAll

theorem Course.primary_isSome {start : UsernameRegistration} (h : Course start log r)
    (hstart : start.primary.isSome) : r.primary.isSome := by
  induction h with
  | begun => exact hstart
  | idle _ _ ih => exact ih
  | enlisted _ _ _ _ _ ih => exact ih
  | preordered _ _ _ _ _ _ ih => exact ih
  | confirmed _ _ _ _ _ _ ih => exact ih
  | revealed _ _ _ _ _ _ ih =>
    rw [primary_notePrimary]
    exact ih
  | @registered log r names now _ _ _ ih =>
    have hsome : (r.advance names .registered now).primary.isSome := ih
    rwa [primary_settlePrimary hsome]
  | expired _ _ _ ih => exact ih
  | adopted _ _ _ _ ih => exact (primaries_adopt _ _ _).2 ih

theorem Offers.leads {t : Transition} (h : r.Offers names t) : r.Leads t.operation := by
  cases h with
  | preorder => exact trivial
  | reveal => exact r.leads_revealOf names

end Unique

variable [Suite] {start first : UsernameRegistration} {labels : List Label} {es : Log}
  {schedule? : Option Schedule} {requests : List String} {preorder domain : Schedule}
  {result : Except RegistrationError (Option UsernameOutcome)}

def Lasts (result : Except RegistrationError (Option UsernameOutcome)) : Prop :=
  ∀ late, result ≠ .ok (some (.timedOut late))

inductive LastingCalls (first : UsernameRegistration) : Log → UsernameRegistration → Prop where
  | begun : LastingCalls first [] first
  | registered {log es : Log} {r r' : UsernameRegistration} {schedule? : Option Schedule}
      {requests : List String} {result : Except RegistrationError (Option UsernameOutcome)}
      (h : LastingCalls first log r)
      (hrun : Task.Reaches (register schedule? requests r) es (.done r' result))
      (hlasts : Lasts result) : LastingCalls first (log ++ es) r'
  | recovered {log es : Log} {r r' : UsernameRegistration}
      {result : Except RegistrationError (List String)} (h : LastingCalls first log r)
      (hrun : Task.Reaches (recover r) es (.done r' result)) : LastingCalls first (log ++ es) r'

/-- Calls that follow submit no name as the unique one. -/
def NoneFollows (r : UsernameRegistration) : Prop :=
  ∀ later r' schedule? requests es work, Calls r later r' →
    Task.Reaches (register schedule? requests r') es work →
    ∀ t ∈ Log.submitted (later ++ es), t.operation.uniqueNames = []

/-- Until a call times out, only a call that begins while a name is pending submits one as the unique
one. -/
def NoneFollowsUnlessPending (r : UsernameRegistration) : Prop :=
  ∀ later r' schedule? requests es work, LastingCalls r later r' →
    Task.Reaches (register schedule? requests r') es work →
    ∀ t ∈ Log.submitted es, t.operation.uniqueNames ≠ [] →
      r'.primary = none ∧ r'.pendingPrimary.isSome

/-- What has become of a name that a call carried as the unique one. -/
def Fate (r' : UsernameRegistration) (name : String) :
    Except RegistrationError (Option UsernameOutcome) → Prop
  | .ok (some (.completed _)) => r'.primary = some name ∧ NoneFollows r'
  | .ok none => r'.pendingPrimary = some name ∧ NoneFollowsUnlessPending r'
  | .ok (some (.timedOut _)) => r'.pendingPrimary = none
  | _ => False

theorem noneFollows (h : r.primary.isSome) : NoneFollows r := by
  intro later r' schedule? requests es work hcalls hrun t ht
  obtain ⟨before, answer, after, hsplit⟩ := Log.split_of_submitted ht
  obtain ⟨s, names, hcourse, hoffers⟩ := hcalls.offers_underway hrun hsplit
  exact hoffers.leads.uniqueNames_eq_nil (hcourse.primary_isSome h)

theorem Registers.hasUnique {outcome : Option UsernameOutcome}
    (h : Registers start labels log r later r' outcome) (hlasts : Lasts (.ok outcome))
    (hunique : r.HasUnique) : r'.HasUnique := by
  cases h with
  | @intro found formedLog later looked formed r' batch step hlooked _ _ henlisted _ _ hcarried =>
    have hlooked : looked.HasUnique := by
      unfold Looked at hlooked
      split at hlooked
      · obtain ⟨answer, hrecovery⟩ := hlooked
        exact hrecovery.hasUnique hunique
      · rwa [hlooked.2]
    have hformed : formed.HasUnique := by
      obtain ⟨hprimary, hpending⟩ := Prod.mk.inj henlisted.primaries_eq
      unfold HasUnique
      rwa [hprimary, hpending]
    refine hcarried.hasUnique (List.Subset.refl _) ?_ hformed
    cases step with
    | stop outcome =>
      cases outcome with
      | timedOut late => exact absurd rfl (hlasts late)
      | _ => rfl
    | _ => rfl

theorem Answers.hasUnique (h : Answers start preorder domain requests log r later r' result)
    (hlasts : Lasts result) (hunique : r.HasUnique) : r'.HasUnique := by
  unfold Answers at h
  split at h
  · obtain ⟨-, -, rfl⟩ := h
    exact hunique
  · obtain ⟨outcome, rfl, hregisters⟩ := h
    exact hregisters.hasUnique hlasts hunique

theorem LastingCalls.hasUnique (h : LastingCalls first log r) (hunique : first.HasUnique) :
    r.HasUnique := by
  induction h with
  | begun => exact hunique
  | @registered log es r r' schedule? requests result _ hrun hlasts ih =>
    have hbegun : Course r [] r := .begun
    obtain ⟨-, hanswers⟩ := (meets_register schedule? requests hbegun).reaches hrun
    exact hanswers.hasUnique hlasts ih
  | @recovered log es r r' result _ hrun ih =>
    have hmeets : r.recover.Meets (fun _ _ _ => True) (Recovery [] r) [] :=
      meets_recover (fun _ _ _ _ => trivial) fun _ _ => trivial
    exact (hmeets.reaches hrun).hasUnique ih

theorem noneFollowsUnlessPending (h : r.HasUnique) : NoneFollowsUnlessPending r := by
  intro later r' schedule? requests es work hcalls hrun t ht hnames
  rcases hcalls.hasUnique h with hprimary | hpending
  · exact absurd (noneFollows hprimary _ _ _ _ _ _ .begun hrun t ht) hnames
  · cases hprimary : r'.primary with
    | none => exact ⟨rfl, hpending⟩
    | some name =>
      have hsome : r'.primary.isSome := by rw [hprimary]; rfl
      exact absurd (noneFollows hsome _ _ _ _ _ _ .begun hrun t ht) hnames

theorem Settles.fate {name : String} (h : r'.Settles name step) (reported : List String) :
    r'.Fate name (.ok (step.outcome reported)) := by
  cases step with
  | proceed =>
    have hprimary : r'.primary = some name := h
    exact ⟨hprimary, noneFollows (by rw [hprimary]; rfl)⟩
  | paused =>
    have hpending : r'.pendingPrimary = some name := h
    exact ⟨hpending, noneFollowsUnlessPending (.inr (by rw [hpending]; rfl))⟩
  | stop outcome =>
    obtain ⟨htimedOut, hcleared⟩ : outcome.isTimedOut ∧ r'.pendingPrimary = none := h
    cases outcome with
    | timedOut late => exact hcleared
    | completed => cases htimedOut
    | failed => cases htimedOut

theorem Registers.uniqueNames {outcome : Option UsernameOutcome}
    (h : Registers start labels log r later r' outcome) (hkept : start.IsKept)
    (hnodup : (labels.map Label.fullName).Nodup) :
    later.uniqueNames = log.uniqueNames ∨
      ∃ name, later.uniqueNames = log.uniqueNames ++ [name] ∧ r'.Fate name (.ok outcome) := by
  cases h with
  | @intro found formedLog later looked formed r' batch step hlooked _ hformed henlisted _ _ hcarried =>
    have hbatch : batch.Nodup := henlisted.nodup hnodup
    have hspares : Log.Spares log formedLog := hlooked.spares.trans henlisted.spares
    have hlog := uniqueNames_eq_of_operations hspares.operations
    rcases hcarried.uniqueNames hbatch (hformed.isKept hkept) with
      hsame | ⟨name, -, hnames, hsettles⟩
    · exact .inl (hsame.trans hlog)
    · exact .inr ⟨name, by rw [hnames, hlog], hsettles.fate _⟩

/-- At most one name is carried as the unique one, as far as batches do not time out. What is submitted
carries its first name so if there is neither a primary name nor a pending one at that moment, and as a
further one if there is a primary name; it carries no other name so. A call carries one name so at most:
if it is completed, the name is the primary one and none follows; if it is paused, the name is pending,
and none follows from a call that does not begin while a name is pending; if it times out, the name is
given up. -/
theorem register_carries_one_unique {owner : IdentityId} {key : SecretKey} {settings : Settings}
    (hcreate : create owner key settings = .ok first) (hcalls : Calls first log r)
    {work : Task UsernameRegistration (Except RegistrationError (Option UsernameOutcome))}
    (hrun : Task.Reaches (register schedule? requests r) es work) :
    (∀ s t next, work = .ask s (.submit t) next → s.Leads t.operation) ∧
    (r.primary.isSome → NoneFollows r) ∧
    ∀ r' result, work = .done r' result →
      Log.uniqueNames es = [] ∨ ∃ name, Log.uniqueNames es = [name] ∧ r'.Fate name result := by
  have hkept : r.IsKept := hcalls.course.isKept (isKept_of_create hcreate)
  have hbegun : Course r [] r := .begun
  have hmeets := (meets_register schedule? requests hbegun).reaches hrun
  refine ⟨?_, noneFollows, ?_⟩
  · rintro s t next rfl
    obtain ⟨⟨-, names, hoffers⟩, -⟩ := hmeets
    exact hoffers.leads
  · rintro r' result rfl
    obtain ⟨-, hanswers⟩ := hmeets
    unfold Answers at hanswers
    split at hanswers
    · obtain ⟨-, rfl, -⟩ := hanswers
      exact .inl rfl
    next labels hread =>
      obtain ⟨outcome, rfl, hregisters⟩ := hanswers
      exact hregisters.uniqueNames hkept (readBatch_eq_ok hread).2

end UsernameRegistration

namespace Sample

/-- A call whose name is revealed and never shown. -/
def lapsed : Log × UsernameRegistration × Except RegistrationError (Option UsernameOutcome) :=
  (UsernameRegistration.register (some (.linear 1 0)) ["alice"] registration).play
    (oracle (.ok ⟨.zero⟩) none (unnamed identity)) []

/-- A call for another name after that. -/
def relapsed : Log × UsernameRegistration × Except RegistrationError (Option UsernameOutcome) :=
  (UsernameRegistration.register (some (.linear 1 0)) ["Bob"] lapsed.2.1).play
    (oracle (.ok ⟨.zero⟩) none (unnamed identity)) []

def extended : Log × UsernameRegistration × Except RegistrationError (Option UsernameOutcome) :=
  (UsernameRegistration.register none ["Bob"] registered.2.1).play
    (oracle (.ok ⟨.zero⟩) none (shown bob)) []

theorem reaches_lapsed :
    Task.Reaches (UsernameRegistration.register (some (.linear 1 0)) ["alice"] registration)
      lapsed.1 (.done lapsed.2.1 lapsed.2.2) := by
  unfold lapsed
  exact Task.reaches_play _ _ _

theorem reaches_relapsed :
    Task.Reaches (UsernameRegistration.register (some (.linear 1 0)) ["Bob"] lapsed.2.1)
      relapsed.1 (.done relapsed.2.1 relapsed.2.2) := by
  unfold relapsed
  exact Task.reaches_play _ _ _

theorem reaches_extended :
    Task.Reaches (UsernameRegistration.register none ["Bob"] registered.2.1) extended.1
      (.done extended.2.1 extended.2.2) := by
  unfold extended
  exact Task.reaches_play _ _ _

end Sample

open Sample UsernameRegistration

/-- A name that is registered makes the one that is requested next a further one. -/
theorem UsernameRegistration.register_carries_one_unique_alice :
    create identity signingKey .default = .ok registration ∧
      Log.uniqueNames registered.1 = [alice.fullName] ∧
      registered.2.1.primary = some alice.fullName ∧
      (extended.1.revealed.map Prod.fst = [bob.fullName] ∧
        ∀ t ∈ Log.submitted extended.1, t.operation.uniqueNames = []) := by
  have hcreate : create identity signingKey .default = .ok registration := rfl
  have hnames : Log.uniqueNames registered.1 = [alice.fullName] := by decide +kernel
  have hresult : registered.2.2 = .ok (some (.completed ["alice"])) := by decide +kernel
  have hrevealed : extended.1.revealed.map Prod.fst = [bob.fullName] := by decide +kernel
  obtain ⟨-, -, hends⟩ := register_carries_one_unique hcreate .begun reaches_registered
  have hfate := hends _ _ rfl
  rw [hresult] at hfate
  rcases hfate with hnone | ⟨name, hname, hprimary, hfollows⟩
  · simp [hnone] at hnames
  · obtain rfl : alice.fullName = name := by simpa [hnames] using hname
    have hfurther := hfollows [] _ _ _ _ _ .begun reaches_extended
    rw [List.nil_append] at hfurther
    exact ⟨hcreate, hnames, hprimary, hrevealed, hfurther⟩

/-- Names whose batches time out one after the other are both carried as the unique one. -/
theorem UsernameRegistration.two_uniques_after_timeout :
    create identity signingKey .default = .ok registration ∧
      Calls registration ([] ++ lapsed.1 ++ relapsed.1) relapsed.2.1 ∧
      lapsed.2.2 = .ok (some (.timedOut ["alice"])) ∧
      Log.uniqueNames ([] ++ lapsed.1 ++ relapsed.1) = ["alice.dash", "bob.dash"] := by
  refine ⟨rfl, (Calls.begun.registered reaches_lapsed).registered reaches_relapsed, ?_, ?_⟩
  · decide +kernel
  · decide +kernel

end Enrolment
