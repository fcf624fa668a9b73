import Enrolment.Proofs.Usernames.PrimaryName

/-!
What completed calls leave. As long as every call is completed, every claim of a registration is
registered, no name is revealed twice, every name that the platform has accepted is a claim under the
salt that it was revealed with, and the one that was carried as the unique one is primary.
-/

namespace Enrolment

/-- The names that an operation reveals. -/
def Operation.entries : Operation → List DomainEntry
  | registerDomains _ domains => domains
  | _ => []

/-- The names that the platform accepted, as they were revealed. -/
def Log.entries (log : Log) : List DomainEntry := log.operations.flatMap Operation.entries

@[simp] theorem Log.entries_append (first second : Log) :
    Log.entries (first ++ second) = first.entries ++ second.entries := by
  simp [Log.entries]

theorem Log.entries_eq_of_operations {log later : Log} (h : later.operations = log.operations) :
    later.entries = log.entries := congrArg (·.flatMap Operation.entries) h

/-- A name that is carried as the unique one is revealed as such. -/
theorem Log.mem_uniqueNames {log : Log} {name : String} :
    name ∈ log.uniqueNames ↔
      ∃ e ∈ log.entries, e.record.isUnique ∧ e.toLabel.fullName = name := by
  have hoperation (o : Operation) : name ∈ o.uniqueNames ↔
      ∃ e ∈ o.entries, e.record.isUnique ∧ e.toLabel.fullName = name := by
    cases o <;> simp [Operation.uniqueNames, Operation.entries, and_assoc]
  simp only [Log.uniqueNames, Log.entries, List.mem_flatMap, hoperation]
  constructor
  · rintro ⟨o, ho, e, he, hname⟩
    exact ⟨e, ⟨o, ho, he⟩, hname⟩
  · rintro ⟨e, ⟨o, ho, he⟩, hname⟩
    exact ⟨o, ho, e, he, hname⟩

namespace UsernameRegistration

variable {r r' : UsernameRegistration} {log later es : Log} {batch names : List String}
  {name : String} {step : Step} {c : Claim}

section Secrets

/-- What a claim on a name keeps to itself until it is revealed: its label and its salt. -/
def secretOf? (r : UsernameRegistration) (name : String) : Option (Label × Salt) :=
  (r.find? name).map fun c => (c.label, c.salt)

theorem secretOf?_advance (hnames : names.Nodup) (target : ClaimState) (now : Timestamp) :
    (r.advance names target now).secretOf? name = r.secretOf? name := by
  have hmoved (c : Claim) : ((c.moved target now).label, (c.moved target now).salt) =
      (c.label, c.salt) := by
    rcases c.moved_cases target now with heq | ⟨-, heq⟩
    · rw [heq]
    · rw [heq, Claim.label_enter, Claim.salt_enter]
  unfold secretOf?
  rw [find?_advance hnames]
  split
  · rw [Option.map_map]
    exact congrArg (Option.map · _) (funext hmoved)
  · rfl

theorem secretOf?_expire (hbatch : batch.Nodup) (now : Timestamp) :
    (r.expire batch now).secretOf? name = r.secretOf? name := by
  have hexpired (c : Claim) : ((c.expire now).label, (c.expire now).salt) = (c.label, c.salt) := by
    rcases c.expire_cases now with ⟨heq, -⟩ | ⟨-, heq⟩
    · rw [heq]
    · rw [heq, Claim.label_enter, Claim.salt_enter]
  unfold secretOf?
  rw [find?_expire hbatch]
  split
  · rw [Option.map_map]
    exact congrArg (Option.map · _) (funext hexpired)
  · rfl

/-- No stage changes the secret of a claim. -/
theorem Stage.Ends.secretOf?_eq {stage : Stage} (h : stage.Ends batch log r later r' step)
    (hbatch : batch.Nodup) (name : String) : r'.secretOf? name = r.secretOf? name := by
  rcases h.moved_or_kept_or_expired with ⟨now, rfl, -⟩ | ⟨-, ⟨rfl, -⟩ | ⟨now, late, rfl, -⟩⟩
  · unfold Stage.shift
    rw [secretOf?, stage.find?_finish]
    exact secretOf?_advance (nodup_inState hbatch _) _ now
  · rfl
  · exact secretOf?_expire hbatch now

end Secrets

variable [Suite] {start : UsernameRegistration}

/-- A registered claim stays as it is. -/
theorem Course.find?_registered (h : Course start log r) (hc : start.find? name = some c)
    (hregistered : c.state = .registered) : r.find? name = some c := by
  have hfinal : c.state.isFinal = true := by
    rw [hregistered]
    rfl
  have hadvance {r : UsernameRegistration} {names : List String} (hfound : r.find? name = some c)
      (hnames : names.Nodup) (target : ClaimState) (now : Timestamp) :
      (r.advance names target now).find? name = some c := by
    rw [find?_advance hnames, hfound, Option.map_some, Claim.moved_of_isFinal hfinal]
    exact ite_self _
  induction h with
  | begun => exact hc
  | idle _ _ ih => exact ih
  | @enlisted log r label salt now _ _ hstate ih =>
    rw [find?_put]
    split
    next hname =>
      obtain rfl : name = label.fullName := hname
      rw [stateOf?, ih, Option.map_some, hregistered] at hstate
      simp at hstate
    next => exact ih
  | preordered _ _ now _ hnames _ ih => exact hadvance ih hnames _ now
  | confirmed now _ hnames _ _ _ ih => exact hadvance ih hnames _ now
  | revealed _ _ now _ hnames _ ih =>
    rw [find?_notePrimary]
    exact hadvance ih hnames _ now
  | registered now _ hnames _ ih =>
    rw [find?_settlePrimary]
    exact hadvance ih hnames _ now
  | expired now _ hbatch ih =>
    rw [find?_expire hbatch, ih, Option.map_some, Claim.expire_of_isFinal hfinal]
    exact ite_self _
  | @adopted log r d _ now _ _ _ ih =>
    rcases r.find?_adopt_cases d now name with hsame | ⟨hstate, -⟩
    · exact hsame.trans ih
    · exact absurd (stateOf?_eq_some.mpr ⟨c, ih, hregistered⟩) hstate

/-- Claims are revealed under their names and with their secrets. -/
theorem IsKept.secretOf?_of_mem_entries (h : r.IsKept) {e : DomainEntry}
    (he : e ∈ r.entries (r.claimsOn names)) :
    e.toLabel.fullName ∈ names ∧ r.secretOf? e.toLabel.fullName = some (e.toLabel, e.salt) := by
  obtain ⟨c, hclaim, hlabel, hsalt⟩ := mem_entries he
  obtain ⟨name, hname, hc⟩ := mem_claimsOn.mp hclaim
  obtain rfl : c.label.fullName = name := (h name c hc).named
  rw [hlabel, hsalt, secretOf?, hc]
  exact ⟨hname, rfl⟩

/-- A batch that proceeds reveals some of its names, each once and with the secret that its claim has in
the end. -/
theorem Carried.reveals (h : Carried batch stages log r later r' .proceed) (hbatch : batch.Nodup)
    (hkept : r.IsKept) :
    ∃ revealed : List DomainEntry, later.entries = log.entries ++ revealed ∧
      (revealed.map fun e => e.toLabel.fullName).Nodup ∧
      ∀ e ∈ revealed, e.toLabel.fullName ∈ batch ∧
        r'.secretOf? e.toLabel.fullName = some (e.toLabel, e.salt) := by
  cases h with
  | stopped _ hstep => exact absurd rfl hstep
  | @passed _ _ _ log₁ _ _ r₁ _ _ h₁ h =>
  obtain ⟨hkept₁, -⟩ := h₁.kept hbatch hkept
  have hlog₁ : log₁.entries = log.entries :=
    h₁.flatMap_operations_eq (by rintro r names o ⟨rfl⟩; rfl)
  cases h with
  | stopped _ hstep => exact absurd rfl hstep
  | @passed _ _ _ log₂ _ _ r₂ _ _ h₂ h =>
  obtain ⟨hkept₂, -⟩ := h₂.kept hbatch hkept₁
  have hlog₂ : log₂.entries = log.entries :=
    (h₂.flatMap_operations_eq (by rintro r names o ⟨⟩)).trans hlog₁
  cases h with
  | stopped _ hstep => exact absurd rfl hstep
  | @passed _ _ _ log₃ _ _ r₃ _ _ h₃ h =>
  have h₄ := h.ends
  have hlog₄ : later.entries = log₃.entries :=
    h₄.flatMap_operations_eq (by rintro r names o ⟨⟩)
  rcases h₃.moved_or_kept_or_expired with ⟨now, -, -, -, hlog₃⟩ | ⟨hlog₃, -⟩
  · obtain ⟨hnames, -⟩ := Stage.revealing.found r₂ hbatch
    have hfull : ((r₂.entries (r₂.claimsOn (r₂.inState batch Stage.revealing.source))).map
        fun e => e.toLabel.fullName) =
          (r₂.claimsOn (r₂.inState batch Stage.revealing.source)).map fun c => c.label.fullName :=
      r₂.map_entries _ fun _ _ => rfl
    refine ⟨r₂.entries (r₂.claimsOn (r₂.inState batch Stage.revealing.source)), ?_, ?_, ?_⟩
    · rw [hlog₄, Log.entries, hlog₃, List.flatMap_append, ← Log.entries, hlog₂]
      exact congrArg (log.entries ++ ·) (List.flatMap_singleton ..)
    · rw [hfull]
      exact nodup_fullNames hkept₂ hnames
    · intro e he
      obtain ⟨hname, hsecret⟩ := hkept₂.secretOf?_of_mem_entries he
      rw [h₄.secretOf?_eq hbatch, h₃.secretOf?_eq hbatch]
      exact ⟨(mem_inState.mp hname).1, hsecret⟩
  · refine ⟨[], ?_, List.nodup_nil, fun e he => absurd he List.not_mem_nil⟩
    rw [hlog₄, Log.entries_eq_of_operations hlog₃, hlog₂, List.append_nil]

/-- What is true of a registration whose calls were all completed, and of what they exchanged. -/
structure IsSettled (log : Log) (r : UsernameRegistration) : Prop where
  kept : r.IsKept
  registered : ∀ name state, r.stateOf? name = some state → state = .registered
  backed : ∀ e ∈ log.entries, r.secretOf? e.toLabel.fullName = some (e.toLabel, e.salt)
  nodup : (log.entries.map fun e => e.toLabel.fullName).Nodup
  unique : ∀ name ∈ log.uniqueNames, r.primary = some name

theorem isSettled_of_create {owner : IdentityId} {key : SecretKey} {settings : Settings}
    {first : UsernameRegistration} (h : create owner key settings = .ok first) :
    IsSettled [] first := by
  refine ⟨isKept_of_create h, ?_, ?_, List.nodup_nil, ?_⟩
  · obtain rfl := create_eq_ok h
    intro name state hstate
    cases hstate
  · exact fun e he => absurd he List.not_mem_nil
  · exact fun name hname => absurd hname List.not_mem_nil

variable {labels : List Label} {reported : List String} {outcome : Option UsernameOutcome}

/-- A settled registration asks the platform for no listed names before it works on a batch. -/
theorem IsSettled.looked_eq {found : Log} {looked : UsernameRegistration} (h : IsSettled log r)
    (hlooked : Looked labels es r found looked) : found = es ∧ looked = r := by
  have hnone : ¬(labels.any fun l => r.stateOf? l.fullName = some .timedOut) = true := by
    intro hany
    obtain ⟨l, -, hstate⟩ := List.any_eq_true.mp hany
    cases h.registered _ _ (of_decide_eq_true hstate)
  rwa [Looked, if_neg hnone] at hlooked

/-- A settled registration has no claims on the names of a batch. -/
theorem IsSettled.not_mem_openLabels (h : IsSettled log r) (hc : r.find? name = some c) :
    name ∉ (r.openLabels labels).map Label.fullName := by
  intro hmem
  obtain ⟨-, hopen⟩ := mem_map_openLabels.mp hmem
  have hstate : r.stateOf? name = some c.state := congrArg (Option.map Claim.state) hc
  exact hopen (hstate.trans (congrArg some (h.registered name _ hstate)))

/-- A batch that proceeds leaves a settled registration settled. -/
theorem IsSettled.carried {formedLog later : Log} {formed : UsernameRegistration}
    (h : IsSettled log r) (hcourse : Course r later r') (hformed : Course r formedLog formed)
    (henlisted : Enlisted labels [] r formedLog formed batch)
    (hnodup : (labels.map Label.fullName).Nodup)
    (hcarried : Carried batch stages formedLog formed later r' .proceed)
    (hregistered : ∀ name ∈ batch, r'.stateOf? name = some .registered) :
    IsSettled (log ++ later) r' := by
  have hbatch : batch.Nodup := henlisted.nodup hnodup
  have hkept : formed.IsKept := hformed.isKept h.kept
  have hformedLog : Log.entries formedLog = [] :=
    Log.entries_eq_of_operations henlisted.spares.operations
  have hold (e : DomainEntry) (he : e ∈ log.entries) :
      e.toLabel.fullName ∉ batch ∧ r'.secretOf? e.toLabel.fullName = some (e.toLabel, e.salt) := by
    obtain ⟨c, hc, hsecret⟩ := Option.map_eq_some_iff.mp (h.backed e he)
    have hstate := h.registered _ _ (stateOf?_eq_some.mpr ⟨c, hc, rfl⟩)
    constructor
    · rw [henlisted.batch_eq]
      exact h.not_mem_openLabels hc
    · rw [secretOf?, hcourse.find?_registered hc hstate, Option.map_some, hsecret]
  obtain ⟨revealed, hentries, hrevealed, hbacked⟩ := hcarried.reveals hbatch hkept
  rw [hformedLog, List.nil_append] at hentries
  refine ⟨hcourse.isKept h.kept, ?_, ?_, ?_, ?_⟩
  · intro name state hstate
    by_cases hmem : name ∈ batch
    · exact Option.some.inj (hstate.symm.trans (hregistered name hmem))
    · rw [hcarried.stateOf?_eq hbatch hmem, henlisted.stateOf?_eq, if_neg hmem] at hstate
      exact h.registered name state hstate
  · intro e he
    rw [Log.entries_append, hentries] at he
    rcases List.mem_append.mp he with hbefore | hnew
    · exact (hold e hbefore).2
    · exact (hbacked e hnew).2
  · rw [Log.entries_append, hentries, List.map_append]
    apply h.nodup.append hrevealed
    intro name hbefore hnew
    obtain ⟨e, he, rfl⟩ := List.mem_map.mp hbefore
    obtain ⟨e', he', hsame⟩ := List.mem_map.mp hnew
    exact (hold e he).1 (hsame ▸ (hbacked e' he').1)
  · intro name hname
    rw [uniqueNames_append] at hname
    have hprimary : formed.primary = r.primary := congrArg Prod.fst henlisted.primaries_eq
    have hnames : Log.uniqueNames formedLog = [] :=
      uniqueNames_eq_of_operations henlisted.spares.operations
    rcases hcarried.uniqueNames hbatch hkept with hsame | ⟨new, hnone, hlog, hsettles⟩
    · rw [hsame, hnames, List.append_nil] at hname
      exact hcarried.primary_eq (List.Subset.refl _) (hprimary.trans (h.unique name hname))
    · rw [hlog, hnames, List.nil_append] at hname
      rcases List.mem_append.mp hname with hbefore | hnew
      · rw [hprimary, h.unique name hbefore] at hnone
        cases hnone
      · rw [List.mem_singleton.mp hnew]
        exact hsettles

/-- A completed call leaves a settled registration settled. -/
theorem IsSettled.registers (h : IsSettled log r) (hcourse : Course r es r')
    (hregisters : Registers r labels [] r es r' outcome)
    (hcompleted : outcome = some (.completed reported)) (hlabels : ∀ l ∈ labels, l.IsReadable)
    (hnodup : (labels.map Label.fullName).Nodup) : IsSettled (log ++ es) r' := by
  cases hregisters with
  | @intro found formedLog later looked formed r' batch step hlooked _ hformed henlisted _ _ hcarried =>
  obtain ⟨rfl, rfl⟩ := h.looked_eq hlooked
  -- only a batch that proceeds makes a completed call
  cases henlisted.batchEnds (hformed.isKept h.kept) hlabels hnodup hcarried with
  | completed hall => exact h.carried hcourse hformed henlisted hnodup hcarried hall
  | timedOut => cases hcompleted
  | failed => cases hcompleted
  | paused => cases hcompleted

/-- Calls to register names that are all completed leave a registration settled. -/
theorem IsSettled.completed {schedule? : Option Schedule} {requests : List String}
    (h : IsSettled log r) (hrun : Task.Reaches (register schedule? requests r) es
      (.done r' (.ok (some (.completed reported))))) : IsSettled (log ++ es) r' := by
  obtain ⟨hcourse, hanswers⟩ :=
    (meets_register schedule? requests (.begun : Course r [] r)).reaches hrun
  unfold Answers at hanswers
  split at hanswers
  · obtain ⟨herror, -⟩ := hanswers
    cases herror
  next labels hread =>
    obtain ⟨outcome, hresult, hregisters⟩ := hanswers
    obtain ⟨hlabels, hnodup⟩ := readBatch_eq_ok hread
    exact h.registers hcourse hregisters (Except.ok.inj hresult).symm hlabels hnodup

end UsernameRegistration

end Enrolment
