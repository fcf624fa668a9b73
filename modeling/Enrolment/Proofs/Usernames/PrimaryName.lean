import Enrolment.Proofs.Pausing.Scheduling
import Enrolment.Proofs.Usernames.Outcomes

/-!
The claim on the primary name. A name becomes the primary one when the platform lists it as unique, or
when a call sees its batch registered and a name was pending. The pending name need not be of that
batch: a call for other names settles it too, and leaves its claim where it is. In all other cases the
claim on the primary name is registered, and stays so.
-/

namespace Enrolment

namespace UsernameRegistration

/-- A claim whose name was revealed is on record. -/
def IsRevealed (r : UsernameRegistration) (name : String) : Prop :=
  r.stateOf? name = some .domainSubmitted ∨ r.stateOf? name = some .registered

/-- The platform listed a name as the unique one of an owner. -/
def ListsUnique (owner : IdentityId) (log : Log) (name : String) : Prop :=
  ∃ documents, ⟨.findDocuments .domain (.ownedBy owner), .ok documents⟩ ∈ log ∧
    ∃ d ∈ documents, ∃ label salt record, d.listed? = some (label, salt, record) ∧
      record.isUnique ∧ label.fullName = name

variable {start r r' : UsernameRegistration} {log later : Log} {batch names : List String}
  {name : String}

theorem IsRevealed.of_stateOf? (h : r.IsRevealed name) (hsame : r'.stateOf? name = r.stateOf? name) :
    r'.IsRevealed name := by
  unfold IsRevealed
  rwa [hsame]

theorem IsRevealed.isSome (h : r.IsRevealed name) : (r.find? name).isSome := by
  rcases h with h | h
  · obtain ⟨c, hc, -⟩ := stateOf?_eq_some.mp h
    simp [hc]
  · obtain ⟨c, hc, -⟩ := stateOf?_eq_some.mp h
    simp [hc]

/-- A revealed name moves on only to be registered. -/
theorem IsRevealed.advance {source target : ClaimState} {now : Timestamp} (h : r.IsRevealed name)
    (hnames : names.Nodup) (hstate : ∀ n ∈ names, r.stateOf? n = some source)
    (hnext : source.next? = some target) : (r.advance names target now).IsRevealed name := by
  unfold IsRevealed
  rw [stateOf?_advance hnames hstate hnext]
  split
  next hname =>
    have hsource := hstate name hname
    rcases h with h | h
    · obtain rfl : .domainSubmitted = source := Option.some.inj (h.symm.trans hsource)
      exact .inr hnext.symm
    · obtain rfl : .registered = source := Option.some.inj (h.symm.trans hsource)
      cases hnext
  next => exact h

theorem ListsUnique.extend {owner : IdentityId} (h : ListsUnique owner log name)
    (hlog : log <+: later) : ListsUnique owner later name := by
  obtain ⟨documents, hmem, hlisted⟩ := h
  exact ⟨documents, hlog.subset hmem, hlisted⟩

/-- Of names that are noted the first one is pending, unless a primary name is known. -/
theorem pendingPrimary_notePrimary_cases (h : (r.notePrimary names).pendingPrimary = some name) :
    r.primary = none ∧ name ∈ names.head? ∨ r.primary.isSome ∧ r.pendingPrimary = some name := by
  cases hprimary : r.primary with
  | none => exact .inl ⟨rfl, (Prod.mk.inj (primaries_notePrimary hprimary names)).2.symm.trans h⟩
  | some primary =>
    have hkeeps : r.notePrimary names = r := by
      unfold notePrimary
      rw [if_neg (by simp [hprimary])]
    rw [hkeeps] at h
    exact .inr ⟨rfl, h⟩

theorem uniqueNames_append (first second : Log) :
    Log.uniqueNames (first ++ second) = first.uniqueNames ++ second.uniqueNames := by
  simp [Log.uniqueNames]

theorem mem_uniqueNames_append {second : Log} (h : name ∈ log.uniqueNames) :
    name ∈ Log.uniqueNames (log ++ second) := by
  rw [uniqueNames_append]
  exact List.mem_append_left _ h

section Courses

variable [Suite]

theorem IsRevealed.adopt (h : r.IsRevealed name) (d : Document) (now : Timestamp) :
    (r.adopt d now).2.IsRevealed name := by
  rcases r.stateOf?_adopt_cases d now name with hsame | hregistered
  · exact h.of_stateOf? hsame
  · exact .inr hregistered

/-- Taking up a document leaves the primary name, or makes it one that is listed as unique and whose
claim is registered from then on. -/
theorem primary_adopt_cases (r : UsernameRegistration) (d : Document) (now : Timestamp) :
    (r.adopt d now).2.primary = r.primary ∨
      ∃ label salt record, d.listed? = some (label, salt, record) ∧ record.isUnique ∧
        (r.adopt d now).2.primary = some label.fullName ∧
        (r.adopt d now).2.stateOf? label.fullName = some .registered := by
  cases hd : d.listed? with
  | none =>
    rw [adopt_unlisted hd]
    exact .inl rfl
  | some listed =>
    obtain ⟨label, salt, record⟩ := listed
    have hstate : (r.adopt d now).2.stateOf? label.fullName = some .registered :=
      stateOf?_adopt_of_listed hd
    have hprimary : (r.adopt d now).2.primary = (r.mark record label.fullName).primary := by
      rw [adopt_listed hd]
      split <;> rfl
    rw [hprimary]
    cases hunique : record.isUnique with
    | true => exact .inr ⟨label, salt, record, rfl, hunique, by simp [mark, hunique], hstate⟩
    | false => exact .inl (by simp [mark, hunique])

/-- A pending name was carried as the unique one, and its claim is at least submitted. -/
theorem Course.pending (h : Course start log r) (hkept : start.IsKept)
    (hstart : start.primaries = (none, none)) (hpending : r.pendingPrimary = some name) :
    name ∈ log.uniqueNames ∧ r.IsRevealed name := by
  induction h with
  | begun =>
    rw [(Prod.mk.inj hstart).2] at hpending
    cases hpending
  | idle _ _ ih =>
    obtain ⟨hcarried, hrevealed⟩ := ih hpending
    exact ⟨mem_uniqueNames_append hcarried, hrevealed⟩
  | @enlisted _ r label salt now _ _ hstate ih =>
    obtain ⟨hcarried, hrevealed⟩ := ih hpending
    refine ⟨mem_uniqueNames_append hcarried, hrevealed.of_stateOf? ?_⟩
    rw [stateOf?_put]
    split
    next heq =>
      have heq : name = label.fullName := heq
      rw [← heq] at hstate
      rcases hrevealed with h | h <;> simp [h] at hstate
    next => rfl
  | preordered _ _ _ _ hnames hstate ih =>
    obtain ⟨hcarried, hrevealed⟩ := ih hpending
    exact ⟨mem_uniqueNames_append hcarried, hrevealed.advance hnames hstate rfl⟩
  | confirmed _ _ hnames hstate _ _ ih =>
    obtain ⟨hcarried, hrevealed⟩ := ih hpending
    exact ⟨hcarried, hrevealed.advance hnames hstate rfl⟩
  | @revealed log r names signed receipt now hcourse hnames hstate ih =>
    rcases pendingPrimary_notePrimary_cases hpending with ⟨hprimary, hhead⟩ | ⟨-, hbefore⟩
    · have hprimary : r.primary = none := hprimary
      have hname : name ∈ names := List.mem_of_mem_head? hhead
      have hcarried : (r.revealOf names).uniqueNames = names.head?.toList := by
        rw [uniqueNames_revealOf (hcourse.isKept hkept) hstate, hprimary]
        rfl
      constructor
      · rw [uniqueNames_append]
        apply List.mem_append_right
        simpa [Log.uniqueNames, Log.operations, Log.accepted, Exchange.accepted?, Transition.sign,
          hcarried] using hhead
      · rw [IsRevealed, stateOf?_notePrimary, stateOf?_advance hnames hstate rfl, if_pos hname]
        exact .inl rfl
    · obtain ⟨hcarried, hrevealed⟩ := ih hbefore
      have hadvanced : (r.advance names .domainSubmitted now).IsRevealed name :=
        hrevealed.advance hnames hstate rfl
      exact ⟨mem_uniqueNames_append hcarried, hadvanced.of_stateOf? (stateOf?_notePrimary names)⟩
  | @registered _ r names now _ hnames hstate ih =>
    have hbefore : r.pendingPrimary = some name := by
      unfold settlePrimary at hpending
      split at hpending
      · cases hpending
      · exact hpending
    obtain ⟨hcarried, hrevealed⟩ := ih hbefore
    have hadvanced : (r.advance names .registered now).IsRevealed name :=
      hrevealed.advance hnames hstate rfl
    exact ⟨hcarried, hadvanced.of_stateOf? stateOf?_settlePrimary⟩
  | expired => cases hpending
  | @adopted _ r d _ now _ _ _ ih =>
    rw [(r.primaries_adopt d now).1] at hpending
    obtain ⟨hcarried, hrevealed⟩ := ih hpending
    exact ⟨hcarried, hrevealed.adopt d now⟩

/-- The primary name has a claim. An accepted transition carried it as the unique one, or the platform
listed it so. -/
theorem Course.primary_carried (h : Course start log r) (hkept : start.IsKept)
    (hstart : start.primaries = (none, none)) (hprimary : r.primary = some name) :
    (r.find? name).isSome ∧ (name ∈ log.uniqueNames ∨ ListsUnique r.owner log name) := by
  have hextend {first second : Log} {owner : IdentityId}
      (h : name ∈ first.uniqueNames ∨ ListsUnique owner first name) :
      name ∈ Log.uniqueNames (first ++ second) ∨ ListsUnique owner (first ++ second) name :=
    h.imp mem_uniqueNames_append fun hlisted => hlisted.extend (List.prefix_append _ _)
  induction h with
  | begun =>
    rw [(Prod.mk.inj hstart).1] at hprimary
    cases hprimary
  | idle _ _ ih =>
    obtain ⟨hclaimed, hcarried⟩ := ih hprimary
    exact ⟨hclaimed, hextend hcarried⟩
  | enlisted _ _ _ _ hstate ih =>
    obtain ⟨hclaimed, hcarried⟩ := ih hprimary
    exact ⟨(outlives_renewed hstate).isSome hclaimed, hextend hcarried⟩
  | preordered _ _ now _ _ _ ih =>
    obtain ⟨hclaimed, hcarried⟩ := ih hprimary
    exact ⟨(outlives_advance _ _ now).isSome hclaimed, hextend hcarried⟩
  | confirmed now _ _ _ _ _ ih =>
    obtain ⟨hclaimed, hcarried⟩ := ih hprimary
    exact ⟨(outlives_advance _ _ now).isSome hclaimed, hcarried⟩
  | revealed _ _ now _ _ _ ih =>
    rw [primary_notePrimary] at hprimary
    obtain ⟨hclaimed, hcarried⟩ := ih hprimary
    rw [find?_notePrimary, owner_eq_of_setup (setup_notePrimary _)]
    exact ⟨(outlives_advance _ _ now).isSome hclaimed, hextend hcarried⟩
  | @registered log r names now hcourse hnames hstate ih =>
    rw [find?_settlePrimary, owner_eq_of_setup setup_settlePrimary]
    cases hbefore : r.primary with
    | none =>
      have hsettled := primaries_settlePrimary (r := r.advance names .registered now) hbefore
      have hpending : r.pendingPrimary = some name :=
        (Prod.mk.inj hsettled).1.symm.trans hprimary
      obtain ⟨hcarried, hrevealed⟩ := hcourse.pending hkept hstart hpending
      exact ⟨(outlives_advance _ _ now).isSome hrevealed.isSome, .inl hcarried⟩
    | some primary =>
      have hsome : (r.advance names .registered now).primary.isSome := by
        change r.primary.isSome
        simp [hbefore]
      obtain ⟨hclaimed, hcarried⟩ := ih ((primary_settlePrimary hsome).symm.trans hprimary)
      exact ⟨(outlives_advance _ _ now).isSome hclaimed, hcarried⟩
  | expired now _ _ ih =>
    obtain ⟨hclaimed, hcarried⟩ := ih hprimary
    exact ⟨(outlives_expire _ now).isSome hclaimed, hcarried⟩
  | @adopted log r d documents now _ hlisted hd ih =>
    rw [owner_eq_of_setup setup_adopt]
    rcases r.primary_adopt_cases d now with
      hsame | ⟨label, salt, record, hread, hunique, hmarked, hstate⟩
    · obtain ⟨hclaimed, hcarried⟩ := ih (hsame ▸ hprimary)
      exact ⟨(outlives_adopt d now).isSome hclaimed, hcarried⟩
    · obtain rfl : label.fullName = name := Option.some.inj (hmarked.symm.trans hprimary)
      obtain ⟨c, hc, -⟩ := stateOf?_eq_some.mp hstate
      refine ⟨by simp [hc], .inr ?_⟩
      exact ⟨documents, hlisted, d, hd, label, salt, record, hread, hunique, rfl⟩

end Courses

section Stages

variable {stage : Stage} {step : Step}

/-- A stage that settles no primary name leaves it as it is. -/
theorem Stage.Ends.primary_eq (h : stage.Ends batch log r later r' step)
    (hfinish : ∀ names r, (stage.finish names r).primary = r.primary) : r'.primary = r.primary := by
  rcases h.moved_or_kept_or_expired with ⟨now, rfl, -⟩ | ⟨-, ⟨rfl, -⟩ | ⟨now, late, rfl, -⟩⟩
  · unfold Stage.shift
    rw [hfinish]
    rfl
  · rfl
  · rfl

/-- A batch keeps the primary name that is known. -/
theorem Carried.primary_eq {rest : List Stage} (h : Carried batch rest log r later r' step)
    (hrest : rest ⊆ stages) (hprimary : r.primary = some name) : r'.primary = some name := by
  have hend {stage : Stage} {log later : Log} {r r' : UsernameRegistration} {step : Step}
      (hstage : stage ∈ stages) (h : stage.Ends batch log r later r' step)
      (hprimary : r.primary = some name) : r'.primary = some name := by
    simp only [stages, List.mem_cons, List.not_mem_nil, or_false] at hstage
    rcases hstage with rfl | rfl | rfl | rfl
    · exact (h.primary_eq fun _ _ => rfl).trans hprimary
    · exact (h.primary_eq fun _ _ => rfl).trans hprimary
    · exact (h.primary_eq fun names r => r.primary_notePrimary names).trans hprimary
    · rcases h.moved_or_kept_or_expired with ⟨now, rfl, -⟩ | ⟨-, ⟨rfl, -⟩ | ⟨now, late, rfl, -⟩⟩
      · have hadvanced (names : List String) :
            (r.advance names .registered now).primary = some name := hprimary
        have hsome (names : List String) : (r.advance names .registered now).primary.isSome :=
          Option.isSome_iff_exists.mpr ⟨name, hadvanced names⟩
        exact (primary_settlePrimary (hsome _)).trans (hadvanced _)
      · exact hprimary
      · exact hprimary
  induction h with
  | finished => exact hprimary
  | stopped hstopped _ => exact hend (hrest List.mem_cons_self) hstopped hprimary
  | passed hpassed _ ih =>
    obtain ⟨hstage, hlater⟩ := List.cons_subset.mp hrest
    exact ih hlater (hend hstage hpassed hprimary)

/-- A batch makes a name the primary one only by proceeding through all stages. The name is of the
batch, or was pending before. -/
theorem Carried.primary_of_none (h : Carried batch stages log r later r' step)
    (hnone : r.primary = none) (hprimary : r'.primary = some name) :
    step = .proceed ∧ (name ∈ batch ∨ r.pendingPrimary = some name) := by
  have hnotes (names : List String) (r : UsernameRegistration) :
      (r.notePrimary names).primary = r.primary := r.primary_notePrimary names
  cases h with
  | stopped h₁ => simp [h₁.primary_eq fun _ _ => rfl, hnone] at hprimary
  | @passed _ _ _ log₁ _ _ r₁ _ _ h₁ h =>
  have hnone₁ : r₁.primary = none := (h₁.primary_eq fun _ _ => rfl).trans hnone
  cases h with
  | stopped h₂ => simp [h₂.primary_eq fun _ _ => rfl, hnone₁] at hprimary
  | @passed _ _ _ log₂ _ _ r₂ _ _ h₂ h =>
  have hnone₂ : r₂.primary = none := (h₂.primary_eq fun _ _ => rfl).trans hnone₁
  have hpending₂ : r₂.pendingPrimary = r.pendingPrimary :=
    congrArg Prod.snd ((h₂.primaries_eq fun _ _ => rfl).trans (h₁.primaries_eq fun _ _ => rfl))
  cases h with
  | stopped h₃ => simp [h₃.primary_eq hnotes, hnone₂] at hprimary
  | @passed _ _ _ log₃ _ _ r₃ _ _ h₃ h =>
  have hnone₃ : r₃.primary = none := (h₃.primary_eq hnotes).trans hnone₂
  have hpending₃ : r₃.pendingPrimary = some name → name ∈ batch ∨ r.pendingPrimary = some name := by
    intro hpending
    rcases h₃.moved_or_kept_or_expired with
      ⟨now, rfl, -⟩ | ⟨-, ⟨rfl, -⟩ | ⟨now, late, rfl, -⟩⟩
    · have hnoted := primaries_notePrimary
        (r := r₂.advance (r₂.inState batch .preorderConfirmed) .domainSubmitted now) hnone₂
        (r₂.inState batch .preorderConfirmed)
      have hhead := (Prod.mk.inj hnoted).2.symm.trans hpending
      exact .inl (mem_inState.mp (List.mem_of_mem_head? hhead)).1
    · exact .inr (hpending₂.symm.trans hpending)
    · cases hpending
  rcases h.ends.moved_or_kept_or_expired with
    ⟨now, rfl, -, hstep, -⟩ | ⟨-, ⟨rfl, -⟩ | ⟨now, late, rfl, -⟩⟩
  · have hsettled := primaries_settlePrimary
      (r := r₃.advance (r₃.inState batch .domainSubmitted) .registered now) hnone₃
    refine ⟨?_, hpending₃ ((Prod.mk.inj hsettled).1.symm.trans hprimary)⟩
    rcases hstep with hproceed | ⟨-, hopen⟩
    · exact hproceed
    · cases hopen
  · simp [hnone₃] at hprimary
  · rw [show (r₃.expire batch now).primary = r₃.primary from rfl, hnone₃] at hprimary
    cases hprimary

end Stages

section Calls

variable [Suite] {first looked : UsernameRegistration} {found es : Log} {labels : List Label}
  {schedule? : Option Schedule} {requests : List String}

/-- Calls one of which settled a name elsewhere: when it began the name was pending and no primary name
known, it was completed for other names, and the pending name became the primary one. -/
inductive SettledElsewhere (first : UsernameRegistration) (name : String) :
    Log → UsernameRegistration → Prop where
  | settled {log es : Log} {r r' : UsernameRegistration} {schedule? : Option Schedule}
      {requests reported : List String} {labels : List Label} (h : Calls first log r)
      (hpending : r.primaries = (none, some name))
      (hread : r.readCall schedule? requests = .ok labels)
      (hother : name ∉ labels.map Label.fullName)
      (hrun : Task.Reaches (register schedule? requests r) es
        (.done r' (.ok (some (.completed reported)))))
      (hprimary : r'.primary = some name) : SettledElsewhere first name (log ++ es) r'
  | registered {log es : Log} {r r' : UsernameRegistration} {schedule? : Option Schedule}
      {requests : List String} {result : Except RegistrationError (Option UsernameOutcome)}
      (h : SettledElsewhere first name log r)
      (hrun : Task.Reaches (register schedule? requests r) es (.done r' result)) :
      SettledElsewhere first name (log ++ es) r'
  | recovered {log es : Log} {r r' : UsernameRegistration}
      {result : Except RegistrationError (List String)} (h : SettledElsewhere first name log r)
      (hrun : Task.Reaches (recover r) es (.done r' result)) :
      SettledElsewhere first name (log ++ es) r'

/-- Taking up documents leaves the primary name, or makes it one whose claim is registered. -/
theorem primary_adoptAll_cases (r : UsernameRegistration) (documents : List Document)
    (now : Timestamp) (h : (r.adoptAll documents now).2.primary = some name) :
    r.primary = some name ∨ (r.adoptAll documents now).2.stateOf? name = some .registered := by
  revert h
  apply adoptAll_keeps (Q := fun s => s.primary = some name →
    r.primary = some name ∨ s.stateOf? name = some .registered) .inl
  intro s d _ hs hprimary
  rcases s.primary_adopt_cases d now with hsame | ⟨label, salt, record, -, -, hmarked, hstate⟩
  · exact (hs (hsame.symm.trans hprimary)).imp_right (outlives_adopt d now).stateOf?_registered
  · obtain rfl : label.fullName = name := Option.some.inj (hmarked.symm.trans hprimary)
    exact .inr hstate

theorem primaries_adoptAll (r : UsernameRegistration) (documents : List Document) (now : Timestamp) :
    (r.adoptAll documents now).2.pendingPrimary = r.pendingPrimary ∧
      (r.primary.isSome → (r.adoptAll documents now).2.primary.isSome) := by
  apply adoptAll_keeps (Q := fun s => s.pendingPrimary = r.pendingPrimary ∧
    (r.primary.isSome → s.primary.isSome)) ⟨rfl, id⟩
  rintro s d - ⟨hpending, hprimary⟩
  obtain ⟨hpending', hprimary'⟩ := s.primaries_adopt d now
  exact ⟨hpending'.trans hpending, hprimary' ∘ hprimary⟩

/-- Asking for the listed names leaves the pending name, and makes no primary name whose claim is not
registered. -/
theorem Looked.primary_cases (h : Looked labels log r found looked) :
    (∀ name, looked.primary = some name →
      r.primary = some name ∨ looked.stateOf? name = some .registered) ∧
    looked.pendingPrimary = r.pendingPrimary ∧ (r.primary.isSome → looked.primary.isSome) := by
  unfold Looked at h
  split at h
  · obtain ⟨result, hrecovery⟩ := h
    cases hrecovery with
    | unanswered => exact ⟨fun _ hsame => .inl hsame, rfl, id⟩
    | answered documents now =>
      exact ⟨fun name hprimary => r.primary_adoptAll_cases documents now hprimary,
        r.primaries_adoptAll documents now⟩
  · obtain ⟨-, rfl⟩ := h
    exact ⟨fun _ hsame => .inl hsame, rfl, id⟩

/-- What a call that registers names does to the primary name: it keeps the one that is known, makes one
whose claim is registered by then, or settles a name of another call that was pending. -/
theorem Registers.primary_cases {outcome : Option UsernameOutcome}
    (h : Registers r labels [] r es r' outcome) (hkept : r.IsKept)
    (hlabels : ∀ l ∈ labels, l.IsReadable) (hnodup : (labels.map Label.fullName).Nodup)
    (hprimary : r'.primary = some name) :
    r.primary = some name ∨ r'.stateOf? name = some .registered ∨
      r.primaries = (none, some name) ∧ name ∉ labels.map Label.fullName ∧
        ∃ reported, outcome = some (.completed reported) := by
  have hends := h.endsAsOne hkept hlabels hnodup
  cases h with
  | @intro found formedLog later looked formed r' batch step hlooked _ _ henlisted _ _ hcarried =>
    have hbatch : batch.Nodup := henlisted.nodup hnodup
    obtain rfl := henlisted.batch_eq
    obtain ⟨hformed, hpending⟩ := Prod.mk.inj henlisted.primaries_eq
    obtain ⟨hlookedPrimary, hlookedPending, hknown⟩ := hlooked.primary_cases
    cases hnone : looked.primary with
    | some known =>
      have hkeeps := hcarried.primary_eq (List.Subset.refl _) (hformed.trans hnone)
      obtain rfl : known = name := Option.some.inj (hkeeps.symm.trans hprimary)
      rcases hlookedPrimary known hnone with hsame | hregistered
      · exact .inl hsame
      · -- a registered name is left out of the batch
        have hout : known ∉ (looked.openLabels labels).map Label.fullName :=
          fun hmem => (mem_map_openLabels.mp hmem).2 hregistered
        refine .inr (.inl ?_)
        rw [hcarried.stateOf?_eq hbatch hout, henlisted.stateOf?_eq, if_neg hout]
        exact hregistered
    | none =>
      obtain ⟨rfl, hname⟩ := hcarried.primary_of_none (hformed.trans hnone) hprimary
      obtain ⟨-, -, -, -, -, -, ⟨-, hall⟩, -⟩ := hends
      by_cases hrequested : name ∈ labels.map Label.fullName
      · obtain ⟨l, hl, rfl⟩ := List.mem_map.mp hrequested
        exact .inr (.inl (hall l hl))
      · refine .inr (.inr ⟨?_, hrequested, _, rfl⟩)
        have hbatchName : name ∉ (looked.openLabels labels).map Label.fullName :=
          fun hmem => hrequested (mem_map_openLabels.mp hmem).1
        have hpended : looked.pendingPrimary = some name :=
          hpending.symm.trans (hname.resolve_left hbatchName)
        have hbefore : r.primary = none := by
          cases hcase : r.primary with
          | none => rfl
          | some known => simp [hcase, hnone] at hknown
        exact Prod.ext hbefore (hlookedPending.symm.trans hpended)

/-- The claim on the primary name is registered, unless a call for other names settled it. -/
theorem Calls.primary_registered (h : Calls first log r) (hkept : first.IsKept)
    (hfirst : first.primary = none) (hprimary : r.primary = some name) :
    r.stateOf? name = some .registered ∨ SettledElsewhere first name log r := by
  induction h with
  | begun => simp [hfirst] at hprimary
  | @registered log es r r' schedule? requests result hcalls hrun ih =>
    have hbegun : Course r [] r := .begun
    obtain ⟨hcourse, hanswers⟩ := (meets_register schedule? requests hbegun).reaches hrun
    have hbefore (hsame : r.primary = some name) :
        r'.stateOf? name = some .registered ∨ SettledElsewhere first name (log ++ es) r' := by
      rcases ih hsame with hregistered | helsewhere
      · exact .inl (hcourse.stateOf?_registered hregistered)
      · exact .inr (helsewhere.registered hrun)
    unfold Answers at hanswers
    split at hanswers
    · obtain ⟨-, -, rfl⟩ := hanswers
      exact hbefore hprimary
    next labels hread =>
      obtain ⟨outcome, rfl, hregisters⟩ := hanswers
      obtain ⟨hlabels, hnodup⟩ := readBatch_eq_ok hread
      have hcalled : r.IsKept := hcalls.course.isKept hkept
      rcases hregisters.primary_cases hcalled hlabels hnodup hprimary with
        hsame | hregistered | ⟨hpending, hother, reported, rfl⟩
      · exact hbefore hsame
      · exact .inl hregistered
      · exact .inr (.settled hcalls hpending hread hother hrun hprimary)
  | @recovered log es r r' result hcalls hrun ih =>
    have hmeets : r.recover.Meets (fun _ _ _ => True) (Recovery [] r) [] :=
      meets_recover (fun _ _ _ _ => trivial) fun _ _ => trivial
    have hrecovery := hmeets.reaches hrun
    have hbefore (hsame : r.primary = some name) :
        r'.stateOf? name = some .registered ∨ SettledElsewhere first name (log ++ es) r' := by
      rcases ih hsame with hregistered | helsewhere
      · exact .inl ((hrecovery.course .begun).stateOf?_registered hregistered)
      · exact .inr (helsewhere.recovered hrun)
    cases hrecovery with
    | unanswered => exact hbefore hprimary
    | answered documents now =>
      rcases r.primary_adoptAll_cases documents now hprimary with hsame | hregistered
      · exact hbefore hsame
      · exact .inl hregistered

end Calls

section Underway

variable {s s' : UsernameRegistration}

/-- What a call leaves true of the primary name until its batch is seen to be owned. -/
structure PrimaryStands (r : UsernameRegistration) (log : Log) (s : UsernameRegistration) : Prop where
  registered : ∀ name, r.stateOf? name = some .registered → s.stateOf? name = some .registered
  primary : ∀ name, s.primary = some name → (s.find? name).isSome ∧ (r.primary = some name ∨
    s.stateOf? name = some .registered ∧ ListsUnique r.owner log name)

theorem PrimaryStands.of_outlives (h : r.PrimaryStands log s) (houtlives : s.Outlives s')
    (hprimary : s'.primary = s.primary) : r.PrimaryStands log s' := by
  refine ⟨fun name hname => houtlives.stateOf?_registered (h.registered name hname), ?_⟩
  intro name hname
  obtain ⟨hsome, hstands⟩ := h.primary name (hprimary.symm.trans hname)
  refine ⟨houtlives.isSome hsome, hstands.imp_right ?_⟩
  exact fun ⟨hregistered, hlisted⟩ => ⟨houtlives.stateOf?_registered hregistered, hlisted⟩

variable [Suite]

theorem PrimaryStands.adopt {documents : List Document} {d : Document} (now : Timestamp)
    (h : r.PrimaryStands log s)
    (hlisted : ⟨.findDocuments .domain (.ownedBy r.owner), .ok documents⟩ ∈ log)
    (hd : d ∈ documents) : r.PrimaryStands log (s.adopt d now).2 := by
  rcases s.primary_adopt_cases d now with
    hsame | ⟨label, salt, record, hread, hunique, hmarked, hstate⟩
  · exact h.of_outlives (outlives_adopt d now) hsame
  · refine ⟨fun name hname => (outlives_adopt d now).stateOf?_registered (h.registered name hname), ?_⟩
    intro name hname
    obtain rfl : label.fullName = name := Option.some.inj (hmarked.symm.trans hname)
    obtain ⟨c, hc, -⟩ := stateOf?_eq_some.mp hstate
    exact ⟨by simp [hc], .inr ⟨hstate, documents, hlisted, d, hd, label, salt, record, hread,
      hunique, rfl⟩⟩

theorem PrimaryStands.adoptAll {documents : List Document} (now : Timestamp)
    (h : r.PrimaryStands log s)
    (hlisted : ⟨.findDocuments .domain (.ownedBy r.owner), .ok documents⟩ ∈ log) :
    r.PrimaryStands log (s.adoptAll documents now).2 :=
  adoptAll_keeps h fun _ _ hd hs => hs.adopt now hlisted hd

/-- A call keeps the primary name standing. -/
theorem isKeptFrom_primaryStands (h : ∀ name, r.primary = some name → (r.find? name).isSome) :
    IsKeptFrom r.PrimaryStands [] r := by
  have hbegun (log : Log) : r.PrimaryStands log r :=
    ⟨fun _ hname => hname, fun name hname => ⟨h name hname, .inl hname⟩⟩
  refine ⟨fun log => ⟨?_, ?_, ?_, ?_⟩, ?_, hbegun [], ?_⟩
  · intro s label salt now hstands hstate
    exact hstands.of_outlives (outlives_renewed hstate) rfl
  · intro s names target now hstands
    exact hstands.of_outlives (outlives_advance names target now) rfl
  · intro s names hstands
    apply hstands.of_outlives ?_ (primary_notePrimary names)
    exact fun name c hc => ⟨c, (find?_notePrimary names).trans hc, id⟩
  · intro s batch now hstands
    exact hstands.of_outlives (outlives_expire batch now) rfl
  · intro log later s hlog hstands
    refine ⟨hstands.registered, fun name hname => ?_⟩
    obtain ⟨hsome, hbefore | ⟨hregistered, hlisted⟩⟩ := hstands.primary name hname
    · exact ⟨hsome, .inl hbefore⟩
    · exact ⟨hsome, .inr ⟨hregistered, hlisted.extend hlog⟩⟩
  · intro documents now
    exact (hbegun _).adoptAll now (by simp)

/-- While it is under way, a call leaves the primary name as it was, or makes one that the platform lists
as unique and whose claim is registered. -/
theorem primaryStands_underway {flag last : Bool} {es : Log} {q : Request}
    {next : q.Answer → Task UsernameRegistration (Except RegistrationError (Option UsernameOutcome))}
    {schedule? : Option Schedule} {requests : List String}
    (h : ∀ name, r.primary = some name → (r.find? name).isSome)
    (hrun : Task.Passes flag (register schedule? requests r) es last (.ask s q next)) :
    r.PrimaryStands es s := by
  obtain ⟨before, hstands, -⟩ :=
    (asks_register schedule? requests (isKeptFrom_primaryStands h)).stands hrun
  exact hstands

end Underway

variable [Suite] {first : UsernameRegistration}

/-- The primary name has a claim. An accepted transition carried it as the unique one, or the platform
listed it so. The claim is registered, unless a call for other names settled the name. This holds
between calls and at every point of a call that registers names. -/
theorem primary_is_registered {owner : IdentityId} {key : SecretKey} {settings : Settings}
    (hcreate : create owner key settings = .ok first) (hcalls : Calls first log r) :
    (∀ name, r.primary = some name → (r.find? name).isSome ∧
      (name ∈ log.uniqueNames ∨ ListsUnique owner log name) ∧
      (r.stateOf? name = some .registered ∨ SettledElsewhere first name log r)) ∧
    ∀ flag last schedule? requests es s q next,
      Task.Passes flag (register schedule? requests r) es last (.ask s q next) →
        ∀ name, s.primary = some name → (s.find? name).isSome ∧
          (name ∈ log.uniqueNames ∨ ListsUnique owner (log ++ es) name) ∧
          (s.stateOf? name = some .registered ∨ SettledElsewhere first name log r) := by
  have hkept : first.IsKept := isKept_of_create hcreate
  have howner : r.owner = owner := by
    rw [owner_eq_of_setup hcalls.course.setup_eq, create_eq_ok hcreate]
  have hfirst : first.primaries = (none, none) := by
    rw [create_eq_ok hcreate]
    rfl
  have hbetween (name : String) (hprimary : r.primary = some name) : (r.find? name).isSome ∧
      (name ∈ log.uniqueNames ∨ ListsUnique owner log name) ∧
      (r.stateOf? name = some .registered ∨ SettledElsewhere first name log r) := by
    obtain ⟨hclaimed, hcarried⟩ := hcalls.course.primary_carried hkept hfirst hprimary
    rw [howner] at hcarried
    exact ⟨hclaimed, hcarried, hcalls.primary_registered hkept (congrArg Prod.fst hfirst)
      hprimary⟩
  refine ⟨hbetween, ?_⟩
  intro flag last schedule? requests es s q next hrun name hprimary
  have hstands := primaryStands_underway (fun name hname => (hbetween name hname).1) hrun
  obtain ⟨hclaimed, hbefore | ⟨hregistered, hlisted⟩⟩ := hstands.primary name hprimary
  · obtain ⟨-, hcarried, hsettled⟩ := hbetween name hbefore
    refine ⟨hclaimed, ?_, hsettled.imp_left (hstands.registered name)⟩
    exact hcarried.imp_right fun hlisted => hlisted.extend (List.prefix_append log es)
  · obtain ⟨documents, hmem, hshown⟩ := hlisted
    rw [howner] at hmem
    exact ⟨hclaimed, .inr ⟨documents, List.mem_append_right log hmem, hshown⟩, .inl hregistered⟩

end UsernameRegistration

namespace Sample

/-- A registration with a name that was revealed by a call that was paused then. -/
def bobRevealed : UsernameRegistration := (revealed registration "Bob").2.2.1

/-- The same with a further name. -/
def aliceRevealed : UsernameRegistration := (revealed bobRevealed "alice").2.2.1

/-- A call that goes on with the first name. -/
def confirmed : Log × UsernameRegistration × Except RegistrationError (Option UsernameOutcome) :=
  (UsernameRegistration.register none ["Bob"] aliceRevealed).play
    (oracle (.ok ⟨.zero⟩) none (shown bob)) []

theorem calls_confirmed : ∃ log, UsernameRegistration.Calls registration log confirmed.2.1 := by
  have hbob := UsernameRegistration.Calls.begun.registered (passes_revealed registration "Bob").reaches
  have halice := hbob.registered (passes_revealed bobRevealed "alice").reaches
  have hconfirmed : Task.Reaches (UsernameRegistration.register none ["Bob"] aliceRevealed)
      confirmed.1 (.done confirmed.2.1 confirmed.2.2) := by
    unfold confirmed
    exact Task.reaches_play _ _ _
  exact ⟨_, halice.registered hconfirmed⟩

end Sample

open Sample UsernameRegistration

/-- A name that is registered at once is the primary one. -/
theorem UsernameRegistration.primary_is_registered_alice :
    create identity signingKey .default = .ok registration ∧
      registered.2.1.primary = some alice.fullName ∧
      (registered.2.1.find? alice.fullName).isSome ∧
      (alice.fullName ∈ Log.uniqueNames ([] ++ registered.1) ∨
        ListsUnique identity ([] ++ registered.1) alice.fullName) := by
  have hcreate : create identity signingKey .default = .ok registration := rfl
  have hprimary : registered.2.1.primary = some alice.fullName := by decide +kernel
  have hcalls := Calls.begun.registered reaches_registered
  obtain ⟨hclaimed, hcarried, -⟩ := (primary_is_registered hcreate hcalls).1 _ hprimary
  exact ⟨hcreate, hprimary, hclaimed, hcarried⟩

/-- Two names are revealed by calls that are paused. When the first of them is seen to be owned, the
second becomes the primary name. -/
theorem UsernameRegistration.primary_is_unregistered :
    create identity signingKey .default = .ok registration ∧
      (∃ log, Calls registration log confirmed.2.1) ∧
      confirmed.2.1.primary = some "alice.dash" ∧
      confirmed.2.1.stateOf? "alice.dash" = some .domainSubmitted ∧
      confirmed.2.1.stateOf? "bob.dash" = some .registered := by
  refine ⟨rfl, calls_confirmed, ?_, ?_, ?_⟩
  · decide +kernel
  · decide +kernel
  · decide +kernel

end Enrolment
