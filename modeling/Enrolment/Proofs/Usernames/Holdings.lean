import Enrolment.Proofs.Name.Track
import Enrolment.Registration.Usernames

/-!
What each change of a registration does to the claims that it holds. Every change is read off the
claim on one name; later proofs use these lemmas in place of the table of claims.
-/

namespace Enrolment

namespace UsernameRegistration

variable {r : UsernameRegistration} {name : String} {names batch : List String}
  {target : ClaimState} {now : Timestamp} {claim : Claim}

theorem stateOf?_eq_some {state : ClaimState} :
    r.stateOf? name = some state ↔ ∃ c, r.find? name = some c ∧ c.state = state := by
  simp [stateOf?]

@[simp] theorem find?_put (claim : Claim) :
    (r.put claim).find? name = if name = claim.label.fullName then some claim else r.find? name :=
  Table.find?_insert ..

@[simp] theorem stateOf?_put (claim : Claim) :
    (r.put claim).stateOf? name =
      if name = claim.label.fullName then some claim.state else r.stateOf? name := by
  unfold stateOf?
  rw [find?_put]
  split <;> rfl

/-- Claims moved, all of those that may be. -/
def advance (r : UsernameRegistration) (names : List String) (target : ClaimState) (now : Timestamp) :
    UsernameRegistration :=
  { r with
    claims := names.foldl (fun claims name => claims.adjust name (Claim.moved target now)) r.claims }

theorem advance_singleton_of_none (h : r.find? name = none) : r.advance [name] target now = r := by
  have hclaims : r.claims.adjust name (Claim.moved target now) = r.claims := by
    unfold Table.adjust
    rw [show r.claims.find? name = none from h]
  simp [advance, hclaims]

theorem advance_singleton_of_ok {moved : Claim} (h : r.find? name = some claim)
    (hmoved : claim.advance target now = .ok moved) :
    r.advance [name] target now = { r with claims := r.claims.insert name moved } := by
  have hclaims : r.claims.adjust name (Claim.moved target now) = r.claims.insert name moved := by
    unfold Table.adjust
    rw [show r.claims.find? name = some claim from h]
    simp [Claim.moved, hmoved, Except.toOption]
  simp [advance, hclaims]

/-- Claims that are moved in turn are those of some first names, and all of them if there is no error. -/
theorem exists_advanceInTurn_eq (r : UsernameRegistration) (target : ClaimState) (now : Timestamp)
    (names : List String) : ∃ moved, moved <+: names ∧
      (r.advanceInTurn target now names).2 = r.advance moved target now := by
  induction names generalizing r with
  | nil => exact ⟨[], List.prefix_refl _, rfl⟩
  | cons name rest ih =>
    have hmoves {r' : UsernameRegistration} (hfirst : r.advance [name] target now = r') :
        ∃ moved, moved <+: name :: rest ∧
          (r'.advanceInTurn target now rest).2 = r.advance moved target now := by
      obtain ⟨moved, hmoved, hreached⟩ := ih r'
      refine ⟨name :: moved, (List.prefix_cons_inj name).mpr hmoved, ?_⟩
      rw [hreached, ← hfirst]
      rfl
    unfold advanceInTurn
    cases hclaim : r.find? name with
    | none => exact hmoves (advance_singleton_of_none hclaim)
    | some claim =>
      dsimp only
      cases hadvance : claim.advance target now with
      | error e => exact ⟨[], List.nil_prefix, rfl⟩
      | ok moved => exact hmoves (advance_singleton_of_ok hclaim hadvance)

theorem moveOn_eq (names : List String) (target : ClaimState) :
    moveOn names target = Routine.ask .time >>= fun now r =>
      .done (r.advanceInTurn target now names).2 (.ofFault (r.advanceInTurn target now names).1) :=
  rfl

/-- A name whose claim is in another state is none of those whose claims are all in one. -/
theorem not_mem_of_stateOf? {state other : ClaimState}
    (hstate : ∀ n ∈ names, r.stateOf? n = some state) (hname : r.stateOf? name = some other)
    (hne : other ≠ state) : name ∉ names := by
  intro member
  have heq := hstate name member
  rw [hname] at heq
  exact hne (Option.some.inj heq)

theorem find?_advance (hnames : names.Nodup) :
    (r.advance names target now).find? name =
      if name ∈ names then (r.find? name).map (Claim.moved target now) else r.find? name :=
  Table.find?_foldl_adjust names hnames r.claims _ name

theorem find?_expire (hbatch : batch.Nodup) :
    (r.expire batch now).find? name =
      if name ∈ batch then (r.find? name).map (Claim.expire · now) else r.find? name :=
  Table.find?_foldl_adjust batch hbatch r.claims _ name

/-- Claims that were all in one state are in the next one after they moved on; the others stay. -/
theorem find?_advance_cases {source : ClaimState} {c : Claim} (hnames : names.Nodup)
    (hstate : ∀ n ∈ names, r.stateOf? n = some source) (hnext : source.next? = some target)
    (hc : (r.advance names target now).find? name = some c) :
    (∃ old, name ∈ names ∧ r.find? name = some old ∧ c = old.enter target now) ∨
      name ∉ names ∧ r.find? name = some c := by
  rw [find?_advance hnames] at hc
  split at hc
  next hname =>
    obtain ⟨old, hold, rfl⟩ := Option.map_eq_some_iff.mp hc
    obtain ⟨c', hc', hsource⟩ := stateOf?_eq_some.mp (hstate name hname)
    obtain rfl : c' = old := Option.some.inj (hc'.symm.trans hold)
    exact .inl ⟨c', hname, hold, Claim.moved_of_next? (hsource ▸ hnext)⟩
  next hname => exact .inr ⟨hname, hc⟩

/-- A claim is as it was after its batch timed out, or timed out with it. -/
theorem find?_expire_cases {c : Claim} (hbatch : batch.Nodup)
    (hc : (r.expire batch now).find? name = some c) :
    r.find? name = some c ∨ ∃ old, r.find? name = some old ∧ c = old.enter .timedOut now := by
  rw [find?_expire hbatch] at hc
  split at hc
  · obtain ⟨old, hold, rfl⟩ := Option.map_eq_some_iff.mp hc
    rcases old.expire_cases now with ⟨heq, -⟩ | ⟨-, heq⟩
    · rw [heq]
      exact .inl hold
    · exact .inr ⟨old, hold, heq⟩
  · exact .inl hc

theorem mem_claimsOn {c : Claim} :
    c ∈ r.claimsOn names ↔ ∃ name ∈ names, r.find? name = some c := List.mem_filterMap

@[simp] theorem find?_notePrimary (names : List String) :
    (r.notePrimary names).find? name = r.find? name := by
  unfold notePrimary
  split <;> rfl

@[simp] theorem find?_settlePrimary : r.settlePrimary.find? name = r.find? name := by
  unfold settlePrimary
  split <;> rfl

@[simp] theorem stateOf?_notePrimary (names : List String) :
    (r.notePrimary names).stateOf? name = r.stateOf? name := by
  simp [stateOf?]

@[simp] theorem stateOf?_settlePrimary : r.settlePrimary.stateOf? name = r.stateOf? name := by
  simp [stateOf?]

/-- What never changes of a registration. -/
def setup (r : UsernameRegistration) : IdentityId × SecretKey × Settings := (r.owner, r.key, r.settings)

theorem owner_eq_of_setup {s : UsernameRegistration} (h : r.setup = s.setup) : r.owner = s.owner :=
  congrArg Prod.fst h

@[simp] theorem setup_put (claim : Claim) : (r.put claim).setup = r.setup := rfl

@[simp] theorem setup_advance : (r.advance names target now).setup = r.setup := rfl

@[simp] theorem setup_expire : (r.expire batch now).setup = r.setup := rfl

@[simp] theorem setup_notePrimary (names : List String) : (r.notePrimary names).setup = r.setup := by
  unfold notePrimary
  split <;> rfl

@[simp] theorem setup_settlePrimary : r.settlePrimary.setup = r.setup := by
  unfold settlePrimary
  split <;> rfl

def primaries (r : UsernameRegistration) : Option String × Option String :=
  (r.primary, r.pendingPrimary)

/-- Names whose claims are all in one state, and moved to the one after it, arrive there. -/
theorem stateOf?_advance {state : ClaimState} (hnames : names.Nodup)
    (hstate : ∀ n ∈ names, r.stateOf? n = some state) (hnext : state.next? = some target) :
    (r.advance names target now).stateOf? name =
      if name ∈ names then some target else r.stateOf? name := by
  unfold stateOf?
  rw [find?_advance hnames]
  split
  next h =>
    obtain ⟨c, hc, hcstate⟩ := stateOf?_eq_some.mp (hstate name h)
    simp [hc, Claim.moved_of_next? (hcstate ▸ hnext)]
  next => rfl

/-- Claims that are all in one state can all be moved to the one after it. -/
theorem advanceInTurn_eq {state : ClaimState} (hnames : names.Nodup)
    (hstate : ∀ n ∈ names, r.stateOf? n = some state) (hnext : state.next? = some target) :
    r.advanceInTurn target now names = (none, r.advance names target now) := by
  induction names generalizing r with
  | nil => rfl
  | cons name rest ih =>
    obtain ⟨hfresh, hrest⟩ := List.nodup_cons.mp hnames
    obtain ⟨c, hc, hcstate⟩ := stateOf?_eq_some.mp (hstate name List.mem_cons_self)
    have hmoved : c.advance target now = .ok (c.enter target now) :=
      if_pos (ClaimState.mayBecome_of_next? (hcstate ▸ hnext))
    have hfirst := advance_singleton_of_ok hc hmoved
    have hothers : ∀ n ∈ rest, (r.advance [name] target now).stateOf? n = some state := by
      intro n hn
      have hother : n ∉ [name] := fun heq => hfresh (List.mem_singleton.mp heq ▸ hn)
      rw [stateOf?, find?_advance (by simp), if_neg hother]
      exact hstate n (List.mem_cons_of_mem name hn)
    unfold advanceInTurn
    rw [hc]
    dsimp only
    rw [hmoved]
    dsimp only
    rw [← hfirst, ih hrest hothers]
    rfl

theorem stateOf?_expire (hbatch : batch.Nodup) :
    (r.expire batch now).stateOf? name =
      if name ∈ batch then (r.stateOf? name).map fun s => if s.isFinal then s else .timedOut
      else r.stateOf? name := by
  unfold stateOf?
  rw [find?_expire hbatch]
  split
  next h =>
    cases hc : r.find? name with
    | none => simp
    | some c => by_cases hf : c.state.isFinal <;> simp [Claim.expire, hf]
  next => rfl

/-- The registration with a listed name as its primary one, if the record is unique. -/
def mark (r : UsernameRegistration) (record : DomainRecord) (name : String) :
    UsernameRegistration :=
  if record.isUnique then { r with primary := some name } else r

@[simp] theorem find?_mark (record : DomainRecord) (n : String) :
    (r.mark record n).find? name = r.find? name := by
  unfold mark
  split <;> rfl

@[simp] theorem stateOf?_mark (record : DomainRecord) (n : String) :
    (r.mark record n).stateOf? name = r.stateOf? name := by
  simp [stateOf?]

@[simp] theorem setup_mark (record : DomainRecord) (n : String) :
    (r.mark record n).setup = r.setup := by
  unfold mark
  split <;> rfl

end UsernameRegistration

/-- What a domain document lists, if its name can be read. -/
def Document.listed? (d : Document) : Option (Label × Salt × DomainRecord) :=
  match d.data with
  | .preorder _ => none
  | .domain _ normalized parent salt record =>
    (Label.parse normalized parent).toOption.map fun label => (label, salt, record)

theorem Document.readable_of_listed? {d : Document} {label : Label} {salt : Salt}
    {record : DomainRecord} (h : d.listed? = some (label, salt, record)) : label.IsReadable := by
  unfold listed? at h
  split at h
  · cases h
  next normalized parent _ _ _ =>
    cases hparse : Label.parse normalized parent with
    | error e => simp [hparse, Except.toOption] at h
    | ok l =>
      obtain ⟨rfl, -, -⟩ : l = label ∧ _ ∧ _ := by simpa [hparse, Except.toOption] using h
      exact ⟨normalized, parent, hparse⟩

namespace UsernameRegistration

variable [Suite] {r : UsernameRegistration} {d : Document} {now : Timestamp}

theorem adopt_unlisted (h : d.listed? = none) : r.adopt d now = (none, r) := by
  unfold adopt
  unfold Document.listed? at h
  split
  · rfl
  next _ normalized parent _ _ hdata =>
    simp only [hdata] at h
    split
    · rfl
    next label hparse => simp [hparse, Except.toOption] at h

/-- Taking up a listed name marks the primary name, and adopts the name unless it is registered. -/
theorem adopt_listed {label : Label} {salt : Salt} {record : DomainRecord}
    (h : d.listed? = some (label, salt, record)) :
    r.adopt d now =
      if r.stateOf? label.fullName = some .registered then (none, r.mark record label.fullName)
      else (some label.fullName,
        (r.mark record label.fullName).put (.adopted label r.owner salt now)) := by
  unfold adopt
  unfold Document.listed? at h
  split
  next hdata => simp [hdata] at h
  next _ normalized parent salt' record' hdata =>
    simp only [hdata] at h
    split
    next hparse => simp [hparse, Except.toOption] at h
    next label' hparse =>
      obtain ⟨rfl, rfl, rfl⟩ : label' = label ∧ salt' = salt ∧ record' = record := by
        simpa [hparse, Except.toOption] using h
      change (if (r.mark record' label'.fullName).stateOf? label'.fullName = some .registered then
        (none, r.mark record' label'.fullName) else _) = _
      simp only [stateOf?_mark]
      split
      next => rfl
      next =>
        change (some label'.fullName, (r.mark record' label'.fullName).put
          (.adopted label' (r.mark record' label'.fullName).owner salt' now)) = _
        rw [owner_eq_of_setup (setup_mark record' label'.fullName)]

@[simp] theorem setup_adopt : (r.adopt d now).2.setup = r.setup := by
  cases h : d.listed? with
  | none => rw [adopt_unlisted h]
  | some listed =>
    obtain ⟨label, salt, record⟩ := listed
    rw [adopt_listed h]
    split <;> simp

section Adopting

variable {name : String} {label : Label} {salt : Salt} {record : DomainRecord}

theorem find?_adopt_of_unlisted (h : ∀ l, d.listed? = some l → l.1.fullName ≠ name) :
    (r.adopt d now).2.find? name = r.find? name := by
  cases hd : d.listed? with
  | none => rw [adopt_unlisted hd]
  | some listed =>
    obtain ⟨label, salt, record⟩ := listed
    have hne : name ≠ label.fullName := (h _ hd).symm
    rw [adopt_listed hd]
    split
    · exact find?_mark ..
    · exact (find?_put _).trans ((if_neg hne).trans (find?_mark ..))

theorem find?_adopt_of_listed (h : d.listed? = some (label, salt, record)) :
    (r.adopt d now).2.find? label.fullName =
      if r.stateOf? label.fullName = some .registered then r.find? label.fullName
      else some (.adopted label r.owner salt now) := by
  rw [adopt_listed h]
  split
  · exact find?_mark ..
  · exact (find?_put _).trans (if_pos rfl)

theorem stateOf?_adopt_of_listed (h : d.listed? = some (label, salt, record)) :
    (r.adopt d now).2.stateOf? label.fullName = some .registered := by
  rw [stateOf?, find?_adopt_of_listed h]
  split
  next hstate => exact hstate
  next => rfl

/-- What taking up a document does to the claim on a name: nothing, or the name is adopted, which
happens only to names that are not registered. -/
theorem find?_adopt_cases (r : UsernameRegistration) (d : Document) (now : Timestamp)
    (name : String) :
    (r.adopt d now).2.find? name = r.find? name ∨
      r.stateOf? name ≠ some .registered ∧ ∃ label salt, label.IsReadable ∧
        label.fullName = name ∧
        (r.adopt d now).2.find? name = some (.adopted label r.owner salt now) := by
  by_cases hlists : ∃ l, d.listed? = some l ∧ l.1.fullName = name
  · obtain ⟨⟨label, salt, record⟩, hd, rfl⟩ := hlists
    rw [find?_adopt_of_listed hd]
    split
    · exact .inl rfl
    next hstate =>
      exact .inr ⟨hstate, label, salt, Document.readable_of_listed? hd, rfl, rfl⟩
  · exact .inl (find?_adopt_of_unlisted fun l hd hname => hlists ⟨l, hd, hname⟩)

theorem stateOf?_adopt_cases (r : UsernameRegistration) (d : Document) (now : Timestamp)
    (name : String) :
    (r.adopt d now).2.stateOf? name = r.stateOf? name ∨
      (r.adopt d now).2.stateOf? name = some .registered := by
  rcases r.find?_adopt_cases d now name with hsame | ⟨-, label, salt, -, -, hadopted⟩
  · exact .inl (congrArg (Option.map Claim.state) hsame)
  · exact .inr (congrArg (Option.map Claim.state) hadopted)

end Adopting

end UsernameRegistration

end Enrolment
