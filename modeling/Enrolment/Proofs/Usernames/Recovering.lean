import Enrolment.Proofs.Usernames.Batches

/-!
What a registration takes up of listed documents. Every listed name that is not registered yet is
adopted once, under the first document that lists it; the last document that lists a name as the unique
one says which name is primary.
-/

namespace Enrolment

namespace Document

/-- What the first document says that lists a name. -/
def firstListing? (documents : List Document) (name : String) :
    Option (Label × Salt × DomainRecord) :=
  documents.findSome? fun d => d.listed?.filter fun listed => listed.1.fullName = name

/-- The name that a document lists as the unique one of its owner. -/
def uniqueName? (d : Document) : Option String :=
  d.listed?.bind fun (label, _, record) => if record.isUnique then some label.fullName else none

variable {d : Document} {documents : List Document} {name : String}
  {listed : Label × Salt × DomainRecord}

theorem firstListing?_of_unlisted (h : ∀ l, d.listed? = some l → l.1.fullName ≠ name) :
    firstListing? (d :: documents) name = firstListing? documents name := by
  unfold firstListing?
  rw [List.findSome?_cons]
  cases hd : d.listed? with
  | none => rfl
  | some l => simp [Option.filter, h l hd]

theorem firstListing?_of_listed (h : d.listed? = some listed) (hname : listed.1.fullName = name) :
    firstListing? (d :: documents) name = some listed := by
  unfold firstListing?
  rw [List.findSome?_cons]
  simp [Option.filter, h, hname]

theorem of_firstListing? (h : firstListing? documents name = some listed) :
    listed.1.fullName = name ∧ ∃ d ∈ documents, d.listed? = some listed := by
  obtain ⟨d, hd, hfound⟩ := List.exists_of_findSome?_eq_some h
  obtain ⟨hlisted, hname⟩ := Option.filter_eq_some_iff.mp hfound
  exact ⟨of_decide_eq_true hname, d, hd, hlisted⟩

theorem isSome_firstListing? (hd : d ∈ documents) (h : d.listed? = some listed)
    (hname : listed.1.fullName = name) : (firstListing? documents name).isSome := by
  unfold firstListing?
  rw [List.findSome?_isSome_iff]
  exact ⟨d, hd, by simp [h, hname]⟩

theorem uniqueName?_eq_some :
    d.uniqueName? = some name ↔ ∃ label salt record, d.listed? = some (label, salt, record) ∧
      record.isUnique ∧ label.fullName = name := by
  unfold uniqueName?
  cases d.listed? with
  | none => simp
  | some listed =>
    obtain ⟨label, salt, record⟩ := listed
    constructor
    · intro h
      obtain ⟨hunique, hname⟩ : record.isUnique = true ∧ label.fullName = name := by simpa using h
      exact ⟨label, salt, record, rfl, hunique, hname⟩
    · rintro ⟨_, _, _, ⟨rfl⟩, hunique, hname⟩
      simp [hunique, hname]

end Document

namespace UsernameRegistration

variable [Suite] {r : UsernameRegistration} {d : Document} {documents : List Document}
  {now : Timestamp} {name : String}

theorem adoptAll_cons (r : UsernameRegistration) (d : Document) (documents : List Document)
    (now : Timestamp) :
    r.adoptAll (d :: documents) now =
      ((r.adopt d now).1.toList ++ ((r.adopt d now).2.adoptAll documents now).1,
        ((r.adopt d now).2.adoptAll documents now).2) := by
  have hfrom (ds : List Document) (taken : List String) (s : UsernameRegistration) :
      ds.foldl (fun held document => (held.1 ++ (held.2.adopt document now).1.toList,
        (held.2.adopt document now).2)) (taken, s) =
          (taken ++ (s.adoptAll ds now).1, (s.adoptAll ds now).2) := by
    induction ds generalizing taken s with
    | nil => simp [adoptAll]
    | cons first rest ih =>
      have hfirst : s.adoptAll (first :: rest) now =
          ((s.adopt first now).1.toList ++ ((s.adopt first now).2.adoptAll rest now).1,
            ((s.adopt first now).2.adoptAll rest now).2) := ih _ _
      rw [List.foldl_cons, ih, hfirst, List.append_assoc]
  exact hfrom documents _ _

/-- A registered claim is left as it is, and any other one is replaced if its name is listed. -/
theorem find?_adoptAll (r : UsernameRegistration) (documents : List Document) (now : Timestamp)
    (name : String) :
    (r.adoptAll documents now).2.find? name =
      if r.stateOf? name = some .registered then r.find? name
      else match Document.firstListing? documents name with
        | some (label, salt, _) => some (.adopted label r.owner salt now)
        | none => r.find? name := by
  induction documents generalizing r with
  | nil => exact (ite_self _).symm
  | cons d rest ih =>
    have howner : (r.adopt d now).2.owner = r.owner := owner_eq_of_setup setup_adopt
    rw [adoptAll_cons, ih, howner]
    by_cases hlists : ∃ l, d.listed? = some l ∧ l.1.fullName = name
    · obtain ⟨⟨label, salt, record⟩, hd, rfl⟩ := hlists
      have hfound : (r.adopt d now).2.find? label.fullName =
          if r.stateOf? label.fullName = some .registered then r.find? label.fullName
          else some (.adopted label r.owner salt now) := find?_adopt_of_listed hd
      rw [Document.firstListing?_of_listed hd rfl, stateOf?, hfound]
      by_cases hstate : r.stateOf? label.fullName = some .registered
      · have hkept : (r.find? label.fullName).map Claim.state = some .registered := hstate
        simp only [if_pos hstate, if_pos hkept]
      · simp only [if_neg hstate, Option.map_some, Claim.adopted, Claim.start, if_true]
    · have hother : ∀ l, d.listed? = some l → l.1.fullName ≠ name := by
        intro l hd hname
        exact hlists ⟨l, hd, hname⟩
      rw [Document.firstListing?_of_unlisted hother, stateOf?, find?_adopt_of_unlisted hother]
      rfl

theorem fst_adopt_eq_some : (r.adopt d now).1 = some name ↔
    r.stateOf? name ≠ some .registered ∧ ∃ l, d.listed? = some l ∧ l.1.fullName = name := by
  cases hd : d.listed? with
  | none => simp [adopt_unlisted hd]
  | some listed =>
    obtain ⟨label, salt, record⟩ := listed
    rw [adopt_listed hd]
    split
    next hstate =>
      have hnone : ¬(r.stateOf? name ≠ some .registered ∧ label.fullName = name) := by
        rintro ⟨hne, rfl⟩
        exact hne hstate
      simpa using hnone
    next hstate =>
      constructor
      · intro hname
        obtain rfl : label.fullName = name := by simpa using hname
        exact ⟨hstate, _, rfl, rfl⟩
      · rintro ⟨-, _, ⟨rfl⟩, rfl⟩
        rfl

/-- The names that are adopted are those that are listed and were not registered. -/
theorem mem_adoptAll (r : UsernameRegistration) (documents : List Document) (now : Timestamp)
    (name : String) :
    name ∈ (r.adoptAll documents now).1 ↔ r.stateOf? name ≠ some .registered ∧
      (Document.firstListing? documents name).isSome := by
  induction documents generalizing r with
  | nil => simp [adoptAll, Document.firstListing?]
  | cons d rest ih =>
    rw [adoptAll_cons, List.mem_append, ih, Option.mem_toList, fst_adopt_eq_some]
    by_cases hlists : ∃ l, d.listed? = some l ∧ l.1.fullName = name
    · obtain ⟨⟨label, salt, record⟩, hd, rfl⟩ := hlists
      rw [Document.firstListing?_of_listed hd rfl, stateOf?_adopt_of_listed hd]
      simp [hd]
    · have hother : ∀ l, d.listed? = some l → l.1.fullName ≠ name := by
        intro l hd hname
        exact hlists ⟨l, hd, hname⟩
      have hstate : (r.adopt d now).2.stateOf? name = r.stateOf? name :=
        congrArg (Option.map Claim.state) (find?_adopt_of_unlisted hother)
      rw [Document.firstListing?_of_unlisted hother, hstate]
      simp only [hlists, and_false, false_or]

/-- The names that are adopted are those that have become registered. -/
theorem mem_adoptAll_iff_registered (r : UsernameRegistration) (documents : List Document)
    (now : Timestamp) (name : String) :
    name ∈ (r.adoptAll documents now).1 ↔ r.stateOf? name ≠ some .registered ∧
      (r.adoptAll documents now).2.stateOf? name = some .registered := by
  rw [mem_adoptAll]
  apply and_congr_right
  intro hstate
  have hfound := r.find?_adoptAll documents now name
  rw [if_neg hstate] at hfound
  rw [stateOf?, hfound]
  cases Document.firstListing? documents name with
  | none => simpa [stateOf?] using hstate
  | some listed => simp [Claim.adopted, Claim.start]

/-- No name is adopted twice. -/
theorem nodup_adoptAll (r : UsernameRegistration) (documents : List Document) (now : Timestamp) :
    (r.adoptAll documents now).1.Nodup := by
  induction documents generalizing r with
  | nil => exact List.nodup_nil
  | cons d rest ih =>
    rw [adoptAll_cons]
    apply List.nodup_append.mpr
    refine ⟨?_, ih _, ?_⟩
    · cases (r.adopt d now).1 <;> simp
    · -- what is adopted at first is registered from then on
      rintro name hfirst other hrest rfl
      obtain ⟨-, ⟨label, salt, record⟩, hd, rfl⟩ := fst_adopt_eq_some.mp (Option.mem_toList.mp hfirst)
      exact ((mem_adoptAll ..).mp hrest).1 (stateOf?_adopt_of_listed hd)

/-- The last unique record says which name is primary. -/
theorem primary_adoptAll (r : UsernameRegistration) (documents : List Document) (now : Timestamp) :
    (r.adoptAll documents now).2.primary =
      ((documents.filterMap Document.uniqueName?).getLast?).or r.primary := by
  induction documents generalizing r with
  | nil => rfl
  | cons d rest ih =>
    have hfirst : (r.adopt d now).2.primary = d.uniqueName?.or r.primary := by
      cases hd : d.listed? with
      | none => simp [adopt_unlisted hd, Document.uniqueName?, hd]
      | some listed =>
        obtain ⟨label, salt, record⟩ := listed
        have hmark : (r.adopt d now).2.primary = (r.mark record label.fullName).primary := by
          rw [adopt_listed hd]
          split <;> rfl
        rw [hmark, mark, Document.uniqueName?, hd]
        cases hunique : record.isUnique <;> simp [hunique]
    rw [adoptAll_cons, ih, hfirst]
    cases hname : d.uniqueName? with
    | none => rw [List.filterMap_cons_none hname, Option.none_or]
    | some name =>
      rw [List.filterMap_cons_some hname, List.getLast?_cons]
      cases (rest.filterMap Document.uniqueName?).getLast? <;> rfl

end UsernameRegistration

end Enrolment
