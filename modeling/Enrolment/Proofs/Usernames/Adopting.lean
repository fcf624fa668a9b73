import Enrolment.Proofs.Usernames.PrimaryName
import Enrolment.Proofs.Usernames.Recovering

/-!
What recovering comes to, whatever it is answered. A failing query changes nothing. Otherwise the
listed names that were not registered are adopted, each of them once and in the order in which they are
first listed, and doing it again with the same answer finds nothing left to do.
-/

namespace Enrolment

/-- The name that a document lists. -/
def Document.listedName? (d : Document) : Option String := d.listed?.map fun listed => listed.1.fullName

namespace UsernameRegistration

variable [Suite] {r r' : UsernameRegistration} {d : Document} {documents : List Document}
  {now : Timestamp} {name : String}

/-- A name is registered from when it is taken up. -/
theorem stateOf?_adopt {label : Label} {salt : Salt} {record : DomainRecord}
    (h : d.listed? = some (label, salt, record)) (name : String) :
    (r.adopt d now).2.stateOf? name =
      if name = label.fullName then some .registered else r.stateOf? name := by
  split
  next hname => rw [hname, stateOf?_adopt_of_listed h]
  next hname =>
    have hother : ∀ l, d.listed? = some l → l.1.fullName ≠ name := by
      intro l hl hsame
      obtain rfl := Option.some.inj (h.symm.trans hl)
      exact hname hsame.symm
    exact congrArg (Option.map Claim.state) (find?_adopt_of_unlisted hother)

/-- The names that are adopted, in their order. -/
theorem fst_adoptAll (r : UsernameRegistration) (documents : List Document) (now : Timestamp) :
    (r.adoptAll documents now).1 = ((documents.filterMap Document.listedName?).filter
      fun name => r.stateOf? name ≠ some .registered).eraseDups := by
  induction documents generalizing r with
  | nil => rfl
  | cons d rest ih =>
    rw [adoptAll_cons, ih]
    cases hd : d.listed? with
    | none =>
      have hname : d.listedName? = none := congrArg _ hd
      rw [adopt_unlisted hd, List.filterMap_cons_none hname]
      rfl
    | some listed =>
      obtain ⟨label, salt, record⟩ := listed
      have hname : d.listedName? = some label.fullName := congrArg _ hd
      rw [List.filterMap_cons_some hname]
      simp only [stateOf?_adopt hd]
      by_cases hstate : r.stateOf? label.fullName = some .registered
      · have hkept : (r.adopt d now).1 = none := by rw [adopt_listed hd, if_pos hstate]
        have hsame (name : String) :
            (if name = label.fullName then some ClaimState.registered else r.stateOf? name) =
              r.stateOf? name := by
          split
          next hname => rw [hname, hstate]
          next => rfl
        rw [hkept, List.filter_cons_of_neg (by simpa using hstate)]
        simp only [hsame]
        rfl
      · have htaken : (r.adopt d now).1 = some label.fullName := by
          rw [adopt_listed hd, if_neg hstate]
        -- what is adopted is left out from then on, which is how repetitions are erased
        rw [htaken, List.filter_cons_of_pos (by simpa using hstate), List.eraseDups_cons,
          List.filter_filter]
        refine congrArg (fun names => label.fullName :: List.eraseDups names) (List.filter_congr ?_)
        intro name _
        by_cases hname : name = label.fullName <;> simp [hname]

/-- What is listed is registered once it was taken up. -/
theorem stateOf?_adoptAll_of_listed (r : UsernameRegistration) (now : Timestamp)
    {listed : Label × Salt × DomainRecord} (hd : d ∈ documents) (hlisted : d.listed? = some listed) :
    (r.adoptAll documents now).2.stateOf? listed.1.fullName = some .registered := by
  by_cases hstate : r.stateOf? listed.1.fullName = some .registered
  · rw [stateOf?, find?_adoptAll, if_pos hstate]
    exact hstate
  · have hmem : listed.1.fullName ∈ (r.adoptAll documents now).1 :=
      (mem_adoptAll ..).mpr ⟨hstate, Document.isSome_firstListing? hd hlisted rfl⟩
    exact ((mem_adoptAll_iff_registered ..).mp hmem).2

/-- Where all that is listed is registered, only the primary name may change. -/
theorem adoptAll_of_registered (now : Timestamp)
    (h : ∀ d ∈ documents, ∀ l, d.listed? = some l → r.stateOf? l.1.fullName = some .registered) :
    (r.adoptAll documents now).1 = [] ∧
      ∃ primary, (r.adoptAll documents now).2 = { r with primary := primary } := by
  constructor
  · apply List.eq_nil_iff_forall_not_mem.mpr
    intro name hname
    obtain ⟨hstate, hlisted⟩ := (mem_adoptAll ..).mp hname
    obtain ⟨listed, hfirst⟩ := Option.isSome_iff_exists.mp hlisted
    obtain ⟨rfl, d, hd, hl⟩ := Document.of_firstListing? hfirst
    exact hstate (h d hd listed hl)
  · apply adoptAll_keeps (Q := fun s => ∃ primary, s = { r with primary := primary }) ⟨r.primary, rfl⟩
    rintro _ d hd ⟨primary, rfl⟩
    cases hl : d.listed? with
    | none => exact ⟨primary, by rw [adopt_unlisted hl]⟩
    | some listed =>
      obtain ⟨label, salt, record⟩ := listed
      have hstate : ({ r with primary := primary } : UsernameRegistration).stateOf? label.fullName =
          some .registered := h d hd _ hl
      rw [adopt_listed hl, if_pos hstate]
      unfold mark
      split
      · exact ⟨some label.fullName, rfl⟩
      · exact ⟨primary, rfl⟩

/-- Taking up the same documents again adopts nothing and changes nothing. -/
theorem adoptAll_again (r : UsernameRegistration) (documents : List Document)
    (now later : Timestamp) : (r.adoptAll documents now).2.adoptAll documents later =
      ([], (r.adoptAll documents now).2) := by
  obtain ⟨hnone, primary, hsame⟩ := adoptAll_of_registered (r := (r.adoptAll documents now).2) later
    fun d hd l hl => stateOf?_adoptAll_of_listed r now hd hl
  have hprimary : primary = (r.adoptAll documents now).2.primary := by
    have hlast := primary_adoptAll (r.adoptAll documents now).2 documents later
    rw [hsame, primary_adoptAll, ← Option.or_assoc, Option.or_self, ← primary_adoptAll r] at hlast
    exact hlast
  refine Prod.ext hnone ?_
  rw [hsame, hprimary]

/-- What it comes to that the platform lists some documents. -/
structure Adopts (r : UsernameRegistration) (documents : List Document) (adopted : List String)
    (r' : UsernameRegistration) : Prop where
  /-- The listed names that were not registered, in the order in which they are first listed. -/
  names : adopted = ((documents.filterMap Document.listedName?).filter
    fun name => r.stateOf? name ≠ some .registered).eraseDups
  nodup : adopted.Nodup
  /-- Each of them is registered as its first document says, under a commitment made anew. -/
  claims : ∀ name ∈ adopted, ∃ label salt record c,
    Document.firstListing? documents name = some (label, salt, record) ∧
      r'.find? name = some c ∧ c.state = .registered ∧ c.label = label ∧ c.owner = r.owner ∧
      c.salt = salt ∧ c.commitment = commitment salt label r.owner
  untouched : ∀ name, name ∉ adopted → r'.find? name = r.find? name
  primary : r'.primary = ((documents.filterMap Document.uniqueName?).getLast?).or r.primary
  pending : r'.pendingPrimary = r.pendingPrimary
  setup : r'.setup = r.setup

theorem adopts_adoptAll (r : UsernameRegistration) (documents : List Document) (now : Timestamp) :
    r.Adopts documents (r.adoptAll documents now).1 (r.adoptAll documents now).2 where
  names := fst_adoptAll r documents now
  nodup := nodup_adoptAll r documents now
  claims name hname := by
    obtain ⟨hstate, hlisted⟩ := (mem_adoptAll ..).mp hname
    obtain ⟨⟨label, salt, record⟩, hfirst⟩ := Option.isSome_iff_exists.mp hlisted
    refine ⟨label, salt, record, .adopted label r.owner salt now, hfirst, ?_, rfl, rfl, rfl, rfl, rfl⟩
    rw [find?_adoptAll, if_neg hstate, hfirst]
  untouched name hname := by
    rw [find?_adoptAll]
    split
    next => rfl
    next hstate =>
      have hunlisted : Document.firstListing? documents name = none := by
        rw [← Option.not_isSome_iff_eq_none]
        exact fun hlisted => hname ((mem_adoptAll ..).mpr ⟨hstate, hlisted⟩)
      rw [hunlisted]
  primary := primary_adoptAll r documents now
  pending := (primaries_adoptAll r documents now).1
  setup := setup_adoptAll documents now

section Playing

variable {oracle : Log → (request : Request) → request.Answer}

theorem play_recover_of_error {e : RegistrationError}
    (h : oracle [] (.findDocuments .domain (.ownedBy r.owner)) = .error e) :
    ((recover r).play oracle []).2 = (r, .error e) := by
  unfold recover
  simp only [bind, Task.bind, get, getThe, MonadStateOf.get, Task.play, Routine.ask, h]
  rfl

theorem play_recover_of_ok
    (h : oracle [] (.findDocuments .domain (.ownedBy r.owner)) = .ok documents) :
    ∃ now, ((recover r).play oracle []).2 =
      ((r.adoptAll documents now).2, .ok (r.adoptAll documents now).1) := by
  refine ⟨oracle [⟨.findDocuments .domain (.ownedBy r.owner), .ok documents⟩] .time, ?_⟩
  unfold recover
  simp only [bind, Task.bind, get, getThe, MonadStateOf.get, Task.play, Routine.ask, h]
  rfl

end Playing

/-- Recovering asks once which domains the owner has. If that fails nothing changes, and otherwise the
listed names that were not registered are adopted; to recover again with the same answer adopts nothing
and changes nothing. -/
theorem recovery_adopts_owned_names (r : UsernameRegistration)
    (oracle : Log → (request : Request) → request.Answer) :
    (∀ e, oracle [] (.findDocuments .domain (.ownedBy r.owner)) = .error e →
      ((recover r).play oracle []).2 = (r, .error e)) ∧
    ∀ documents, oracle [] (.findDocuments .domain (.ownedBy r.owner)) = .ok documents →
      ∃ adopted r', ((recover r).play oracle []).2 = (r', .ok adopted) ∧
        r.Adopts documents adopted r' ∧
        ∀ oracle', oracle' [] (.findDocuments .domain (.ownedBy r.owner)) = .ok documents →
          ((recover r').play oracle' []).2 = (r', .ok []) := by
  refine ⟨fun e => play_recover_of_error, ?_⟩
  intro documents hlisted
  obtain ⟨now, hplay⟩ := play_recover_of_ok hlisted
  refine ⟨_, _, hplay, adopts_adoptAll r documents now, ?_⟩
  intro oracle' hlisted'
  have howner : (r.adoptAll documents now).2.owner = r.owner :=
    owner_eq_of_setup (setup_adoptAll documents now)
  rw [← howner] at hlisted'
  obtain ⟨later, hagain⟩ := play_recover_of_ok hlisted'
  rw [hagain, adoptAll_again]

end UsernameRegistration

namespace Sample

/-- Documents that list a name twice and another one once, with one that is no domain and one whose
name cannot be read. -/
def listing : List Document :=
  [.ofEntry identity .epoch ⟨"Alice", "alice", "dash", salt alice, .unique identity⟩,
    .ofCommitment identity .epoch .zero,
    .ofEntry identity .epoch ⟨"a", "a", "dash", salt alice, .unique identity⟩,
    .ofEntry identity .epoch ⟨"bob", "bob", "dash", salt bob, .secondary identity⟩,
    .ofEntry identity .epoch ⟨"alice", "alice", "dash", salt bob, .secondary identity⟩]

end Sample

namespace UsernameRegistration

open Sample

/-- A registration that holds one of two listed names, which is not registered yet. -/
theorem recovery_adopts_owned_names_alice :
    oracle (.ok ⟨.zero⟩) none (fun _ _ => listing) []
        (.findDocuments .domain (.ownedBy (holding [bob]).owner)) = .ok listing ∧
      ∃ r', ((recover (holding [bob])).play (oracle (.ok ⟨.zero⟩) none fun _ _ => listing) []).2 =
          (r', .ok ["alice.dash", "bob.dash"]) ∧
        r'.primary = some "alice.dash" ∧
        ((recover r').play (oracle (.ok ⟨.zero⟩) none fun _ _ => listing) []).2 = (r', .ok []) := by
  have hlisted : oracle (.ok ⟨.zero⟩) none (fun _ _ => listing) []
      (.findDocuments .domain (.ownedBy (holding [bob]).owner)) = .ok listing := rfl
  obtain ⟨-, hok⟩ := recovery_adopts_owned_names (holding [bob])
    (oracle (.ok ⟨.zero⟩) none fun _ _ => listing)
  obtain ⟨adopted, r', hplay, hadopts, hagain⟩ := hok listing hlisted
  have hnames : adopted = ["alice.dash", "bob.dash"] := hadopts.names.trans (by decide +kernel)
  have hprimary : r'.primary = some "alice.dash" := hadopts.primary.trans (by decide +kernel)
  exact ⟨hlisted, r', hnames ▸ hplay, hprimary, hagain _ rfl⟩

end UsernameRegistration

end Enrolment
