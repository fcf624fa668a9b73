import Enrolment.Proofs.Platform.Checks
import Enrolment.Proofs.Platform.Service

/-!
What a platform has of one identity.

An identity that is to be registered stands in a scene: the platform, before anything was done, has
nothing of it and nothing of its names, answers every query and has no refusals in store that would
outlast the attempts to submit. What the platform comes to have of the identity is its share; the rest
stays as it was, as far as the identity is concerned.
-/

namespace Enrolment

open Simulation

namespace Simulation

theorem snd_observe {α : Type} (h : Hidden α) : h.observe.2 = ⟨h.item, waitAfter 1 h.remaining⟩ := by
  obtain ⟨item, remaining⟩ := h
  unfold Hidden.observe
  split
  next hr => simp_all [waitAfter]
  next n hr => simp_all [waitAfter]
  next hr => simp_all [waitAfter]

theorem fst_observe {α : Type} (h : Hidden α) :
    h.observe.1 = if h.remaining = some 0 then some h.item else none := by
  unfold Hidden.observe
  split
  next hr => simp [hr]
  next n hr => simp [hr]
  next hr => simp [hr]

/-- Of items that are held back alike, all are seen or none. -/
theorem filterMap_observe {α β : Type} (f : β → α) (wait : Option Nat) (xs : List β) :
    (xs.map fun x => (⟨f x, wait⟩ : Hidden α)).filterMap (fun h => h.observe.1) =
      if wait = some 0 then xs.map f else [] := by
  induction xs with
  | nil => simp
  | cons x rest ih =>
    rw [List.map_cons, List.filterMap_cons, ih, fst_observe]
    by_cases hwait : wait = some 0
    · simp [hwait]
    · simp [hwait]

/-- What is left of some hiding after a query that concerns some documents. -/
def observeThose (concerned : Document → Bool) (h : Hidden Document) : Hidden Document :=
  if concerned h.item then h.observe.2 else h

theorem item_observeThose (concerned : Document → Bool) (h : Hidden Document) :
    (observeThose concerned h).item = h.item := by
  unfold observeThose
  split
  · rw [snd_observe]
  · rfl

end Simulation

/-- What an identity is registered from and with, and the platform before anything was done. -/
structure Scene [Suite] where
  lock : CreditLock
  burnKey : SecretKey
  signingKey : SecretKey
  settings : Settings
  /-- The names that are asked for. -/
  requests : List String
  /-- The labels that they are read as. -/
  labels : List Label
  before : Platform
  valid : settings.validate = .ok ()
  read : requests.mapM settings.naming.resolve = .ok labels
  burns : burnKey.publicKey = lock.burnKey
  burnKey_isSound : burnKey.IsSound
  signingKey_isSound : signingKey.IsSound
  deep : settings.confirmations ≤ before.depth lock.transaction
  answers : before.failing = 0
  transient : ∀ refusal ∈ before.refusals, ∃ reason, refusal = .transient reason
  few : before.refusals.length < settings.submission.attempts.toNat
  unknown : before.identities.find? lock.identity = none
  unowned : ∀ h ∈ before.documents, h.item.owner ≠ lock.identity
  free : ∀ h ∈ before.documents, ∀ l ∈ labels, h.item.name? ≠ some (l.normalized, l.parent)

/-- What a platform has of an identity. -/
structure Share where
  /-- How many looks the identity is still hidden from, if there is one. -/
  identity : Option (Option Nat)
  documents : List (Hidden Document)
  /-- What was accepted, oldest first. -/
  operations : List Operation

namespace Scene

variable [Suite]

def id (scene : Scene) : IdentityId := scene.lock.identity

/-- Each name once. -/
def names (scene : Scene) : List Label := UsernameRegistration.distinct scene.labels

theorem isReadable (scene : Scene) : ∀ l ∈ scene.names, l.IsReadable := by
  intro l hl
  have hlabel := (UsernameRegistration.distinct_sublist scene.labels).subset hl
  obtain ⟨request, -, hparse⟩ := exists_of_mapM_ok scene.read hlabel
  exact ⟨request, _, hparse⟩

theorem nodup (scene : Scene) : (scene.names.map Label.fullName).Nodup :=
  UsernameRegistration.nodup_distinct scene.labels

/-- The documents of commitments that were submitted at once. -/
def preorders (scene : Scene) (now : Timestamp) (commitments : List Digest) (wait : Option Nat) :
    List (Hidden Document) :=
  commitments.map fun c => ⟨.ofCommitment scene.id now c, wait⟩

/-- The documents of names that were revealed at once. -/
def domains (scene : Scene) (now : Timestamp) (entries : List DomainEntry) (wait : Option Nat) :
    List (Hidden Document) :=
  entries.map fun e => ⟨.ofEntry scene.id now e, wait⟩

/-- The platform has a share of the identity, and is otherwise as it was. -/
structure Shows (scene : Scene) (share : Share) (p : Platform) : Prop where
  behaviour : p.behaviour = scene.before.behaviour
  depths : p.depths = scene.before.depths
  failing : p.failing = 0
  refusals : p.refusals <:+ scene.before.refusals
  foreign : ∀ h ∈ p.documents, h.item.owner ≠ scene.id →
    ∀ l ∈ scene.names, h.item.name? ≠ some (l.normalized, l.parent)
  identity : (p.identities.find? scene.id).map Hidden.remaining = share.identity
  documents : p.documents.filter (fun h => h.item.owner = scene.id) = share.documents
  accepted : ∃ ts, p.accepted = scene.before.accepted ++ ts ∧
    ts.map Transition.operation = share.operations

variable {scene : Scene} {share : Share} {p : Platform} {identity : Option (Option Nat)}
  {documents : List (Hidden Document)} {operations : List Operation}

/-- At first the platform has nothing of the identity. -/
theorem shows_before (scene : Scene) : scene.Shows ⟨none, [], []⟩ scene.before := by
  refine ⟨rfl, rfl, scene.answers, List.suffix_refl _, ?_, ?_, ?_, [], by simp, rfl⟩
  · intro h member _ l hl
    exact scene.free h member l ((UsernameRegistration.distinct_sublist scene.labels).subset hl)
  · rw [Scene.id, scene.unknown]
    rfl
  · apply List.filter_eq_nil_iff.mpr
    intro h member
    simp only [decide_eq_true_eq]
    exact scene.unowned h member

theorem Shows.depth (h : scene.Shows share p) :
    scene.settings.confirmations ≤ p.depth scene.lock.transaction := by
  unfold Platform.depth
  rw [h.depths, h.behaviour]
  exact scene.deep

theorem Shows.transient (h : scene.Shows share p) :
    ∀ refusal ∈ p.refusals, ∃ reason, refusal = .transient reason := by
  intro refusal member
  exact scene.transient refusal (h.refusals.subset member)

theorem Shows.few (h : scene.Shows share p) :
    p.refusals.length < scene.settings.submission.attempts.toNat := by
  have hlength := h.refusals.length_le
  have hfew := scene.few
  omega

/-- What was refused leaves the share as it is. -/
theorem Shows.refused (h : scene.Shows share p) {refusals : List Refusal}
    (hrefusals : refusals <:+ p.refusals) (submissions : Nat) :
    scene.Shows share { p with refusals, submissions } :=
  ⟨h.behaviour, h.depths, h.failing, hrefusals.trans h.refusals, h.foreign, h.identity, h.documents,
    h.accepted⟩

/-- A query for an identity that the platform does not have changes nothing. -/
theorem Shows.findIdentity_unknown (h : scene.Shows share p) (hidentity : share.identity = none) :
    ∃ p', p.findIdentity scene.id = (.ok none, p') ∧ scene.Shows share p' := by
  have hnone : p.identities.find? scene.id = none := by
    simpa [hidentity] using h.identity
  refine ⟨{ p with queries := p.queries + 1 }, ?_, ?_⟩
  · simp [Platform.findIdentity, Platform.query, Platform.seeIdentity, h.failing, hnone]
  · exact ⟨h.behaviour, h.depths, h.failing, h.refusals, h.foreign, h.identity, h.documents,
      h.accepted⟩

/-- A query for an identity that the platform has sees it or brings it nearer. -/
theorem Shows.findIdentity_known {wait : Option Nat}
    (h : scene.Shows ⟨some wait, documents, operations⟩ p) :
    ∃ seen p', p.findIdentity scene.id = (.ok seen, p') ∧
      scene.Shows ⟨some (waitAfter 1 wait), documents, operations⟩ p' ∧
      (seen.isSome ↔ wait = some 0) := by
  obtain ⟨hidden, hfound, hwait⟩ := Option.map_eq_some_iff.mp h.identity
  refine ⟨hidden.observe.1, { p with
    queries := p.queries + 1
    identities := p.identities.insert scene.id hidden.observe.2 }, ?_, ?_, ?_⟩
  · simp [Platform.findIdentity, Platform.query, Platform.seeIdentity, h.failing, hfound]
  · refine ⟨h.behaviour, h.depths, h.failing, h.refusals, h.foreign, ?_, h.documents, h.accepted⟩
    simp [snd_observe, hwait]
  · rw [fst_observe, hwait]
    split <;> simp_all

/-- What a query for documents sees of the share, and what it leaves of it. -/
theorem Shows.findDocuments (h : scene.Shows share p) (kind : DocumentKind) (filter : Filter) :
    ∃ seen p', p.findDocuments kind filter = (.ok seen, p') ∧
      scene.Shows { share with
        documents := share.documents.map (observeThose (Platform.concerns kind filter)) } p' ∧
      (∀ d ∈ seen, Platform.concerns kind filter d = true) ∧
      seen.filter (fun d => d.owner = scene.id) =
        (share.documents.filter fun h => Platform.concerns kind filter h.item).filterMap
          fun h => h.observe.1 := by
  let seen := (p.documents.filter fun h => Platform.concerns kind filter h.item).filterMap
    fun h => h.observe.1
  refine ⟨seen, { p with
    queries := p.queries + 1
    documents := p.documents.map (observeThose (Platform.concerns kind filter)) }, ?_, ?_, ?_, ?_⟩
  · simp only [Platform.findDocuments, Platform.query, Platform.seeDocuments, h.failing]
    rfl
  · refine ⟨h.behaviour, h.depths, h.failing, h.refusals, ?_, h.identity, ?_, h.accepted⟩
    · intro hidden member
      obtain ⟨old, hold, rfl⟩ := List.mem_map.mp member
      rw [item_observeThose]
      exact h.foreign old hold
    · rw [← h.documents, List.filter_map]
      congr 1
      apply List.filter_congr
      intro hidden _
      simp [item_observeThose]
  · intro d member
    obtain ⟨hidden, hmatching, hseen⟩ := List.mem_filterMap.mp member
    rw [fst_observe] at hseen
    split at hseen
    · obtain rfl := Option.some.inj hseen
      exact (List.mem_filter.mp hmatching).2
    · cases hseen
  · rw [← h.documents, List.filter_filterMap, List.filterMap_filter, List.filterMap_filter,
      List.filterMap_filter]
    congr 1
    funext hidden
    rw [fst_observe]
    by_cases howner : hidden.item.owner = scene.id
    · split <;> split <;> simp_all
    · split <;> split <;> simp_all

section Looking

variable (scene) (now : Timestamp) (wait : Option Nat)

theorem map_preorders (commitments : List Digest) :
    (scene.preorders now commitments wait).map
        (observeThose (Platform.concerns .preorder (.commitmentIn commitments))) =
      scene.preorders now commitments (waitAfter 1 wait) := by
  unfold preorders
  rw [List.map_map]
  apply List.map_congr_left
  intro c member
  have hconcerned : Platform.concerns .preorder (.commitmentIn commitments)
      (.ofCommitment scene.id now c) = true := by
    simp [Platform.concerns, Document.ofCommitment, Document.kind, Filter.accepts,
      Document.commitment?, member]
  simp [observeThose, hconcerned, snd_observe]

theorem map_preorders_domain (commitments : List Digest) (filter : Filter) :
    (scene.preorders now commitments wait).map (observeThose (Platform.concerns .domain filter)) =
      scene.preorders now commitments wait := by
  unfold preorders
  rw [List.map_map]
  apply List.map_congr_left
  intro c _
  simp [observeThose, Platform.concerns, Document.ofCommitment, Document.kind]

theorem map_domains (entries : List DomainEntry) :
    (scene.domains now entries wait).map
        (observeThose (Platform.concerns .domain (.ownedBy scene.id))) =
      scene.domains now entries (waitAfter 1 wait) := by
  unfold domains
  rw [List.map_map]
  apply List.map_congr_left
  intro e _
  simp [observeThose, Platform.concerns, Document.ofEntry, Document.kind, Filter.accepts, snd_observe]

theorem seen_preorders (commitments : List Digest) :
    ((scene.preorders now commitments wait).filter fun h =>
        Platform.concerns .preorder (.commitmentIn commitments) h.item).filterMap
          (fun h => h.observe.1) =
      if wait = some 0 then commitments.map (.ofCommitment scene.id now) else [] := by
  have hall : (scene.preorders now commitments wait).filter (fun h =>
      Platform.concerns .preorder (.commitmentIn commitments) h.item) =
        scene.preorders now commitments wait := by
    apply List.filter_eq_self.mpr
    intro h member
    obtain ⟨c, hc, rfl⟩ := List.mem_map.mp member
    simp [Platform.concerns, Document.ofCommitment, Document.kind, Filter.accepts,
      Document.commitment?, hc]
  rw [hall]
  exact filterMap_observe _ wait commitments

theorem seen_domains (commitments : List Digest) (entries : List DomainEntry) (made : Timestamp)
    (wait' : Option Nat) :
    ((scene.preorders made commitments wait' ++ scene.domains now entries wait).filter fun h =>
        Platform.concerns .domain (.ownedBy scene.id) h.item).filterMap (fun h => h.observe.1) =
      if wait = some 0 then entries.map (.ofEntry scene.id now) else [] := by
  have hpreorders : (scene.preorders made commitments wait').filter (fun h =>
      Platform.concerns .domain (.ownedBy scene.id) h.item) = [] := by
    apply List.filter_eq_nil_iff.mpr
    intro h member
    obtain ⟨c, -, rfl⟩ := List.mem_map.mp member
    simp [Platform.concerns, Document.ofCommitment, Document.kind]
  have hdomains : (scene.domains now entries wait).filter (fun h =>
      Platform.concerns .domain (.ownedBy scene.id) h.item) = scene.domains now entries wait := by
    apply List.filter_eq_self.mpr
    intro h member
    obtain ⟨e, -, rfl⟩ := List.mem_map.mp member
    simp [Platform.concerns, Document.ofEntry, Document.kind, Filter.accepts]
  rw [List.filter_append, hpreorders, hdomains, List.nil_append]
  exact filterMap_observe _ wait entries

end Looking

/-- A query for all preorders of a batch sees them all, or brings them all nearer. -/
theorem Shows.findPreorders {now : Timestamp} {commitments : List Digest} {wait : Option Nat}
    (hsome : commitments ≠ [])
    (h : scene.Shows ⟨identity, scene.preorders now commitments wait, operations⟩ p) :
    ∃ seen p', p.findDocuments .preorder (.commitmentIn commitments) = (.ok seen, p') ∧
      scene.Shows ⟨identity, scene.preorders now commitments (waitAfter 1 wait), operations⟩ p' ∧
      (UsernameRegistration.holdsPreorders scene.id commitments seen = true ↔ wait = some 0) := by
  obtain ⟨seen, p', hfound, hshows, -, hseen⟩ :=
    h.findDocuments .preorder (.commitmentIn commitments)
  refine ⟨seen, p', hfound, ?_, ?_⟩
  · rw [← map_preorders]
    exact hshows
  · rw [seen_preorders] at hseen
    unfold UsernameRegistration.holdsPreorders
    rw [hseen]
    split
    next hwait => simp [hwait, Function.comp_def, Document.ofCommitment, Document.commitment?]
    next hwait =>
      obtain ⟨c, rest, rfl⟩ := List.exists_cons_of_ne_nil hsome
      simp [hwait]

/-- A query for the names of an identity sees them all, or brings them all nearer. -/
theorem Shows.findDomains {now made : Timestamp} {commitments : List Digest}
    {entries : List DomainEntry} {wait wait' : Option Nat} (hsome : entries ≠ [])
    (h : scene.Shows ⟨identity, scene.preorders made commitments wait' ++
      scene.domains now entries wait, operations⟩ p) :
    ∃ seen p', p.findDocuments .domain (.ownedBy scene.id) = (.ok seen, p') ∧
      scene.Shows ⟨identity, scene.preorders made commitments wait' ++
        scene.domains now entries (waitAfter 1 wait), operations⟩ p' ∧
      (UsernameRegistration.holdsDomains (entries.map fun e => (e.normalized, e.parent)) seen =
        true ↔ wait = some 0) := by
  obtain ⟨seen, p', hfound, hshows, hconcerned, hseen⟩ :=
    h.findDocuments .domain (.ownedBy scene.id)
  refine ⟨seen, p', hfound, ?_, ?_⟩
  · rw [← map_domains, ← map_preorders_domain scene made wait' commitments (.ownedBy scene.id),
      ← List.map_append]
    exact hshows
  · have howned : seen.filter (fun d => d.owner = scene.id) = seen := by
      apply List.filter_eq_self.mpr
      intro d member
      have hd := hconcerned d member
      simp only [Platform.concerns, Filter.accepts, Bool.and_eq_true] at hd
      exact hd.2
    rw [seen_domains, howned] at hseen
    unfold UsernameRegistration.holdsDomains
    rw [hseen]
    split
    next hwait =>
      simp only [hwait, iff_true, List.all_eq_true, List.any_eq_true, decide_eq_true_eq]
      intro name member
      obtain ⟨e, he, rfl⟩ := List.mem_map.mp member
      exact ⟨_, List.mem_map.mpr ⟨e, he, rfl⟩, rfl⟩
    next hwait =>
      obtain ⟨e, rest, rfl⟩ := List.exists_cons_of_ne_nil hsome
      simp [hwait]

/-- The platform lists no names for an identity that has no documents. -/
theorem Shows.findNothing (h : scene.Shows share p) (hnone : share.documents = []) :
    ∃ p', p.findDocuments .domain (.ownedBy scene.id) = (.ok [], p') ∧ scene.Shows share p' := by
  obtain ⟨seen, p', hfound, hshows, hconcerned, hseen⟩ :=
    h.findDocuments .domain (.ownedBy scene.id)
  have hempty : seen = [] := by
    rw [hnone] at hseen
    apply List.eq_nil_iff_forall_not_mem.mpr
    intro d member
    have hd := hconcerned d member
    simp only [Platform.concerns, Filter.accepts, Bool.and_eq_true] at hd
    exact List.filter_eq_nil_iff.mp hseen d member hd.2
  refine ⟨p', hempty ▸ hfound, ?_⟩
  rw [hnone, List.map_nil, ← hnone] at hshows
  exact hshows

/-- An accepted transition of the identity adds to its share. -/
theorem Shows.apply (h : scene.Shows share p) {t : Transition} (now : Timestamp)
    (hid : t.operation.identity = scene.id) (hnew : Share)
    (hidentity : ((p.apply t now).identities.find? scene.id).map Hidden.remaining = hnew.identity)
    (hdocuments : hnew.documents =
      share.documents ++ (Document.ofTransition t).map (⟨·, p.hiddenFrom t.operation⟩))
    (hoperations : hnew.operations = share.operations ++ [t.operation]) :
    scene.Shows hnew (p.apply t now) := by
  have howner : ∀ d ∈ Document.ofTransition t, d.owner = scene.id := by
    intro d member
    unfold Document.ofTransition at member
    cases hoperation : t.operation with
    | createIdentity id lock keys => simp [hoperation] at member
    | preorder owner commitments =>
      simp only [hoperation, List.mem_map] at member
      obtain ⟨c, -, rfl⟩ := member
      rw [hoperation] at hid
      exact hid
    | registerDomains owner domains =>
      simp only [hoperation, List.mem_map] at member
      obtain ⟨e, -, rfl⟩ := member
      rw [hoperation] at hid
      exact hid
  obtain ⟨ts, haccepted, hts⟩ := h.accepted
  refine ⟨h.behaviour, h.depths, h.failing, h.refusals, ?_, hidentity, ?_, ts ++ [t], ?_, ?_⟩
  · intro hidden member hforeign
    rcases List.mem_append.mp member with hold | hfresh
    · exact h.foreign hidden hold hforeign
    · obtain ⟨d, hd, rfl⟩ := List.mem_map.mp hfresh
      exact absurd (howner d hd) hforeign
  · have hkept : ((Document.ofTransition t).map (⟨·, p.hiddenFrom t.operation⟩)).filter
        (fun h : Hidden Document => h.item.owner = scene.id) =
        (Document.ofTransition t).map (⟨·, p.hiddenFrom t.operation⟩) := by
      apply List.filter_eq_self.mpr
      intro hidden member
      obtain ⟨d, hd, rfl⟩ := List.mem_map.mp member
      simpa using howner d hd
    change (p.documents ++ _).filter _ = _
    rw [List.filter_append, h.documents, hkept, hdocuments]
  · change p.accepted ++ [t] = _
    rw [haccepted, List.append_assoc]
  · rw [hoperations, ← hts]
    simp

/-- The creation of an identity that the platform does not have is accepted. -/
theorem Shows.check_creation (h : scene.Shows share p) (hnone : share.identity = none)
    (keys : List PublicKey) (now : Timestamp) :
    p.check (.sign (.createIdentity scene.id scene.lock keys) now scene.burnKey) = .ok () := by
  rw [p.check_sign scene.burnKey_isSound]
  have hunknown : p.identities.find? scene.id = none := by
    simpa [hnone] using h.identity
  have habsent : p.identities.contains scene.id = false := by
    unfold Table.contains
    rw [hunknown]
    rfl
  unfold Platform.checkOperation
  dsimp only
  rw [if_neg (by simp [scene.burns]), if_neg (by simp [Scene.id]), habsent]
  rfl

theorem Shows.apply_creation (h : scene.Shows ⟨identity, documents, operations⟩ p)
    (keys : List PublicKey) (key : SecretKey) (signed now : Timestamp) :
    scene.Shows ⟨some scene.before.behaviour.identityHidden, documents,
        operations ++ [.createIdentity scene.id scene.lock keys]⟩
      (p.apply (.sign (.createIdentity scene.id scene.lock keys) signed key) now) := by
  refine h.apply now rfl _ ?_ ?_ rfl
  · change ((p.identities.insert scene.id _).find? scene.id).map _ = _
    rw [Table.find?_insert, if_pos rfl, ← h.behaviour]
    rfl
  · simp [Document.ofTransition, Transition.sign]

theorem check_preorder {commitments : List Digest} (hsome : commitments ≠ []) (now : Timestamp) :
    p.check (.sign (.preorder scene.id commitments) now scene.signingKey) = .ok () := by
  rw [p.check_sign scene.signingKey_isSound]
  simp [Platform.checkOperation, hsome]

theorem Shows.apply_preorder (h : scene.Shows ⟨identity, documents, operations⟩ p)
    (commitments : List Digest) (key : SecretKey) (signed now : Timestamp) :
    scene.Shows ⟨identity,
        documents ++ scene.preorders signed commitments scene.before.behaviour.preorderHidden,
        operations ++ [.preorder scene.id commitments]⟩
      (p.apply (.sign (.preorder scene.id commitments) signed key) now) := by
  refine h.apply now rfl _ h.identity ?_ rfl
  simp [Document.ofTransition, Transition.sign, preorders, Platform.hiddenFrom, h.behaviour]

/-- Names that were committed to in preorders that can be seen are accepted. -/
theorem Shows.check_domains {entries : List DomainEntry} {commitments : List Digest}
    {made : Timestamp}
    (h : scene.Shows ⟨identity, scene.preorders made commitments (some 0), operations⟩ p)
    (hnames : ∀ e ∈ entries, ∃ l ∈ scene.names, e.normalized = l.normalized ∧ e.parent = l.parent)
    (hcommitted : ∀ e ∈ entries, commitment e.salt e.toLabel scene.id ∈ commitments)
    (now : Timestamp) :
    p.check (.sign (.registerDomains scene.id entries) now scene.signingKey) = .ok () := by
  rw [p.check_sign scene.signingKey_isSound]
  refine (forM_eq_ok_iff _ _).mpr ?_
  intro e member
  obtain ⟨l, hl, hnormalized, hparent⟩ := hnames e member
  have hparse := (scene.isReadable l hl).parse_normalized
  rw [← hnormalized, ← hparent] at hparse
  have hshows : p.ShowsCommitment scene.id
      (commitment e.salt ⟨e.normalized, e.normalized, e.parent⟩ scene.id) := by
    have hkept : ⟨.ofCommitment scene.id made (commitment e.salt e.toLabel scene.id), some 0⟩ ∈
        p.documents.filter (fun h => h.item.owner = scene.id) := by
      rw [h.documents]
      exact List.mem_map.mpr ⟨_, hcommitted e member, rfl⟩
    have hsame : e.toLabel.fullName = Label.fullName ⟨e.normalized, e.normalized, e.parent⟩ := rfl
    exact ⟨_, (List.mem_filter.mp hkept).1, rfl, rfl, congrArg some (commitment_congr hsame _ _)⟩
  have hfree : ¬p.IsHeldByOther scene.id e := by
    rintro ⟨hidden, hmember, hforeign, hname⟩
    rw [hnormalized, hparent] at hname
    exact h.foreign hidden hmember hforeign l hl hname
  exact Platform.checkEntry_of_showsCommitment hparse hshows hfree

theorem Shows.apply_domains (h : scene.Shows ⟨identity, documents, operations⟩ p)
    (entries : List DomainEntry) (key : SecretKey) (signed now : Timestamp) :
    scene.Shows ⟨identity,
        documents ++ scene.domains signed entries scene.before.behaviour.domainHidden,
        operations ++ [.registerDomains scene.id entries]⟩
      (p.apply (.sign (.registerDomains scene.id entries) signed key) now) := by
  refine h.apply now rfl _ h.identity ?_ rfl
  simp [Document.ofTransition, Transition.sign, domains, Platform.hiddenFrom, h.behaviour]

/-- A transition that passes the checks is accepted in the end, unless the flag is set, and adds to the
share what it is to add. -/
theorem Shows.concludes_submit {σ : Type} {s : σ} {flag : Bool} {t : Transition} {added : Share}
    (h : scene.Shows share p) (hcheck : p.check t = .ok ())
    (hadds : ∀ p now, scene.Shows share p → scene.Shows added (p.apply t now)) :
    (submitUntilDecided scene.settings.submission (Routine.ask (.submit t)) s).Concludes
      (fun flag p' s' ended => s' = s ∧
        match ended with
        | .accepted _ => scene.Shows added p'
        | .cancelled => flag = true ∧ scene.Shows share p'
        | _ => False) flag p := by
  refine (concludes_submitUntilDecided h.transient h.few hcheck).mono ?_
  rintro flag p' s' ended ⟨rfl, hended⟩
  refine ⟨rfl, ?_⟩
  match ended with
  | .accepted _ =>
    obtain ⟨submissions, now, rfl⟩ := hended
    exact hadds _ now (h.refused (List.nil_suffix) submissions)
  | .cancelled =>
    obtain ⟨hset, refusals, submissions, hsuffix, rfl⟩ := hended
    exact ⟨hset, h.refused hsuffix submissions⟩
  | .rejected reason => exact hended
  | .exhausted .. => exact hended

end Scene

/-! A suite whose signatures verify, and a credit lock, for instances of laws. -/

namespace Rehearsal

/-- Digests that repeat the beginning of what is hashed, one key for all, and signatures that repeat
what is signed. -/
scoped instance : Suite where
  hash bytes := .ofPadded bytes
  derive _ material := .ofPadded material
  publicKey _ := .neutral
  sign _ message := ⟨.ofPadded message, .zero⟩
  verify _ message signature := signature = ⟨.ofPadded message, .zero⟩

def key : SecretKey := ⟨.zero⟩

theorem isSound_key : key.IsSound := fun _ => decide_eq_true rfl

def funding : Transaction := ⟨⟨.zero⟩, [⟨50000, .creditBurn .neutral⟩]⟩

def lock : CreditLock := ⟨⟨.zero⟩, ⟨⟨.zero⟩, 0⟩, 50000, .neutral, .ofOutPoint ⟨⟨.zero⟩, 0⟩⟩

def alice : Label := ⟨"alice", "alice", "dash"⟩

end Rehearsal

end Enrolment
