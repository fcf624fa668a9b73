import Enrolment.Proofs.Platform.Names

/-!
Identities do not get in each other's way on a platform.

What a platform answers an identity depends on what it keeps of that identity only, provided that the
others stay clear of its names and commitments. The part that is kept of an identity is called its
view: errands of others leave the view alone, and platforms with one view answer alike. So the errands
of others can be left out.
-/

namespace Enrolment

open Simulation

/-- The names that an operation reveals, as they are spelt: labels with their parents. -/
def Operation.names : Operation → List (String × String)
  | .registerDomains _ entries => entries.map fun e => (e.normalized, e.parent)
  | _ => []

def Operation.commitments : Operation → List Digest
  | .preorder _ commitments => commitments
  | _ => []

namespace Simulation

/-- Which documents an identity looks for. -/
inductive Wanted where
  | committed (commitments : List Digest)
  | named (parent : String) (labels : List String)
  /-- Those that it owns itself. -/
  | owned

def Wanted.filter (owner : IdentityId) : Wanted → Filter
  | committed commitments => .commitmentIn commitments
  | named parent labels => .labelIn parent labels
  | owned => .ownedBy owner

/-- What an identity goes to a platform for. -/
inductive Errand where
  | submit (t : Transition) (now : Timestamp)
  | findIdentity (owner : IdentityId)
  | findDocuments (owner : IdentityId) (kind : DocumentKind) (wanted : Wanted)

namespace Errand

/-- The identity whose errand it is. -/
def owner : Errand → IdentityId
  | submit t _ => t.operation.identity
  | findIdentity owner | findDocuments owner _ _ => owner

def act : Errand → Act
  | submit t now => .submit t now
  | findIdentity owner => .findIdentity owner
  | findDocuments owner kind wanted => .findDocuments kind (wanted.filter owner)

/-- The names that an errand mentions, as they are spelt: labels with their parents. -/
def names : Errand → List (String × String)
  | submit t _ => t.operation.names
  | findDocuments _ _ (.named parent labels) => labels.map (·, parent)
  | _ => []

def commitments : Errand → List Digest
  | submit t _ => t.operation.commitments
  | findDocuments _ _ (.committed commitments) => commitments
  | _ => []

/-- No name and no commitment is mentioned by both errands. -/
def Apart (e e' : Errand) : Prop :=
  (∀ name ∈ e.names, name ∉ e'.names) ∧ ∀ digest ∈ e.commitments, digest ∉ e'.commitments

instance (e e' : Errand) : Decidable (e.Apart e') := inferInstanceAs (Decidable (_ ∧ _))

/-- An errand that mentions neither the name nor the commitment of a document. -/
def Avoids (e : Errand) (d : Document) : Prop :=
  (∀ name ∈ e.names, d.name? ≠ some name) ∧ ∀ digest ∈ e.commitments, d.commitment? ≠ some digest

/-- What an errand is answered with. -/
inductive Answer where
  | submission (answer : Except Refusal Receipt)
  | identity (answer : Except RegistrationError (Option Identity))
  | documents (answer : Except RegistrationError (List Document))

theorem Apart.symm {e e' : Errand} (h : e.Apart e') : e'.Apart e :=
  ⟨fun name hmem hmem' => h.1 name hmem' hmem, fun digest hmem hmem' => h.2 digest hmem' hmem⟩

end Errand

namespace Platform

variable [Suite]

/-- What an errand is answered with. -/
def answer (p : Platform) : Errand → Errand.Answer
  | .submit t now => .submission (p.submit t now).1
  | .findIdentity owner => .identity (p.findIdentity owner).1
  | .findDocuments owner kind wanted => .documents (p.findDocuments kind (wanted.filter owner)).1

/-- What the errands of one identity are answered with among those of others. -/
def answersTo (id : IdentityId) (p : Platform) : List Errand → List Errand.Answer
  | [] => []
  | e :: rest =>
    let answers := (p.after e.act).answersTo id rest
    if e.owner = id then p.answer e :: answers else answers

/-- Platforms that refuse and fail nothing by script and keep the same of an identity. -/
structure SameView (id : IdentityId) (p p' : Platform) : Prop where
  behaviour : p.behaviour = p'.behaviour
  clear : p.refusals = [] ∧ p'.refusals = []
  running : p.failing = 0 ∧ p'.failing = 0
  identity : p.identities.find? id = p'.identities.find? id
  documents : p.documents.filter (·.item.owner = id) = p'.documents.filter (·.item.owner = id)

/-- The errands of an identity avoid the documents of others, and the errands of others avoid those of
the identity. -/
def KeepsApart (id : IdentityId) (errands : List Errand) (p : Platform) : Prop :=
  ∀ h ∈ p.documents, ∀ e ∈ errands, ¬(h.item.owner = id ↔ e.owner = id) → e.Avoids h.item

end Platform

/-- A document that an operation leaves has its owner, and a name or commitment that it mentions. -/
theorem Errand.of_mem_ofTransition [Suite] {t : Transition} {d : Document}
    (h : d ∈ Document.ofTransition t) :
    d.owner = t.operation.identity ∧ (∀ name, d.name? = some name → name ∈ t.operation.names) ∧
      ∀ digest, d.commitment? = some digest → digest ∈ t.operation.commitments := by
  unfold Document.ofTransition at h
  cases hoperation : t.operation with
  | createIdentity id lock keys => simp [hoperation] at h
  | preorder owner commitments =>
    simp only [hoperation] at h
    obtain ⟨c, hc, rfl⟩ := List.mem_map.mp h
    refine ⟨rfl, nofun, ?_⟩
    rintro digest ⟨⟩
    exact hc
  | registerDomains owner entries =>
    simp only [hoperation] at h
    obtain ⟨e, he, rfl⟩ := List.mem_map.mp h
    refine ⟨rfl, ?_, nofun⟩
    rintro name ⟨⟩
    exact List.mem_map_of_mem he

/-- The documents that an errand looks at are those of its owner, as far as it avoids the others. -/
theorem Errand.owner_of_concerns {owner : IdentityId} {kind : DocumentKind} {wanted : Wanted}
    {d : Document} (hconcerns : Platform.concerns kind (wanted.filter owner) d = true)
    (havoids : (findDocuments owner kind wanted).Avoids d) : d.owner = owner := by
  simp only [Platform.concerns, Bool.and_eq_true] at hconcerns
  obtain ⟨-, haccepts⟩ := hconcerns
  cases wanted with
  | owned => simpa [Wanted.filter, Filter.accepts] using haccepts
  | committed commitments =>
    simp only [Wanted.filter, Filter.accepts] at haccepts
    split at haccepts
    next digest hdigest =>
      have hmem : digest ∈ commitments := of_decide_eq_true haccepts
      exact absurd hdigest (havoids.2 digest hmem)
    next => cases haccepts
  | named parent labels =>
    simp only [Wanted.filter, Filter.accepts] at haccepts
    split at haccepts
    next label p hname =>
      simp only [Bool.and_eq_true, decide_eq_true_eq] at haccepts
      obtain ⟨rfl, hlabel⟩ := haccepts
      exact absurd hname (havoids.1 _ (List.mem_map.mpr ⟨label, hlabel, rfl⟩))
    next => cases haccepts

namespace Platform

variable {p p' : Platform} {id : IdentityId} {errands : List Errand} {e : Errand}

section Keeping

theorem filter_observeThose (documents : List (Hidden Document)) (concerned : Document → Bool) :
    (documents.map (observeThose concerned)).filter (·.item.owner = id) =
      (documents.filter (·.item.owner = id)).map (observeThose concerned) := by
  simp [List.filter_map, Function.comp_def, item_observeThose]

theorem SameView.mem_iff (h : SameView id p p') (kept : Hidden Document) :
    (kept ∈ p.documents ∧ kept.item.owner = id) ↔ (kept ∈ p'.documents ∧ kept.item.owner = id) := by
  have hmem : kept ∈ p.documents.filter (·.item.owner = id) ↔
      kept ∈ p'.documents.filter (·.item.owner = id) := by
    rw [h.documents]
  simpa [List.mem_filter] using hmem

theorem SameView.showsCommitment_iff (h : SameView id p p') (digest : Digest) :
    p.ShowsCommitment id digest ↔ p'.ShowsCommitment id digest := by
  constructor
  · rintro ⟨kept, hkept, hvisible, howner, hdigest⟩
    exact ⟨kept, ((h.mem_iff kept).mp ⟨hkept, howner⟩).1, hvisible, howner, hdigest⟩
  · rintro ⟨kept, hkept, hvisible, howner, hdigest⟩
    exact ⟨kept, ((h.mem_iff kept).mpr ⟨hkept, howner⟩).1, hvisible, howner, hdigest⟩

/-- A name that is mentioned is not held by another owner. -/
theorem not_isHeldByOther {e : Errand} {entry : DomainEntry}
    (havoids : ∀ h ∈ p.documents, h.item.owner ≠ id → e.Avoids h.item)
    (hentry : (entry.normalized, entry.parent) ∈ e.names) : ¬p.IsHeldByOther id entry := by
  rintro ⟨kept, hkept, hforeign, hname⟩
  exact (havoids kept hkept hforeign).1 _ hentry hname

/-- The documents that an errand looks at are those of the view. -/
theorem filter_concerns {kind : DocumentKind} {wanted : Wanted}
    (havoids : ∀ h ∈ p.documents, h.item.owner ≠ id →
      (Errand.findDocuments id kind wanted).Avoids h.item) :
    (p.documents.filter fun h => concerns kind (wanted.filter id) h.item) =
      (p.documents.filter (·.item.owner = id)).filter
        fun h => concerns kind (wanted.filter id) h.item := by
  rw [List.filter_filter]
  apply List.filter_congr
  intro kept hkept
  by_cases hown : kept.item.owner = id
  · simp [hown]
  · have hconcerned : concerns kind (wanted.filter id) kept.item = false := by
      rw [← Bool.not_eq_true]
      intro hconcerns
      exact hown (Errand.owner_of_concerns hconcerns (havoids kept hkept hown))
    simp [hconcerned]

end Keeping

variable [Suite]

section Apart

/-- Documents keep apart from errands that keep apart from one another. -/
theorem KeepsApart.after (h : p.KeepsApart id errands) (he : e ∈ errands)
    (hapart : ∀ e ∈ errands, ∀ e' ∈ errands, e.owner = id → e'.owner ≠ id → e.Apart e') :
    (p.after e.act).KeepsApart id errands := by
  intro kept hkept other hother hsides
  rcases of_mem_documents_after e.act hkept with ⟨old, hold, hitem⟩ | ⟨documents, hinserts, -⟩ |
    ⟨t, now, hsubmits, -, hleft⟩
  · rw [← hitem] at hsides ⊢
    exact h old hold other hother hsides
  · cases e <;> cases hinserts
  · have hsubmit : e = .submit t now := by
      cases e <;> cases hsubmits
      rfl
    subst hsubmit
    obtain ⟨howner, hnames, hcommitments⟩ := Errand.of_mem_ofTransition hleft
    have hother' : (Errand.submit t now).Apart other := by
      rw [howner] at hsides
      by_cases hown : t.operation.identity = id
      · exact hapart _ he other hother hown fun hsame => hsides ⟨fun _ => hsame, fun _ => hown⟩
      · have hsame : other.owner = id := by
          apply Decidable.byContradiction
          intro hforeign
          exact hsides ⟨fun hsame => absurd hsame hown, fun hsame => absurd hsame hforeign⟩
        exact (hapart other hother _ he hsame hown).symm
    constructor
    · intro name hname heq
      exact hother'.1 name (hnames name heq) hname
    · intro digest hdigest heq
      exact hother'.2 digest (hcommitments digest heq) hdigest

end Apart

section Judging

/-- An entry is judged by what is shown of the commitments of its owner and by who holds its name. -/
theorem checkEntry_congr {owner : IdentityId} {entry : DomainEntry}
    (hshows : ∀ digest, p.ShowsCommitment owner digest ↔ p'.ShowsCommitment owner digest)
    (hheld : p.IsHeldByOther owner entry ↔ p'.IsHeldByOther owner entry) :
    p.checkEntry owner entry = p'.checkEntry owner entry := by
  rcases p.checkEntry_cases owner entry with ⟨fault, hfault, herror⟩ | ⟨label, hlabel, hjudged⟩
  · rcases p'.checkEntry_cases owner entry with ⟨fault', hfault', herror'⟩ | ⟨label, hlabel, -⟩
    · rw [hfault] at hfault'
      obtain rfl := Except.error.inj hfault'
      rw [herror, herror']
    · rw [hfault] at hlabel
      cases hlabel
  · rcases p'.checkEntry_cases owner entry with ⟨fault, hfault, -⟩ | ⟨label', hlabel', hjudged'⟩
    · rw [hlabel] at hfault
      cases hfault
    · rw [hlabel] at hlabel'
      obtain rfl := Except.ok.inj hlabel'
      rw [← hshows, ← hheld] at hjudged'
      grind

/-- An errand that avoids the documents of others is judged alike by platforms with one view. -/
theorem SameView.check_eq (h : SameView id p p') {t : Transition} {now : Timestamp}
    (hown : t.operation.identity = id)
    (havoids : ∀ h ∈ p.documents, h.item.owner ≠ id → (Errand.submit t now).Avoids h.item)
    (havoids' : ∀ h ∈ p'.documents, h.item.owner ≠ id → (Errand.submit t now).Avoids h.item) :
    p.check t = p'.check t := by
  have hoperation : p.checkOperation t.signer t.operation = p'.checkOperation t.signer t.operation := by
    cases hcase : t.operation with
    | createIdentity other lock keys =>
      rw [hcase] at hown
      have hcontains : p.identities.contains other = p'.identities.contains other := by
        rw [Table.contains, Table.contains, show other = id from hown, h.identity]
      simp only [checkOperation, hcontains]
    | preorder owner commitments => rfl
    | registerDomains owner entries =>
      rw [hcase] at hown
      obtain rfl : owner = id := hown
      apply forM_congr_of_mem
      intro entry hentry
      have hname : (entry.normalized, entry.parent) ∈ (Errand.submit t now).names := by
        rw [Errand.names, hcase]
        exact List.mem_map_of_mem hentry
      apply checkEntry_congr h.showsCommitment_iff
      exact iff_of_false (not_isHeldByOther havoids hname) (not_isHeldByOther havoids' hname)
  unfold check
  rw [hoperation]

end Judging

section Views

/-- What an accepted transition of another identity leaves is not in the view. -/
theorem SameView.apply_foreign (h : SameView id p p') {t : Transition} (now : Timestamp)
    (hforeign : t.operation.identity ≠ id) : SameView id (p.apply t now) p' where
  behaviour := h.behaviour
  clear := h.clear
  running := h.running
  identity := by
    rw [← h.identity]
    cases hoperation : t.operation with
    | createIdentity other lock keys =>
      have hne : id ≠ other := by
        rw [hoperation] at hforeign
        exact Ne.symm hforeign
      simp [apply, hoperation, hne]
    | preorder owner commitments => simp [apply, hoperation]
    | registerDomains owner entries => simp [apply, hoperation]
  documents := by
    have hleft : ((Document.ofTransition t).map (⟨·, p.hiddenFrom t.operation⟩)).filter
        (fun h : Hidden Document => decide (h.item.owner = id)) = [] := by
      rw [List.filter_eq_nil_iff]
      intro kept hkept
      obtain ⟨d, hd, rfl⟩ := List.mem_map.mp hkept
      rw [decide_eq_true_eq, (Errand.of_mem_ofTransition hd).1]
      exact hforeign
    rw [← h.documents]
    simp only [apply, List.filter_append, hleft, List.append_nil]

/-- An errand of another identity leaves the view alone. -/
theorem SameView.after_foreign (h : SameView id p p') (hforeign : e.owner ≠ id)
    (havoids : ∀ h ∈ p.documents, h.item.owner = id → e.Avoids h.item) :
    SameView id (p.after e.act) p' := by
  cases e with
  | submit t now =>
    rw [Errand.act, Platform.after, submit_of_clear h.clear.1]
    cases p.check t with
    | error reason => exact ⟨h.behaviour, h.clear, h.running, h.identity, h.documents⟩
    | ok u =>
      have hcounted : SameView id { p with submissions := p.submissions + 1 } p' :=
        ⟨h.behaviour, h.clear, h.running, h.identity, h.documents⟩
      exact hcounted.apply_foreign now hforeign
  | findIdentity owner =>
    rw [Errand.act, Platform.after, findIdentity_of_running h.running.1]
    refine ⟨h.behaviour, h.clear, h.running, ?_, h.documents⟩
    rw [← h.identity]
    have hne : id ≠ owner := Ne.symm hforeign
    cases p.identities.find? owner with
    | none => rfl
    | some kept => simp [hne]
  | findDocuments owner kind wanted =>
    rw [Errand.act, Platform.after, findDocuments_of_running h.running.1]
    refine ⟨h.behaviour, h.clear, h.running, h.identity, ?_⟩
    rw [filter_observeThose, ← h.documents]
    have hsame : ∀ kept ∈ p.documents.filter (·.item.owner = id),
        observeThose (concerns kind (wanted.filter owner)) kept = kept := by
      intro kept hkept
      obtain ⟨hmem, hown⟩ := List.mem_filter.mp hkept
      have hown' : kept.item.owner = id := of_decide_eq_true hown
      apply if_neg
      intro hconcerns
      apply hforeign
      rw [← hown', Errand.owner_of_concerns hconcerns (havoids kept hmem hown')]
      rfl
    rw [List.map_congr_left hsame, List.map_id']

/-- What an accepted transition of the identity leaves is in the view. -/
theorem SameView.apply_own (h : SameView id p p') (t : Transition) (now : Timestamp) :
    SameView id (p.apply t now) (p'.apply t now) where
  behaviour := h.behaviour
  clear := h.clear
  running := h.running
  identity := by
    have hhidden : p.hiddenFrom t.operation = p'.hiddenFrom t.operation := by
      unfold hiddenFrom
      rw [h.behaviour]
    cases hoperation : t.operation with
    | createIdentity other lock keys =>
      rw [hoperation] at hhidden
      simp [apply, hoperation, h.identity, hhidden]
    | preorder owner commitments => simpa [apply, hoperation] using h.identity
    | registerDomains owner entries => simpa [apply, hoperation] using h.identity
  documents := by
    have hhidden : p.hiddenFrom t.operation = p'.hiddenFrom t.operation := by
      unfold hiddenFrom
      rw [h.behaviour]
    simp only [apply, List.filter_append, h.documents, hhidden]

/-- Platforms with one view of an identity answer its errands alike, and have one view of it again. -/
theorem SameView.after_own (h : SameView id p p') (hown : e.owner = id)
    (havoids : ∀ h ∈ p.documents, h.item.owner ≠ id → e.Avoids h.item)
    (havoids' : ∀ h ∈ p'.documents, h.item.owner ≠ id → e.Avoids h.item) :
    p.answer e = p'.answer e ∧ SameView id (p.after e.act) (p'.after e.act) := by
  cases e with
  | submit t now =>
    have hcheck := h.check_eq hown havoids havoids'
    rw [answer, answer, Errand.act, Platform.after, Platform.after, submit_of_clear h.clear.1,
      submit_of_clear h.clear.2, hcheck]
    have hcounted : SameView id { p with submissions := p.submissions + 1 }
        { p' with submissions := p'.submissions + 1 } :=
      ⟨h.behaviour, h.clear, h.running, h.identity, h.documents⟩
    cases p'.check t with
    | error reason => exact ⟨rfl, hcounted⟩
    | ok u => exact ⟨rfl, hcounted.apply_own t now⟩
  | findIdentity owner =>
    obtain rfl : owner = id := hown
    rw [answer, answer, Errand.act, Platform.after, Platform.after,
      findIdentity_of_running h.running.1, findIdentity_of_running h.running.2, h.identity]
    refine ⟨rfl, h.behaviour, h.clear, h.running, ?_, h.documents⟩
    cases hfind : p'.identities.find? owner with
    | none => simpa [hfind] using h.identity
    | some kept => simp
  | findDocuments owner kind wanted =>
    obtain rfl : owner = id := hown
    rw [answer, answer, Errand.act, Platform.after, Platform.after,
      findDocuments_of_running h.running.1, findDocuments_of_running h.running.2,
      filter_concerns havoids, filter_concerns havoids', h.documents]
    refine ⟨rfl, h.behaviour, h.clear, h.running, h.identity, ?_⟩
    rw [filter_observeThose, filter_observeThose, h.documents]

end Views

/-- The errands of others change nothing. -/
theorem SameView.answersTo_eq (h : SameView id p p') (hkeeps : p.KeepsApart id errands)
    (hkeeps' : p'.KeepsApart id errands)
    (hapart : ∀ e ∈ errands, ∀ e' ∈ errands, e.owner = id → e'.owner ≠ id → e.Apart e')
    (rest : List Errand) (hrest : ∀ e ∈ rest, e ∈ errands) :
    p.answersTo id rest = p'.answersTo id (rest.filter (·.owner = id)) := by
  induction rest generalizing p p' with
  | nil => rfl
  | cons e rest ih =>
    have he : e ∈ errands := hrest e List.mem_cons_self
    have hafter := hkeeps.after he hapart
    have hrest' : ∀ e ∈ rest, e ∈ errands := fun e hmem => hrest e (List.mem_cons_of_mem _ hmem)
    by_cases hown : e.owner = id
    · obtain ⟨hanswer, hview⟩ := h.after_own hown
        (fun kept hkept hforeign => hkeeps kept hkept e he fun hiff => hforeign (hiff.mpr hown))
        (fun kept hkept hforeign => hkeeps' kept hkept e he fun hiff => hforeign (hiff.mpr hown))
      have htail := ih hview hafter (hkeeps'.after he hapart) hrest'
      simp only [answersTo, hown, ↓reduceIte, decide_true, List.filter_cons_of_pos, hanswer, htail]
    · have hview := h.after_foreign hown
        fun kept hkept hkeptown => hkeeps kept hkept e he fun hiff => hown (hiff.mp hkeptown)
      have htail := ih hview hafter hkeeps' hrest'
      simp only [answersTo, hown, ↓reduceIte, decide_false, List.filter_cons, htail]
      rfl

/-- What a platform that refuses and fails nothing by script answers the errands of an identity, among
the errands of others that mention none of its names and commitments, is what it would answer them if
the others did not go. What is stored at the start keeps apart in the same way. -/
theorem identities_do_not_interfere (hrefusals : p.refusals = []) (hfailing : p.failing = 0)
    (hapart : ∀ e ∈ errands, ∀ e' ∈ errands, e.owner = id → e'.owner ≠ id → e.Apart e')
    (hstored : p.KeepsApart id errands) :
    p.answersTo id errands = p.answersTo id (errands.filter (·.owner = id)) := by
  have hview : SameView id p p := ⟨rfl, ⟨hrefusals, hrefusals⟩, ⟨hfailing, hfailing⟩, rfl, rfl⟩
  exact hview.answersTo_eq hstored hstored hapart errands fun _ hmem => hmem

end Platform

section

open Platform Rehearsal

/-- What is revealed of a name. -/
def entryFor (owner : IdentityId) (label : Label) : DomainEntry :=
  ⟨label.display, label.normalized, label.parent, Sample.salt label, .unique owner⟩

/-- A name that an identity preorders, looks for until the preorder is shown, reveals and lists. -/
def claimingErrands (owner : IdentityId) (label : Label) : List Errand :=
  let digest := commitment (Sample.salt label) label owner
  [.submit (.sign (.preorder owner [digest]) .epoch key) .epoch,
    .findDocuments owner .preorder (.committed [digest]),
    .findDocuments owner .preorder (.committed [digest]),
    .submit (.sign (.registerDomains owner [entryFor owner label]) .epoch key) .epoch,
    .findDocuments owner .domain .owned,
    .findDocuments owner .domain .owned]

/-- Two identities that claim names at the same time. -/
def interleavedErrands : List Errand :=
  ((claimingErrands Sample.identity Sample.alice).zip
    (claimingErrands Sample.other Sample.bob)).flatMap fun errands => [errands.2, errands.1]

/-- One of two identities is answered as if it were alone: its name is listed in the end, and nothing
else. -/
theorem Platform.identities_do_not_interfere_alice :
    (empty .default).answersTo Sample.identity interleavedErrands =
      (empty .default).answersTo Sample.identity (claimingErrands Sample.identity Sample.alice) ∧
    ((empty .default).answersTo Sample.identity interleavedErrands).getLast? =
      some (.documents (.ok [.ofEntry Sample.identity .epoch (entryFor Sample.identity
        Sample.alice)])) := by
  have halone : interleavedErrands.filter (·.owner = Sample.identity) =
      claimingErrands Sample.identity Sample.alice := rfl
  have hstored : (empty .default).KeepsApart Sample.identity interleavedErrands :=
    fun _ hkept => absurd hkept List.not_mem_nil
  have hapart : ∀ e ∈ interleavedErrands, ∀ e' ∈ interleavedErrands, e.owner = Sample.identity →
      e'.owner ≠ Sample.identity → e.Apart e' := by decide +kernel
  have hanswers := identities_do_not_interfere (p := empty .default) rfl rfl hapart hstored
  rw [halone] at hanswers
  rw [hanswers]
  exact ⟨rfl, rfl⟩

end

end Simulation

end Enrolment
