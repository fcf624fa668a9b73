import Enrolment.Proofs.Platform.Locks

/-!
When a platform shows what it has.

What a platform has of identities and documents is changed by an act in one way only: a release ends
its hiding, and an answered query that concerns it takes one query off. So what is left of its hiding
after any acts follows from the releases and from the number of answered queries that concern it.
-/

namespace Enrolment

open Simulation

namespace Simulation

/-- What is hidden from a number of queries, or for ever, is due after so many queries or its
release. -/
def IsDue (hidden : Option Nat) (released : Prop) (queries : Nat) : Prop :=
  released ∨ ∃ n, hidden = some n ∧ n ≤ queries

namespace Hidden

variable {α : Type}

/-- Something hidden after a number of queries that concern it, and possibly its release. -/
def later (released : Bool) (queries : Nat) (h : Hidden α) : Hidden α :=
  ⟨h.item, if released then some 0 else waitAfter queries h.remaining⟩

theorem later_none (h : Hidden α) : h.later false 0 = h := by
  simp [later, waitAfter_zero]

theorem later_release (queries : Nat) (h : Hidden α) : h.later true queries = h.release := rfl

theorem later_observe (h : Hidden α) : h.later false 1 = h.observe.2 := (snd_observe h).symm

theorem later_later (released released' : Bool) (queries queries' : Nat) (h : Hidden α) :
    (h.later released queries).later released' queries' =
      h.later (released || released') (queries + queries') := by
  cases released' with
  | true => simp [later]
  | false =>
    cases released with
    | true => simp [later, waitAfter]
    | false => simp [later, waitAfter_waitAfter]

theorem isVisible_later {released : Bool} {queries : Nat} {h : Hidden α} :
    (h.later released queries).isVisible = true ↔ IsDue h.remaining (released = true) queries := by
  rw [isVisible_iff, IsDue]
  cases released with
  | true => simp [later]
  | false =>
    cases hremaining : h.remaining with
    | none => simp [later, waitAfter, hremaining]
    | some n => simp [later, waitAfter, hremaining, Nat.sub_eq_zero_iff_le]

end Hidden

namespace Act

/-- The release of documents of a kind. -/
def releases (kind : DocumentKind) : Act → Bool
  | .releaseDocuments released => released = kind
  | _ => false

def releasesIdentities : Act → Bool
  | .releaseIdentities => true
  | _ => false

/-- A query for documents that concerns one. -/
def looksAt (d : Document) : Act → Bool
  | .findDocuments kind filter => Platform.concerns kind filter d
  | _ => false

/-- A query for an identity. -/
def looksFor (id : IdentityId) : Act → Bool
  | .findIdentity other => other = id
  | _ => false

/-- An act that puts no identity of this id into a platform past its checks. -/
def KeepsIdentity (id : IdentityId) (act : Act) : Prop :=
  ∀ identity, act = .insertIdentity identity → identity.id ≠ id

theorem any_releases_iff {kind : DocumentKind} {acts : List Act} :
    acts.any (releases kind) = true ↔ .releaseDocuments kind ∈ acts := by
  have hreleases (act : Act) : act.releases kind = true ↔ act = .releaseDocuments kind := by
    cases act <;> simp [releases]
  simp only [List.any_eq_true, hreleases, exists_eq_right]

theorem any_releasesIdentities_iff {acts : List Act} :
    acts.any releasesIdentities = true ↔ .releaseIdentities ∈ acts := by
  have hreleases (act : Act) : act.releasesIdentities = true ↔ act = .releaseIdentities := by
    cases act <;> simp [releasesIdentities]
  simp only [List.any_eq_true, hreleases, exists_eq_right]

end Act

namespace Platform

/-- Whether an act is a query and does not fail. -/
def succeeds (p : Platform) : Act → Bool
  | .findIdentity id => (p.findIdentity id).1.isOk
  | .findDocuments kind filter => (p.findDocuments kind filter).1.isOk
  | _ => false

variable {p : Platform} {kind : DocumentKind} {filter : Filter} {id : IdentityId}

/-- A query fails exactly if it is to fail by script, and then changes nothing that could be shown. -/
theorem findDocuments_of_failing {n : Nat} (hfailing : p.failing = n + 1) :
    p.findDocuments kind filter = (.error (.query "mock query failure"),
      { p with queries := p.queries + 1, failing := n }) := by
  simp only [findDocuments, query, hfailing]

theorem findIdentity_of_failing {n : Nat} (hfailing : p.failing = n + 1) :
    p.findIdentity id = (.error (.query "mock query failure"),
      { p with queries := p.queries + 1, failing := n }) := by
  simp only [findIdentity, query, hfailing]

variable [Suite]

/-- The number of queries of some sort among acts that a platform answers. -/
def answered (p : Platform) (sort : Act → Bool) : List Act → Nat
  | [] => 0
  | act :: rest => (p.succeeds act && sort act).toNat + (p.after act).answered sort rest

/-- The transition that a platform accepts by an act. -/
def acceptedBy (p : Platform) : Act → Option Transition
  | .submit t now => if (p.submit t now).1.isOk then some t else none
  | _ => none

/-- The documents that a platform stores by an act. -/
def stored (p : Platform) : Act → List (Hidden Document)
  | .insertDocuments documents => documents.map (⟨·, some 0⟩)
  | act => (p.acceptedBy act).toList.flatMap fun t =>
    (Document.ofTransition t).map (⟨·, p.hiddenFrom t.operation⟩)

variable {t : Transition} {now : Timestamp} {act : Act}

/-- A refused submission leaves all that is kept alone. -/
theorem submit_of_refused {refusal : Refusal} (h : (p.submit t now).1 = .error refusal) :
    ∃ refusals, (p.submit t now).2 = { p with submissions := p.submissions + 1, refusals } := by
  by_cases hclear : p.refusals = []
  · rw [submit_of_clear hclear] at h ⊢
    cases hcheck : p.check t with
    | error reason => exact ⟨p.refusals, rfl⟩
    | ok u =>
      rw [hcheck] at h
      cases h
  · obtain ⟨scripted, rest, hrefusals⟩ := List.exists_cons_of_ne_nil hclear
    refine ⟨rest, ?_⟩
    unfold submit
    simp only [hrefusals]

/-- An accepted submission passed its check, and is carried out. -/
theorem submit_of_accepted {receipt : Receipt} (h : (p.submit t now).1 = .ok receipt) :
    p.check t = .ok () ∧
      (p.submit t now).2 = { p with submissions := p.submissions + 1 }.apply t now := by
  rcases p.submit_cases t now with ⟨-, hcheck, -, hafter⟩ | ⟨⟨refusal, hrefused⟩, -, -⟩
  · exact ⟨hcheck, hafter⟩
  · rw [hrefused] at h
    cases h

theorem isOk_submit_cases (p : Platform) (t : Transition) (now : Timestamp) :
    ((p.submit t now).1.isOk = true ∧ p.check t = .ok () ∧
      (p.submit t now).2 = { p with submissions := p.submissions + 1 }.apply t now) ∨
    ((p.submit t now).1.isOk = false ∧
      ∃ refusals, (p.submit t now).2 = { p with submissions := p.submissions + 1, refusals }) := by
  cases hanswer : (p.submit t now).1 with
  | ok receipt => exact .inl ⟨rfl, submit_of_accepted hanswer⟩
  | error refusal => exact .inr ⟨rfl, submit_of_refused hanswer⟩

/-- What an act does to documents. -/
theorem documents_after (p : Platform) (act : Act) :
    (p.after act).documents = (p.documents.map fun h =>
      h.later (act.releases h.item.kind) (p.succeeds act && act.looksAt h.item).toNat) ++
        p.stored act := by
  have hsame (documents : List (Hidden Document)) :
      documents.map (fun h => h.later false 0) = documents := by
    simp [Hidden.later_none]
  cases act with
  | releaseDocuments kind =>
    simp only [after, releaseDocuments, stored, acceptedBy, Option.toList_none, List.flatMap_nil,
      List.append_nil]
    apply List.map_congr_left
    intro h _
    by_cases hkind : h.item.kind = kind
    · simp [Act.releases, hkind, Hidden.later_release]
    · simp [Act.releases, Act.looksAt, hkind, Ne.symm hkind, Hidden.later_none]
  | insertDocuments documents =>
    simp [after, insertDocuments, stored, Act.releases, Act.looksAt, hsame]
  | submit t now =>
    rcases p.isOk_submit_cases t now with ⟨hok, -, hafter⟩ | ⟨hok, refusals, hafter⟩
    · simp [after, hafter, stored, acceptedBy, hok, Act.releases, Act.looksAt, hsame, apply,
        hiddenFrom]
    · simp [after, hafter, stored, acceptedBy, hok, Act.releases, Act.looksAt, hsame]
  | findDocuments kind filter =>
    cases hfailing : p.failing with
    | succ n =>
      simp [after, findDocuments_of_failing hfailing, stored, acceptedBy, succeeds, Except.isOk,
        Except.toBool, Act.releases, hsame]
    | zero =>
      simp only [after, findDocuments_of_running hfailing, stored, acceptedBy, Option.toList_none,
        List.flatMap_nil, List.append_nil]
      apply List.map_congr_left
      intro h _
      by_cases hconcerned : concerns kind filter h.item = true
      · simp [observeThose, hconcerned, succeeds, findDocuments_of_running hfailing, Except.isOk,
          Except.toBool, Act.releases, Act.looksAt, Hidden.later_observe]
      · simp [observeThose, hconcerned, Act.releases, Act.looksAt, Hidden.later_none]
  | findIdentity id =>
    simp [after, findIdentity_documents, stored, acceptedBy, Act.releases, Act.looksAt, hsame]
  | _ => simp [after, setDepth, refuseNext, failNext, releaseIdentities, insertIdentity, stored,
      acceptedBy, Act.releases, Act.looksAt, hsame]

/-- What is kept of a document after some acts. -/
theorem documents_afterAll {place : Nat} {h : Hidden Document} (acts : List Act)
    (hkept : p.documents[place]? = some h) :
    (p.afterAll acts).documents[place]? = some
      (h.later (acts.any (Act.releases h.item.kind)) (p.answered (Act.looksAt h.item) acts)) := by
  induction acts generalizing p h with
  | nil => rw [List.any_nil, answered, Hidden.later_none]; exact hkept
  | cons act rest ih =>
    have hafter : (p.after act).documents[place]? = some
        (h.later (act.releases h.item.kind) (p.succeeds act && act.looksAt h.item).toNat) := by
      obtain ⟨hlt, -⟩ := List.getElem?_eq_some_iff.mp hkept
      rw [documents_after, List.getElem?_append_left (by simpa using hlt), List.getElem?_map, hkept]
      rfl
    change ((p.after act).afterAll rest).documents[place]? = _
    rw [ih hafter, Hidden.later_later]
    rfl

/-- What an act does to an identity, unless it puts another one in its place. -/
theorem identities_after {h : Hidden Identity} (hkeeps : act.KeepsIdentity id)
    (hkept : p.identities.find? id = some h) :
    (p.after act).identities.find? id = some
      (h.later act.releasesIdentities (p.succeeds act && act.looksFor id).toNat) := by
  cases act with
  | releaseIdentities =>
    simp [after, releaseIdentities, hkept, Act.releasesIdentities, Hidden.later_release]
  | insertIdentity identity =>
    have hother : id ≠ identity.id := Ne.symm (hkeeps identity rfl)
    simp [after, insertIdentity, hother, hkept, Act.releasesIdentities, Act.looksFor,
      Hidden.later_none]
  | submit t now =>
    have hlater : h.later (Act.submit t now).releasesIdentities
        (p.succeeds (.submit t now) && (Act.submit t now).looksFor id).toNat = h := by
      simp [Act.releasesIdentities, Act.looksFor, Hidden.later_none]
    rw [hlater]
    rcases p.isOk_submit_cases t now with ⟨-, hcheck, hafter⟩ | ⟨-, refusals, hafter⟩
    · rw [after, hafter]
      have hpassed := checkOperation_of_check hcheck
      cases hoperation : t.operation with
      | createIdentity created lock keys =>
        rw [hoperation] at hpassed
        obtain ⟨-, -, hnew⟩ := of_checkOperation_creation hpassed
        have hother : id ≠ created := by
          rintro rfl
          simp [Table.contains, hkept] at hnew
        simp [apply, hoperation, hother, hkept]
      | preorder owner commitments => simp [apply, hoperation, hkept]
      | registerDomains owner domains => simp [apply, hoperation, hkept]
    · rw [after, hafter]
      exact hkept
  | findIdentity other =>
    cases hfailing : p.failing with
    | succ n =>
      simp [after, findIdentity_of_failing hfailing, succeeds, Except.isOk, Except.toBool,
        Act.releasesIdentities, Hidden.later_none, hkept]
    | zero =>
      simp only [after, findIdentity_of_running hfailing, succeeds, Except.isOk, Except.toBool,
        Bool.true_and, Act.looksFor, Act.releasesIdentities]
      by_cases hsame : other = id
      · simp [hsame, hkept, Hidden.later_observe]
      · have hother : id ≠ other := Ne.symm hsame
        cases p.identities.find? other <;> simp [hsame, hother, hkept, Hidden.later_none]
  | findDocuments kind filter =>
    have hidentities : (p.findDocuments kind filter).2.identities = p.identities := by
      cases hfailing : p.failing with
      | succ n => rw [findDocuments_of_failing hfailing]
      | zero => rw [findDocuments_of_running hfailing]
    simp [after, hidentities, Act.looksFor, Act.releasesIdentities, Hidden.later_none, hkept]
  | _ => simpa [after, setDepth, refuseNext, failNext, releaseDocuments, insertDocuments,
      Act.looksFor, Act.releasesIdentities, Hidden.later_none] using hkept

theorem identities_afterAll {h : Hidden Identity} {acts : List Act}
    (hkeeps : ∀ act ∈ acts, act.KeepsIdentity id) (hkept : p.identities.find? id = some h) :
    (p.afterAll acts).identities.find? id = some
      (h.later (acts.any Act.releasesIdentities) (p.answered (Act.looksFor id) acts)) := by
  induction acts generalizing p h with
  | nil => rw [List.any_nil, answered, Hidden.later_none]; exact hkept
  | cons act rest ih =>
    have hafter := identities_after (hkeeps act List.mem_cons_self) hkept
    change ((p.after act).afterAll rest).identities.find? id = _
    rw [ih (fun act hmem => hkeeps act (List.mem_cons_of_mem _ hmem)) hafter, Hidden.later_later]
    rfl

theorem accepted_after (p : Platform) (act : Act) :
    (p.after act).accepted = p.accepted ++ (p.acceptedBy act).toList := by
  cases act with
  | submit t now =>
    rcases p.isOk_submit_cases t now with ⟨hok, -, hafter⟩ | ⟨hok, refusals, hafter⟩
    · simp [after, hafter, acceptedBy, hok, apply]
    · simp [after, hafter, acceptedBy, hok]
  | findDocuments kind filter =>
    simpa [after, acceptedBy] using (sameIdentities_findDocuments p kind filter).accepted
  | findIdentity id =>
    simpa [after, acceptedBy] using (sameIdentities_findIdentity p id).accepted
  | _ => simp [after, setDepth, refuseNext, failNext, releaseIdentities, releaseDocuments,
      insertIdentity, insertDocuments, acceptedBy]

/-- The documents that a platform has are those that the transitions which it accepted leave, in the
same order. -/
theorem documents_of_accepted {acts : List Act} (hacts : ∀ act ∈ acts, act.IsChecked)
    (behaviour : Behaviour) :
    ((empty behaviour).afterAll acts).documents.map Hidden.item =
      ((empty behaviour).afterAll acts).accepted.flatMap Document.ofTransition := by
  refine keeps_afterAll (P := fun p => p.documents.map Hidden.item =
    p.accepted.flatMap Document.ofTransition) rfl ?_
  intro p act hact hp
  have hstored : (p.stored act).map Hidden.item =
      (p.acceptedBy act).toList.flatMap Document.ofTransition := by
    cases act with
    | insertDocuments documents => exact absurd rfl (hacts _ hact documents)
    | _ => simp [stored, List.map_flatMap, Function.comp_def]
  rw [documents_after, accepted_after, List.map_append, List.map_map, List.flatMap_append, ← hp,
    hstored]
  rfl

/-- The documents that a query concerns and that can be seen, in the order of storage. -/
def shown (p : Platform) (kind : DocumentKind) (filter : Filter) : List Document :=
  (p.documents.filter fun h => h.isVisible && concerns kind filter h.item).map Hidden.item

omit [Suite] in
theorem findDocuments_eq_shown (hrunning : p.failing = 0) :
    (p.findDocuments kind filter).1 = .ok (p.shown kind filter) := by
  have hshown : (p.documents.filter fun h => concerns kind filter h.item).filterMap
      (fun h => h.observe.1) = p.shown kind filter := by
    rw [shown, ← List.filterMap_eq_map, List.filterMap_filter, List.filterMap_filter]
    congr 1
    funext kept
    cases hvisible : kept.isVisible <;>
      simp [fst_observe, ← Hidden.isVisible_iff, hvisible]
  rw [findDocuments_of_running hrunning, hshown]

omit [Suite] in
theorem findIdentity_eq {h : Hidden Identity} (hrunning : p.failing = 0)
    (hkept : p.identities.find? id = some h) :
    (p.findIdentity id).1 = .ok (if h.isVisible = true then some h.item else none) := by
  rw [findIdentity_of_running hrunning]
  simp [hkept, fst_observe, Hidden.isVisible_iff]

omit [Suite] in
/-- A query that is to fail by script fails, and leaves all that could be shown alone. -/
theorem findIdentity_fails (hfailing : p.failing ≠ 0) :
    (p.findIdentity id).1 = .error (.query "mock query failure") ∧
      (p.findIdentity id).2.identities = p.identities ∧
      (p.findIdentity id).2.documents = p.documents := by
  obtain ⟨n, hfailing⟩ := Nat.exists_eq_succ_of_ne_zero hfailing
  rw [findIdentity_of_failing hfailing]
  exact ⟨rfl, rfl, rfl⟩

omit [Suite] in
theorem findDocuments_fails (hfailing : p.failing ≠ 0) :
    (p.findDocuments kind filter).1 = .error (.query "mock query failure") ∧
      (p.findDocuments kind filter).2.identities = p.identities ∧
      (p.findDocuments kind filter).2.documents = p.documents := by
  obtain ⟨n, hfailing⟩ := Nat.exists_eq_succ_of_ne_zero hfailing
  rw [findDocuments_of_failing hfailing]
  exact ⟨rfl, rfl, rfl⟩

/-- An accepted document is kept where it was stored, and can be seen when it is due. -/
theorem document_due {receipt : Receipt} (haccepted : (p.submit t now).1 = .ok receipt)
    (later : List Act) {i : Nat} {d : Document} (hd : (Document.ofTransition t)[i]? = some d) :
    ∃ kept,
      ((p.after (.submit t now)).afterAll later).documents[p.documents.length + i]? = some kept ∧
      kept.item = d ∧ (kept.isVisible = true ↔ IsDue (p.hiddenFrom t.operation)
        (.releaseDocuments d.kind ∈ later)
        ((p.after (.submit t now)).answered (Act.looksAt d) later)) := by
  have hstored : (p.after (.submit t now)).documents[p.documents.length + i]? =
      some ⟨d, p.hiddenFrom t.operation⟩ := by
    rw [after, (submit_of_accepted haccepted).2]
    simp only [apply, List.getElem?_append_right (Nat.le_add_right _ _), Nat.add_sub_cancel_left,
      List.getElem?_map, hd, Option.map_some]
    rfl
  refine ⟨_, documents_afterAll later hstored, rfl, ?_⟩
  rw [Hidden.isVisible_later, Act.any_releases_iff]

/-- An accepted identity is shown when it is due, unless another one is put in its place. -/
theorem identity_due {receipt : Receipt} {lock : CreditLock} {keys : List PublicKey}
    (haccepted : (p.submit t now).1 = .ok receipt)
    (hoperation : t.operation = .createIdentity id lock keys)
    {later : List Act} (hkeeps : ∀ act ∈ later, act.KeepsIdentity id)
    (hrunning : ((p.after (.submit t now)).afterAll later).failing = 0) :
    ∃ seen, (((p.after (.submit t now)).afterAll later).findIdentity id).1 = .ok seen ∧
      (seen = some ((Identity.pending lock keys).register now) ∧
          IsDue (p.hiddenFrom t.operation) (.releaseIdentities ∈ later)
            ((p.after (.submit t now)).answered (Act.looksFor id) later) ∨
        seen = none ∧ ¬IsDue (p.hiddenFrom t.operation) (.releaseIdentities ∈ later)
          ((p.after (.submit t now)).answered (Act.looksFor id) later)) := by
  have hstored : (p.after (.submit t now)).identities.find? id =
      some ⟨(Identity.pending lock keys).register now, p.hiddenFrom t.operation⟩ := by
    rw [after, (submit_of_accepted haccepted).2]
    simp [apply, hoperation, hiddenFrom]
  refine ⟨_, findIdentity_eq hrunning (identities_afterAll hkeeps hstored), ?_⟩
  split
  next hvisible =>
    rw [Hidden.isVisible_later, Act.any_releasesIdentities_iff] at hvisible
    exact .inl ⟨rfl, hvisible⟩
  next hhidden =>
    rw [Hidden.isVisible_later, Act.any_releasesIdentities_iff] at hhidden
    exact .inr ⟨rfl, hhidden⟩

/-- An inserted identity is shown at once, unless another one is put in its place. -/
theorem inserted_identity_due {identity : Identity} {later : List Act}
    (hkeeps : ∀ act ∈ later, act.KeepsIdentity identity.id)
    (hrunning : ((p.after (.insertIdentity identity)).afterAll later).failing = 0) :
    (((p.after (.insertIdentity identity)).afterAll later).findIdentity identity.id).1 =
      .ok (some identity) := by
  have hstored : (p.after (.insertIdentity identity)).identities.find? identity.id =
      some ⟨identity, some 0⟩ := by
    simp [after, insertIdentity]
  rw [findIdentity_eq hrunning (identities_afterAll hkeeps hstored),
    if_pos (Hidden.isVisible_later.mpr (.inr ⟨0, rfl, Nat.zero_le _⟩))]
  rfl

/-- An inserted document is kept where it was stored, and can be seen at once. -/
theorem inserted_document_due {documents : List Document} (later : List Act) {i : Nat} {d : Document}
    (hd : documents[i]? = some d) :
    ∃ kept,
      ((p.after (.insertDocuments documents)).afterAll later).documents[p.documents.length + i]? =
        some kept ∧ kept.item = d ∧ kept.isVisible = true := by
  have hstored : (p.after (.insertDocuments documents)).documents[p.documents.length + i]? =
      some ⟨d, some 0⟩ := by
    simp [after, insertDocuments, List.getElem?_append_right, hd]
  exact ⟨_, documents_afterAll later hstored, rfl,
    Hidden.isVisible_later.mpr (.inr ⟨0, rfl, Nat.zero_le _⟩)⟩

/-- A platform shows what it keeps as soon as it is due. -/
structure ShowsWhenDue (p : Platform) : Prop where
  /-- An accepted document has its place in storage. It can be seen from its release on, or after as
  many answered queries that concern it as it is hidden from. -/
  document : ∀ t now receipt later i d, (p.submit t now).1 = .ok receipt →
    (Document.ofTransition t)[i]? = some d →
    ∃ kept,
      ((p.after (.submit t now)).afterAll later).documents[p.documents.length + i]? = some kept ∧
      kept.item = d ∧ (kept.isVisible = true ↔ IsDue (p.hiddenFrom t.operation)
        (.releaseDocuments d.kind ∈ later)
        ((p.after (.submit t now)).answered (Act.looksAt d) later))
  /-- An inserted document has its place in storage, and can be seen at once. -/
  insertedDocument : ∀ documents later i d, documents[i]? = some d →
    ∃ kept,
      ((p.after (.insertDocuments documents)).afterAll later).documents[p.documents.length + i]? =
        some kept ∧ kept.item = d ∧ kept.isVisible = true
  /-- A query is answered with the documents that it concerns and that can be seen, in their order. -/
  listing : p.failing = 0 → ∀ kind filter, (p.findDocuments kind filter).1 = .ok (p.shown kind filter)
  /-- An accepted identity is the answer just if it is due. -/
  identity : ∀ t now receipt id lock keys later, (p.submit t now).1 = .ok receipt →
    t.operation = .createIdentity id lock keys → (∀ act ∈ later, act.KeepsIdentity id) →
    ((p.after (.submit t now)).afterAll later).failing = 0 →
    ∃ seen, (((p.after (.submit t now)).afterAll later).findIdentity id).1 = .ok seen ∧
      (seen = some ((Identity.pending lock keys).register now) ∧
          IsDue (p.hiddenFrom t.operation) (.releaseIdentities ∈ later)
            ((p.after (.submit t now)).answered (Act.looksFor id) later) ∨
        seen = none ∧ ¬IsDue (p.hiddenFrom t.operation) (.releaseIdentities ∈ later)
          ((p.after (.submit t now)).answered (Act.looksFor id) later))
  /-- An inserted identity is the answer at once. -/
  insertedIdentity : ∀ identity later, (∀ act ∈ later, act.KeepsIdentity identity.id) →
    ((p.after (.insertIdentity identity)).afterAll later).failing = 0 →
    (((p.after (.insertIdentity identity)).afterAll later).findIdentity identity.id).1 =
      .ok (some identity)
  /-- A query that fails by script counts for nothing. -/
  failing : p.failing ≠ 0 →
    (∀ id, (∃ fault, (p.findIdentity id).1 = .error fault) ∧
      (p.findIdentity id).2.identities = p.identities ∧
      (p.findIdentity id).2.documents = p.documents) ∧
    ∀ kind filter, (∃ fault, (p.findDocuments kind filter).1 = .error fault) ∧
      (p.findDocuments kind filter).2.identities = p.identities ∧
      (p.findDocuments kind filter).2.documents = p.documents
  /-- A refused submission leaves nothing behind. -/
  refused : ∀ t now refusal, (p.submit t now).1 = .error refusal →
    (p.submit t now).2.identities = p.identities ∧ (p.submit t now).2.documents = p.documents ∧
      (p.submit t now).2.accepted = p.accepted

/-- A platform shows what it keeps when it is due, whatever happened before, and without insertions
its documents are those that the accepted transitions leave, in the same order. -/
theorem items_are_shown_when_due (behaviour : Behaviour) (before : List Act) :
    ((empty behaviour).afterAll before).ShowsWhenDue ∧
      ((∀ act ∈ before, act.IsChecked) →
        ((empty behaviour).afterAll before).documents.map Hidden.item =
          ((empty behaviour).afterAll before).accepted.flatMap Document.ofTransition) := by
  refine ⟨⟨?document, ?insertedDocument, ?listing, ?identity, ?insertedIdentity, ?failing,
    ?refused⟩, ?_⟩
  case document =>
    intro t now receipt later i d haccepted hd
    exact document_due haccepted later hd
  case insertedDocument =>
    intro documents later i d hd
    exact inserted_document_due later hd
  case listing =>
    intro hrunning kind filter
    exact findDocuments_eq_shown hrunning
  case identity =>
    intro t now receipt id lock keys later haccepted hoperation hkeeps hrunning
    exact identity_due haccepted hoperation hkeeps hrunning
  case insertedIdentity =>
    intro identity later hkeeps hrunning
    exact inserted_identity_due hkeeps hrunning
  case failing =>
    intro hfailing
    constructor
    · intro id
      obtain ⟨hfault, hkept⟩ := findIdentity_fails hfailing
      exact ⟨⟨_, hfault⟩, hkept⟩
    · intro kind filter
      obtain ⟨hfault, hkept⟩ := findDocuments_fails hfailing
      exact ⟨⟨_, hfault⟩, hkept⟩
  case refused =>
    intro t now refusal hrefused
    obtain ⟨refusals, hafter⟩ := submit_of_refused hrefused
    rw [hafter]
    exact ⟨rfl, rfl, rfl⟩
  · exact fun hchecked => documents_of_accepted hchecked behaviour

end Platform

end Simulation

namespace Sample

/-- A commitment, and a name for the queries that concern it. -/
def reserving [Suite] : Transition := .sign (.preorder identity [.zero]) .epoch signingKey

def looking : Simulation.Act := .findDocuments .preorder (.ownedBy identity)

end Sample

namespace Simulation.Platform

section

open Rehearsal

/-- A preorder that is hidden from one query stays hidden after a query that fails, and can be seen
after the next one. -/
theorem items_are_shown_when_due_preorder :
    let p := (empty .default).after (.submit Sample.reserving .epoch)
    (∃ kept, (p.afterAll [.failNext 1, Sample.looking]).documents[0]? = some kept ∧
        kept.isVisible ≠ true) ∧
      ∃ kept, (p.afterAll [.failNext 1, Sample.looking, Sample.looking]).documents[0]? = some kept ∧
        kept.isVisible = true := by
  intro p
  obtain ⟨hshows, -⟩ := items_are_shown_when_due .default []
  let d : Document := .ofCommitment Sample.identity .epoch .zero
  have haccepted : ((empty .default).submit Sample.reserving .epoch).1 =
      .ok ⟨Sample.reserving.id⟩ := rfl
  have hd : (Document.ofTransition Sample.reserving)[0]? = some d := rfl
  have hfailed : p.answered (Act.looksAt d) [.failNext 1, Sample.looking] = 0 := rfl
  have hanswered : p.answered (Act.looksAt d) [.failNext 1, Sample.looking, Sample.looking] = 1 := rfl
  constructor
  · obtain ⟨kept, hkept, -, hvisible⟩ :=
      hshows.document Sample.reserving .epoch _ [.failNext 1, Sample.looking] 0 d haccepted hd
    refine ⟨kept, hkept, ?_⟩
    rw [ne_eq, hvisible]
    rintro (hreleased | ⟨n, hn, hle⟩)
    · simp [Sample.looking] at hreleased
    · cases hn
      have hanswered : 1 ≤ p.answered (Act.looksAt d) [.failNext 1, Sample.looking] := hle
      rw [hfailed] at hanswered
      exact absurd hanswered (by decide)
  · obtain ⟨kept, hkept, -, hvisible⟩ :=
      hshows.document Sample.reserving .epoch _ [.failNext 1, Sample.looking, Sample.looking] 0 d
        haccepted hd
    exact ⟨kept, hkept, hvisible.mpr (.inr ⟨1, rfl, Nat.le_of_eq hanswered.symm⟩)⟩

end

end Simulation.Platform

namespace Sample

/-- A platform with an identity and a commitment that are hidden from two queries each. -/
def reticent : Simulation.Platform :=
  @Simulation.Platform.afterAll .standard
    (.empty { Simulation.Behaviour.default with identityHidden := some 2, preorderHidden := some 2 })
    [.submit (forging identity) .epoch, .submit (@reserving .standard) .epoch]

end Sample

open Sample in
/-- What is hidden from two queries is shown to the first of them after its release, and an identity
that is inserted is shown in the place of the accepted one. -/
theorem Simulation.Platform.items_are_shown_early :
    reticent.accepted = [forging identity, reserving] ∧
      reticent.behaviour.identityHidden = some 2 ∧ reticent.behaviour.preorderHidden = some 2 ∧
      ((reticent.after (.releaseDocuments .preorder)).findDocuments .preorder
        (.ownedBy identity)).1.toOption = some (Document.ofTransition reserving) ∧
      ((reticent.after .releaseIdentities).findIdentity identity).1.toOption =
        some (some ((Identity.pending (forged identity) []).register .epoch)) ∧
      ((reticent.after (.insertIdentity (.pending (forged identity) []))).findIdentity
        identity).1.toOption = some (some (.pending (forged identity) [])) := by
  decide +kernel

end Enrolment
