import Enrolment.Proofs.Platform.Acts

/-!
Who owns names on a platform.

A name is judged by how it reads but looked for as it is spelt, so that a platform keeps every spelling
for one owner, and every name for one owner as long as it is spelt as it reads. Two spellings of one
name can have two owners.
-/

namespace Enrolment

open Simulation

namespace Document

/-- The full name that the name of a document reads as. -/
def fullName? (d : Document) : Option String :=
  d.name?.bind fun name => (Label.parse name.1 name.2).toOption.map Label.fullName

/-- A document whose name is spelt as it reads. -/
def SpellsItself (d : Document) : Prop :=
  ∃ label : Label, label.IsReadable ∧ d.name? = some (label.normalized, label.parent)

variable {d : Document}

theorem fullName?_eq_some {name : String × String} {label : Label} (hname : d.name? = some name)
    (hlabel : Label.parse name.1 name.2 = .ok label) : d.fullName? = some label.fullName := by
  simp [fullName?, hname, hlabel, Except.toOption]

end Document

namespace Simulation

/-- An act that puts no documents into a platform past its checks. -/
def Act.IsChecked (act : Act) : Prop := ∀ documents, act ≠ .insertDocuments documents

namespace Platform

/-- Every spelling of a name that is kept can be read, and has one owner. -/
structure KeepsNames (p : Platform) : Prop where
  reads : ∀ h ∈ p.documents, ∀ name, h.item.name? = some name →
    ∃ label, Label.parse name.1 name.2 = .ok label
  owned : ∀ h ∈ p.documents, ∀ h' ∈ p.documents, ∀ name, h.item.name? = some name →
    h'.item.name? = some name → h.item.owner = h'.item.owner

theorem keepsNames_empty (behaviour : Behaviour) : (empty behaviour).KeepsNames :=
  ⟨fun _ hmem => absurd hmem List.not_mem_nil, fun _ hmem => absurd hmem List.not_mem_nil⟩

variable [Suite]

/-- The platform after some acts. -/
def afterAll (p : Platform) (acts : List Act) : Platform := acts.foldl after p

variable {p : Platform} {t : Transition} {d : Document} {name : String × String}

/-- What each of some acts preserves is preserved by all of them. -/
theorem keeps_afterAll {P : Platform → Prop} {acts : List Act} (hp : P p)
    (hstep : ∀ p, ∀ act ∈ acts, P p → P (p.after act)) : P (p.afterAll acts) :=
  List.foldlRecOn acts after hp fun p hp act hact => hstep p act hact hp

/-- A name that an accepted transition leaves can be read and is not held by another owner. -/
theorem of_mem_ofTransition (hcheck : p.check t = .ok ()) (hd : d ∈ Document.ofTransition t)
    (hname : d.name? = some name) :
    d.owner = t.operation.identity ∧ (∃ label, Label.parse name.1 name.2 = .ok label) ∧
      ∀ h ∈ p.documents, h.item.name? = some name → h.item.owner = d.owner := by
  have hoperation := checkOperation_of_check hcheck
  unfold Document.ofTransition at hd
  cases hcase : t.operation with
  | createIdentity id lock keys => simp [hcase] at hd
  | preorder owner commitments =>
    simp only [hcase] at hd
    obtain ⟨c, -, rfl⟩ := List.mem_map.mp hd
    cases hname
  | registerDomains owner entries =>
    simp only [hcase] at hd hoperation
    obtain ⟨e, he, rfl⟩ := List.mem_map.mp hd
    obtain rfl := Option.some.inj hname
    obtain ⟨hreadable, hfree⟩ :=
      readable_of_checkEntry ((forM_eq_ok_iff _ _).mp hoperation e he)
    refine ⟨rfl, hreadable, ?_⟩
    intro h hmem hsame
    apply Decidable.byContradiction
    intro hforeign
    exact hfree ⟨h, hmem, hforeign, hsame⟩

/-- Acts that put nothing past the checks keep names as they should be. -/
theorem KeepsNames.after (h : p.KeepsNames) {act : Act} (hact : act.IsChecked) :
    (p.after act).KeepsNames := by
  -- a document comes from before, or from a transition that passed its check
  have hcases {kept : Hidden Document} (hmem : kept ∈ (p.after act).documents) :
      (∃ h₀ ∈ p.documents, h₀.item = kept.item) ∨
        ∃ t now, act = .submit t now ∧ p.check t = .ok () ∧ kept.item ∈ Document.ofTransition t := by
    rcases of_mem_documents_after act hmem with hold | ⟨documents, hinserted, -⟩ | hnew
    · exact .inl hold
    · exact absurd hinserted (hact documents)
    · exact .inr hnew
  constructor
  · intro kept hmem name hname
    rcases hcases hmem with ⟨old, hold, hitem⟩ | ⟨t, now, -, hcheck, hd⟩
    · exact h.reads old hold name (hitem ▸ hname)
    · exact (of_mem_ofTransition hcheck hd hname).2.1
  · intro kept hmem other hmem' name hname hname'
    rcases hcases hmem with ⟨old, hold, hitem⟩ | ⟨t, now, hsubmits, hcheck, hd⟩
    · rcases hcases hmem' with ⟨old', hold', hitem'⟩ | ⟨t, now, -, hcheck, hd⟩
      · rw [← hitem, ← hitem']
        exact h.owned old hold old' hold' name (hitem ▸ hname) (hitem' ▸ hname')
      · rw [← hitem]
        exact (of_mem_ofTransition hcheck hd hname').2.2 old hold (hitem ▸ hname)
    · rcases hcases hmem' with ⟨old', hold', hitem'⟩ | ⟨t', now', hsubmits', hcheck', hd'⟩
      · rw [← hitem']
        exact ((of_mem_ofTransition hcheck hd hname).2.2 old' hold' (hitem' ▸ hname')).symm
      · obtain ⟨rfl, -⟩ := Act.submit.inj (hsubmits.symm.trans hsubmits')
        rw [(of_mem_ofTransition hcheck hd hname).1, (of_mem_ofTransition hcheck hd' hname').1]

theorem KeepsNames.afterAll (h : p.KeepsNames) {acts : List Act}
    (hacts : ∀ act ∈ acts, act.IsChecked) : (p.afterAll acts).KeepsNames :=
  keeps_afterAll h fun _ act hact hp => hp.after (hacts act hact)

/-- Whatever is submitted to a platform, every name that it keeps can be read, every spelling of a name
has one owner, and so has every name as far as it is spelt as it reads. -/
theorem spellings_have_one_owner (behaviour : Behaviour) (acts : List Act)
    (hacts : ∀ act ∈ acts, act.IsChecked) :
    ∀ h ∈ ((empty behaviour).afterAll acts).documents,
      ∀ h' ∈ ((empty behaviour).afterAll acts).documents,
        (h.item.name?.isSome → h.item.fullName?.isSome) ∧
        (h.item.owner ≠ h'.item.owner → h.item.name?.isSome → h.item.name? ≠ h'.item.name?) ∧
        (h.item.owner ≠ h'.item.owner → h.item.SpellsItself → h'.item.SpellsItself →
          h.item.fullName? ≠ h'.item.fullName?) := by
  intro h hmem h' hmem'
  have hkeeps := (keepsNames_empty behaviour).afterAll hacts
  refine ⟨?_, ?_, ?_⟩
  · intro hsome
    obtain ⟨name, hname⟩ := Option.isSome_iff_exists.mp hsome
    obtain ⟨label, hlabel⟩ := hkeeps.reads h hmem name hname
    rw [Document.fullName?_eq_some hname hlabel]
    rfl
  · intro hforeign hsome hsame
    obtain ⟨name, hname⟩ := Option.isSome_iff_exists.mp hsome
    exact hforeign (hkeeps.owned h hmem h' hmem' name hname (hsame ▸ hname))
  · rintro hforeign ⟨label, hreadable, hname⟩ ⟨label', hreadable', hname'⟩ hsame
    rw [Document.fullName?_eq_some hname hreadable.parse_normalized,
      Document.fullName?_eq_some hname' hreadable'.parse_normalized] at hsame
    obtain ⟨hnormalized, hparent⟩ :=
      Label.fullName_inj hreadable hreadable' (Option.some.inj hsame)
    rw [← hnormalized, ← hparent] at hname'
    exact hforeign (hkeeps.owned h hmem h' hmem' _ hname hname')

end Platform

end Simulation

namespace Sample

def other : IdentityId := ⟨.ofPadded [1]⟩

def otherKey : SecretKey := ⟨.ofPadded [1]⟩

/-- A preorder of a name and its registration, spelt in some way. -/
def claiming [Suite] (owner : IdentityId) (key : SecretKey) (spelling : String) : List Act :=
  [.submit (.sign (.preorder owner [commitment ⟨.zero⟩ alice owner]) .epoch key) .epoch,
    .submit (.sign (.registerDomains owner [⟨spelling, spelling, "dash", ⟨.zero⟩, .unique owner⟩])
      .epoch key) .epoch]

theorem eq_submit_of_mem_claiming [Suite] {owner : IdentityId} {key : SecretKey} {spelling : String}
    {act : Act} (h : act ∈ claiming owner key spelling) :
    ∃ operation signed now, act = .submit (.sign operation signed key) now := by
  simp only [claiming, List.mem_cons, List.not_mem_nil, or_false] at h
  rcases h with rfl | rfl <;> exact ⟨_, _, _, rfl⟩

end Sample

namespace Simulation.Platform

section

open Rehearsal

/-- Two identities that claim a name in one spelling, one after the other. -/
def rivals : List Act :=
  Sample.claiming Sample.identity key "alice" ++ Sample.claiming Sample.other key "alice"

def contested : Platform := (empty .instant).afterAll rivals

/-- The name stays with the first of them. -/
theorem spellings_have_one_owner_alice :
    ∃ first ∈ contested.documents, first.item.name? = some ("alice", "dash") ∧
      first.item.owner = Sample.identity ∧
      ∀ h ∈ contested.documents, h.item.name? = some ("alice", "dash") →
        h.item.owner = Sample.identity := by
  have hacts : ∀ act ∈ rivals, act.IsChecked := by
    intro act member documents hinserts
    rcases List.mem_append.mp member with hfirst | hsecond
    · obtain ⟨operation, signed, now, rfl⟩ := Sample.eq_submit_of_mem_claiming hfirst
      cases hinserts
    · obtain ⟨operation, signed, now, rfl⟩ := Sample.eq_submit_of_mem_claiming hsecond
      cases hinserts
  obtain ⟨first, hfirst, hname, howner⟩ : ∃ h ∈ contested.documents,
      h.item.name? = some ("alice", "dash") ∧ h.item.owner = Sample.identity := by decide +kernel
  refine ⟨first, hfirst, hname, howner, ?_⟩
  intro h hmem hsame
  rw [← howner]
  apply Decidable.byContradiction
  intro hforeign
  obtain ⟨-, hspelling, -⟩ := spellings_have_one_owner .instant _ hacts h hmem first hfirst
  exact hspelling hforeign (by rw [hsame]; rfl) (hsame.trans hname.symm)

end

open Sample in
/-- A name that one identity owns is registered by another one in capitals. -/
theorem spellings_have_two_owners :
    ∃ acts : List Act,
      (∀ act ∈ acts, ∃ key operation signed now, act = .submit (.sign operation signed key) now) ∧
      ∃ h ∈ ((empty .instant).afterAll acts).documents,
        ∃ h' ∈ ((empty .instant).afterAll acts).documents,
          h.item.owner ≠ h'.item.owner ∧ h.item.fullName? = some "alice.dash" ∧
            h'.item.fullName? = some "alice.dash" := by
  refine ⟨claiming identity signingKey "alice" ++ claiming other otherKey "ALICE", ?_, ?_⟩
  · intro act member
    rcases List.mem_append.mp member with hfirst | hsecond
    · exact ⟨signingKey, eq_submit_of_mem_claiming hfirst⟩
    · exact ⟨otherKey, eq_submit_of_mem_claiming hsecond⟩
  · decide +kernel

end Simulation.Platform

end Enrolment
