import Enrolment.Simulation.Platform

/-!
What the platform checks before it accepts a transition. What is signed is judged by what it asks for,
names are judged one after the other, and a name by whether it is read, preordered and free.
-/

namespace Enrolment

open Simulation

section Judging

variable {α ε : Type} (check : α → Except ε Unit) (items : List α)

/-- Checks one after the other: all pass, or one of them fails and so do all. -/
theorem forM_cases :
    ((∀ item ∈ items, check item = .ok ()) ∧ items.forM check = .ok ()) ∨
      ∃ item ∈ items, ∃ e, check item = .error e ∧ items.forM check = .error e := by
  induction items with
  | nil => exact .inl ⟨nofun, rfl⟩
  | cons item rest ih =>
    cases hitem : check item with
    | error e =>
      refine .inr ⟨item, List.mem_cons_self, e, hitem, ?_⟩
      simp only [List.forM, hitem]
      rfl
    | ok u =>
      have hrest : (item :: rest).forM check = rest.forM check := by
        simp only [List.forM, hitem]
        rfl
      rw [hrest]
      rcases ih with ⟨hall, hok⟩ | ⟨other, member, e, herror, hall⟩
      · exact .inl ⟨List.forall_mem_cons.mpr ⟨hitem, hall⟩, hok⟩
      · exact .inr ⟨other, List.mem_cons_of_mem _ member, e, herror, hall⟩

theorem forM_eq_ok_iff : items.forM check = .ok () ↔ ∀ item ∈ items, check item = .ok () := by
  rcases forM_cases check items with ⟨hall, hok⟩ | ⟨item, member, e, herror, hfails⟩
  · exact ⟨fun _ => hall, fun _ => hok⟩
  · rw [hfails]
    refine ⟨nofun, ?_⟩
    intro hall
    rw [hall item member] at herror
    cases herror

variable {check items} in
theorem forM_congr_of_mem {judge : α → Except ε Unit}
    (h : ∀ item ∈ items, check item = judge item) : items.forM check = items.forM judge := by
  induction items with
  | nil => rfl
  | cons item items ih =>
    obtain ⟨hitem, hitems⟩ := List.forall_mem_cons.mp h
    have htail := ih hitems
    simp only [List.forM] at htail ⊢
    rw [hitem, htail]

end Judging

/-- A key whose signatures verify. -/
def SecretKey.IsSound [Suite] (key : SecretKey) : Prop :=
  ∀ message, key.publicKey.verify message (key.sign message) = true

namespace Simulation.Platform

/-- A commitment of an owner that can be seen. -/
def ShowsCommitment (p : Platform) (owner : IdentityId) (d : Digest) : Prop :=
  ∃ h ∈ p.documents, h.isVisible = true ∧ h.item.owner = owner ∧ h.item.commitment? = some d

/-- A name, as it is spelt, that a document of another owner holds. -/
def IsHeldByOther (p : Platform) (owner : IdentityId) (e : DomainEntry) : Prop :=
  ∃ h ∈ p.documents, h.item.owner ≠ owner ∧ h.item.name? = some (e.normalized, e.parent)

variable [Suite]

/-- A transition that was signed with a sound key is judged by what it asks for. -/
theorem check_sign (p : Platform) {key : SecretKey} (hkey : key.IsSound) (operation : Operation)
    (now : Timestamp) :
    p.check (.sign operation now key) = p.checkOperation key.publicKey operation := by
  have hsigned : (Transition.sign operation now key).isSigned = true := hkey _
  unfold check Transition.check
  rw [if_pos hsigned]
  rfl

/-- What passes its check passes what is asked of its operation. -/
theorem checkOperation_of_check {p : Platform} {t : Transition} (h : p.check t = .ok ()) :
    p.checkOperation t.signer t.operation = .ok () := by
  unfold check at h
  split at h
  · cases h
  · exact h

/-- How a name is judged: it is not read, or not preordered, or held by another owner, or passes. -/
theorem checkEntry_cases (p : Platform) (owner : IdentityId) (e : DomainEntry) :
    (∃ fault, Label.parse e.normalized e.parent = .error fault ∧
      p.checkEntry owner e = .error fault.message) ∨
    ∃ label, Label.parse e.normalized e.parent = .ok label ∧
      (¬p.ShowsCommitment owner (commitment e.salt label owner) ∧
          p.checkEntry owner e = .error (label.fullName ++ " was not preordered") ∨
        p.ShowsCommitment owner (commitment e.salt label owner) ∧ p.IsHeldByOther owner e ∧
          p.checkEntry owner e = .error (label.fullName ++ " is taken") ∨
        p.ShowsCommitment owner (commitment e.salt label owner) ∧ ¬p.IsHeldByOther owner e ∧
          p.checkEntry owner e = .ok ()) := by
  unfold checkEntry
  cases hparse : Label.parse e.normalized e.parent with
  | error fault => exact .inl ⟨fault, rfl, rfl⟩
  | ok label =>
    have hshows : p.documents.any (fun h => h.isVisible && h.item.owner = owner &&
        h.item.commitment? = some (commitment e.salt label owner)) = true ↔
          p.ShowsCommitment owner (commitment e.salt label owner) := by
      simp [ShowsCommitment, and_assoc]
    have hheld : p.documents.any (fun h => h.item.owner ≠ owner &&
        h.item.name? = some (e.normalized, e.parent)) = true ↔ p.IsHeldByOther owner e := by
      simp [IsHeldByOther]
    refine .inr ⟨label, rfl, ?_⟩
    rw [← hshows, ← hheld]
    dsimp only
    cases p.documents.any fun h => h.isVisible && h.item.owner = owner &&
        h.item.commitment? = some (commitment e.salt label owner) with
    | false => exact .inl ⟨nofun, rfl⟩
    | true =>
      cases p.documents.any fun h => h.item.owner ≠ owner &&
          h.item.name? = some (e.normalized, e.parent) with
      | false => exact .inr (.inr ⟨rfl, nofun, rfl⟩)
      | true => exact .inr (.inl ⟨rfl, rfl, rfl⟩)

/-- A name that is read and preordered passes unless another owner holds it. -/
theorem checkEntry_of_showsCommitment {p : Platform} {owner : IdentityId} {e : DomainEntry}
    {label : Label} (hparse : Label.parse e.normalized e.parent = .ok label)
    (hshows : p.ShowsCommitment owner (commitment e.salt label owner))
    (hfree : ¬p.IsHeldByOther owner e) : p.checkEntry owner e = .ok () := by
  rcases p.checkEntry_cases owner e with ⟨fault, hfault, -⟩ | ⟨label', hlabel, hjudged⟩
  · rw [hparse] at hfault
    cases hfault
  · rw [hparse] at hlabel
    obtain rfl := Except.ok.inj hlabel
    rcases hjudged with ⟨hhidden, -⟩ | ⟨-, hheld, -⟩ | ⟨-, -, hok⟩
    · exact absurd hshows hhidden
    · exact absurd hheld hfree
    · exact hok

/-- A name that is read and preordered is refused only if another owner holds it. -/
theorem isHeldByOther_of_refused {p : Platform} {owner : IdentityId} {e : DomainEntry}
    {label : Label} {reason : String} (hparse : Label.parse e.normalized e.parent = .ok label)
    (hshows : p.ShowsCommitment owner (commitment e.salt label owner))
    (hrefused : p.checkEntry owner e = .error reason) :
    p.IsHeldByOther owner e ∧ reason = label.fullName ++ " is taken" := by
  rcases p.checkEntry_cases owner e with ⟨fault, hfault, -⟩ | ⟨label', hlabel, hjudged⟩
  · rw [hparse] at hfault
    cases hfault
  · rw [hparse] at hlabel
    obtain rfl := Except.ok.inj hlabel
    rcases hjudged with ⟨hhidden, -⟩ | ⟨-, hheld, htaken⟩ | ⟨-, -, hok⟩
    · exact absurd hshows hhidden
    · rw [htaken] at hrefused
      exact ⟨hheld, (Except.error.inj hrefused).symm⟩
    · rw [hok] at hrefused
      cases hrefused

/-- A name that passes is read, and no other owner holds it. -/
theorem readable_of_checkEntry {p : Platform} {owner : IdentityId} {e : DomainEntry}
    (h : p.checkEntry owner e = .ok ()) :
    (∃ label, Label.parse e.normalized e.parent = .ok label) ∧ ¬p.IsHeldByOther owner e := by
  rcases p.checkEntry_cases owner e with ⟨fault, -, herror⟩ | ⟨label, hlabel, hjudged⟩
  · rw [herror] at h
    cases h
  · rcases hjudged with ⟨-, herror⟩ | ⟨-, -, herror⟩ | ⟨-, hfree, -⟩
    · rw [herror] at h
      cases h
    · rw [herror] at h
      cases h
    · exact ⟨⟨label, hlabel⟩, hfree⟩

end Simulation.Platform

end Enrolment
