import Enrolment.Bytes.Utf8
import Enrolment.Proofs.Name.FullName

/-!
Commitments bind. The bytes that a commitment digests determine the salt, the name and the owner, and a
name that was read determines its label and its parent. So a commitment verifies for what it was made
of and for nothing else, unless one key is derived from different bytes.
-/

namespace Enrolment

/-- Different bytes from which one key is derived. -/
def Suite.Collide [Suite] (context : String) (a b : Bytes) : Prop :=
  a ≠ b ∧ Suite.derive context a = Suite.derive context b

section Fields

open Commitment

variable {salt salt' : Salt} {label label' : Label} {owner owner' : IdentityId}

theorem Commitment.length_preimage (salt : Salt) (label : Label) (owner : IdentityId) :
    (preimage salt label owner).length = (Bytes.ofText label.fullName).length + 69 := by
  simp only [preimage, List.length_append, List.length_cons, Bytes32.length_toList,
    Bytes.length_ofNatLE]
  omega

/-- The digested bytes are split in one way only: every field but the name has a fixed width, so that
the whole length tells the length of the name, also where its own field is too narrow to hold it. -/
theorem Commitment.fields_inj (h : preimage salt label owner = preimage salt' label' owner') :
    salt = salt' ∧ label.fullName = label'.fullName ∧ owner = owner' := by
  have hlength : (Bytes.ofText label.fullName).length = (Bytes.ofText label'.fullName).length := by
    have hwhole := congrArg List.length h
    rw [length_preimage, length_preimage] at hwhole
    omega
  unfold preimage at h
  obtain ⟨hfront, howner⟩ := List.append_inj' h (by simp [Bytes32.length_toList])
  obtain ⟨hstart, hname⟩ := List.append_inj' hfront hlength
  obtain ⟨hsalt, -⟩ := List.append_inj' hstart (by simp)
  have hbytes : salt.bytes.toList = salt'.bytes.toList := (List.cons.inj hsalt).2
  cases salt
  cases salt'
  cases owner
  cases owner'
  rw [Bytes32.toList_inj] at hbytes howner
  exact ⟨congrArg _ hbytes, Bytes.ofText_inj.mp hname, congrArg _ howner⟩

theorem Commitment.preimage_congr (h : label.fullName = label'.fullName) (salt : Salt)
    (owner : IdentityId) : preimage salt label owner = preimage salt label' owner := by
  simp only [preimage, h]

/-- Equal bytes are digested only for one salt, one name and one owner. -/
theorem Commitment.preimage_inj (hlabel : label.IsReadable) (hlabel' : label'.IsReadable)
    (h : preimage salt label owner = preimage salt' label' owner') :
    salt = salt' ∧ owner = owner' ∧ label.normalized = label'.normalized ∧
      label.parent = label'.parent := by
  obtain ⟨hsalt, hname, howner⟩ := fields_inj h
  exact ⟨hsalt, howner, Label.fullName_inj hlabel hlabel' hname⟩

end Fields

section Verifying

variable [Suite]

/-- A digest is verified for a request exactly if the request is read and gives that digest. -/
theorem Naming.verifies_iff {naming : Naming} {salt : Salt} {request : String} {owner : IdentityId}
    {digest : Digest} : naming.verifies salt request owner digest = true ↔
      ∃ label, naming.resolve request = .ok label ∧ commitment salt label owner = digest := by
  unfold verifies commit
  cases naming.resolve request with
  | error e => simp [Except.map]
  | ok label => simp [Except.map]

open Commitment in
/-- A commitment binds its salt, its name and its owner. Only they give the bytes that it digests; and
where the bytes of the request do not collide with those bytes, it verifies exactly for them. -/
theorem commitment_binds (salt salt' : Salt) {label : Label} (hlabel : label.IsReadable)
    (owner owner' : IdentityId) :
    (∀ label' : Label, label'.IsReadable → preimage salt label owner = preimage salt' label' owner' →
      salt = salt' ∧ owner = owner' ∧ label.normalized = label'.normalized ∧
        label.parent = label'.parent) ∧
    ∀ (naming : Naming) (request : String),
      (∀ label', naming.resolve request = .ok label' →
        ¬ Suite.Collide context (preimage salt label owner) (preimage salt' label' owner')) →
      (naming.verifies salt' request owner' (commitment salt label owner) = true ↔
        (∃ label', naming.resolve request = .ok label' ∧ label'.normalized = label.normalized ∧
          label'.parent = label.parent) ∧ salt' = salt ∧ owner' = owner) := by
  refine ⟨fun label' hlabel' => preimage_inj hlabel hlabel', ?_⟩
  intro naming request hfree
  rw [Naming.verifies_iff]
  constructor
  · rintro ⟨label', hresolve, hdigest⟩
    have hbytes : preimage salt label owner = preimage salt' label' owner' := by
      refine Decidable.byContradiction fun hne => ?_
      exact hfree label' hresolve ⟨hne, hdigest.symm⟩
    obtain ⟨hsalt, howner, hnormalized, hparent⟩ :=
      preimage_inj hlabel ⟨request, naming.parent, hresolve⟩ hbytes
    exact ⟨⟨label', hresolve, hnormalized.symm, hparent.symm⟩, hsalt.symm, howner.symm⟩
  · rintro ⟨⟨label', hresolve, hnormalized, hparent⟩, rfl, rfl⟩
    have hname : label'.fullName = label.fullName := by
      simp only [Label.fullName, hnormalized, hparent]
    exact ⟨label', hresolve, commitment_congr hname salt' owner'⟩

end Verifying

/-- Another spelling of the name verifies, and another name does not. -/
theorem commitment_binds_alice :
    let alice : Label := ⟨"Alice", "alice", "dash"⟩
    let digest := @commitment .standard ⟨.zero⟩ alice ⟨.zero⟩
    @Naming.verifies .standard .default ⟨.zero⟩ "ALICE.dash" ⟨.zero⟩ digest = true ∧
      @Naming.verifies .standard .default ⟨.zero⟩ "bob" ⟨.zero⟩ digest ≠ true := by
  intro alice digest
  have halice : alice.IsReadable := ⟨"Alice", "dash", rfl⟩
  have hbinds := (@commitment_binds .standard ⟨.zero⟩ ⟨.zero⟩ alice halice ⟨.zero⟩ ⟨.zero⟩).2 .default
  have hspelt : Naming.default.resolve "ALICE.dash" = .ok ⟨"ALICE", "alice", "dash"⟩ := rfl
  have hother : Naming.default.resolve "bob" = .ok ⟨"bob", "bob", "dash"⟩ := rfl
  constructor
  · refine (hbinds "ALICE.dash" ?_).mpr ⟨⟨_, hspelt, rfl, rfl⟩, rfl, rfl⟩
    intro label' hresolve hcollide
    cases hspelt.symm.trans hresolve
    exact hcollide.1 (Commitment.preimage_congr rfl _ _)
  · intro hverifies
    have hfree (label' : Label) (hresolve : Naming.default.resolve "bob" = .ok label') :
        ¬ @Suite.Collide .standard Commitment.context (Commitment.preimage ⟨.zero⟩ alice ⟨.zero⟩)
          (Commitment.preimage ⟨.zero⟩ label' ⟨.zero⟩) := by
      cases hother.symm.trans hresolve
      exact fun hcollide => absurd hcollide.2 (by decide +kernel)
    obtain ⟨⟨label', hresolve, hnormalized, -⟩, -, -⟩ := (hbinds "bob" hfree).mp hverifies
    cases hother.symm.trans hresolve
    exact absurd hnormalized (by decide)

end Enrolment
