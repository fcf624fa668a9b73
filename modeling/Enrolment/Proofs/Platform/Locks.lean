import Enrolment.Proofs.Codec.RoundTrip
import Enrolment.Proofs.Credit.Funding
import Enrolment.Proofs.Platform.Names

/-!
Which identities a platform has, and from which credit locks.

A platform takes the identity that a credit lock states, and takes it once and only from the holder of
the burn key. Where the lock is that of a funding transaction, this is the identity of the locked
outpoint. A lock that was put together otherwise can state any identity for any outpoint.
-/

namespace Enrolment

open Simulation

/-- The credit lock of a funding transaction. -/
def CreditLock.IsGenuine [Suite] (lock : CreditLock) : Prop :=
  ∃ tx, CreditLock.ofTransaction tx = .ok lock

theorem Transaction.firstBurn?_replicate (start count : Nat) (recipient : Digest) (amount : UInt64)
    (key : PublicKey) :
    firstBurn? start
        (List.replicate count ⟨0, .payment recipient⟩ ++ [⟨amount, .creditBurn key⟩]) =
      some (start + count, amount, key) := by
  induction count generalizing start with
  | zero => rfl
  | succ count ih =>
    rw [List.replicate_succ, List.cons_append, firstBurn?, ih]
    simp only [Nat.add_assoc, Nat.add_comm 1 count]

/-- A lock is that of a funding transaction exactly if it burns some credit, locks an outpoint of its
own transaction, and states the identity of that outpoint. -/
theorem CreditLock.isGenuine_iff [Suite] {lock : CreditLock} :
    lock.IsGenuine ↔ lock.amount ≠ 0 ∧ lock.outPoint.txid = lock.transaction ∧
      lock.identity = .ofOutPoint lock.outPoint := by
  constructor
  · rintro ⟨tx, h⟩
    obtain ⟨index, amount, key, -, hsome, rfl⟩ := ofTransaction_eq_ok_iff.mp h
    exact ⟨hsome, rfl, rfl⟩
  · rintro ⟨hamount, htransaction, hidentity⟩
    obtain ⟨transaction, ⟨txid, index⟩, amount, key, identity⟩ := lock
    dsimp only at hamount htransaction hidentity
    subst htransaction hidentity
    refine ⟨⟨txid, List.replicate index.toNat ⟨0, .payment .zero⟩ ++ [⟨amount, .creditBurn key⟩]⟩, ?_⟩
    simp [ofTransaction, Transaction.creditBurn?, Transaction.firstBurn?_replicate, hamount]

/-- The identity that a transition creates. -/
def Transition.created? (t : Transition) : Option IdentityId :=
  match t.operation with
  | .createIdentity id _ _ => some id
  | _ => none

/-- An identity that a transition created, signed with the burn key of its lock. -/
structure Identity.ComesOf [Suite] (i : Identity) (t : Transition) : Prop where
  signed : t.isSigned = true
  creates : ∃ keys, t.operation = .createIdentity i.id i.origin keys ∧ i.keys = .ofList keys
  burns : t.signer = i.origin.burnKey
  stated : i.id = i.origin.identity
  registered : i.isRegistered = true

namespace Table

variable {κ ν : Type} [DecidableEq κ] {t : Table κ ν} {k : κ}

theorem keys_insert_of_contains (h : t.contains k = true) (v : ν) : (t.insert k v).keys = t.keys := by
  unfold keys insert
  rw [map_fst_put, if_pos ((t.contains_iff k).mp h)]

theorem keys_insert_of_not_contains (h : t.contains k = false) (v : ν) :
    (t.insert k v).keys = t.keys ++ [k] := by
  have hnew : k ∉ t.entries.map Prod.fst := by
    intro hmem
    rw [(t.contains_iff k).mpr hmem] at h
    cases h
  unfold keys insert
  rw [map_fst_put, if_neg hnew]

omit [DecidableEq κ] in
theorem keys_map (f : ν → ν) : (t.map f).keys = t.keys := by
  simp [keys, map, Function.comp_def]

end Table

namespace Simulation

/-- An act that puts no identity into a platform past its checks. -/
def Act.InsertsNoIdentity (act : Act) : Prop := ∀ identity, act ≠ .insertIdentity identity

namespace Platform

variable {p : Platform} {t : Transition} {now : Timestamp}

/-- Both platforms accepted the same, and have the same identities, shown or not. -/
structure SameIdentities (p p' : Platform) : Prop where
  accepted : p'.accepted = p.accepted
  keys : p'.identities.keys = p.identities.keys
  items : ∀ id, (p'.identities.find? id).map Hidden.item = (p.identities.find? id).map Hidden.item

theorem sameIdentities_findIdentity (p : Platform) (id : IdentityId) :
    p.SameIdentities (p.findIdentity id).2 := by
  unfold findIdentity query
  cases p.failing with
  | succ n => exact ⟨rfl, rfl, fun _ => rfl⟩
  | zero =>
    dsimp only [seeIdentity]
    cases hfound : p.identities.find? id with
    | none => exact ⟨rfl, rfl, fun _ => rfl⟩
    | some h =>
      refine ⟨rfl, Table.keys_insert_of_contains (by simp [Table.contains, hfound]) _, ?_⟩
      intro id'
      rw [Table.find?_insert]
      split
      next hsame =>
        rw [hsame, hfound]
        simp [snd_observe]
      next => rfl

theorem sameIdentities_findDocuments (p : Platform) (kind : DocumentKind) (filter : Filter) :
    p.SameIdentities (p.findDocuments kind filter).2 := by
  unfold findDocuments query
  cases p.failing with
  | succ n => exact ⟨rfl, rfl, fun _ => rfl⟩
  | zero => exact ⟨rfl, rfl, fun _ => rfl⟩

variable [Suite]

/-- Every identity of a platform is stated by the lock that its burn key spent, and the identities are
those that were created, each of them once and in this order. -/
structure KeepsLocks (p : Platform) : Prop where
  created : p.identities.keys = p.accepted.filterMap Transition.created?
  comes : ∀ id h, p.identities.find? id = some h →
    h.item.id = id ∧ ∃ t ∈ p.accepted, h.item.ComesOf t

theorem keepsLocks_empty (behaviour : Behaviour) : (empty behaviour).KeepsLocks :=
  ⟨rfl, fun _ _ hfound => nomatch hfound⟩

theorem isSigned_of_check (h : p.check t = .ok ()) : t.isSigned = true := by
  unfold check Transition.check at h
  split at h
  · cases h
  next hsigned =>
    split at hsigned
    · assumption
    · cases hsigned

/-- A creation that passes is made with the burn key, for the identity that the lock states, which is
new. -/
theorem of_checkOperation_creation {signer : PublicKey} {id : IdentityId} {lock : CreditLock}
    {keys : List PublicKey}
    (h : p.checkOperation signer (.createIdentity id lock keys) = .ok ()) :
    signer = lock.burnKey ∧ id = lock.identity ∧ p.identities.contains id = false := by
  unfold checkOperation at h
  grind

/-- An act that inserts no identity carries out a transition that passes its check, or leaves the
identities and what was accepted as they are. -/
theorem after_cases {act : Act} (hact : act.InsertsNoIdentity) :
    (∃ t now, act = .submit t now ∧ p.check t = .ok () ∧
      p.after act = { p with submissions := p.submissions + 1 }.apply t now) ∨
    p.SameIdentities (p.after act) := by
  cases act with
  | insertIdentity identity => exact absurd rfl (hact identity)
  | releaseIdentities =>
    refine .inr ⟨rfl, Table.keys_map _, ?_⟩
    intro id
    simp [after, releaseIdentities, Function.comp_def, Hidden.release]
  | findIdentity id => exact .inr (sameIdentities_findIdentity p id)
  | findDocuments kind filter => exact .inr (sameIdentities_findDocuments p kind filter)
  | submit t now =>
    have hafter : p.after (.submit t now) = (p.submit t now).2 := rfl
    rw [hafter]
    by_cases hclear : p.refusals = []
    · rw [submit_of_clear hclear]
      cases hcheck : p.check t with
      | ok u => exact .inl ⟨t, now, rfl, hcheck, rfl⟩
      | error reason => exact .inr ⟨rfl, rfl, fun _ => rfl⟩
    · obtain ⟨refusal, rest, hrefusals⟩ := List.exists_cons_of_ne_nil hclear
      unfold submit
      simp only [hrefusals]
      exact .inr ⟨rfl, rfl, fun _ => rfl⟩
  | setDepth transaction depth => exact .inr ⟨rfl, rfl, fun _ => rfl⟩
  | refuseNext refusals => exact .inr ⟨rfl, rfl, fun _ => rfl⟩
  | failNext count => exact .inr ⟨rfl, rfl, fun _ => rfl⟩
  | releaseDocuments kind => exact .inr ⟨rfl, rfl, fun _ => rfl⟩
  | insertDocuments documents => exact .inr ⟨rfl, rfl, fun _ => rfl⟩

theorem KeepsLocks.of_sameIdentities {p' : Platform} (h : p.KeepsLocks)
    (hsame : p.SameIdentities p') : p'.KeepsLocks := by
  refine ⟨by rw [hsame.keys, hsame.accepted, h.created], ?_⟩
  intro id shown hfound
  have hitem := hsame.items id
  rw [hfound] at hitem
  obtain ⟨old, hold, heq⟩ := Option.map_eq_some_iff.mp hitem.symm
  rw [hsame.accepted, ← heq]
  exact h.comes id old hold

/-- A transition that passed its check creates an identity that is new, or none. -/
theorem KeepsLocks.apply (h : p.KeepsLocks) (hcheck : p.check t = .ok ()) (now : Timestamp) :
    (p.apply t now).KeepsLocks := by
  have holds {id : IdentityId} {shown : Hidden Identity}
      (hfound : p.identities.find? id = some shown) :
      shown.item.id = id ∧ ∃ t' ∈ p.accepted ++ [t], shown.item.ComesOf t' := by
    obtain ⟨hid, t', hmem, hcomes⟩ := h.comes id shown hfound
    exact ⟨hid, t', List.mem_append_left _ hmem, hcomes⟩
  cases hoperation : t.operation with
  | createIdentity id lock keys =>
    have hpassed := checkOperation_of_check hcheck
    rw [hoperation] at hpassed
    obtain ⟨hburns, hstated, hnew⟩ := of_checkOperation_creation hpassed
    constructor
    · simp [Platform.apply, hoperation, Table.keys_insert_of_not_contains hnew, h.created,
        Transition.created?]
    · intro id' shown hfound
      simp only [Platform.apply, hoperation, Table.find?_insert] at hfound ⊢
      split at hfound
      next hsame =>
        cases hfound
        subst hsame hstated
        refine ⟨rfl, t, by simp, isSigned_of_check hcheck, ⟨keys, hoperation, rfl⟩, hburns, rfl, rfl⟩
      next => exact holds hfound
  | preorder owner commitments =>
    constructor
    · simp [Platform.apply, hoperation, h.created, Transition.created?]
    · simp only [Platform.apply, hoperation]
      exact fun id shown hfound => holds hfound
  | registerDomains owner domains =>
    constructor
    · simp [Platform.apply, hoperation, h.created, Transition.created?]
    · simp only [Platform.apply, hoperation]
      exact fun id shown hfound => holds hfound

theorem KeepsLocks.after (h : p.KeepsLocks) {act : Act} (hact : act.InsertsNoIdentity) :
    (p.after act).KeepsLocks := by
  rcases after_cases (p := p) hact with ⟨t, now, -, hcheck, hafter⟩ | hsame
  · rw [hafter]
    exact KeepsLocks.apply (p := { p with submissions := p.submissions + 1 }) ⟨h.created, h.comes⟩
      hcheck now
  · exact h.of_sameIdentities hsame

theorem KeepsLocks.afterAll (h : p.KeepsLocks) {acts : List Act}
    (hacts : ∀ act ∈ acts, act.InsertsNoIdentity) : (p.afterAll acts).KeepsLocks :=
  keeps_afterAll h fun _ act hact hp => hp.after (hacts act hact)

/-- Whatever is submitted to a platform, its identities are those that were created, each of them once
and by a signed transition with the burn key of its lock. They are the identities that the locks state.
Where a lock is genuine this is the identity of its outpoint, which is one of its transaction, and so
an outpoint has one identity at most. -/
theorem identities_state_locks (behaviour : Behaviour) (acts : List Act)
    (hacts : ∀ act ∈ acts, act.InsertsNoIdentity) :
    let p := (empty behaviour).afterAll acts
    p.identities.keys = p.accepted.filterMap Transition.created? ∧ p.identities.keys.Nodup ∧
      (∀ id h, p.identities.find? id = some h →
        h.item.id = id ∧ (∃ t ∈ p.accepted, h.item.ComesOf t) ∧
        (h.item.origin.IsGenuine → id = .ofOutPoint h.item.origin.outPoint ∧
          h.item.origin.outPoint.txid = h.item.origin.transaction)) ∧
      ∀ id h id' h', p.identities.find? id = some h → p.identities.find? id' = some h' →
        h.item.origin.IsGenuine → h'.item.origin.IsGenuine →
        h.item.origin.outPoint = h'.item.origin.outPoint → id = id' := by
  intro p
  have hkeeps : p.KeepsLocks := (keepsLocks_empty behaviour).afterAll hacts
  have hgenuine {id : IdentityId} {h : Hidden Identity} (hfound : p.identities.find? id = some h)
      (hlock : h.item.origin.IsGenuine) : id = .ofOutPoint h.item.origin.outPoint ∧
        h.item.origin.outPoint.txid = h.item.origin.transaction := by
    obtain ⟨hid, t, -, hcomes⟩ := hkeeps.comes id h hfound
    obtain ⟨-, htransaction, hidentity⟩ := CreditLock.isGenuine_iff.mp hlock
    exact ⟨by rw [← hid, hcomes.stated, hidentity], htransaction⟩
  refine ⟨hkeeps.created, p.identities.nodup_keys, ?_, ?_⟩
  · intro id h hfound
    obtain ⟨hid, hcomes⟩ := hkeeps.comes id h hfound
    exact ⟨hid, hcomes, hgenuine hfound⟩
  · intro id h id' h' hfound hfound' hlock hlock' hsame
    rw [(hgenuine hfound hlock).1, (hgenuine hfound' hlock').1, hsame]

end Platform

end Simulation

namespace Simulation.Platform

section

open Rehearsal

/-- The creation of the identity that a genuine lock funds, submitted twice. -/
def creatings : List Act :=
  let creating : Act := .submit (.sign (.createIdentity lock.identity lock []) .epoch key) .epoch
  [creating, creating]

/-- The identity is created once, and is that of the outpoint. -/
theorem identities_state_locks_funded :
    ((empty .instant).afterAll creatings).accepted.filterMap Transition.created? =
        [lock.identity] ∧
      ∃ h, ((empty .instant).afterAll creatings).identities.find? lock.identity = some h ∧
        lock.identity = .ofOutPoint h.item.origin.outPoint := by
  have hacts : ∀ act ∈ creatings, act.InsertsNoIdentity := by
    intro act member identity hinserts
    subst hinserts
    simp [creatings] at member
  obtain ⟨hkeys, -, hcomes, -⟩ := identities_state_locks .instant creatings hacts
  have hcreated : (((empty .instant).afterAll creatings).identities.find? lock.identity).map
      (·.item.origin) = some lock := by decide +kernel
  obtain ⟨h, hfound, horigin⟩ := Option.map_eq_some_iff.mp hcreated
  have hgenuine : h.item.origin.IsGenuine := ⟨funding, by rw [horigin]; rfl⟩
  refine ⟨?_, h, hfound, ((hcomes _ h hfound).2.2 hgenuine).1⟩
  rw [← hkeys]
  decide +kernel

end

end Simulation.Platform

namespace Sample

/-- A lock of one outpoint that states some identity. -/
def forged (identity : IdentityId) : CreditLock :=
  ⟨⟨.ofPadded [2]⟩, ⟨⟨.zero⟩, 0⟩, 1, @SecretKey.publicKey .standard signingKey, identity⟩

/-- The creation of an identity that a lock states wrongly. -/
def forging (identity : IdentityId) : Transition :=
  @Transition.sign .standard (.createIdentity identity (forged identity) []) .epoch signingKey

/-- A platform that two such creations are submitted to. -/
def deceived : Platform :=
  @Platform.afterAll .standard (.empty .instant)
    [.submit (forging identity) .epoch, .submit (forging other) .epoch]

/-- Both are accepted. Signatures are computed once for everything that depends on them. -/
theorem deceived_identities :
    @Transition.isSigned .standard (forging identity) = true ∧
      @Transition.isSigned .standard (forging other) = true ∧
      (deceived.identities.find? identity).map (·.item.origin) = some (forged identity) ∧
      (deceived.identities.find? other).map (·.item.origin) = some (forged other) := by
  decide +kernel

end Sample

namespace Simulation.Platform

open Sample in
/-- Signed creations that read back from their written form create two identities for one outpoint. It
is an outpoint of another transaction than the locks are of, and neither is its identity. -/
theorem identities_share_outPoint :
    ∃ first second : Transition, first.isSigned ∧ second.isSigned ∧
      (∃ json, Format.transition.ofJson? json = some first) ∧
      (∃ json, Format.transition.ofJson? json = some second) ∧
      let p := (empty .instant).afterAll [.submit first .epoch, .submit second .epoch]
      ∃ id h id' h', p.identities.find? id = some h ∧ p.identities.find? id' = some h' ∧ id ≠ id' ∧
        h.item.origin.outPoint = h'.item.origin.outPoint ∧
        id ≠ .ofOutPoint h.item.origin.outPoint ∧ id' ≠ .ofOutPoint h'.item.origin.outPoint ∧
        h.item.origin.outPoint.txid ≠ h.item.origin.transaction := by
  have hreads (t : Transition) : ∃ json, Format.transition.ofJson? json = some t :=
    ⟨_, Format.isLawful_transition.ofJson?_toJson t⟩
  obtain ⟨hsigned, hsigned', hfirst, hsecond⟩ := deceived_identities
  obtain ⟨h, hfound, horigin⟩ := Option.map_eq_some_iff.mp hfirst
  obtain ⟨h', hfound', horigin'⟩ := Option.map_eq_some_iff.mp hsecond
  refine ⟨forging identity, forging other, hsigned, hsigned', hreads _, hreads _, identity, h, other,
    h', hfound, hfound', by decide, ?_⟩
  rw [horigin, horigin']
  exact ⟨rfl, by decide +kernel, by decide +kernel, by decide⟩

end Simulation.Platform

end Enrolment
