import Enrolment.Credit.Lock

/-!
How transactions fund identities. The first output that burns credit is locked, whatever is paid before
it and burnt after it; the bytes that name its outpoint can be read back. So two transactions fund the
identity of the same bytes only if they are named alike and burn at the same position.
-/

namespace Enrolment

def TxOutput.isBurn (output : TxOutput) : Bool :=
  match output.kind with
  | .creditBurn _ => true
  | .payment _ => false

namespace Transaction

variable {tx : Transaction} {start index : Nat} {amount : UInt64} {key : PublicKey}

/-- The search for a burn finds the first output that is one, and numbers it from where it starts. -/
theorem firstBurn?_eq_some_iff {outputs : List TxOutput} :
    firstBurn? start outputs = some (index, amount, key) ↔
      outputs.find? TxOutput.isBurn = some ⟨amount, .creditBurn key⟩ ∧
        ∃ position, outputs.findIdx? TxOutput.isBurn = some position ∧ index = start + position := by
  induction outputs generalizing start with
  | nil => simp [firstBurn?]
  | cons output rest ih =>
    obtain ⟨value, kind⟩ := output
    cases kind with
    | creditBurn key' =>
      have hburn : TxOutput.isBurn ⟨value, .creditBurn key'⟩ = true := rfl
      rw [List.find?_cons_of_pos hburn, List.findIdx?_cons, if_pos hburn]
      simp only [firstBurn?, Option.some.injEq, Prod.mk.injEq, TxOutput.mk.injEq,
        OutputKind.creditBurn.injEq]
      constructor
      · rintro ⟨rfl, rfl, rfl⟩
        exact ⟨⟨rfl, rfl⟩, 0, rfl, rfl⟩
      · rintro ⟨⟨rfl, rfl⟩, position, rfl, rfl⟩
        exact ⟨rfl, rfl, rfl⟩
    | payment recipient =>
      have hpays : ¬ TxOutput.isBurn ⟨value, .payment recipient⟩ = true := Bool.false_ne_true
      rw [List.find?_cons_of_neg hpays, List.findIdx?_cons, if_neg hpays]
      simp only [firstBurn?, ih, Option.map_eq_some_iff]
      refine and_congr_right fun _ => ?_
      constructor
      · rintro ⟨position, hposition, rfl⟩
        exact ⟨position + 1, ⟨position, hposition, rfl⟩, by omega⟩
      · rintro ⟨_, ⟨position, hposition, rfl⟩, rfl⟩
        exact ⟨position, hposition, by omega⟩

theorem creditBurn?_eq_some_iff :
    tx.creditBurn? = some (index, amount, key) ↔
      tx.outputs.find? TxOutput.isBurn = some ⟨amount, .creditBurn key⟩ ∧
        tx.outputs.findIdx? TxOutput.isBurn = some index := by
  simp [creditBurn?, firstBurn?_eq_some_iff]

/-- What is found is a burn. -/
theorem exists_eq_of_find?_isBurn {outputs : List TxOutput} {output : TxOutput}
    (h : outputs.find? TxOutput.isBurn = some output) :
    ∃ amount key, output = ⟨amount, .creditBurn key⟩ := by
  have hburn := List.find?_some h
  obtain ⟨amount, kind⟩ := output
  cases kind with
  | creditBurn key => exact ⟨amount, key, rfl⟩
  | payment recipient => cases hburn

end Transaction

namespace OutPoint

variable {o o' : OutPoint} {bytes : Bytes}

theorem length_toBytes (o : OutPoint) : o.toBytes.length = 36 := by
  simp [toBytes, Bytes32.length_toList]

theorem ofBytes_of_length_ne (h : bytes.length ≠ 36) :
    ofBytes bytes = .error (.invalidFormat ("outpoint must be 36 bytes, got " ++
      toString bytes.length)) := dif_neg h

/-- Reading takes the bytes of one outpoint, and gives that one. -/
theorem ofBytes_eq_ok_iff : ofBytes bytes = .ok o ↔ o.toBytes = bytes := by
  constructor
  · intro h
    unfold ofBytes at h
    split at h
    next hlength =>
      cases h
      have hwidth : (bytes.drop 32).length = 4 := by simp [hlength]
      have hfits : Bytes.toNatLE (bytes.drop 32) < UInt32.size := by
        have hlt := Bytes.toNatLE_lt (bytes.drop 32)
        rwa [hwidth] at hlt
      have hindex : Bytes.ofNatLE 4 (Bytes.toNatLE (bytes.drop 32)) = bytes.drop 32 := by
        rw [← hwidth, Bytes.ofNatLE_toNatLE]
      simp only [toBytes, UInt32.toNat_ofNat_of_lt' hfits, hindex, List.take_append_drop]
    next => cases h
  · rintro rfl
    have htake : o.toBytes.take 32 = o.txid.bytes.toList :=
      List.take_left' o.txid.bytes.length_toList
    have hdrop : o.toBytes.drop 32 = Bytes.ofNatLE 4 o.index.toNat :=
      List.drop_left' o.txid.bytes.length_toList
    have hindex : o.index.toNat % Nat.pow 256 4 = o.index.toNat :=
      Nat.mod_eq_of_lt o.index.toNat_lt
    unfold ofBytes
    rw [dif_pos (length_toBytes o)]
    simp only [htake, hdrop, Bytes.toNatLE_ofNatLE, hindex, UInt32.ofNat_toNat]

theorem toBytes_inj : o.toBytes = o'.toBytes ↔ o = o' := by
  constructor
  · intro h
    have hread : ofBytes o.toBytes = .ok o' := ofBytes_eq_ok_iff.mpr h.symm
    exact Except.ok.inj ((ofBytes_eq_ok_iff.mpr rfl).symm.trans hread)
  · rintro rfl
    rfl

theorem exists_toBytes_eq (h : bytes.length = 36) : ∃ o : OutPoint, o.toBytes = bytes :=
  ⟨_, ofBytes_eq_ok_iff.mp (dif_pos h)⟩

end OutPoint

namespace CreditLock

variable [Suite] {tx tx' : Transaction} {lock lock' : CreditLock}

/-- A transaction has a lock if it burns credit, and if what it burns first is some. -/
theorem ofTransaction_eq_ok_iff :
    ofTransaction tx = .ok lock ↔ ∃ index amount key,
      tx.creditBurn? = some (index, amount, key) ∧ amount ≠ 0 ∧
        lock = ⟨tx.txid, ⟨tx.txid, UInt32.ofNat index⟩, amount, key,
          .ofOutPoint ⟨tx.txid, UInt32.ofNat index⟩⟩ := by
  unfold ofTransaction
  cases tx.creditBurn? with
  | none => simp
  | some burn =>
    obtain ⟨index, amount, key⟩ := burn
    dsimp only
    split
    next hzero => simp [hzero]
    next hsome =>
      constructor
      · intro h
        exact ⟨index, amount, key, rfl, hsome, (Except.ok.inj h).symm⟩
      · rintro ⟨_, _, _, ⟨rfl⟩, -, rfl⟩
        rfl

theorem named_of_ofTransaction (h : ofTransaction tx = .ok lock) :
    lock.transaction = tx.txid ∧ lock.outPoint.txid = tx.txid := by
  obtain ⟨index, amount, key, -, -, rfl⟩ := ofTransaction_eq_ok_iff.mp h
  exact ⟨rfl, rfl⟩

/-- A lock on what a transaction burns first: on its position, its value and its key. -/
structure LocksFirst (lock : CreditLock) (tx : Transaction) : Prop where
  transaction : lock.transaction = tx.txid
  txid : lock.outPoint.txid = tx.txid
  position : tx.outputs.findIdx? TxOutput.isBurn = some lock.outPoint.index.toNat
  burn : tx.outputs.find? TxOutput.isBurn = some ⟨lock.amount, .creditBurn lock.burnKey⟩
  identity : lock.identity = ⟨Suite.hash lock.outPoint.toBytes⟩

/-- The position fits its word where there are not more outputs than it can count. -/
theorem locksFirst_of_ofTransaction (hfew : tx.outputs.length < UInt32.size)
    (h : ofTransaction tx = .ok lock) : lock.LocksFirst tx := by
  obtain ⟨index, amount, key, hburn, -, rfl⟩ := ofTransaction_eq_ok_iff.mp h
  obtain ⟨hfirst, hposition⟩ := Transaction.creditBurn?_eq_some_iff.mp hburn
  have hinside : index < tx.outputs.length := by
    obtain ⟨hlt, -⟩ := List.findIdx?_eq_some_iff_getElem.mp hposition
    exact hlt
  have hindex : (UInt32.ofNat index).toNat = index :=
    UInt32.toNat_ofNat_of_lt' (Nat.lt_trans hinside hfew)
  exact ⟨rfl, rfl, hposition.trans (congrArg some hindex.symm), hfirst, rfl⟩

theorem exists_ofTransaction_eq_ok_iff : (∃ lock, ofTransaction tx = .ok lock) ↔
    ∃ output, tx.outputs.find? TxOutput.isBurn = some output ∧ output.value ≠ 0 := by
  constructor
  · rintro ⟨lock, h⟩
    obtain ⟨index, amount, key, hburn, hsome, -⟩ := ofTransaction_eq_ok_iff.mp h
    exact ⟨_, (Transaction.creditBurn?_eq_some_iff.mp hburn).1, hsome⟩
  · rintro ⟨output, hfirst, hsome⟩
    obtain ⟨amount, key, rfl⟩ := Transaction.exists_eq_of_find?_isBurn hfirst
    obtain ⟨index, hposition⟩ : ∃ index, tx.outputs.findIdx? TxOutput.isBurn = some index := by
      rw [← Option.isSome_iff_exists, List.findIdx?_isSome, List.any_eq_true]
      exact ⟨_, List.mem_of_find?_eq_some hfirst, rfl⟩
    exact ⟨_, ofTransaction_eq_ok_iff.mpr ⟨index, amount, key,
      Transaction.creditBurn?_eq_some_iff.mpr ⟨hfirst, hposition⟩, hsome, rfl⟩⟩

/-- Locks of transactions are on one outpoint only if the transactions are named alike and burn at the
same position. -/
theorem LocksFirst.toBytes_eq_iff (h : lock.LocksFirst tx) (h' : lock'.LocksFirst tx') :
    lock.outPoint.toBytes = lock'.outPoint.toBytes ↔ tx.txid = tx'.txid ∧
      tx.outputs.findIdx? TxOutput.isBurn = tx'.outputs.findIdx? TxOutput.isBurn := by
  rw [OutPoint.toBytes_inj, ← h.txid, ← h'.txid, h.position, h'.position, Option.some_inj,
    UInt32.toNat_inj, OutPoint.mk.injEq]

/-- A burn is locked whatever is paid before it and whatever comes after it. -/
theorem exists_ofTransaction_of_surrounded (hfew : tx.outputs.length < UInt32.size)
    {payments rest : List TxOutput} {amount : UInt64} {key : PublicKey}
    (houtputs : tx.outputs = payments ++ ⟨amount, .creditBurn key⟩ :: rest)
    (hpayments : ∀ output ∈ payments, output.isBurn = false) (hsome : amount ≠ 0) :
    ∃ lock, ofTransaction tx = .ok lock ∧ lock.outPoint.index.toNat = payments.length ∧
      lock.amount = amount ∧ lock.burnKey = key := by
  have hfirst : tx.outputs.find? TxOutput.isBurn = some ⟨amount, .creditBurn key⟩ := by
    have hnone : payments.find? TxOutput.isBurn = none :=
      List.find?_eq_none.mpr fun output member => by simp [hpayments output member]
    rw [houtputs, List.find?_append, hnone]
    rfl
  have hposition : tx.outputs.findIdx? TxOutput.isBurn = some payments.length := by
    rw [houtputs, List.findIdx?_append, List.findIdx?_eq_none_iff.mpr hpayments, List.findIdx?_cons]
    simp [TxOutput.isBurn]
  obtain ⟨lock, hlock⟩ := exists_ofTransaction_eq_ok_iff.mpr ⟨_, hfirst, hsome⟩
  have hlocks := locksFirst_of_ofTransaction hfew hlock
  obtain ⟨hamount, hkey⟩ : amount = lock.amount ∧ key = lock.burnKey := by
    simpa using hfirst.symm.trans hlocks.burn
  exact ⟨lock, hlock, Option.some.inj (hlocks.position.symm.trans hposition), hamount.symm, hkey.symm⟩

/-- What a transaction locks is its first burn, and it locks it if that burns anything. The bytes of an
outpoint are 36 and tell it, so that two transactions fund the identity of the same bytes exactly if
they have one name and their first burns one position. -/
theorem derived_from_first_burn (hfew : tx.outputs.length < UInt32.size) :
    ((∃ lock, ofTransaction tx = .ok lock) ↔
      ∃ output, tx.outputs.find? TxOutput.isBurn = some output ∧ output.value ≠ 0) ∧
    (∀ lock, ofTransaction tx = .ok lock → lock.LocksFirst tx) ∧
    (∀ payments amount key rest, tx.outputs = payments ++ ⟨amount, .creditBurn key⟩ :: rest →
      (∀ output ∈ payments, output.isBurn = false) → amount ≠ 0 →
      ∃ lock, ofTransaction tx = .ok lock ∧ lock.outPoint.index.toNat = payments.length ∧
        lock.amount = amount ∧ lock.burnKey = key) ∧
    (∀ o : OutPoint, o.toBytes.length = 36 ∧ OutPoint.ofBytes o.toBytes = .ok o) ∧
    (∀ bytes : Bytes, bytes.length = 36 → ∃ o, OutPoint.ofBytes bytes = .ok o ∧ o.toBytes = bytes) ∧
    (∀ bytes : Bytes, bytes.length ≠ 36 → OutPoint.ofBytes bytes =
      .error (.invalidFormat ("outpoint must be 36 bytes, got " ++ toString bytes.length))) ∧
    ∀ tx' : Transaction, tx'.outputs.length < UInt32.size → ∀ lock lock',
      ofTransaction tx = .ok lock → ofTransaction tx' = .ok lock' →
      (lock.outPoint.toBytes = lock'.outPoint.toBytes ↔ tx.txid = tx'.txid ∧
        tx.outputs.findIdx? TxOutput.isBurn = tx'.outputs.findIdx? TxOutput.isBurn) := by
  refine ⟨exists_ofTransaction_eq_ok_iff, fun lock => locksFirst_of_ofTransaction hfew, ?_, ?_, ?_,
    fun bytes => OutPoint.ofBytes_of_length_ne, ?_⟩
  · intro payments amount key rest houtputs hpayments hsome
    exact exists_ofTransaction_of_surrounded hfew houtputs hpayments hsome
  · exact fun o => ⟨o.length_toBytes, OutPoint.ofBytes_eq_ok_iff.mpr rfl⟩
  · intro bytes hlength
    obtain ⟨o, hbytes⟩ := OutPoint.exists_toBytes_eq hlength
    exact ⟨o, OutPoint.ofBytes_eq_ok_iff.mpr hbytes, hbytes⟩
  · intro tx' hfew' lock lock' hlock hlock'
    exact (locksFirst_of_ofTransaction hfew hlock).toBytes_eq_iff
      (locksFirst_of_ofTransaction hfew' hlock')

end CreditLock

namespace Sample

/-- A transaction that pays, burns, and burns once more. -/
def burningTwice : Transaction :=
  ⟨⟨.zero⟩, [⟨10, .payment .zero⟩, ⟨25000, .creditBurn .neutral⟩, ⟨99, .creditBurn .neutral⟩]⟩

/-- A transaction of the same name that burns at the same position. -/
def burningOnce : Transaction := ⟨⟨.zero⟩, [⟨5, .payment .zero⟩, ⟨7, .creditBurn .neutral⟩]⟩

end Sample

namespace CreditLock

open Sample

/-- The first of two burns is locked, and another transaction with its name and position funds the same
identity. -/
theorem derived_from_first_burn_of_two :
    burningTwice.outputs.length < UInt32.size ∧ burningOnce.outputs.length < UInt32.size ∧
      ∃ lock lock', @ofTransaction .standard burningTwice = .ok lock ∧
        @ofTransaction .standard burningOnce = .ok lock' ∧ lock.outPoint.index.toNat = 1 ∧
        lock.amount = 25000 ∧ lock'.amount = 7 ∧ lock.outPoint.toBytes = lock'.outPoint.toBytes := by
  have htwice : burningTwice.outputs.length < UInt32.size := by decide
  have honce : burningOnce.outputs.length < UInt32.size := by decide
  obtain ⟨-, -, htwice_locks, -, -, -, hbytes⟩ := @derived_from_first_burn .standard _ htwice
  obtain ⟨-, -, honce_locks, -⟩ := @derived_from_first_burn .standard _ honce
  obtain ⟨lock, hlock, hindex, hamount, -⟩ := htwice_locks [⟨10, .payment .zero⟩] 25000 .neutral
    [⟨99, .creditBurn .neutral⟩] rfl (by decide) (by decide)
  obtain ⟨lock', hlock', -, hamount', -⟩ := honce_locks [⟨5, .payment .zero⟩] 7 .neutral [] rfl
    (by decide) (by decide)
  exact ⟨htwice, honce, lock, lock', hlock, hlock', hindex, hamount, hamount',
    (hbytes burningOnce honce lock lock' hlock hlock').mpr ⟨rfl, rfl⟩⟩

end CreditLock

end Enrolment
