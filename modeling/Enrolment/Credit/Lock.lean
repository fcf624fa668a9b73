import Enrolment.Credit.Transaction

/-!
Credit locks: what a funding transaction set aside, and for which identity.

The first output that burns credit decides; later ones are not looked at, even if the first one burns
nothing.
-/

namespace Enrolment

/-- The credit that a funding transaction locked. -/
structure CreditLock where
  transaction : TxId
  outPoint : OutPoint
  amount : UInt64
  burnKey : PublicKey
  identity : IdentityId
deriving DecidableEq

/-- The credit lock of a transaction, if it burns any credit. -/
def CreditLock.ofTransaction [Suite] (tx : Transaction) : Except Error CreditLock :=
  match tx.creditBurn? with
  | none => .error (.notFunding (tx.txid.bytes.toHex ++ " has no credit-burn output"))
  | some (index, amount, burnKey) =>
    if amount = 0 then .error (.notFunding (tx.txid.bytes.toHex ++ " burns zero credit"))
    else
      let outPoint : OutPoint := ⟨tx.txid, UInt32.ofNat index⟩
      .ok ⟨tx.txid, outPoint, amount, burnKey, .ofOutPoint outPoint⟩

def Format.creditLock : Format CreditLock :=
  record
    (.cons "transaction_id" txId (.cons "locked_outpoint" outPoint
      (.cons "credit_amount" uint64 (.cons "burn_public_key" publicKey
        (.last "derived_identity_id" identityId)))))
    (fun l => (l.transaction, l.outPoint, l.amount, l.burnKey, l.identity))
    (fun (t, o, a, k, i) => ⟨t, o, a, k, i⟩)

end Enrolment
