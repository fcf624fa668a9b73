import Enrolment.Credit.Lock
import Enrolment.Table

/-!
The ledger of observed credit locks.

A transaction is read once; when it is observed again, the lock that is held answers. Locks are found
by transaction and by the identity that they fund.
-/

namespace Enrolment

/-- The locks that were observed, and how often observing was asked for. -/
structure Ledger where
  locks : Table TxId CreditLock
  byIdentity : Table IdentityId TxId
  /-- Observations that added a lock. -/
  created : Nat
  /-- Observations that found one. -/
  repeated : Nat

namespace Ledger

def empty : Ledger := ⟨.empty, .empty, 0, 0⟩

def find? (l : Ledger) (tx : TxId) : Option CreditLock := l.locks.find? tx

def findFor? (l : Ledger) (id : IdentityId) : Option CreditLock :=
  (l.byIdentity.find? id).bind l.find?

def size (l : Ledger) : Nat := l.locks.size

/-- Observes a transaction: its lock, and the ledger that holds it. -/
def observe [Suite] (l : Ledger) (tx : Transaction) : Except Error (CreditLock × Ledger) :=
  match l.find? tx.txid with
  | some lock => .ok (lock, { l with repeated := l.repeated + 1 })
  | none => do
    let lock ← CreditLock.ofTransaction tx
    return (lock,
      { l with
        locks := l.locks.insert tx.txid lock
        byIdentity := l.byIdentity.insert lock.identity tx.txid
        created := l.created + 1 })

def evict (l : Ledger) (tx : TxId) : Option CreditLock × Ledger :=
  match l.find? tx with
  | none => (none, l)
  | some lock =>
    (some lock,
      { l with locks := l.locks.erase tx, byIdentity := l.byIdentity.erase lock.identity })

def isLocked (depth required : UInt64) : Bool := required ≤ depth

end Ledger

end Enrolment
