import Enrolment.Codec.Record
import Enrolment.Crypto.Suite
import Enrolment.Identity.Id

/-!
Funding transactions and their outputs.

An output is named by its transaction and position. The bytes of that name are 36: the transaction
identifier and the position as a little-endian word; the identity funded by an output is named by
their digest.
-/

namespace Enrolment

structure TxId where
  bytes : Bytes32
deriving DecidableEq

def TxId.describe (id : TxId) : String := "TxId(" ++ id.bytes.brief ++ ")"

structure OutPoint where
  txid : TxId
  index : UInt32
deriving DecidableEq

namespace OutPoint

def toBytes (o : OutPoint) : Bytes := o.txid.bytes.toList ++ Bytes.ofNatLE 4 o.index.toNat

def ofBytes (bytes : Bytes) : Except Error OutPoint :=
  if h : bytes.length = 36 then
    .ok ⟨⟨⟨bytes.take 32, by simp [h]⟩⟩, UInt32.ofNat (Bytes.toNatLE (bytes.drop 32))⟩
  else
    .error (.invalidFormat ("outpoint must be 36 bytes, got " ++ toString bytes.length))

/-- The text of an outpoint: the transaction and the position, with a colon between them. -/
def render (o : OutPoint) : String := o.txid.bytes.toHex ++ ":" ++ toString o.index.toNat

end OutPoint

inductive OutputKind where
  /-- Pays a recipient, given by the digest of its script. -/
  | payment (recipient : Digest)
  /-- Burns the value into credit that only the holder of a key may spend. -/
  | creditBurn (key : PublicKey)
deriving DecidableEq

structure TxOutput where
  value : UInt64
  kind : OutputKind
deriving DecidableEq

structure Transaction where
  txid : TxId
  outputs : List TxOutput
deriving DecidableEq

namespace Transaction

def pay (tx : Transaction) (recipient : Digest) (value : UInt64) : Transaction :=
  { tx with outputs := tx.outputs ++ [⟨value, .payment recipient⟩] }

def burn (tx : Transaction) (key : PublicKey) (value : UInt64) : Transaction :=
  { tx with outputs := tx.outputs ++ [⟨value, .creditBurn key⟩] }

/-- The first burn among outputs numbered from `index`. -/
def firstBurn? (index : Nat) : List TxOutput → Option (Nat × UInt64 × PublicKey)
  | [] => none
  | output :: rest =>
    match output.kind with
    | .creditBurn key => some (index, output.value, key)
    | .payment _ => firstBurn? (index + 1) rest

/-- The first output that burns credit: its position, value and key. -/
def creditBurn? (tx : Transaction) : Option (Nat × UInt64 × PublicKey) := firstBurn? 0 tx.outputs

end Transaction

/-- The identity that an output funds. -/
def IdentityId.ofOutPoint [Suite] (o : OutPoint) : IdentityId := ⟨Suite.hash o.toBytes⟩

namespace Format

def txId : Format TxId := bytes32.via TxId.bytes TxId.mk

def identityId : Format IdentityId := bytes32.via IdentityId.bytes IdentityId.mk

def outPoint : Format OutPoint :=
  record (.cons "txid" txId (.last "index" uint32))
    (fun o => (o.txid, o.index)) (fun (txid, index) => ⟨txid, index⟩)

def outputKind : Format OutputKind :=
  cases
    [.record "payment" (.last "recipient" bytes32)
      (fun | .payment r => some r | _ => none) .payment,
    .record "credit_burn" (.last "burn_public_key" publicKey)
      (fun | .creditBurn k => some k | _ => none) .creditBurn]

def txOutput : Format TxOutput :=
  record (.cons "value" uint64 (.last "kind" outputKind))
    (fun o => (o.value, o.kind)) (fun (value, kind) => ⟨value, kind⟩)

def transaction : Format Transaction :=
  record (.cons "txid" txId (.last "outputs" (list txOutput)))
    (fun t => (t.txid, t.outputs)) (fun (txid, outputs) => ⟨txid, outputs⟩)

end Format

end Enrolment
