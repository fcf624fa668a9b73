import Enrolment.Crypto.Ed25519
import Enrolment.Bytes.Hex

/-!
Digests, keys and signatures.

A public key is 32 bytes that encode a curve point, kept as they were given. Keys are ordered by their
bytes, and a set of keys is a list in that order without repetition.
-/

namespace Enrolment

/-- The result of hashing: also the shape of identifiers and commitments. -/
abbrev Digest := Bytes32

def Bytes32.toHex (v : Bytes32) : String := Bytes.toHex v.toList

/-- The hexadecimal text of the first eight bytes, which is how long values are abbreviated. -/
def Bytes32.brief (v : Bytes32) : String := Bytes.toHex (v.toList.take 8)

def Bytes32.describeDigest (v : Bytes32) : String := "Hash(" ++ v.brief ++ ")"

structure PublicKey where
  bytes : Bytes32
  isPoint_bytes : Crypto.Ed25519.isPoint bytes = true
deriving DecidableEq

namespace PublicKey

/-- Reads a key; bytes that encode no curve point are refused. -/
def ofBytes? (bytes : Bytes32) : Option PublicKey :=
  if h : Crypto.Ed25519.isPoint bytes = true then some ⟨bytes, h⟩ else none

def describe (k : PublicKey) : String := "PublicKey(" ++ k.bytes.brief ++ ")"

@[simp] theorem ofBytes?_bytes (k : PublicKey) : ofBytes? k.bytes = some k := by
  simp [ofBytes?, k.isPoint_bytes]

/-- The encoding of the neutral point: a key that stands where no real one is at hand. -/
def neutral : PublicKey := ⟨Bytes32.ofNatLE 1, by decide +kernel⟩

instance : Inhabited PublicKey := ⟨neutral⟩

instance : LT PublicKey := ⟨fun a b => a.bytes.toNat < b.bytes.toNat⟩

instance (a b : PublicKey) : Decidable (a < b) :=
  inferInstanceAs (Decidable (a.bytes.toNat < b.bytes.toNat))

end PublicKey

/-- A secret seed. It has no text of its own. -/
structure SecretKey where
  seed : Bytes32
deriving DecidableEq

/-- What is shown in place of a secret key. -/
def SecretKey.describe (_ : SecretKey) : String := "SecretKey([redacted])"

structure Signature where
  first : Bytes32
  second : Bytes32
deriving DecidableEq

namespace Signature

def empty : Signature := ⟨Bytes32.zero, Bytes32.zero⟩

def isEmpty (s : Signature) : Bool := s = empty

def toBytes (s : Signature) : Bytes := s.first.toList ++ s.second.toList

def ofBytes? (bytes : Bytes) : Option Signature := do
  let first ← Bytes32.ofList? (bytes.take 32)
  let second ← Bytes32.ofList? (bytes.drop 32)
  return ⟨first, second⟩

def describe (s : Signature) : String := "Sig(" ++ s.first.brief ++ ")"

end Signature

/-- A set of keys, in ascending order. -/
structure KeySet where
  toList : List PublicKey
  ascending : toList.Pairwise (· < ·)
deriving DecidableEq

namespace KeySet

/-- Inserts a key into an ascending list, unless it is there. -/
def insertKey (k : PublicKey) : List PublicKey → List PublicKey
  | [] => [k]
  | x :: xs => if k < x then k :: x :: xs else if x < k then x :: insertKey k xs else x :: xs

theorem mem_insertKey {k y : PublicKey} {xs : List PublicKey} (h : y ∈ insertKey k xs) :
    y = k ∨ y ∈ xs := by
  induction xs with
  | nil => simpa [insertKey] using h
  | cons x xs ih =>
    unfold insertKey at h
    split at h
    · simpa using h
    · split at h
      · rcases List.mem_cons.mp h with h | h
        · simp [h]
        · rcases ih h with h | h <;> simp [h]
      · exact .inr h

theorem ascending_insertKey (k : PublicKey) {xs : List PublicKey} (h : xs.Pairwise (· < ·)) :
    (insertKey k xs).Pairwise (· < ·) := by
  induction xs with
  | nil => simp [insertKey]
  | cons x xs ih =>
    have hx := List.pairwise_cons.mp h
    unfold insertKey
    split
    · rename_i hk
      refine List.pairwise_cons.mpr ⟨fun y hy => ?_, h⟩
      rcases List.mem_cons.mp hy with rfl | hy
      · exact hk
      · exact Nat.lt_trans hk (hx.1 y hy)
    · split
      · rename_i hk
        refine List.pairwise_cons.mpr ⟨fun y hy => ?_, ih hx.2⟩
        rcases mem_insertKey hy with rfl | hy
        · exact hk
        · exact hx.1 y hy
      · exact h

def empty : KeySet := ⟨[], .nil⟩

def insert (s : KeySet) (k : PublicKey) : KeySet :=
  ⟨insertKey k s.toList, ascending_insertKey k s.ascending⟩

def ofList (keys : List PublicKey) : KeySet := keys.foldl insert empty

end KeySet

end Enrolment
