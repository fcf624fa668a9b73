/-!
Byte strings, values of exactly 32 bytes, and little-endian numbers.

Everything that is hashed, signed or stored is a list of bytes, so that joining and splitting are the
list operations. The main statement is that a little-endian field of a given width reads back exactly
the numbers that fit it.
-/

namespace Enrolment

abbrev Bytes := List UInt8

namespace Bytes

/-- The lowest `width` base-256 digits of `n`, least significant first. -/
def ofNatLE : (width n : Nat) → Bytes
  | 0, _ => []
  | width + 1, n => UInt8.ofNat n :: ofNatLE width (n / 256)

/-- The number whose base-256 digits are given least significant first. -/
def toNatLE : Bytes → Nat
  | [] => 0
  | b :: rest => b.toNat + 256 * toNatLE rest

/-- The number whose base-256 digits are given most significant first. -/
def toNatBE (bytes : Bytes) : Nat :=
  bytes.foldl (fun n b => 256 * n + b.toNat) 0

@[simp] theorem length_ofNatLE (width n : Nat) : (ofNatLE width n).length = width := by
  induction width generalizing n with
  | zero => rfl
  | succ width ih => simp [ofNatLE, ih]

theorem toNatLE_lt (bytes : Bytes) : toNatLE bytes < Nat.pow 256 bytes.length := by
  induction bytes with
  | nil => decide
  | cons b rest ih =>
    have hb := b.toNat_lt
    have hp : Nat.pow 256 (rest.length + 1) = Nat.pow 256 rest.length * 256 := rfl
    rw [toNatLE, List.length_cons, hp]
    omega

/-- A field holds its number modulo `256 ^ width`. -/
theorem toNatLE_ofNatLE (width n : Nat) : toNatLE (ofNatLE width n) = n % Nat.pow 256 width := by
  induction width generalizing n with
  | zero => exact (Nat.mod_one n).symm
  | succ width ih =>
    have hb : (UInt8.ofNat n).toNat = n % 256 := by simp
    have hp : Nat.pow 256 (width + 1) = 256 * Nat.pow 256 width := Nat.mul_comm ..
    rw [ofNatLE, toNatLE, ih, hb, hp, Nat.mod_mul]

theorem ofNatLE_toNatLE (bytes : Bytes) : ofNatLE bytes.length (toNatLE bytes) = bytes := by
  induction bytes with
  | nil => rfl
  | cons b rest ih =>
    have hb := b.toNat_lt
    have hdiv : (b.toNat + 256 * toNatLE rest) / 256 = toNatLE rest := by omega
    have hmod : UInt8.ofNat (b.toNat + 256 * toNatLE rest) = b := by
      apply UInt8.toNat_inj.mp
      simp only [UInt8.toNat_ofNat']
      omega
    simp only [toNatLE, List.length_cons, ofNatLE, hdiv, ih, hmod]

end Bytes

/-- A value of exactly 32 bytes. -/
structure Bytes32 where
  toList : Bytes
  length_toList : toList.length = 32
deriving DecidableEq

namespace Bytes32

/-- Reads a value of 32 bytes; any other length is refused. -/
def ofList? (bytes : Bytes) : Option Bytes32 :=
  if h : bytes.length = 32 then some ⟨bytes, h⟩ else none

/-- The first 32 bytes, padded with zeros. -/
def ofPadded (bytes : Bytes) : Bytes32 :=
  ⟨(bytes ++ List.replicate 32 0).take 32, by simp⟩

def ofNatLE (n : Nat) : Bytes32 :=
  ⟨Bytes.ofNatLE 32 n, Bytes.length_ofNatLE 32 n⟩

def zero : Bytes32 := ⟨List.replicate 32 0, rfl⟩

instance : Inhabited Bytes32 := ⟨zero⟩

/-- The number with these bytes, most significant first. Byte strings of one length are in
lexicographic order exactly when their numbers are in numeric order. -/
def toNat (v : Bytes32) : Nat := Bytes.toNatBE v.toList

@[simp] theorem ofList?_toList (v : Bytes32) : ofList? v.toList = some v := by
  simp [ofList?, v.length_toList]

theorem ofList?_eq_some_iff {bytes : Bytes} {v : Bytes32} :
    ofList? bytes = some v ↔ bytes = v.toList := by
  constructor
  · intro h
    unfold ofList? at h
    split at h
    · cases h; rfl
    · cases h
  · rintro rfl
    exact ofList?_toList v

theorem toList_inj {a b : Bytes32} : a.toList = b.toList ↔ a = b := by
  cases a; cases b; simp

end Bytes32

end Enrolment
