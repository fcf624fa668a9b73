import Enrolment.Crypto.Sha512

/-!
Ed25519 signatures.

Field elements and scalars are natural numbers below their modulus, points are in extended
coordinates. Reading a point accepts every encoding of a y coordinate, reduced or not, and both signs
of a zero x coordinate. Verification recomputes the first half of the signature and compares its
bytes, and demands a second half below the group order.
-/

namespace Enrolment.Crypto.Ed25519

/-- The field modulus. -/
def p : Nat := Nat.pow 2 255 - 19

/-- The order of the base point. -/
def order : Nat := Nat.pow 2 252 + 27742317777372353535851937790883648493

/-- Difference of field elements. -/
@[inline] def sub (x y : Nat) : Nat := (x + p - y) % p

/-- `x ^ n` for an exponent of at most `bits` bits. -/
def pow (x n : Nat) : (bits : Nat) → Nat
  | 0 => 1 % p
  | bits + 1 =>
    let half := pow x (n / 2) bits
    let square := half * half % p
    if n % 2 = 1 then square * x % p else square

/-- The inverse of a field element; zero for zero. -/
def inv (x : Nat) : Nat := pow x (p - 2) 255

/-- The constant of the curve equation `-x² + y² = 1 + d x² y²`. -/
def d : Nat := 37095705934669439343138083508754565189542113879843219016388785533085940283555

/-- A square root of minus one. -/
def sqrtMinusOne : Nat :=
  19681161376707505956807079304988542015446066515923890162744021073123829784752

/-- A point in extended coordinates: `x = X / Z`, `y = Y / Z` and `x y = T / Z`. -/
structure Point where
  x : Nat
  y : Nat
  z : Nat
  t : Nat
deriving DecidableEq

namespace Point

def zero : Point := ⟨0, 1, 1, 0⟩

def base : Point :=
  let x := 15112221349535400772501151409588531511454012693041857206046113283949847762202
  let y := 46316835694926478169428394003475163141307993866256225615783033603165251855960
  ⟨x, y, 1, x * y % p⟩

def add (u v : Point) : Point :=
  let a := sub u.y u.x * sub v.y v.x % p
  let b := (u.y + u.x) * (v.y + v.x) % p
  let c := 2 * d * u.t % p * v.t % p
  let e := 2 * u.z * v.z % p
  let h := sub b a
  let g := sub e c
  let f := (e + c) % p
  let k := (b + a) % p
  ⟨h * g % p, f * k % p, g * f % p, h * k % p⟩

def double (u : Point) : Point :=
  let a := u.x * u.x % p
  let b := u.y * u.y % p
  let c := 2 * u.z * u.z % p
  let h := (a + b) % p
  let s := (u.x + u.y) % p
  let e := sub h (s * s % p)
  let g := sub a b
  let f := (c + g) % p
  ⟨e * f % p, g * h % p, f * g % p, e * h % p⟩

def neg (u : Point) : Point := ⟨sub 0 u.x, u.y, u.z, sub 0 u.t⟩

/-- `n` times a point, for `n` of at most `bits` bits. -/
def mul (u : Point) (n : Nat) : (bits : Nat) → Point
  | 0 => zero
  | bits + 1 =>
    let half := double (mul u (n / 2) bits)
    if n % 2 = 1 then half.add u else half

/-- The 32 bytes of a point: its y coordinate, and the parity of x in the highest bit. -/
def encode (u : Point) : Bytes32 :=
  let zInv := inv u.z
  let x := u.x * zInv % p
  let y := u.y * zInv % p
  Bytes32.ofNatLE (y + (x % 2) * Nat.pow 2 255)

/-- A root of `u / v`, if there is one; `v` is not zero on the curve. -/
def sqrtRatio? (u v : Nat) : Option Nat :=
  let v3 := v * v % p * v % p
  let v7 := v3 * v3 % p * v % p
  let r := u * v3 % p * pow (u * v7 % p) ((p - 5) / 8) 252 % p
  let check := v * (r * r % p) % p
  if check = u then some r
  else if check = sub 0 u then some (r * sqrtMinusOne % p)
  else none

/-- The point with the given 32 bytes, if its y coordinate has one. -/
def decode? (bytes : Bytes32) : Option Point :=
  let n := Bytes.toNatLE bytes.toList
  let sign := n / Nat.pow 2 255
  let y := n % Nat.pow 2 255 % p
  let yy := y * y % p
  match sqrtRatio? (sub yy 1) ((d * yy + 1) % p) with
  | none => none
  | some r =>
    let x := if r % 2 = sign then r else sub 0 r
    some ⟨x, y, 1, x * y % p⟩

end Point

def isPoint (bytes : Bytes32) : Bool := (Point.decode? bytes).isSome

/-- The scalar of a secret seed, and the bytes that make its signatures unpredictable. -/
def expand (seed : Bytes32) : Nat × Bytes :=
  let digest := Sha512.hash seed.toList
  let n := Bytes.toNatLE (digest.take 32)
  let clamped := n % Nat.pow 2 254 / 8 * 8 + Nat.pow 2 254
  (clamped, digest.drop 32)

def publicBytes (seed : Bytes32) : Bytes32 := (Point.base.mul ((expand seed).1 % order) 253).encode

/-- The scalar that ties a signature to its message. -/
def challenge (commitment key : Bytes32) (message : Bytes) : Nat :=
  Bytes.toNatLE (Sha512.hash (commitment.toList ++ key.toList ++ message)) % order

/-- Signs a message: the two halves of the signature. -/
def sign (seed : Bytes32) (message : Bytes) : Bytes32 × Bytes32 :=
  let (scalar, nonceKey) := expand seed
  let r := Bytes.toNatLE (Sha512.hash (nonceKey ++ message)) % order
  let commitment := (Point.base.mul r 253).encode
  let k := challenge commitment (publicBytes seed) message
  (commitment, Bytes32.ofNatLE ((k * scalar + r) % order))

/-- Whether the two halves are a signature of the message under the key. -/
def verify (key : Bytes32) (message : Bytes) (first second : Bytes32) : Bool :=
  let s := Bytes.toNatLE second.toList
  match Point.decode? key with
  | none => false
  | some point =>
    if s < order then
      let k := challenge first key message
      ((Point.base.mul s 253).add (point.neg.mul k 253)).encode = first
    else false

end Enrolment.Crypto.Ed25519
