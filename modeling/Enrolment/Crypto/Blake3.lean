import Enrolment.Bytes.Basic

/-!
The BLAKE3 digest and its key derivation.

The input is cut into chunks of 1024 bytes and each chunk into blocks of 64. A chunk is compressed
block by block into a chaining value; chaining values are then joined in pairs, level by level, until
one node is left. The compression of that last node carries the root flag and yields the digest.
-/

namespace Enrolment.Crypto.Blake3

/-- Four words: a row of the compression state, or half of a chaining value. -/
structure Row where
  a : UInt32
  b : UInt32
  c : UInt32
  d : UInt32
deriving DecidableEq

namespace Row

@[inline] def zip (f : UInt32 → UInt32 → UInt32) (x y : Row) : Row :=
  ⟨f x.a y.a, f x.b y.b, f x.c y.c, f x.d y.d⟩

@[inline] def add (x y : Row) : Row := zip (· + ·) x y

/-- Word-by-word exclusive or, each result then rotated right by `n` bits, `0 < n < 32`. -/
@[inline] def xorRotate (n : UInt32) (x y : Row) : Row :=
  zip (fun u v => let w := u ^^^ v; (w >>> n) ||| (w <<< (32 - n))) x y

@[inline] def turn (x : Row) : Row := ⟨x.b, x.c, x.d, x.a⟩

def toList (x : Row) : List UInt32 := [x.a, x.b, x.c, x.d]

end Row

structure Chain where
  low : Row
  high : Row
deriving DecidableEq

structure State where
  a : Row
  b : Row
  c : Row
  d : Row

structure Block where
  a : Row
  b : Row
  c : Row
  d : Row

/-- The chaining value that unkeyed hashing starts from. -/
def initialChain : Chain :=
  ⟨⟨0x6a09e667, 0xbb67ae85, 0x3c6ef372, 0xa54ff53a⟩,
    ⟨0x510e527f, 0x9b05688c, 0x1f83d9ab, 0x5be0cd19⟩⟩

/-- Mixes each column of the state with one word of `x` and one of `y`. -/
@[inline] def mix (s : State) (x y : Row) : State :=
  let a := (s.a.add s.b).add x
  let d := Row.xorRotate 16 s.d a
  let c := s.c.add d
  let b := Row.xorRotate 12 s.b c
  let a := (a.add b).add y
  let d := Row.xorRotate 8 d a
  let c := c.add d
  let b := Row.xorRotate 7 b c
  ⟨a, b, c, d⟩

/-- One round: the columns are mixed with the first half of the block, the diagonals with the
second half. -/
def round (s : State) (m : Block) : State :=
  let s := mix s ⟨m.a.a, m.a.c, m.b.a, m.b.c⟩ ⟨m.a.b, m.a.d, m.b.b, m.b.d⟩
  let s := ⟨s.a, s.b.turn, s.c.turn.turn, s.d.turn.turn.turn⟩
  let s := mix s ⟨m.c.a, m.c.c, m.d.a, m.d.c⟩ ⟨m.c.b, m.c.d, m.d.b, m.d.d⟩
  ⟨s.a, s.b.turn.turn.turn, s.c.turn.turn, s.d.turn⟩

/-- The order in which the next round takes the words of the block. -/
def permute (m : Block) : Block :=
  ⟨⟨m.a.c, m.b.c, m.a.d, m.c.c⟩, ⟨m.b.d, m.a.a, m.b.a, m.d.b⟩,
    ⟨m.a.b, m.c.d, m.d.a, m.b.b⟩, ⟨m.c.b, m.d.c, m.d.d, m.c.a⟩⟩

def rounds : (n : Nat) → State → Block → State
  | 0, s, _ => s
  | n + 1, s, m => rounds n (round s m) (permute m)

/-- Compresses a block of `length` bytes into a chaining value. -/
def compress (chain : Chain) (block : Block) (counter : Nat) (length : Nat) (flags : UInt32) : Chain :=
  let s := rounds 7
    ⟨chain.low, chain.high, initialChain.low,
      ⟨UInt32.ofNat counter, UInt32.ofNat (counter / 4294967296), UInt32.ofNat length, flags⟩⟩ block
  ⟨Row.zip (· ^^^ ·) s.a s.c, Row.zip (· ^^^ ·) s.b s.d⟩

/-- The word at the head of a byte string, missing bytes counting as zero. -/
def word : Bytes → UInt32
  | b0 :: b1 :: b2 :: b3 :: _ =>
    b0.toUInt32 ||| (b1.toUInt32 <<< 8) ||| (b2.toUInt32 <<< 16) ||| (b3.toUInt32 <<< 24)
  | short => UInt32.ofNat (Bytes.toNatLE short)

def rowOfBytes (bytes : Bytes) : Row :=
  ⟨word bytes, word (bytes.drop 4), word (bytes.drop 8), word (bytes.drop 12)⟩

def blockOfBytes (bytes : Bytes) : Block :=
  ⟨rowOfBytes bytes, rowOfBytes (bytes.drop 16), rowOfBytes (bytes.drop 32),
    rowOfBytes (bytes.drop 48)⟩

def Chain.toBytes (chain : Chain) : Bytes :=
  (chain.low.toList ++ chain.high.toList).flatMap fun w => Bytes.ofNatLE 4 w.toNat

def Chain.ofBytes (bytes : Bytes) : Chain := ⟨rowOfBytes bytes, rowOfBytes (bytes.drop 16)⟩

/-- The marks of a compression, one bit each. -/
def chunkStart : UInt32 := 1
/-- Marks the last block of a chunk. -/
def chunkEnd : UInt32 := 2
/-- Marks a node that joins two others. -/
def parent : UInt32 := 4
/-- Marks the last compression of all. -/
def root : UInt32 := 8
/-- Marks the hashing of a derivation context. -/
def deriveContext : UInt32 := 32
/-- Marks the hashing of key material under a context. -/
def deriveMaterial : UInt32 := 64

/-- How a hash is started: its first chaining value, and the flags of every compression. -/
structure Mode where
  key : Chain
  flags : UInt32

/-- Compresses the blocks of a chunk, of which there are at most `fuel`; `final` is added to the
flags of the last one. -/
def chunkBlocks (mode : Mode) (counter : Nat) (final : UInt32) :
    (fuel : Nat) → (start : UInt32) → Chain → Bytes → Chain
  | 0, _, chain, _ => chain
  | fuel + 1, start, chain, bytes =>
    let rest := bytes.drop 64
    let flags := mode.flags ||| start
    if rest.isEmpty then
      compress chain (blockOfBytes bytes) counter (min 64 bytes.length) (flags ||| chunkEnd ||| final)
    else
      let chain := compress chain (blockOfBytes (bytes.take 64)) counter 64 flags
      chunkBlocks mode counter final fuel 0 chain rest

/-- The chaining value of a chunk of at most 1024 bytes. -/
def chunk (mode : Mode) (counter : Nat) (final : UInt32) (bytes : Bytes) : Chain :=
  chunkBlocks mode counter final 16 chunkStart mode.key bytes

/-- The node that joins two chaining values. -/
def join (mode : Mode) (final : UInt32) (left right : Chain) : Chain :=
  compress mode.key ⟨left.low, left.high, right.low, right.high⟩ 0 64 (mode.flags ||| parent ||| final)

/-- Joins neighbours in pairs; an odd one at the end stays as it is. -/
def joinPairs (mode : Mode) : List Chain → List Chain
  | left :: right :: rest => join mode 0 left right :: joinPairs mode rest
  | rest => rest

/-- Joins level by level until one node is left, and makes that one the root. There are at most
`fuel` levels. -/
def joinAll (mode : Mode) : (fuel : Nat) → List Chain → Chain
  | fuel + 1, chains =>
    match chains with
    | [left, right] => join mode root left right
    | chains => joinAll mode fuel (joinPairs mode chains)
  | 0, _ => mode.key

/-- The chaining values of the chunks, the first one having number `counter`. -/
def chunks (mode : Mode) (counter : Nat) : (fuel : Nat) → Bytes → List Chain
  | 0, _ | _, [] => []
  | fuel + 1, bytes =>
    chunk mode counter 0 (bytes.take 1024) :: chunks mode (counter + 1) fuel (bytes.drop 1024)

/-- The digest of a byte string in a mode. -/
def digest (mode : Mode) (bytes : Bytes) : Bytes :=
  if bytes.length ≤ 1024 then (chunk mode 0 root bytes).toBytes
  else (joinAll mode 64 (chunks mode 0 bytes.length bytes)).toBytes

def hash (bytes : Bytes) : Bytes32 := Bytes32.ofPadded (digest ⟨initialChain, 0⟩ bytes)

/-- The key derived from `material` under a context. -/
def derive (context : Bytes) (material : Bytes) : Bytes32 :=
  let key := Chain.ofBytes (digest ⟨initialChain, deriveContext⟩ context)
  Bytes32.ofPadded (digest ⟨key, deriveMaterial⟩ material)

end Enrolment.Crypto.Blake3
