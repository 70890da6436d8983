import TokenProvision.Bytes

/-!
Digests of 256 bits.

SHA-256 pads a message to whole blocks of 64 bytes; each block is mixed into a state of eight words
in 64 rounds, over a sliding window of sixteen schedule words. The Keccak sponge gives two digests
that differ in its padding only: SHA3-256 marks the end of a message with the byte `06`, Keccak-256
with the byte `01`.
-/
namespace TokenProvision.Digest

namespace Sha256

structure State where
  a : UInt32
  b : UInt32
  c : UInt32
  d : UInt32
  e : UInt32
  f : UInt32
  g : UInt32
  h : UInt32
  deriving DecidableEq, Repr

/-- The first 32 bits of the fractional parts of the square roots of the first eight primes. -/
def initial : State where
  a := 0x6a09e667
  b := 0xbb67ae85
  c := 0x3c6ef372
  d := 0xa54ff53a
  e := 0x510e527f
  f := 0x9b05688c
  g := 0x1f83d9ab
  h := 0x5be0cd19

/-- The first 32 bits of the fractional parts of the cube roots of the first 64 primes. -/
def roundConstants : List UInt32 :=
  [0x428a2f98, 0x71374491, 0xb5c0fbcf, 0xe9b5dba5, 0x3956c25b, 0x59f111f1, 0x923f82a4, 0xab1c5ed5,
   0xd807aa98, 0x12835b01, 0x243185be, 0x550c7dc3, 0x72be5d74, 0x80deb1fe, 0x9bdc06a7, 0xc19bf174,
   0xe49b69c1, 0xefbe4786, 0x0fc19dc6, 0x240ca1cc, 0x2de92c6f, 0x4a7484aa, 0x5cb0a9dc, 0x76f988da,
   0x983e5152, 0xa831c66d, 0xb00327c8, 0xbf597fc7, 0xc6e00bf3, 0xd5a79147, 0x06ca6351, 0x14292967,
   0x27b70a85, 0x2e1b2138, 0x4d2c6dfc, 0x53380d13, 0x650a7354, 0x766a0abb, 0x81c2c92e, 0x92722c85,
   0xa2bfe8a1, 0xa81a664b, 0xc24b8b70, 0xc76c51a3, 0xd192e819, 0xd6990624, 0xf40e3585, 0x106aa070,
   0x19a4c116, 0x1e376c08, 0x2748774c, 0x34b0bcb5, 0x391c0cb3, 0x4ed8aa4a, 0x5b9cca4f, 0x682e6ff3,
   0x748f82ee, 0x78a5636f, 0x84c87814, 0x8cc70208, 0x90befffa, 0xa4506ceb, 0xbef9a3f7, 0xc67178f2]

def rotateRight (w : UInt32) (n : UInt32) : UInt32 := (w >>> n) ||| (w <<< (32 - n))

/-- One round on a state, with the constant and the schedule word of the round added up. -/
def round (s : State) (kw : UInt32) : State :=
  let sum1 := rotateRight s.e 6 ^^^ rotateRight s.e 11 ^^^ rotateRight s.e 25
  let choice := (s.e &&& s.f) ^^^ (~~~s.e &&& s.g)
  let t1 := s.h + sum1 + choice + kw
  let sum0 := rotateRight s.a 2 ^^^ rotateRight s.a 13 ^^^ rotateRight s.a 22
  let majority := (s.a &&& s.b) ^^^ (s.a &&& s.c) ^^^ (s.b &&& s.c)
  ⟨t1 + (sum0 + majority), s.a, s.b, s.c, s.d + t1, s.e, s.f, s.g⟩

def nextWord (window : List UInt32) : UInt32 :=
  let w1 := window.getD 1 0
  let w14 := window.getD 14 0
  let sigma0 := rotateRight w1 7 ^^^ rotateRight w1 18 ^^^ (w1 >>> 3)
  let sigma1 := rotateRight w14 17 ^^^ rotateRight w14 19 ^^^ (w14 >>> 10)
  window.getD 0 0 + sigma0 + window.getD 9 0 + sigma1

/-- One round for every constant, with the window moving on by one word each time. -/
def rounds : List UInt32 → List UInt32 → State → State
  | [], _, s => s
  | k :: ks, window, s =>
    rounds ks (window.tail ++ [nextWord window]) (round s (k + window.getD 0 0))

def words : Bytes → List UInt32
  | a :: b :: c :: d :: rest =>
    (a.toUInt32 <<< 24 ||| b.toUInt32 <<< 16 ||| c.toUInt32 <<< 8 ||| d.toUInt32) :: words rest
  | _ => []

def compress (s : State) (block : Bytes) : State :=
  let t := rounds roundConstants (words block) s
  ⟨s.a + t.a, s.b + t.b, s.c + t.c, s.d + t.d, s.e + t.e, s.f + t.f, s.g + t.g, s.h + t.h⟩

/-- The message, a one bit, zeros, and the length in bits: whole blocks. -/
def pad (msg : Bytes) : Bytes :=
  msg ++ 0x80 :: List.replicate ((119 - msg.length % 64) % 64) 0 ++ Bytes.ofNat 8 (8 * msg.length)

def absorb : (blocks : Nat) → Bytes → State → State
  | 0, _, s => s
  | blocks + 1, bs, s => absorb blocks (bs.drop 64) (compress s (bs.take 64))

def State.toBytes (s : State) : Bytes :=
  [s.a, s.b, s.c, s.d, s.e, s.f, s.g, s.h].flatMap Bytes.ofUInt32

@[simp] theorem State.length_toBytes (s : State) : s.toBytes.length = 32 := by
  simp [State.toBytes]

end Sha256

def sha256 (msg : Bytes) : Bytes :=
  let padded := Sha256.pad msg
  (Sha256.absorb (padded.length / 64) padded Sha256.initial).toBytes

@[simp] theorem length_sha256 (msg : Bytes) : (sha256 msg).length = 32 :=
  Sha256.State.length_toBytes _

/-- The key, filled up with zeros to one block, with every byte changed by `mask`. -/
def maskedKey (mask : UInt8) (key : Bytes) : Bytes :=
  (key ++ List.replicate (64 - key.length) 0).map (· ^^^ mask)

def hmacSha256 (key msg : Bytes) : Bytes :=
  sha256 (maskedKey 0x5c key ++ sha256 (maskedKey 0x36 key ++ msg))

@[simp] theorem length_hmacSha256 (key msg : Bytes) : (hmacSha256 key msg).length = 32 :=
  length_sha256 _

namespace Keccak

/-- Five by five lanes; lane `(x, y)` has the index `x + 5 * y`. -/
abbrev State := Vector UInt64 25

/-- The lane at two coordinates, taken modulo five. -/
def lane (s : State) (x y : Nat) : UInt64 := s[x % 5 + 5 * (y % 5)]

def ofLanes (f : (x y : Nat) → UInt64) : State :=
  Vector.ofFn fun i => f (i.val % 5) (i.val / 5)

def zero : State := ofLanes fun _ _ => 0

/-- Rotation of a lane to the left by less than 64 bits. -/
def rotateLeft (w : UInt64) (n : UInt64) : UInt64 := (w <<< n) ||| (w >>> (64 - n))

/-- How far each lane is rotated, by index. -/
def offsets : Vector UInt64 25 :=
  #v[0, 1, 62, 28, 27, 36, 44, 6, 55, 20, 3, 10, 43, 25, 39, 41, 45, 15, 21, 8, 18, 2, 61, 56, 14]

/-- What each round adds to the first lane. -/
def roundConstants : List UInt64 :=
  [0x0000000000000001, 0x0000000000008082, 0x800000000000808a, 0x8000000080008000,
   0x000000000000808b, 0x0000000080000001, 0x8000000080008081, 0x8000000000008009,
   0x000000000000008a, 0x0000000000000088, 0x0000000080008009, 0x000000008000000a,
   0x000000008000808b, 0x800000000000008b, 0x8000000000008089, 0x8000000000008003,
   0x8000000000008002, 0x8000000000000080, 0x000000000000800a, 0x800000008000000a,
   0x8000000080008081, 0x8000000000008080, 0x0000000080000001, 0x8000000080008008]

/-- Adds the parities of two neighbouring columns to every lane. -/
def theta (s : State) : State :=
  let parity : Vector UInt64 5 := Vector.ofFn fun x =>
    lane s x 0 ^^^ lane s x 1 ^^^ lane s x 2 ^^^ lane s x 3 ^^^ lane s x 4
  ofLanes fun x y =>
    lane s x y ^^^ parity[(x + 4) % 5] ^^^ rotateLeft parity[(x + 1) % 5] 1

/-- Rotates every lane by its offset and moves it to its new place. -/
def rhoPi (s : State) : State :=
  ofLanes fun x y => rotateLeft (lane s (x + 3 * y) x) (lane offsets (x + 3 * y) x)

/-- Mixes every lane with the two that follow it in its row. -/
def chi (s : State) : State :=
  ofLanes fun x y => lane s x y ^^^ (~~~lane s (x + 1) y &&& lane s (x + 2) y)

def iota (k : UInt64) (s : State) : State := s.set 0 (s[0] ^^^ k)

def permute (s : State) : State :=
  roundConstants.foldl (fun s k => iota k (chi (rhoPi (theta s)))) s

/-- The bytes that a block adds to the state. -/
def rate : Nat := 136

/-- The little-endian lanes of a byte string. -/
def lanes : Bytes → List UInt64
  | a :: b :: c :: d :: e :: f :: g :: h :: rest =>
    (a.toUInt64 ||| b.toUInt64 <<< 8 ||| c.toUInt64 <<< 16 ||| d.toUInt64 <<< 24 |||
      e.toUInt64 <<< 32 ||| f.toUInt64 <<< 40 ||| g.toUInt64 <<< 48 ||| h.toUInt64 <<< 56) ::
      lanes rest
  | _ => []

def mix (s : State) (block : Bytes) : State :=
  let ls := (lanes block).toArray
  permute (Vector.ofFn fun i => s[i] ^^^ ls.getD i 0)

/-- The message, the byte that marks its end, zeros, and a final one bit: whole blocks. -/
def pad (mark : UInt8) (msg : Bytes) : Bytes :=
  let gap := rate - msg.length % rate
  if gap = 1 then msg ++ [mark ||| 0x80]
  else msg ++ mark :: List.replicate (gap - 2) 0 ++ [0x80]

def absorb : (blocks : Nat) → Bytes → State → State
  | 0, _, s => s
  | blocks + 1, bs, s => absorb blocks (bs.drop rate) (mix s (bs.take rate))

/-- The eight bytes of a lane, least significant first. -/
def laneBytes (w : UInt64) : Bytes :=
  (Bytes.ofNat 8 w.toNat).reverse

@[simp] theorem length_laneBytes (w : UInt64) : (laneBytes w).length = 8 := by
  simp [laneBytes]

/-- The first four lanes of the state after the last block of a message. -/
def digest (mark : UInt8) (msg : Bytes) : Bytes :=
  let padded := pad mark msg
  let s := absorb (padded.length / rate) padded zero
  [s[0], s[1], s[2], s[3]].flatMap laneBytes

@[simp] theorem length_digest (mark : UInt8) (msg : Bytes) : (digest mark msg).length = 32 := by
  simp [digest]

end Keccak

def sha3 (msg : Bytes) : Bytes := Keccak.digest 0x06 msg

def keccak (msg : Bytes) : Bytes := Keccak.digest 0x01 msg

end TokenProvision.Digest
