import TokenProvision.Bytes

/-!
The curve `y² = x³ + 7` over a prime field of 256 bits, with a base point of prime order.
Sums are computed on triples `(x, y, z)` that stand for the point `(x / z², y / z³)`, so that a
sum needs no division; a triple with `z = 0` stands for the point at infinity.

A secret key is a factor below the order of the base point, and its public key is that multiple of
the base point. A public key is read from the compressed, the compact and the uncompressed form, and
written in the compressed form.
-/
namespace TokenProvision.Secp256k1

namespace Modular

def sub (m a b : Nat) : Nat := (a + (m - b % m)) % m

/-- The power of a residue to an exponent below `2 ^ bits`. -/
def pow (m b : Nat) : (e bits : Nat) → Nat
  | _, 0 => 1 % m
  | e, bits + 1 =>
    let half := pow m b (e / 2) bits
    let square := half * half % m
    if e % 2 = 0 then square else square * b % m

/-- The inverse of a residue modulo a prime, and zero for zero. -/
def inv (m a : Nat) : Nat := pow m a (m - 2) 256

end Modular

open Modular

/-- The prime of the field. -/
def prime : Nat := 0xfffffffffffffffffffffffffffffffffffffffffffffffffffffffefffffc2f

/-- The prime order of the base point. -/
def order : Nat := 0xfffffffffffffffffffffffffffffffebaaedce6af48a03bbfd25e8cd0364141

structure Affine where
  x : Nat
  y : Nat
  deriving DecidableEq, Repr

/-- Whether coordinates are residues that satisfy the equation of the curve. -/
def Affine.IsOnCurve (a : Affine) : Prop :=
  a.x < prime ∧ a.y < prime ∧ a.y * a.y % prime = (a.x * a.x * a.x + 7) % prime

instance (a : Affine) : Decidable a.IsOnCurve := inferInstanceAs (Decidable (_ ∧ _ ∧ _))

def base : Affine where
  x := 0x79be667ef9dcbbac55a06295ce870b07029bfcdb2dce28d959f2815b16f81798
  y := 0x483ada7726a3c4655da4fbfc0e1108a8fd17b448a68554199c47d08ffb10d4b8

structure Point where
  x : Nat
  y : Nat
  z : Nat
  deriving DecidableEq, Repr

namespace Point

def infinity : Point := ⟨1, 1, 0⟩

def ofAffine (a : Affine) : Point := ⟨a.x, a.y, 1⟩

/-- The coordinates that a triple stands for; the point at infinity gets zeros. -/
def toAffine (p : Point) : Affine :=
  let i := inv prime p.z
  let ii := i * i % prime
  ⟨p.x * ii % prime, p.y * (ii * i % prime) % prime⟩

/-- The tangent rule. -/
def double (p : Point) : Point :=
  let yy := p.y * p.y % prime
  let s := 4 * p.x * yy % prime
  let m := 3 * p.x * p.x % prime
  let x := sub prime (m * m) (2 * s)
  ⟨x, sub prime (m * sub prime s x) (8 * yy * yy), 2 * p.y * p.z % prime⟩

/-- The chord rule, with the tangent rule for equal points and infinity for opposite ones. -/
def add (p q : Point) : Point :=
  if p.z = 0 then q
  else if q.z = 0 then p
  else
    let pzz := p.z * p.z % prime
    let qzz := q.z * q.z % prime
    let px := p.x * qzz % prime
    let qx := q.x * pzz % prime
    let py := p.y * (qzz * q.z % prime) % prime
    let qy := q.y * (pzz * p.z % prime) % prime
    if px = qx then if py = qy then double p else infinity
    else
      let h := sub prime qx px
      let r := sub prime qy py
      let hh := h * h % prime
      let hhh := hh * h % prime
      let v := px * hh % prime
      let x := sub prime (r * r) (hhh + 2 * v)
      ⟨x, sub prime (r * sub prime v x) (py * hhh), p.z * q.z % prime * h % prime⟩

/-- The multiple of a point by a factor below `2 ^ bits`. -/
def multiple (p : Point) : (k bits : Nat) → Point
  | _, 0 => infinity
  | k, bits + 1 =>
    let half := (multiple p (k / 2) bits).double
    if k % 2 = 0 then half else half.add p

/-- The sum of multiples of two points by factors below `2 ^ bits`, given the sum of the points. -/
def combination (p q both : Point) : (k l bits : Nat) → Point
  | _, _, 0 => infinity
  | k, l, bits + 1 =>
    let half := (combination p q both (k / 2) (l / 2) bits).double
    match k % 2, l % 2 with
    | 0, 0 => half
    | _, 0 => half.add p
    | 0, _ => half.add q
    | _, _ => half.add both

end Point

abbrev PublicKey := Affine

def compressedLength : Nat := 33

/-- A string of bytes that has the size of a compressed public key. -/
abbrev CompressedKey := FixedBytes compressedLength

namespace PublicKey

/-- The point with the given first coordinate whose second one is odd or even as asked. -/
def lift? (x : Nat) (odd : Bool) : Option PublicKey :=
  let y := pow prime (x * x * x + 7) ((prime + 1) / 4) 256
  let y := if (y % 2 == 1) == odd then y else sub prime 0 y
  let key : PublicKey := ⟨x, y⟩
  if key.IsOnCurve then some key else none

/-- Reads a public key: `02` or `03` and the first coordinate, where the tag tells the parity of the
second; `05` and the first coordinate, where the second is even; or `04` and both. -/
def ofBytes? : Bytes → Option PublicKey
  | tag :: rest =>
    if rest.length = 32 then
      if tag = 0x02 ∨ tag = 0x05 then lift? (Bytes.toNat rest) false
      else if tag = 0x03 then lift? (Bytes.toNat rest) true
      else none
    else if rest.length = 64 ∧ tag = 0x04 then
      let key : PublicKey := ⟨Bytes.toNat (rest.take 32), Bytes.toNat (rest.drop 32)⟩
      if key.IsOnCurve then some key else none
    else none
  | [] => none

def compressed (key : PublicKey) : CompressedKey where
  bytes := (if key.y % 2 = 0 then 0x02 else 0x03) :: Bytes.ofNat 32 key.x
  length_eq := by simp [compressedLength]

end PublicKey

structure SecretKey where
  scalar : Nat
  pos : 0 < scalar
  lt_order : scalar < order
  deriving Repr

namespace SecretKey

def ofBytes? (bs : Bytes) : Option SecretKey :=
  if h : bs.length = 32 ∧ 0 < Bytes.toNat bs ∧ Bytes.toNat bs < order then
    some ⟨Bytes.toNat bs, h.2.1, h.2.2⟩
  else none

def publicKey (key : SecretKey) : PublicKey :=
  ((Point.ofAffine base).multiple key.scalar 256).toAffine

end SecretKey

end TokenProvision.Secp256k1
