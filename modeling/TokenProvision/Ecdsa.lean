import TokenProvision.Digest
import TokenProvision.Secp256k1

/-!
Signatures over the curve, with three digests of the signed message.

The distinguished encoding of a signature is a sequence of two integers, each in its shortest form
and without a sign; reading refuses every other spelling of the same two numbers. An issuer may
produce either of the two signatures that differ in the sign of their second number, so a signature
is made low before it is verified. Signing is deterministic: the ephemeral factor is drawn from a
generator that is seeded with the secret key and the digest.
-/
namespace TokenProvision.Ecdsa

open Secp256k1
open Digest (hmacSha256)

inductive Algorithm where
  | sha256 | sha3 | keccak
  deriving DecidableEq, Repr

namespace Algorithm

def all : List Algorithm := [sha256, sha3, keccak]

def code : Algorithm → UInt8
  | sha256 => 1
  | sha3 => 2
  | keccak => 3

def name : Algorithm → String
  | sha256 => "EcdsaSha256"
  | sha3 => "EcdsaSha3_256"
  | keccak => "EcdsaKeccak256"

def ofCode? (n : UInt8) : Option Algorithm := all.find? fun a => a.code = n

@[simp] theorem ofCode?_code (a : Algorithm) : ofCode? a.code = some a := by
  cases a <;> rfl

def digest : Algorithm → Bytes → Bytes
  | sha256 => Digest.sha256
  | sha3 => Digest.sha3
  | keccak => Digest.keccak

@[simp] theorem length_digest (a : Algorithm) (msg : Bytes) : (a.digest msg).length = 32 := by
  cases a <;> simp [digest, Digest.sha3, Digest.keccak]

end Algorithm

structure Signature where
  r : Nat
  s : Nat
  r_pos : 0 < r
  r_lt : r < order
  s_pos : 0 < s
  s_lt : s < order
  deriving DecidableEq, Repr

namespace Signature

/-- The signature with the given numbers, when both are in range. -/
def ofNumbers? (r s : Nat) : Option Signature :=
  if h : 0 < r ∧ r < order ∧ 0 < s ∧ s < order then
    some ⟨r, s, h.1, h.2.1, h.2.2.1, h.2.2.2⟩
  else none

/-- A signature is low when its second number is in the lower half of the range. -/
def IsLow (sig : Signature) : Prop := sig.s ≤ order / 2

instance (sig : Signature) : Decidable sig.IsLow := inferInstanceAs (Decidable (_ ≤ _))

/-- The signature of the same message with the second number replaced by its opposite. -/
def flip (sig : Signature) : Signature where
  r := sig.r
  s := order - sig.s
  r_pos := sig.r_pos
  r_lt := sig.r_lt
  s_pos := Nat.sub_pos_of_lt sig.s_lt
  s_lt := Nat.sub_lt (Nat.lt_trans sig.s_pos sig.s_lt) sig.s_pos

/-- The low one of a signature and its opposite. -/
def normalize (sig : Signature) : Signature := if sig.IsLow then sig else sig.flip

/-- The shortest bytes of a number, with a zero in front of a first byte from `80` on. -/
def integerBytes (n : Nat) : Bytes :=
  let shortest := (Bytes.ofNat 32 n).dropWhile (· = 0)
  match shortest with
  | [] => [0]
  | b :: _ => if b < 0x80 then shortest else 0 :: shortest

/-- An integer: its tag, its length and its bytes. -/
def encodeInteger (n : Nat) : Bytes :=
  0x02 :: UInt8.ofNat (integerBytes n).length :: integerBytes n

def encode (sig : Signature) : Bytes :=
  let body := encodeInteger sig.r ++ encodeInteger sig.s
  0x30 :: UInt8.ofNat body.length :: body

/-- Whether the bytes of an integer are the shortest that show a number without a sign. -/
def IsShortest : Bytes → Prop
  | [] => False
  | [b] => b < 0x80
  | b :: c :: _ => b < 0x80 ∧ (b = 0 → 0x80 ≤ c)

instance : DecidablePred IsShortest
  | [] => inferInstanceAs (Decidable False)
  | [_] => inferInstanceAs (Decidable (_ < _))
  | _ :: _ :: _ => inferInstanceAs (Decidable (_ ∧ _))

def decodeInteger? : Bytes → Option (Nat × Bytes)
  | tag :: len :: rest =>
    let content := rest.take len.toNat
    if tag = 0x02 ∧ len < 0x80 ∧ len.toNat ≤ rest.length ∧ IsShortest content then
      some (Bytes.toNat content, rest.drop len.toNat)
    else none
  | _ => none

/-- Reads a byte string that is the encoding of a signature and nothing else. -/
def decode? : Bytes → Option Signature
  | tag :: len :: body =>
    if tag = 0x30 ∧ len < 0x80 ∧ len.toNat = body.length then
      match decodeInteger? body with
      | none => none
      | some (r, rest) =>
        match decodeInteger? rest with
        | some (s, []) => ofNumbers? r s
        | _ => none
    else none
  | _ => none

end Signature

/-- Whether a low signature fits a digest of 32 bytes under a public key. -/
def verifyDigest (key : PublicKey) (digest : Bytes) (sig : Signature) : Bool :=
  let inverse := Modular.inv order sig.s
  let u := Bytes.toNat digest * inverse % order
  let v := sig.r * inverse % order
  let p := Point.ofAffine base
  let q := Point.ofAffine key
  let sum := p.combination q (p.add q) u v 256
  decide sig.IsLow && sum.z ≠ 0 && sum.toAffine.x % order = sig.r

def verify (key : PublicKey) (algorithm : Algorithm) (msg signature : Bytes) : Bool :=
  match Signature.decode? signature with
  | none => false
  | some sig => verifyDigest key (algorithm.digest msg) sig.normalize

structure Generator where
  key : Bytes
  value : Bytes
  deriving DecidableEq, Repr

namespace Generator

def update (g : Generator) (seed : Bytes) : Generator :=
  let key := hmacSha256 g.key (g.value ++ seed)
  ⟨key, hmacSha256 key g.value⟩

/-- The generator for a secret key and a digest, both of 32 bytes. -/
def seeded (secret digest : Bytes) : Generator :=
  let start : Generator := ⟨List.replicate 32 0, List.replicate 32 1⟩
  (start.update (0 :: secret ++ digest)).update (1 :: secret ++ digest)

/-- The first factor in range among the next `attempts` values. -/
def draw (g : Generator) : (attempts : Nat) → Option Nat
  | 0 => none
  | attempts + 1 =>
    let value := hmacSha256 g.key g.value
    let k := Bytes.toNat value
    if 0 < k ∧ k < order then some k
    else draw ((⟨g.key, value⟩ : Generator).update [0]) attempts

end Generator

/-- How many values are drawn before signing gives up; one in `2 ^ 127` is out of range. -/
def attempts : Nat := 64

/-- The low signature of a digest of 32 bytes. -/
def signDigest (key : SecretKey) (digest : Bytes) : Option Signature := do
  let z := Bytes.toNat digest
  let g := Generator.seeded (Bytes.ofNat 32 key.scalar) (Bytes.ofNat 32 (z % order))
  let k ← g.draw attempts
  let r := ((Point.ofAffine base).multiple k 256).toAffine.x % order
  let s := Modular.inv order k * (z + r * key.scalar) % order
  let sig ← Signature.ofNumbers? r s
  return sig.normalize

def sign (key : SecretKey) (algorithm : Algorithm) (msg : Bytes) : Option Bytes :=
  (signDigest key (algorithm.digest msg)).map Signature.encode

end TokenProvision.Ecdsa
