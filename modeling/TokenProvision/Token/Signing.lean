import TokenProvision.Ecdsa
import TokenProvision.Token.Descriptor

/-!
The payload that provides a token, and the answer to it: a descriptor with the signature over its
wire form, and the slot in which the device put it.
-/
namespace TokenProvision.Token

structure Payload where
  descriptor : Descriptor
  signature : Bytes
  deriving DecidableEq, Repr

namespace Payload

def encodedLength (p : Payload) : Nat := p.descriptor.encodedLength + p.signature.length

/-- The wire form: the signature takes what the descriptor leaves. -/
def encode (p : Payload) : Bytes := p.descriptor.encode ++ p.signature

@[simp] theorem length_encode (p : Payload) : p.encode.length = p.encodedLength := by
  simp [encode, encodedLength]

def write (p : Payload) (room : Nat) : Except CodecError Bytes :=
  match p.descriptor.write room with
  | .error e => .error e
  | .ok head => writeWithin room (head.length + p.signature.length) (head ++ p.signature)

/-- Reads a payload; everything behind the descriptor is signature. -/
def decode (bs : Bytes) : Except CodecError (Payload × Nat) :=
  match Descriptor.decode bs with
  | .error e => .error e
  | .ok (d, n) => .ok (⟨d, bs.drop n⟩, bs.length)

end Payload

structure Slot where
  index : UInt8
  deriving DecidableEq, Repr

namespace Slot

def encodedLength (_ : Slot) : Nat := 1

def encode (s : Slot) : Bytes := [s.index]

@[simp] theorem length_encode (s : Slot) : s.encode.length = s.encodedLength := rfl

def write (s : Slot) (room : Nat) : Except CodecError Bytes :=
  writeWithin room s.encodedLength s.encode

def decode : Bytes → Except CodecError (Slot × Nat)
  | [] => .error .invalidLength
  | i :: _ => .ok (⟨i⟩, 1)

end Slot

end TokenProvision.Token

namespace TokenProvision.Token.Descriptor

def sign (d : Descriptor) (key : Secp256k1.SecretKey) (algorithm : Ecdsa.Algorithm) :
    Option Payload :=
  (Ecdsa.sign key algorithm d.encode).map fun signature => ⟨d, signature⟩

end TokenProvision.Token.Descriptor
