import TokenProvision.Certificate.Trust

/-!
Keys as hexadecimal text, and the fixed keys with which a device is tried out. Nobody should trust
them.
-/
namespace TokenProvision.Host

open Secp256k1

inductive KeyFault where
  | hex (fault : Text.Hex.Fault)
  | unusable
  deriving DecidableEq, Repr

namespace KeyFault

def message : KeyFault → String
  | hex fault => fault.message
  | unusable => "signature error"

end KeyFault

def readSecretKey (cs : List Char) : Except KeyFault SecretKey :=
  match Text.Hex.decodeFixed 32 cs with
  | .error f => .error (.hex f)
  | .ok bs =>
    match SecretKey.ofBytes? bs.bytes with
    | none => .error .unusable
    | some key => .ok key

/-- Reads the public key of an anchor; the anchor keeps it in the form in which it was given. -/
def readAnchor (keyId : UInt16) (cs : List Char) : Except KeyFault TrustAnchor :=
  match Text.Hex.decodeFixed compressedLength cs with
  | .error f => .error (.hex f)
  | .ok publicKey =>
    match PublicKey.ofBytes? publicKey.bytes with
    | none => .error .unusable
    | some _ => .ok ⟨keyId, publicKey⟩

namespace Fixture

/-- The number of the issuer. -/
def anchorId : UInt16 := 2

/-- The kind of device that the certificates are for. -/
def targetDevice : UInt8 := 3

def anchorKey : SecretKey where
  scalar := 0xc5ee7c6c1e8e8a4a15c24d0ae2d1c74e7e0e3f0ac5b06f8e0e2d0d0d5bd8b3a1
  pos := by decide
  lt_order := by decide

def coinMetaKey : SecretKey where
  scalar := 0x4f3edf983ac636a65a842ce7c78d9aa706d3b113bce9c46f30d7d21715b23b1d
  pos := by decide
  lt_order := by decide

def anchor : TrustAnchor := ⟨anchorId, anchorKey.publicKey.compressed⟩

end Fixture

end TokenProvision.Host
