import TokenProvision.Certificate.Tag
import TokenProvision.Refusal
import TokenProvision.Text
import TokenProvision.Tlv

/-!
Certificates: how one is read, why one is rejected, and drafts of them.

A rejection says more than the refusal that it leads to: some carry a reason that is worth a line in
the log. A draft has entries in any order, with any tags and values, so that it can be wrong in any
way before it is signed.
-/
namespace TokenProvision

namespace Certificate

inductive Rejection where
  | malformed
  | missing (tag : Tag)
  | unsupportedVersion
  | unknownIssuer (keyId : UInt16)
  | badSignature
  | wrongUsage (certified : Usage) (expected : UInt8)
  | wrongDevice (certified : UInt8)
  | expired (since : UInt32)
  | revoked (index : UInt32)
  | badKey
  deriving DecidableEq, Repr

namespace Rejection

def refusal : Rejection → Refusal
  | malformed | missing _ | badKey => .malformedCertificate
  | unsupportedVersion => .unsupportedVersion
  | unknownIssuer _ | badSignature => .invalidSignature
  | wrongUsage _ _ | wrongDevice _ | expired _ | revoked _ => .notAuthorized

/-- The reason of a rejection, where it is worth a line in the log. -/
def reason? : Rejection → Option String
  | malformed | unsupportedVersion | badSignature | badKey => none
  | missing tag => some ("certificate missing tag: " ++ tag.name)
  | unknownIssuer keyId => some ("no trust anchor for issuer 0x" ++ Text.Hex.word keyId)
  | wrongUsage certified expected =>
    some ("certificate usage " ++ certified.name ++ " does not match expected 0x" ++
      Text.Hex.encode [expected])
  | wrongDevice certified =>
    some ("certificate target device 0x" ++ Text.Hex.encode [certified] ++ " mismatch")
  | expired since => some ("certificate expired at " ++ toString since.toNat)
  | revoked index =>
    some ("certificate validity index " ++ toString index.toNat ++ " revoked")

end Rejection

end Certificate

structure Certificate where
  validity : Option Bytes
  validityIndex : Option UInt32
  challenge : Option Bytes
  /-- The number of the issuer. -/
  signerKeyId : UInt16
  /-- The algorithm of the signature of the issuer. -/
  signerAlgorithm : Ecdsa.Algorithm
  /-- The last second in which the certificate is good; zero stands for no end. -/
  timeValidity : Option UInt32
  trustedName : Label Certificate.maxName
  publicKeyId : Option UInt16
  usage : Certificate.Usage
  curve : Certificate.Curve
  publicKey : Secp256k1.CompressedKey
  /-- The algorithm of the signatures made with the certified key. -/
  publicKeyAlgorithm : Ecdsa.Algorithm
  targetDevice : Option UInt8
  depth : Option UInt8
  /-- The bytes that the issuer signed. -/
  signed : Bytes
  signature : Bytes
  deriving DecidableEq, Repr

namespace Certificate

structure Field where
  tag : Tag
  value : Bytes
  offset : Nat
  deriving DecidableEq, Repr

def value? (fields : List Field) (tag : Tag) : Option Bytes :=
  (fields.find? fun f => f.tag = tag).map Field.value

/-- What has been read of a certificate: the tags as a set of bits, and the fields in order. -/
structure Progress where
  seen : UInt32
  fields : List Field
  deriving DecidableEq, Repr

namespace Progress

def start : Progress := ⟨0, []⟩

def has (p : Progress) (tag : Tag) : Bool := p.seen &&& tag.mask ≠ 0

def push (p : Progress) (f : Field) : Progress := ⟨p.seen ||| f.tag.mask, p.fields ++ [f]⟩

end Progress

def check (tag : Tag) (value : Bytes) : Except Rejection Unit :=
  if tag.admits value then .ok ()
  else if tag = .version ∧ value.length = 1 then .error .unsupportedVersion
  else .error .malformed

/-- Checks the entry that comes next, and appends it. -/
def accept (p : Progress) (e : Tlv.Entry) : Except Rejection Progress :=
  match Tag.ofCode? e.tag with
  | none => .error .malformed
  | some tag =>
    if p.has .signature || p.has tag then .error .malformed
    else if ¬ tag.FitsAt p.fields.length then .error .malformed
    else
      match check tag e.value with
      | .error r => .error r
      | .ok () => .ok (p.push ⟨tag, e.value, e.offset⟩)

def collect (p : Progress) :
    List (Except CodecError Tlv.Entry) → Except Rejection Progress
  | [] => .ok p
  | .error _ :: _ => .error .malformed
  | .ok e :: rest =>
    match accept p e with
    | .error r => .error r
    | .ok p => collect p rest

/-- The first mandatory tag whose bit is not set. -/
def missing? (p : Progress) : Option Tag :=
  Tag.mandatory.find? fun tag => !p.has tag

/-- The certificate that the fields of `raw` make up. -/
def ofFields? (raw : Bytes) (fields : List Field) : Option Certificate := do
  let value := value? fields
  let signerKeyId ← (value .signerKeyId).bind Bytes.toUInt16?
  let signerAlgorithm ←
    ((value .signerAlgorithm).bind Bytes.toUInt8?).bind Ecdsa.Algorithm.ofCode?
  let trustedName ← (value .trustedName).bind (Label.ofBytes? maxName)
  let usage ← ((value .publicKeyUsage).bind Bytes.toUInt8?).bind Usage.ofCode?
  let curve ← ((value .publicKeyCurve).bind Bytes.toUInt8?).bind Curve.ofCode?
  let publicKey ← (value .publicKey).bind (FixedBytes.ofBytes? _)
  let publicKeyAlgorithm ←
    ((value .publicKeyAlgorithm).bind Bytes.toUInt8?).bind Ecdsa.Algorithm.ofCode?
  let final ← fields.find? fun f => f.tag = .signature
  return {
    validity := value .validity
    validityIndex := (value .validityIndex).bind Bytes.toUInt32?
    challenge := value .challenge
    signerKeyId
    signerAlgorithm
    timeValidity := (value .timeValidity).bind Bytes.toUInt32?
    trustedName
    publicKeyId := (value .publicKeyId).bind Bytes.toUInt16?
    usage
    curve
    publicKey
    publicKeyAlgorithm
    targetDevice := (value .targetDevice).bind Bytes.toUInt8?
    depth := (value .depth).bind Bytes.toUInt8?
    signed := raw.take final.offset
    signature := final.value }

def parse (raw : Bytes) : Except Rejection Certificate :=
  match collect .start (Tlv.scan raw) with
  | .error r => .error r
  | .ok p =>
    match missing? p with
    | some tag => .error (.missing tag)
    | none =>
      match ofFields? raw p.fields with
      | none => .error .malformed
      | some c => .ok c

structure Draft where
  entries : List (UInt8 × Bytes)
  deriving DecidableEq, Repr

namespace Draft

def empty : Draft := ⟨[]⟩

def push (d : Draft) (tag : UInt8) (value : Bytes) : Draft := ⟨d.entries ++ [(tag, value)]⟩

def replaceFirst (tag : UInt8) (value : Bytes) : List (UInt8 × Bytes) → List (UInt8 × Bytes)
  | [] => []
  | e :: rest =>
    if e.1 = tag then (tag, value) :: rest else e :: replaceFirst tag value rest

/-- Gives the first entry with a tag a new value, or appends one if there is none. -/
def set (d : Draft) (tag : Tag) (value : Bytes) : Draft :=
  if d.entries.any fun e => e.1 = tag.code then ⟨replaceFirst tag.code value d.entries⟩
  else d.push tag.code value

def remove (d : Draft) (tag : Tag) : Draft := ⟨d.entries.filter fun e => e.1 ≠ tag.code⟩

def IsWritable (d : Draft) : Prop := ∀ e ∈ d.entries, e.2.length ≤ Tlv.maxValueLength

instance (d : Draft) : Decidable d.IsWritable := inferInstanceAs (Decidable (∀ _ ∈ _, _))

/-- The wire form of the entries, unless a value is too long. -/
def encode (d : Draft) : Option Bytes :=
  if d.IsWritable then some (d.entries.flatMap fun e => Tlv.encode e.1 e.2) else none

/-- The algorithm that the first entry for it names, and SHA-256 if none names one. -/
def signerAlgorithm (d : Draft) : Ecdsa.Algorithm :=
  let entry := d.entries.find? fun e => e.1 = Tag.signerAlgorithm.code
  ((entry.bind fun e => e.2.head?).bind Ecdsa.Algorithm.ofCode?).getD .sha256

/-- The entries, followed by an entry for the signature over them. -/
def sign (d : Draft) (issuer : Secp256k1.SecretKey) : Option Bytes := do
  let signed ← d.encode
  let signature ← Ecdsa.sign issuer d.signerAlgorithm signed
  return signed ++ Tlv.encode Tag.signature.code signature

end Draft

end Certificate

end TokenProvision
