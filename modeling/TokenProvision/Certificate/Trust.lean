import TokenProvision.Certificate.Basic

/-!
From a certificate to a trusted key: the certificate is read, its issuer is looked up among the
anchors of the device, the signature is verified, the device checks that the certificate is meant
for it, for now and for the expected usage, and the certified key is taken out. The first step that
fails decides. So a certificate leads to a trusted key exactly if every step succeeds, and then the
key is good for the expected usage.
-/
namespace TokenProvision

/-- The key of an issuer, under the number by which certificates name the issuer. -/
structure TrustAnchor where
  keyId : UInt16
  publicKey : Secp256k1.CompressedKey
  deriving DecidableEq, Repr

/-- The device: its anchors, its kind, its clock if it has one, and the lowest validity index of a
certificate that has not been revoked. -/
structure Platform where
  anchor? : UInt16 → Option TrustAnchor
  device : UInt8
  clock : Option UInt32
  minValidityIndex : UInt32

namespace Platform

/-- A device with a list of anchors; of two with the same number the first counts. -/
def ofAnchors (anchors : List TrustAnchor) (device : UInt8) (clock : Option UInt32)
    (minValidityIndex : UInt32) : Platform where
  anchor? id := anchors.find? fun a => a.keyId = id
  device := device
  clock := clock
  minValidityIndex := minValidityIndex

end Platform

structure TrustedKey where
  name : Label Certificate.maxName
  issuer : UInt16
  keyId : Option UInt16
  usage : Certificate.Usage
  algorithm : Ecdsa.Algorithm
  publicKey : Secp256k1.PublicKey
  deriving DecidableEq, Repr

namespace TrustedKey

def verify (key : TrustedKey) (msg signature : Bytes) : Bool :=
  Ecdsa.verify key.publicKey key.algorithm msg signature

end TrustedKey

theorem toOption_eq_some_iff {ε α : Type} {x : Except ε α} {a : α} :
    x.toOption = some a ↔ x = .ok a := by
  cases x with
  | error r => simp [Except.toOption]
  | ok b => simp [Except.toOption]

theorem exists_ok_of_isOk {ε α : Type} {x : Except ε α} (h : x.isOk = true) :
    ∃ a, x = .ok a := by
  cases x with
  | error r => cases h
  | ok a => exact ⟨a, rfl⟩

namespace Certificate

def verify (c : Certificate) (anchor : TrustAnchor) : Except Rejection Unit :=
  match Secp256k1.PublicKey.ofBytes? anchor.publicKey.bytes with
  | none => .error .badSignature
  | some key =>
    if Ecdsa.verify key c.signerAlgorithm c.signed c.signature then .ok ()
    else .error .badSignature

/-- Checks the usage, the device, the time and the validity index, in this order. -/
def authorize (c : Certificate) (usage : UInt8) (p : Platform) : Except Rejection Unit := do
  if c.usage.code ≠ usage then
    throw (.wrongUsage c.usage usage)
  if let some d := c.targetDevice then
    if d ≠ p.device then
      throw (.wrongDevice d)
  if let (some last, some now) := (c.timeValidity, p.clock) then
    if last ≠ 0 ∧ last < now then
      throw (.expired last)
  if let some i := c.validityIndex then
    if i < p.minValidityIndex then
      throw (.revoked i)

def trustedKey (c : Certificate) : Except Rejection TrustedKey :=
  match Secp256k1.PublicKey.ofBytes? c.publicKey.bytes with
  | none => .error .badKey
  | some key =>
    .ok ⟨c.trustedName, c.signerKeyId, c.publicKeyId, c.usage, c.publicKeyAlgorithm, key⟩

/-- Takes the trusted key from the wire form of a certificate. -/
def load (raw : Bytes) (usage : UInt8) (p : Platform) : Except Rejection TrustedKey := do
  let c ← parse raw
  let some anchor := p.anchor? c.signerKeyId
    | throw (.unknownIssuer c.signerKeyId)
  c.verify anchor
  c.authorize usage p
  c.trustedKey

variable {c : Certificate} {key : TrustedKey} {usage : UInt8} {p : Platform}

theorem verify_eq_ok_iff {anchor : TrustAnchor} :
    c.verify anchor = .ok () ↔ ∃ issuer, Secp256k1.PublicKey.ofBytes? anchor.publicKey.bytes =
      some issuer ∧ Ecdsa.verify issuer c.signerAlgorithm c.signed c.signature = true := by
  unfold verify
  split
  · rename_i hnone
    simp [hnone]
  · rename_i issuer hsome
    split
    · rename_i hverify
      simp [hsome, hverify]
    · rename_i hverify
      simp [hsome, hverify]

/-- The key that is trusted is the certified one, with all that the certificate says of it. -/
theorem trustedKey_eq_ok_iff :
    c.trustedKey = .ok key ↔ ∃ publicKey, Secp256k1.PublicKey.ofBytes? c.publicKey.bytes =
      some publicKey ∧ key = ⟨c.trustedName, c.signerKeyId, c.publicKeyId, c.usage,
        c.publicKeyAlgorithm, publicKey⟩ := by
  unfold trustedKey
  split
  · rename_i hnone
    simp [hnone]
  · rename_i publicKey hsome
    simp [hsome, eq_comm]

/-- A certificate that may be used has the expected usage. -/
theorem usage_of_authorize (h : c.authorize usage p = .ok ()) : c.usage.code = usage := by
  by_cases heq : c.usage.code = usage
  · exact heq
  · unfold authorize at h
    rw [if_pos heq] at h
    cases h

/-- What has to hold of a certificate for its key to be trusted: it can be read, its signature is
good under the anchor that the device has for its issuer, it may be used as expected on the device,
and it certifies a key. -/
structure Certified (raw : Bytes) (usage : UInt8) (p : Platform) (c : Certificate)
    (publicKey : Secp256k1.PublicKey) : Prop where
  parsed : parse raw = .ok c
  verified : ∃ anchor issuer, p.anchor? c.signerKeyId = some anchor ∧
    Secp256k1.PublicKey.ofBytes? anchor.publicKey.bytes = some issuer ∧
    Ecdsa.verify issuer c.signerAlgorithm c.signed c.signature = true
  authorized : c.authorize usage p = .ok ()
  certified : Secp256k1.PublicKey.ofBytes? c.publicKey.bytes = some publicKey

/-- Loading succeeds exactly if reading, finding the issuer, verifying, authorizing and taking the
key out all do. -/
theorem load_eq_ok_iff {raw : Bytes} :
    load raw usage p = .ok key ↔ ∃ c anchor, parse raw = .ok c ∧
      p.anchor? c.signerKeyId = some anchor ∧ c.verify anchor = .ok () ∧
      c.authorize usage p = .ok () ∧ c.trustedKey = .ok key := by
  unfold load
  cases hparse : parse raw with
  | error r => simp [Bind.bind, Except.bind]
  | ok c =>
    cases hanchor : p.anchor? c.signerKeyId with
    | none => simp [Bind.bind, Except.bind, hanchor, throw, throwThe, MonadExceptOf.throw]
    | some anchor =>
      cases hverify : c.verify anchor with
      | error r => simp [Bind.bind, Except.bind, hanchor, hverify]
      | ok u =>
        cases hauthorize : c.authorize usage p with
        | error r => simp [Bind.bind, Except.bind, hanchor, hverify, hauthorize]
        | ok u => simp [Bind.bind, Except.bind, hanchor, hverify, hauthorize]

/-- A loaded key is the certified one, with all that the certificate says of it. -/
theorem exists_certified_of_load {raw : Bytes} (h : load raw usage p = .ok key) :
    ∃ c, Certified raw usage p c key.publicKey ∧ key = ⟨c.trustedName, c.signerKeyId,
      c.publicKeyId, c.usage, c.publicKeyAlgorithm, key.publicKey⟩ := by
  obtain ⟨c, anchor, hparse, hanchor, hverify, hauthorize, hkey⟩ := load_eq_ok_iff.mp h
  obtain ⟨issuer, hissuer, hgood⟩ := verify_eq_ok_iff.mp hverify
  obtain ⟨publicKey, hpublic, rfl⟩ := trustedKey_eq_ok_iff.mp hkey
  exact ⟨c, ⟨hparse, ⟨anchor, issuer, hanchor, hissuer, hgood⟩, hauthorize, hpublic⟩, rfl⟩

theorem usage_of_load {raw : Bytes} (h : load raw usage p = .ok key) : key.usage.code = usage := by
  obtain ⟨c, hc, hkey⟩ := exists_certified_of_load h
  rw [hkey]
  exact usage_of_authorize hc.authorized

end Certificate

end TokenProvision
