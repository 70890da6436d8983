import TokenProvision.Proofs.Certificate.CoinMeta
import TokenProvision.Proofs.Certificate.SignedPart
import TokenProvision.Proofs.Secp256k1

/-!
Trusted keys: which devices trust a certified key, and which key they trust.

Revocation and expiry are monotone. A device that has revoked less than another and whose clock, if
it has one, is behind accepts every certificate that the other accepts; and where the two differ,
the other has refused the use. Nothing else in the judgement of a certificate depends on them.

A certificate has room for a key of the size of a compressed one, and a key in compressed form is
trusted as it is certified. A key in compact form has the same size; it is trusted too, as the key
with an even second coordinate, though its certificate is another one than that of this key in
compressed form.
-/
namespace TokenProvision

/-- Whether a device asks nothing of a certificate that another device does not ask as well: they
are of one kind and have the same anchors, the one has revoked no more than the other, and if it
knows the time, the other knows a time that is not earlier. -/
structure Platform.AsksNoMoreThan (q p : Platform) : Prop where
  anchors : q.anchor? = p.anchor?
  device : q.device = p.device
  index : q.minValidityIndex ≤ p.minValidityIndex
  clock : ∀ time, q.clock = some time → ∃ later, p.clock = some later ∧ time ≤ later

namespace Certificate

variable {c : Certificate} {usage : UInt8} {p q : Platform} {raw : Bytes}

/-- What a device permits is permitted by a device that asks no more. -/
theorem Permitted.of_asksNoMoreThan (h : c.Permitted usage p) (hq : q.AsksNoMoreThan p) :
    c.Permitted usage q where
  usage := h.usage
  device := by
    intro d hd
    rw [hq.device]
    exact h.device d hd
  time := by
    intro last time hlast hne htime
    obtain ⟨later, hlater, hle⟩ := hq.clock time htime
    exact UInt32.le_trans hle (h.time last later hlast hne hlater)
  index := by
    intro i hi
    exact UInt32.le_trans hq.index (h.index i hi)

/-- A device matters to a load only through its anchors, and through what it permits of
certificates for which an issuer has vouched. -/
theorem load_congr (hanchors : q.anchor? = p.anchor?)
    (hauthorize : ∀ c, parse raw = .ok c → c.Vouched p →
      c.authorize usage p = c.authorize usage q) :
    load raw usage p = load raw usage q := by
  cases hparse : parse raw with
  | error r => rw [load_of_parse_error hparse, load_of_parse_error hparse]
  | ok c =>
    have hiff : c.Vouched q ↔ c.Vouched p := by rw [Vouched, Vouched, hanchors]
    by_cases hvouched : c.Vouched p
    · rw [load_of_vouched hparse hvouched, load_of_vouched hparse (hiff.mpr hvouched),
        hauthorize c hparse hvouched]
    · rw [load_eq_error_of_not_vouched hparse hvouched,
        load_eq_error_of_not_vouched hparse (mt hiff.mp hvouched), hanchors]

/-- A device that asks no more than another one accepts every certificate that the other accepts,
with the same key; and the two never differ but where the other has refused the use. -/
theorem revocation_and_expiry_are_monotone (hq : q.AsksNoMoreThan p) (raw : Bytes)
    (usage : UInt8) :
    (∀ key, load raw usage p = .ok key → load raw usage q = .ok key) ∧
    (load raw usage p = load raw usage q ∨
      ∃ r, load raw usage p = .error r ∧ r.refusal = .notAuthorized) := by
  have hdiffer : load raw usage p = load raw usage q ∨
      ∃ r, load raw usage p = .error r ∧ r.refusal = .notAuthorized := by
    by_cases hforbidden : ∃ c, parse raw = .ok c ∧ c.Vouched p ∧ ¬ c.Permitted usage p
    · obtain ⟨c, hparse, hvouched, h⟩ := hforbidden
      exact .inr (exists_load_of_refused (.forbidden hparse hvouched h))
    · refine .inl (load_congr hq.anchors fun c hparse hvouched => ?_)
      have hp : c.Permitted usage p := by
        by_contra h
        exact hforbidden ⟨c, hparse, hvouched, h⟩
      rw [authorize_eq_ok_iff.mpr hp, authorize_eq_ok_iff.mpr (hp.of_asksNoMoreThan hq)]
  refine ⟨?_, hdiffer⟩
  intro key hkey
  rcases hdiffer with hsame | ⟨r, hr, -⟩
  · rw [← hsame, hkey]
  · rw [hkey] at hr
    cases hr

/-- A device with the anchor of the issuer of `coinMetaCertificate`, which has revoked the indices
below a given one. -/
def revokingDevice (clock : Option UInt32) (minValidityIndex : UInt32) : Platform :=
  .ofAnchors [Host.Fixture.anchor] Host.Fixture.targetDevice clock minValidityIndex

/-- The certificate for coin metadata is revoked on one device and leads to a key on another one,
which has revoked less and does not know the time. -/
theorem revocation_is_monotone_coinMeta :
    (revokingDevice none 2).AsksNoMoreThan (revokingDevice (some 1700000000) 3) ∧
      (∃ key, load coinMetaCertificate 0x08 (revokingDevice none 2) = .ok key) ∧
      ∃ r, load coinMetaCertificate 0x08 (revokingDevice (some 1700000000) 3) = .error r ∧
        r.refusal = .notAuthorized := by
  have hasks : (revokingDevice none 2).AsksNoMoreThan (revokingDevice (some 1700000000) 3) :=
    ⟨rfl, rfl, by decide, by rintro time ⟨⟩⟩
  have hloaded : (load coinMetaCertificate 0x08 (revokingDevice none 2)).isOk = true := by
    decide +kernel
  have hrevoked : (load coinMetaCertificate 0x08 (revokingDevice (some 1700000000) 3)).isOk =
      false := by
    decide +kernel
  obtain ⟨-, hsame | hrefused⟩ :=
    revocation_and_expiry_are_monotone hasks coinMetaCertificate 0x08
  · rw [hsame, hloaded] at hrevoked
    cases hrevoked
  · refine ⟨hasks, ?_, hrefused⟩
    cases hload : load coinMetaCertificate 0x08 (revokingDevice none 2) with
    | error r =>
      rw [hload] at hloaded
      cases hloaded
    | ok key => exact ⟨key, rfl⟩

open Secp256k1 (CompressedKey PublicKey base)

variable {c' : Certificate} {key key' : TrustedKey}

/-- The trusted key in compressed form, by the string under which it is certified. -/
theorem compressed_of_trustedKey (h : c.trustedKey = .ok key) :
    key.publicKey.compressed.bytes =
      if c.publicKey.IsCompact then 0x02 :: c.publicKey.bytes.tail else c.publicKey.bytes := by
  obtain ⟨publicKey, hread, rfl⟩ := trustedKey_eq_ok_iff.mp h
  exact PublicKey.compressed_of_ofBytes? hread

/-- A key is trusted as it is certified exactly if it is not certified in compact form. -/
theorem compressed_eq_iff_not_isCompact (h : c.trustedKey = .ok key) :
    key.publicKey.compressed = c.publicKey ↔ ¬ c.publicKey.IsCompact := by
  have hbytes := compressed_of_trustedKey h
  constructor
  · intro heq hcompact
    rw [heq, if_pos hcompact] at hbytes
    rw [CompressedKey.IsCompact, hbytes] at hcompact
    cases hcompact
  · intro hcompact
    apply FixedBytes.ext
    rw [hbytes, if_neg hcompact]

/-- Strings that lead to the same public key are equal, unless one of them is in compact form and
the other one is the compressed form of the key. -/
theorem certified_eq_or_isCompact (h : c.trustedKey = .ok key) (h' : c'.trustedKey = .ok key')
    (hsame : key.publicKey = key'.publicKey) :
    c.publicKey = c'.publicKey ∨
      (c.publicKey.IsCompact ∧ c'.publicKey.bytes = 0x02 :: c.publicKey.bytes.tail) ∨
      (c'.publicKey.IsCompact ∧ c.publicKey.bytes = 0x02 :: c'.publicKey.bytes.tail) := by
  have hbytes := compressed_of_trustedKey h
  have hbytes' := compressed_of_trustedKey h'
  rw [← hsame] at hbytes'
  rw [hbytes] at hbytes'
  by_cases hcompact : c.publicKey.IsCompact
  · by_cases hcompact' : c'.publicKey.IsCompact
    · -- both begin with the tag of the compact form and go on with the same coordinate
      rw [if_pos hcompact, if_pos hcompact'] at hbytes'
      left
      apply FixedBytes.ext
      rw [← List.cons_head?_tail hcompact, ← List.cons_head?_tail hcompact',
        (List.cons.inj hbytes').2]
    · rw [if_pos hcompact, if_neg hcompact'] at hbytes'
      exact .inr (.inl ⟨hcompact, hbytes'.symm⟩)
  · by_cases hcompact' : c'.publicKey.IsCompact
    · rw [if_neg hcompact, if_pos hcompact'] at hbytes'
      exact .inr (.inr ⟨hcompact', hbytes'⟩)
    · rw [if_neg hcompact, if_neg hcompact'] at hbytes'
      exact .inl (FixedBytes.ext hbytes')

/-- A trusted key, written in compressed form, is the certified string exactly if that is not in
compact form; otherwise it is the compressed form with the same first coordinate and an even second
one. This holds of every certificate that is loaded. So certificates with different strings never
lead to the same public key, unless one string is in compact form and the other is the compressed
form of the key. -/
theorem trusted_key_is_certified_unless_compact (raw : Bytes) :
    (∀ c key, parse raw = .ok c → c.trustedKey = .ok key →
      (key.publicKey.compressed = c.publicKey ↔ ¬ c.publicKey.IsCompact) ∧
      (c.publicKey.IsCompact →
        key.publicKey.compressed.bytes = 0x02 :: c.publicKey.bytes.tail)) ∧
    (∀ usage p key, load raw usage p = .ok key →
      ∃ c, parse raw = .ok c ∧ c.trustedKey = .ok key) ∧
    ∀ raw' c c' key key', parse raw = .ok c → parse raw' = .ok c' →
      c.trustedKey = .ok key → c'.trustedKey = .ok key' →
      c.publicKey ≠ c'.publicKey → key.publicKey = key'.publicKey →
        (c.publicKey.IsCompact ∧ c'.publicKey.bytes = 0x02 :: c.publicKey.bytes.tail) ∨
        (c'.publicKey.IsCompact ∧ c.publicKey.bytes = 0x02 :: c'.publicKey.bytes.tail) := by
  refine ⟨?_, ?_, ?_⟩
  · intro c key _ hkey
    refine ⟨compressed_eq_iff_not_isCompact hkey, fun hcompact => ?_⟩
    rw [compressed_of_trustedKey hkey, if_pos hcompact]
  · intro usage p key hload
    obtain ⟨c, _, hparse, -, -, -, hkey⟩ := load_eq_ok_iff.mp hload
    exact ⟨c, hparse, hkey⟩
  · intro raw' c c' key key' _ _ hkey hkey' hne hsame
    exact (certified_eq_or_isCompact hkey hkey' hsame).resolve_left hne

/-- The base point as a key with a given tag. -/
def baseKey (tag : UInt8) : CompressedKey := ⟨tag :: Bytes.ofNat 32 base.x, rfl⟩

def compressedBaseSignature : Ecdsa.Signature where
  r := 0x5e716c882161bcd961720b5ed3c24b3b0d177c6790742c8cecd465692e97fcc7
  s := 0x6b6b63e8e87333ddfc3be687d5a42e2cce8458dee19521ae8203597ab0027669
  r_pos := by decide
  r_lt := by decide
  s_pos := by decide
  s_lt := by decide

def compactBaseSignature : Ecdsa.Signature where
  r := 0xef77e4d9ce8e72fc3541d1e27faf923cec87e9eba843caeafaadc72e103fe66e
  s := 0xb1e04413a69d7e2af4fd02503965ec3424a52ffbaee374408aa52ab399890d0f
  r_pos := by decide
  r_lt := by decide
  s_pos := by decide
  s_lt := by decide

def compressedBaseCertificate : Bytes :=
  wire (signedEntries (baseKey 0x02) compressedBaseSignature.encode)

def compactBaseCertificate : Bytes :=
  wire (signedEntries (baseKey 0x05) compactBaseSignature.encode)

theorem parse_baseCertificate (tag : UInt8) (sig : Ecdsa.Signature) :
    parse (wire (signedEntries (baseKey tag) sig.encode)) =
      .ok (coinMeta (baseKey tag) sig.encode) :=
  parse_signedEntries (baseKey tag) (Nat.le_trans sig.length_encode_le (by decide))

/-- The base point, certified in compressed form, is trusted in that form. -/
theorem trusted_key_is_certified_base :
    ∃ c key, parse compressedBaseCertificate = .ok c ∧ c.trustedKey = .ok key ∧
      ¬ c.publicKey.IsCompact ∧ key.publicKey.compressed = c.publicKey := by
  have hparse := parse_baseCertificate 0x02 compressedBaseSignature
  have hkey : (coinMeta (baseKey 0x02) compressedBaseSignature.encode).trustedKey =
      .ok (coinMetaTrust base) := by
    decide +kernel
  have hcompressed : ¬ (baseKey 0x02).IsCompact := by decide
  obtain ⟨hcertified, -, -⟩ := trusted_key_is_certified_unless_compact compressedBaseCertificate
  exact ⟨_, _, hparse, hkey, hcompressed, (hcertified _ _ hparse hkey).1.mpr hcompressed⟩

/-- The base point, certified in compact form, is trusted in another form than it is certified, and
the certificate for it in compressed form leads to the same key. Both are loaded. -/
theorem compact_key_is_trusted_as_compressed :
    ∃ c c', parse compactBaseCertificate = .ok c ∧ parse compressedBaseCertificate = .ok c' ∧
      c.trustedKey = .ok (coinMetaTrust base) ∧ c'.trustedKey = .ok (coinMetaTrust base) ∧
      load compactBaseCertificate 0x08 (revokingDevice none 0) = .ok (coinMetaTrust base) ∧
      load compressedBaseCertificate 0x08 (revokingDevice none 0) = .ok (coinMetaTrust base) ∧
      (coinMetaTrust base).publicKey.compressed ≠ c.publicKey ∧ c.publicKey ≠ c'.publicKey := by
  refine ⟨_, _, parse_baseCertificate 0x05 compactBaseSignature,
    parse_baseCertificate 0x02 compressedBaseSignature, ?_, ?_, ?_, ?_, ?_, ?_⟩
  · decide +kernel
  · decide +kernel
  · decide +kernel
  · decide +kernel
  · decide +kernel
  · decide +kernel

end Certificate

end TokenProvision
