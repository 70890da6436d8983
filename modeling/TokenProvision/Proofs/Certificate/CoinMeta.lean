import TokenProvision.Host.Fixture
import TokenProvision.Proofs.Certificate.Authorization
import TokenProvision.Proofs.Ecdsa
import TokenProvision.Proofs.Tlv.Sequence

/-!
Certificates for coin metadata, from the issuer to the device. What the issuer writes and signs is
read back as the certificate that was meant, and leads to the certified key on every device that has
the anchor of the issuer and that the certificate is for.
-/
namespace TokenProvision.Certificate

open Host (Fixture.coinMetaDraft Fixture.coinMetaName)
open Secp256k1 (CompressedKey SecretKey PublicKey)
open Ecdsa (Attests)

variable {issuer : SecretKey} {key : CompressedKey} {signature : Bytes} {p : Platform}

theorem encode_draft {es : List (Tag × Bytes)} (h : Tlv.Fits (coded es)) :
    (Draft.mk (coded es)).encode = some (wire es) := by
  rw [Tlv.encode_draft_eq_some_iff, Tlv.writeAll_eq_ok_iff]
  exact ⟨h, rfl⟩

/-- A draft that is signed ends with the signature over the rest. -/
theorem sign_draft {d : Draft} {signed : Bytes} (hencode : d.encode = some signed)
    (hsign : Ecdsa.sign issuer d.signerAlgorithm signed = some signature) :
    d.sign issuer = some (signed ++ Tlv.encode Tag.signature.code signature) :=
  Option.bind_eq_some_iff.mpr ⟨signed, hencode,
    Option.bind_eq_some_iff.mpr ⟨signature, hsign, rfl⟩⟩

def coinMetaEntries (key : CompressedKey) : List (Tag × Bytes) :=
  [(.structureType, [0x01]), (.version, [0x02]), (.validity, [0x01, 0x02, 0x00, 0x00]),
    (.validityIndex, Bytes.ofUInt32 2), (.challenge, [0x00]), (.signerKeyId, Bytes.ofUInt16 2),
    (.signerAlgorithm, [Ecdsa.Algorithm.sha256.code]), (.timeValidity, Bytes.ofUInt32 0),
    (.trustedName, Fixture.coinMetaName), (.publicKeyId, Bytes.ofUInt16 6),
    (.publicKeyUsage, [Usage.coinMeta.code]), (.publicKeyCurve, [Curve.secp256k1.code]),
    (.publicKey, key.bytes), (.publicKeyAlgorithm, [Ecdsa.Algorithm.sha256.code]),
    (.targetDevice, [0x03])]

theorem coinMetaDraft_eq (key : SecretKey) :
    Fixture.coinMetaDraft key = ⟨coded (coinMetaEntries key.publicKey.compressed)⟩ := rfl

def coinMeta (key : CompressedKey) (signature : Bytes) : Certificate where
  validity := some [0x01, 0x02, 0x00, 0x00]
  validityIndex := some 2
  challenge := some [0x00]
  signerKeyId := 2
  signerAlgorithm := .sha256
  timeValidity := some 0
  trustedName := ⟨Fixture.coinMetaName, by decide, by decide, by decide⟩
  publicKeyId := some 6
  usage := .coinMeta
  curve := .secp256k1
  publicKey := key
  publicKeyAlgorithm := .sha256
  targetDevice := some 3
  depth := none
  signed := wire (coinMetaEntries key)
  signature := signature

def signedEntries (key : CompressedKey) (signature : Bytes) : List (Tag × Bytes) :=
  coinMetaEntries key ++ [(.signature, signature)]

theorem map_fst_signedEntries (key : CompressedKey) (signature : Bytes) :
    (signedEntries key signature).map Prod.fst =
      [.structureType, .version, .validity, .validityIndex, .challenge, .signerKeyId,
        .signerAlgorithm, .timeValidity, .trustedName, .publicKeyId, .publicKeyUsage,
        .publicKeyCurve, .publicKey, .publicKeyAlgorithm, .targetDevice, .signature] := rfl

/-- The values of the entries are legal, and short but for the signature. -/
theorem legal_of_mem_coinMetaEntries {e : Tag × Bytes} (h : e ∈ coinMetaEntries key) :
    Legal e.1 e.2 ∧ e.2.length ≤ 33 := by
  simp only [coinMetaEntries, List.mem_cons, List.not_mem_nil, or_false] at h
  rcases h with rfl | rfl | rfl | rfl | rfl | rfl | rfl | rfl | rfl | rfl | rfl | rfl | rfl | rfl |
    rfl
  all_goals first
    | exact ⟨admits_iff.mp (by decide), by decide⟩
    | exact ⟨key.length_eq, Nat.le_of_eq key.length_eq⟩

theorem fits_coinMetaEntries (key : CompressedKey) : Tlv.Fits (coded (coinMetaEntries key)) := by
  rw [Tlv.Fits, coded, List.forall_mem_map]
  intro e he
  exact Nat.le_trans (legal_of_mem_coinMetaEntries he).2 (by decide)

theorem wellFormed_signedEntries (key : CompressedKey) (h : signature.length ≤ 0xffff) :
    WellFormed (signedEntries key signature) where
  distinct := by
    rw [map_fst_signedEntries]
    decide
  first := rfl
  second := rfl
  last := rfl
  mandatory := by
    rw [map_fst_signedEntries]
    decide
  legal := by
    intro e he
    rcases List.mem_append.mp he with he | he
    · exact (legal_of_mem_coinMetaEntries he).1
    · rw [List.mem_singleton.mp he]
      trivial
  fits := by
    intro e he
    rcases List.mem_append.mp he with he | he
    · exact Nat.le_trans (legal_of_mem_coinMetaEntries he).2 (by decide)
    · rw [List.mem_singleton.mp he]
      exact h

theorem readFrom_coinMeta (key : CompressedKey) (signature : Bytes) :
    ReadFrom (coinMeta key signature) (signedEntries key signature) where
  shown_iff := by
    intro t v
    rw [eq_comm]
    cases t <;> simp [shown, coinMeta, signedEntries, coinMetaEntries]
  signed_eq := by
    rw [signedEntries, List.dropLast_concat]
    rfl

theorem parse_signedEntries (key : CompressedKey) (h : signature.length ≤ 0xffff) :
    parse (wire (signedEntries key signature)) = .ok (coinMeta key signature) :=
  parse_eq_ok_iff.mpr ⟨signedEntries key signature, wellFormed_signedEntries key h, rfl,
    readFrom_coinMeta key signature⟩

theorem length_wire_coinMetaEntries (key : CompressedKey) :
    (wire (coinMetaEntries key)).length = 96 := by
  simp [wire, coded, coinMetaEntries, Tlv.encodedLength, key.length_eq, Secp256k1.compressedLength,
    Fixture.coinMetaName]

/-- The key that a certificate for coin metadata leads to. -/
def coinMetaTrust (publicKey : PublicKey) : TrustedKey where
  name := ⟨Fixture.coinMetaName, by decide, by decide, by decide⟩
  issuer := 2
  keyId := some 6
  usage := .coinMeta
  algorithm := .sha256
  publicKey := publicKey

/-- A device permits the certificate for coin metadata if it is of the kind that the certificate is
for and has not revoked its index. The certificate never expires. -/
theorem permitted_coinMeta (key : CompressedKey) (signature : Bytes) (hdevice : p.device = 3)
    (hindex : p.minValidityIndex ≤ 2) : (coinMeta key signature).Permitted 0x08 p where
  usage := rfl
  device := by
    rintro d ⟨⟩
    exact hdevice.symm
  time := by
    rintro last now ⟨⟩ hlast
    exact absurd rfl hlast
  index := by
    rintro i ⟨⟩
    exact hindex

/-- Whether a public key is read back from its compressed form. -/
def Readable (key : SecretKey) : Prop :=
  PublicKey.ofBytes? key.publicKey.compressed.bytes = some key.publicKey

theorem encode_coinMetaDraft (secret : SecretKey) : (Fixture.coinMetaDraft secret).encode =
    some (wire (coinMetaEntries secret.publicKey.compressed)) := by
  rw [coinMetaDraft_eq]
  exact encode_draft (fits_coinMetaEntries _)

/-- An issuer can certify a key for coin metadata: the certificate fits a frame, and it leads to the
key on every device that has the anchor of the issuer and permits it. -/
theorem exists_coinMeta {secret : SecretKey} (hissuer : Readable issuer) (hkey : Readable secret)
    (hattests : ∀ signed, (Fixture.coinMetaDraft secret).encode = some signed →
      Attests issuer .sha256 signed) :
    ∃ certificate, (Fixture.coinMetaDraft secret).sign issuer = some certificate ∧
      certificate.length ≤ 170 ∧
      ∀ (p : Platform) (anchor : TrustAnchor), p.anchor? 2 = some anchor →
        anchor.publicKey = issuer.publicKey.compressed → p.device = 3 → p.minValidityIndex ≤ 2 →
        load certificate 0x08 p = .ok (coinMetaTrust secret.publicKey) := by
  have hencode := encode_coinMetaDraft secret
  obtain ⟨signature, hsign, hlength, hverify⟩ :=
    Ecdsa.exists_sign_of_attests (hattests _ hencode)
  have hfits : signature.length ≤ 0xffff := Nat.le_trans hlength (by decide)
  refine ⟨wire (signedEntries secret.publicKey.compressed signature), ?_, ?_, ?_⟩
  · rw [signedEntries, wire_append, wire_singleton]
    exact sign_draft hencode hsign
  · rw [signedEntries, wire_append, wire_singleton, List.length_append,
      length_wire_coinMetaEntries, Tlv.length_encode, Tlv.encodedLength, if_pos (by omega)]
    omega
  · intro p anchor hanchor hpublic hdevice hindex
    rw [load_eq_ok_iff_permitted]
    refine ⟨coinMeta secret.publicKey.compressed signature, secret.publicKey,
      parse_signedEntries _ hfits, ?_, permitted_coinMeta _ _ hdevice hindex, hkey, rfl⟩
    rw [Readable, ← hpublic] at hissuer
    exact ⟨anchor, issuer.publicKey, hanchor, hissuer, hverify⟩

end TokenProvision.Certificate
