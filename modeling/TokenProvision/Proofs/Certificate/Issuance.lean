import TokenProvision.Proofs.Certificate.CoinMeta

/-!
Certificates as they are issued. Whatever the entries of a draft are, a scan of what is issued finds
them with the signature behind them, and a certificate is read from it exactly if together they are
well formed. A draft is signed with the algorithm that the first byte of its first entry for the
algorithm names, and with SHA-256 if it names none; a certificate has one such entry, of one byte.
Where a certificate can be read the two agree, so the signature is verified as it was made.
-/
namespace TokenProvision.Certificate

open Secp256k1 (SecretKey)
open Ecdsa (Attests)

variable {d : Draft} {issuer : SecretKey} {raw signed : Bytes} {sig : Ecdsa.Signature}
variable {c : Certificate} {es : List (Tag × Bytes)}

theorem mem_coded_iff {t : Tag} {v : Bytes} : (t.code, v) ∈ coded es ↔ (t, v) ∈ es := by
  constructor
  · intro h
    obtain ⟨⟨u, w⟩, hmem, heq⟩ := List.mem_map.mp h
    obtain ⟨ht, hv⟩ := Prod.mk.inj heq
    rwa [← Tag.code_injective ht, ← hv]
  · exact List.mem_map_of_mem (f := fun e : Tag × Bytes => (e.1.code, e.2))

namespace Draft

/-- A draft is written as its entries, if their values fit. -/
theorem encode_eq_some_iff :
    d.encode = some signed ↔ Tlv.Fits d.entries ∧ signed = Tlv.encodeAll d.entries :=
  Tlv.encode_draft_eq_some_iff.trans Tlv.writeAll_eq_ok_iff

theorem encode_eq_none_iff :
    d.encode = none ↔ ∃ e ∈ d.entries, Tlv.maxValueLength < e.2.length := by
  have hwritable : ¬ d.IsWritable ↔ ∃ e ∈ d.entries, Tlv.maxValueLength < e.2.length := by
    simp [IsWritable]
  rw [← hwritable, encode]
  split <;> simp [*]

/-- The entries of a draft and of its signature. -/
def issued (d : Draft) (sig : Ecdsa.Signature) : List (UInt8 × Bytes) :=
  d.entries ++ [(Tag.signature.code, sig.encode)]

/-- What is issued: the bytes of the entries, with the signature over them behind. -/
structure Issues (d : Draft) (issuer : SecretKey) (raw signed : Bytes) (sig : Ecdsa.Signature) :
    Prop where
  encode_eq : d.encode = some signed
  signDigest_eq : Ecdsa.signDigest issuer (d.signerAlgorithm.digest signed) = some sig
  raw_eq : raw = signed ++ Tlv.encode Tag.signature.code sig.encode

/-- What signing gives is issued. -/
theorem exists_issues_of_sign (h : d.sign issuer = some raw) :
    ∃ signed sig, d.Issues issuer raw signed sig := by
  obtain ⟨signed, hencode, h⟩ := Option.bind_eq_some_iff.mp h
  obtain ⟨signature, hsign, h⟩ := Option.bind_eq_some_iff.mp h
  obtain ⟨sig, hsig, rfl⟩ := Option.map_eq_some_iff.mp hsign
  exact ⟨signed, sig, hencode, hsig, (Option.some.inj h).symm⟩

/-- A draft is not signed exactly if a value is too long, so long as the key signs whatever is
written. -/
theorem sign_eq_none_iff
    (hsigns : ∀ signed, d.encode = some signed →
      ∃ sig, Ecdsa.signDigest issuer (d.signerAlgorithm.digest signed) = some sig) :
    d.sign issuer = none ↔ ∃ e ∈ d.entries, Tlv.maxValueLength < e.2.length := by
  rw [← encode_eq_none_iff]
  cases hencode : d.encode with
  | none => simp [sign, hencode]
  | some signed =>
    obtain ⟨sig, hsig⟩ := hsigns signed hencode
    have hsign : Ecdsa.sign issuer d.signerAlgorithm signed = some sig.encode := by
      rw [Ecdsa.sign, hsig]
      rfl
    simp [sign_draft hencode hsign]

namespace Issues

/-- The signature is short enough to be written behind the entries. -/
theorem fits (h : d.Issues issuer raw signed sig) : Tlv.Fits (d.issued sig) := by
  rw [issued, Tlv.fits_append]
  refine ⟨(encode_eq_some_iff.mp h.encode_eq).1, ?_⟩
  intro e he
  rw [List.mem_singleton.mp he]
  exact Nat.le_trans sig.length_encode_le (by decide)

theorem signed_eq_encodeAll (h : d.Issues issuer raw signed sig) :
    signed = Tlv.encodeAll d.entries := (encode_eq_some_iff.mp h.encode_eq).2

/-- The signature is one more entry. -/
theorem raw_eq_encodeAll (h : d.Issues issuer raw signed sig) :
    raw = Tlv.encodeAll (d.issued sig) := by
  rw [h.raw_eq, h.signed_eq_encodeAll, issued, Tlv.encodeAll_append]
  simp

theorem scan_eq (h : d.Issues issuer raw signed sig) :
    Tlv.scan raw = (d.issued sig).mapIdx fun i e =>
      .ok ⟨e.1, e.2, Tlv.encodedLengthAll ((d.issued sig).take i)⟩ := by
  rw [← Tlv.map_ok_place, ← Tlv.writeAll_eq_ok_iff_scan, Tlv.writeAll_eq_ok_iff]
  exact ⟨h.fits, h.raw_eq_encodeAll⟩

/-- What is issued is the wire form of those entries only of which it was made. -/
theorem raw_eq_wire_iff (h : d.Issues issuer raw signed sig) (hes : WellFormed es) :
    raw = wire es ↔ coded es = d.issued sig := by
  rw [h.raw_eq_encodeAll]
  constructor
  · intro heq
    exact (Tlv.encodeAll_inj h.fits hes.fits_coded heq).symm
  · intro heq
    rw [wire, heq]

/-- A certificate is read from what is issued exactly if it is read from well-formed entries that
are those of the draft and of the signature. -/
theorem parse_eq_ok_iff (h : d.Issues issuer raw signed sig) :
    parse raw = .ok c ↔ ∃ es, WellFormed es ∧ coded es = d.issued sig ∧ ReadFrom c es := by
  rw [Certificate.parse_eq_ok_iff]
  refine exists_congr fun es => and_congr_right fun hes => ?_
  rw [h.raw_eq_wire_iff hes]

theorem exists_parse_iff (h : d.Issues issuer raw signed sig) :
    (∃ c, parse raw = .ok c) ↔ ∃ es, WellFormed es ∧ coded es = d.issued sig := by
  constructor
  · rintro ⟨c, hc⟩
    obtain ⟨es, hes, hcoded, -⟩ := h.parse_eq_ok_iff.mp hc
    exact ⟨es, hes, hcoded⟩
  · rintro ⟨es, hes, hcoded⟩
    rw [(h.raw_eq_wire_iff hes).mpr hcoded]
    exact exists_parse_wire hes

end Issues

/-- What it means that a certificate is as it was drafted: it shows the entries of the draft and the
signature and nothing else, and the signature is over what was signed, with the algorithm with which
it was made. -/
structure IsReadAs (d : Draft) (signed : Bytes) (sig : Ecdsa.Signature) (c : Certificate) :
    Prop where
  shown_iff : ∀ t v, c.shown t = some v ↔ (t.code, v) ∈ d.issued sig
  signed_eq : c.signed = signed
  signature_eq : c.signature = sig.encode
  signerAlgorithm_eq : c.signerAlgorithm = d.signerAlgorithm

/-- The first entry of a draft with a tag is the one that a certificate shows, where the certificate
shows exactly the entries of the draft and the signature. -/
theorem find?_eq_some_of_shown (hshown : ∀ t v, c.shown t = some v ↔ (t.code, v) ∈ d.issued sig)
    {t : Tag} {v : Bytes} (ht : t ≠ .signature) (hv : c.shown t = some v) :
    d.entries.find? (fun e => e.1 = t.code) = some (t.code, v) := by
  have hentry : (t.code, v) ∈ d.entries := by
    have hmem := (hshown t v).mp hv
    rw [issued, List.mem_append, List.mem_singleton, Prod.mk.injEq] at hmem
    exact hmem.resolve_right fun heq => ht (Tag.code_injective heq.1)
  have hsome : (d.entries.find? fun e => e.1 = t.code).isSome = true := by
    rw [List.find?_isSome]
    exact ⟨_, hentry, decide_eq_true rfl⟩
  obtain ⟨e, he⟩ := Option.isSome_iff_exists.mp hsome
  have hfound := List.find?_some he
  have htag : e.1 = t.code := of_decide_eq_true hfound
  have hmem := List.mem_of_find?_eq_some he
  -- the certificate shows one value for the tag, so another entry with it has the same value
  have hvalue : c.shown t = some e.2 := by
    rw [hshown, ← htag]
    exact List.mem_append_left _ hmem
  rw [he, ← htag, ← Option.some.inj (hvalue.symm.trans hv)]

/-- The first byte of the first entry for the algorithm names the algorithm that a certificate with
these entries shows. -/
theorem signerAlgorithm_eq_of_shown
    (hshown : ∀ t v, c.shown t = some v ↔ (t.code, v) ∈ d.issued sig) :
    d.signerAlgorithm = c.signerAlgorithm := by
  have hfind := find?_eq_some_of_shown hshown (t := .signerAlgorithm) (by decide) rfl
  rw [signerAlgorithm, hfind]
  simp

/-- A certificate that is read from what is issued is as it was drafted. -/
theorem Issues.isReadAs (h : d.Issues issuer raw signed sig) (hc : parse raw = .ok c) :
    d.IsReadAs signed sig c := by
  obtain ⟨es, hes, hcoded, hread⟩ := h.parse_eq_ok_iff.mp hc
  have hshown (t : Tag) (v : Bytes) : c.shown t = some v ↔ (t.code, v) ∈ d.issued sig := by
    rw [hread.shown_iff, ← mem_coded_iff, hcoded]
  have hinit : coded es.dropLast = d.entries := by
    rw [coded, List.map_dropLast]
    exact (congrArg List.dropLast hcoded).trans List.dropLast_concat
  have hsignature : c.shown .signature = some sig.encode :=
    (hshown _ _).mpr (List.mem_append_right _ (List.mem_singleton_self _))
  refine ⟨hshown, ?_, Option.some.inj hsignature, (signerAlgorithm_eq_of_shown hshown).symm⟩
  rw [hread.signed_eq, wire, hinit, h.signed_eq_encodeAll]

/-- A certificate that is as it was drafted is verified under the anchor of the issuer, if the
issuer attests what was signed. -/
theorem IsReadAs.verify (hread : d.IsReadAs signed sig c) (h : d.Issues issuer raw signed sig)
    (hreadable : Readable issuer) (hattests : Attests issuer d.signerAlgorithm signed)
    {anchor : TrustAnchor} (hanchor : anchor.publicKey = issuer.publicKey.compressed) :
    c.verify anchor = .ok () := by
  obtain ⟨signature, hsign, -, hverify⟩ := Ecdsa.exists_sign_of_attests hattests
  rw [Ecdsa.sign, h.signDigest_eq, Option.map_some] at hsign
  rw [verify_eq_ok_iff, hanchor, hread.signerAlgorithm_eq, hread.signed_eq, hread.signature_eq,
    Option.some.inj hsign]
  exact ⟨issuer.publicKey, hreadable, hverify⟩

/-- Certificates are issued as they were drafted. A draft is written, and then signed by a key that
signs, unless a value is longer than its length can say; the order and the number of its entries and
their tags do not matter. A scan of what is issued finds the entries with the signature behind them.
A certificate is read from it exactly if these are well formed; it is as it was drafted, and it is
verified under every anchor with the key of the issuer. -/
theorem issued_as_drafted (d : Draft) (issuer : SecretKey) :
    (d.encode = none ↔ ∃ e ∈ d.entries, 65535 < e.2.length) ∧
    ((∀ signed, d.encode = some signed →
        ∃ sig, Ecdsa.signDigest issuer (d.signerAlgorithm.digest signed) = some sig) →
      (d.sign issuer = none ↔ ∃ e ∈ d.entries, 65535 < e.2.length)) ∧
    ∀ raw, d.sign issuer = some raw → ∃ signed sig,
      d.Issues issuer raw signed sig ∧
      (Tlv.scan raw = (d.issued sig).mapIdx fun i e =>
        .ok ⟨e.1, e.2, Tlv.encodedLengthAll ((d.issued sig).take i)⟩) ∧
      ((∃ c, parse raw = .ok c) ↔ ∃ es, WellFormed es ∧ coded es = d.issued sig) ∧
      ∀ c, parse raw = .ok c → d.IsReadAs signed sig c ∧
        (Readable issuer → Attests issuer d.signerAlgorithm signed →
          ∀ anchor : TrustAnchor, anchor.publicKey = issuer.publicKey.compressed →
            c.verify anchor = .ok ()) := by
  refine ⟨encode_eq_none_iff, sign_eq_none_iff, ?_⟩
  intro raw hraw
  obtain ⟨signed, sig, h⟩ := exists_issues_of_sign hraw
  refine ⟨signed, sig, h, h.scan_eq, h.exists_parse_iff, ?_⟩
  intro c hc
  have hread := h.isReadAs hc
  exact ⟨hread, fun hreadable hattests _ hanchor => hread.verify h hreadable hattests hanchor⟩

/-- A draft that was edited: it is to be signed with another algorithm, and has no challenge. -/
def edited : Draft :=
  (Host.Fixture.baseDraft.set .signerAlgorithm [Ecdsa.Algorithm.keccak.code]).remove .challenge

/-- The edited draft is issued as a certificate without a challenge, which is signed with the other
algorithm and verified. -/
theorem issued_as_drafted_edited :
    ∃ raw c, edited.sign Host.Fixture.anchorKey = some raw ∧ parse raw = .ok c ∧
      c.challenge = none ∧ c.signerAlgorithm = .keccak ∧ c.verify Host.Fixture.anchor = .ok () := by
  obtain ⟨-, hnone, hissued⟩ := issued_as_drafted edited Host.Fixture.anchorKey
  have hreadable : Readable Host.Fixture.anchorKey := by
    unfold Readable
    decide +kernel
  have hruns : (edited.encode.any fun signed =>
      (Ecdsa.signDigest Host.Fixture.anchorKey
        (edited.signerAlgorithm.digest signed)).any fun sig =>
        Ecdsa.verifyDigest Host.Fixture.anchorKey.publicKey
          (edited.signerAlgorithm.digest signed) sig &&
        (parse (signed ++ Tlv.encode Tag.signature.code sig.encode)).isOk) = true := by
    decide +kernel
  simp only [Option.any_eq_true, Bool.and_eq_true] at hruns
  obtain ⟨signed, hencode, sig, hsig, hgood, hparse⟩ := hruns
  have hsigns : ∀ msg, edited.encode = some msg → ∃ sig, Ecdsa.signDigest Host.Fixture.anchorKey
      (edited.signerAlgorithm.digest msg) = some sig := by
    intro msg hmsg
    obtain rfl := Option.some.inj (hencode.symm.trans hmsg)
    exact ⟨sig, hsig⟩
  cases hraw : edited.sign Host.Fixture.anchorKey with
  | none => exact absurd ((hnone hsigns).mp hraw) (by decide)
  | some raw =>
    obtain ⟨_, _, h, -, -, hread⟩ := hissued raw hraw
    obtain rfl := Option.some.inj (hencode.symm.trans h.encode_eq)
    obtain rfl := Option.some.inj (hsig.symm.trans h.signDigest_eq)
    cases hc : parse raw with
    | error r =>
      rw [← h.raw_eq, hc] at hparse
      cases hparse
    | ok c =>
      obtain ⟨has, hverify⟩ := hread c hc
      refine ⟨raw, c, rfl, hc, ?_, has.signerAlgorithm_eq.trans (by decide),
        hverify hreadable ⟨_, hsig, hgood⟩ Host.Fixture.anchor rfl⟩
      have habsent : ∀ e ∈ edited.entries, e.1 ≠ Tag.challenge.code := by decide
      refine Option.eq_none_iff_forall_not_mem.mpr fun v hv => ?_
      rcases List.mem_append.mp ((has.shown_iff .challenge v).mp hv) with he | he
      · exact habsent _ he rfl
      · simp [Tag.code] at he

end Draft

end TokenProvision.Certificate
