import TokenProvision.Certificate.Trust
import TokenProvision.Proofs.Certificate.Grammar

/-!
The signature of the issuer covers a certificate. What is signed is everything before the last
entry, and no byte of that entry says anything but the signature: so the signed part decides the
key that is trusted and where it may be used, and a certificate can be neither cut nor extended.
-/
namespace TokenProvision.Certificate

open Tlv (Fits)

def withSignature (c : Certificate) (signature : Bytes) : Certificate := { c with signature }

theorem shown_withSignature (c : Certificate) (signature : Bytes) {t : Tag} (h : t ≠ .signature) :
    (c.withSignature signature).shown t = c.shown t := by
  cases t with
  | signature => exact absurd rfl h
  | _ => rfl

@[simp] theorem trustedKey_withSignature (c : Certificate) (signature : Bytes) :
    (c.withSignature signature).trustedKey = c.trustedKey := rfl

@[simp] theorem authorize_withSignature (c : Certificate) (signature : Bytes) (usage : UInt8)
    (p : Platform) : (c.withSignature signature).authorize usage p = c.authorize usage p := rfl

theorem WellFormed.fits_dropLast {es : List (Tag × Bytes)} (h : WellFormed es) :
    Fits (coded es.dropLast) := by
  obtain ⟨v, hes⟩ := h.exists_dropLast
  have hfits := h.fits_coded
  rw [hes, coded, List.map_append, Tlv.fits_append] at hfits
  exact hfits.1

/-- Well-formed entries of which one sequence begins the other are the same: the signature ends
both. -/
theorem WellFormed.eq_of_prefix {es fs : List (Tag × Bytes)} (he : WellFormed es)
    (hf : WellFormed fs) (h : es <+: fs) : es = fs := by
  obtain ⟨rest, hrest⟩ := h
  rcases List.eq_nil_or_concat rest with rfl | ⟨init, e, rfl⟩
  · rw [← hrest, List.append_nil]
  · obtain ⟨v, hv⟩ := he.exists_dropLast
    have hfinal := hf.admissible.final (.signature, v)
    rw [← hrest, List.concat_eq_append, ← List.append_assoc, List.dropLast_concat, hv] at hfinal
    exact absurd rfl (hfinal (by simp))

/-- No certificate begins another one. -/
theorem eq_nil_of_parse_append {raw x : Bytes} {c d : Certificate} (hc : parse raw = .ok c)
    (hd : parse (raw ++ x) = .ok d) : x = [] := by
  obtain ⟨es, hes, rfl, -⟩ := parse_eq_ok_iff.mp hc
  obtain ⟨fs, hfs, hwire, -⟩ := parse_eq_ok_iff.mp hd
  have hcoded := Tlv.prefix_of_encodeAll_append hes.fits_coded hfs.fits_coded x hwire
  obtain ⟨gs, hgs, heq⟩ := List.prefix_map_iff.mp hcoded
  obtain rfl : es = gs := coded_injective heq
  rw [hes.eq_of_prefix hfs hgs] at hwire
  exact List.append_right_eq_self.mp hwire

/-- A certificate ends with the entry of its signature, and what is before it is signed. -/
theorem eq_signed_append_of_parse {raw : Bytes} {c : Certificate} (h : parse raw = .ok c) :
    c.signature.length ≤ Tlv.maxValueLength ∧
      raw = c.signed ++ Tlv.encode Tag.signature.code c.signature := by
  obtain ⟨es, hes, rfl, hread⟩ := parse_eq_ok_iff.mp h
  have hmem := (hread.shown_iff .signature c.signature).mp rfl
  obtain ⟨v, hv⟩ := hes.exists_dropLast
  have hlast : (Tag.signature, v) ∈ es := by
    rw [hv]
    simp
  have hsignature : v = c.signature :=
    (Prod.mk.inj (List.inj_on_of_nodup_map hes.distinct hlast hmem rfl)).2
  refine ⟨hes.fits _ hmem, ?_⟩
  rw [hread.signed_eq, ← wire_singleton, ← wire_append, ← hsignature, ← hv]

theorem WellFormed.mem_dropLast_iff {es : List (Tag × Bytes)} (h : WellFormed es) {t : Tag}
    {v : Bytes} (ht : t ≠ .signature) : (t, v) ∈ es.dropLast ↔ (t, v) ∈ es := by
  obtain ⟨w, hw⟩ := h.exists_dropLast
  nth_rewrite 2 [hw]
  simp [ht]

/-- Certificates with one signed part differ at most in the signature. -/
theorem eq_withSignature_of_signed_eq {raw raw' : Bytes} {c d : Certificate}
    (hc : parse raw = .ok c) (hd : parse raw' = .ok d) (hsigned : d.signed = c.signed) :
    d = c.withSignature d.signature := by
  obtain ⟨es, hes, -, hread⟩ := parse_eq_ok_iff.mp hc
  obtain ⟨fs, hfs, -, hread'⟩ := parse_eq_ok_iff.mp hd
  have hinit : fs.dropLast = es.dropLast := by
    rw [hread.signed_eq, hread'.signed_eq] at hsigned
    exact coded_injective (Tlv.encodeAll_inj hfs.fits_dropLast hes.fits_dropLast hsigned)
  refine eq_of_shown ?_ hsigned rfl
  intro t ht
  apply Option.ext
  intro v
  rw [shown_withSignature c d.signature ht, hread'.shown_iff, hread.shown_iff,
    ← hfs.mem_dropLast_iff ht, ← hes.mem_dropLast_iff ht, hinit]

def resigned (es : List (Tag × Bytes)) (signature : Bytes) : List (Tag × Bytes) :=
  es.dropLast ++ [(.signature, signature)]

/-- Another signature that fits leaves the entries well formed. -/
theorem WellFormed.resigned {es : List (Tag × Bytes)} (h : WellFormed es) {signature : Bytes}
    (hfits : signature.length ≤ Tlv.maxValueLength) : WellFormed (resigned es signature) := by
  obtain ⟨v, hes⟩ := h.exists_dropLast
  obtain ⟨hcoded, hadm, hmandatory⟩ := wellFormed_iff.mp h
  unfold Certificate.resigned
  generalize es.dropLast = init at hes ⊢
  subst hes
  obtain ⟨hinit, hs, -, hplace, -⟩ := admissible_concat.mp hadm
  rw [coded, List.map_append, Tlv.fits_append] at hcoded
  refine wellFormed_iff.mpr ⟨?_, hinit.concat hs hs hplace trivial, ?_⟩
  · rw [coded, List.map_append, Tlv.fits_append]
    exact ⟨hcoded.1, by simpa [Tlv.Fits] using hfits⟩
  · simpa using hmandatory

theorem ReadFrom.resigned {c : Certificate} {es : List (Tag × Bytes)} (h : ReadFrom c es)
    (hes : WellFormed es) (signature : Bytes) :
    ReadFrom (c.withSignature signature) (resigned es signature) where
  shown_iff := by
    intro t v
    unfold Certificate.resigned
    by_cases ht : t = .signature
    · subst ht
      have hfinal : (Tag.signature, v) ∉ es.dropLast := fun hmem =>
        hes.admissible.final _ hmem rfl
      simp [hfinal, withSignature, shown, eq_comm]
    · rw [shown_withSignature c signature ht, h.shown_iff, ← hes.mem_dropLast_iff ht]
      simp [ht]
  signed_eq := by
    rw [Certificate.resigned, List.dropLast_concat]
    exact h.signed_eq

/-- Behind the signed part of a certificate any signature may stand that fits: it is then the
signature of the certificate, and the rest of the certificate is as it was. -/
theorem parse_withSignature {raw signature : Bytes} {c : Certificate} (h : parse raw = .ok c)
    (hfits : signature.length ≤ Tlv.maxValueLength) :
    parse (c.signed ++ Tlv.encode Tag.signature.code signature) =
      .ok (c.withSignature signature) := by
  obtain ⟨es, hes, -, hread⟩ := parse_eq_ok_iff.mp h
  refine parse_eq_ok_iff.mpr ⟨resigned es signature, hes.resigned hfits, ?_, hread.resigned hes _⟩
  rw [hread.signed_eq, resigned, wire_append, wire_singleton]

/-- A certificate with another signature that is good under the same keys leads to the same key, or
is refused for the same cause. -/
theorem load_withSignature {raw signature : Bytes} {c : Certificate} (h : parse raw = .ok c)
    (hfits : signature.length ≤ Tlv.maxValueLength)
    (hgood : ∀ key, Ecdsa.verify key c.signerAlgorithm c.signed signature =
      Ecdsa.verify key c.signerAlgorithm c.signed c.signature) (usage : UInt8) (p : Platform) :
    load (c.signed ++ Tlv.encode Tag.signature.code signature) usage p = load raw usage p := by
  have hverify (anchor : TrustAnchor) :
      (c.withSignature signature).verify anchor = c.verify anchor := by
    simp only [verify, withSignature, hgood]
  have hissuer : (c.withSignature signature).signerKeyId = c.signerKeyId := rfl
  unfold load
  simp only [parse_withSignature h hfits, h, Bind.bind, Except.bind, hverify, hissuer,
    authorize_withSignature, trustedKey_withSignature]

theorem exists_error_of_parse_ne {raw : Bytes} (h : ∀ c, parse raw ≠ .ok c) :
    ∃ r, parse raw = .error r := by
  cases hparse : parse raw with
  | error r => exact ⟨r, rfl⟩
  | ok c => exact absurd hparse (h c)

structure Covered (raw : Bytes) (c : Certificate) : Prop where
  /-- Behind the signed part stands the entry of the signature and nothing else. -/
  entry : c.signature.length ≤ 0xffff ∧ ∃ entry, raw = c.signed ++ entry ∧ ∀ room,
    Tlv.write Tag.signature.code c.signature room =
      if room < entry.length then .error .invalidLength else .ok entry
  /-- Certificates with the same signed part differ in nothing but the signature, so they certify
  the same key and are good for the same uses on the same devices. -/
  determined : ∀ raw' d, parse raw' = .ok d → d.signed = c.signed →
    d = { c with signature := d.signature } ∧ d.trustedKey = c.trustedKey ∧
      ∀ usage p, d.authorize usage p = c.authorize usage p
  /-- Nothing can follow. -/
  extended : ∀ x ≠ [], ∃ r, parse (raw ++ x) = .error r
  /-- Nothing can be cut off. -/
  cut : ∀ front x, x ≠ [] → raw = front ++ x → ∃ r, parse front = .error r

/-- The signature of the issuer covers everything that a certificate says. -/
theorem signature_covers_certificate {raw : Bytes} {c : Certificate} (h : parse raw = .ok c) :
    Covered raw c where
  entry := by
    obtain ⟨hlength, hraw⟩ := eq_signed_append_of_parse h
    refine ⟨hlength, _, hraw, ?_⟩
    intro room
    rw [Tlv.write, if_neg (Nat.not_lt.mpr hlength), Tlv.length_encode]
    rfl
  determined := by
    intro raw' d hd hsigned
    have heq := eq_withSignature_of_signed_eq h hd hsigned
    refine ⟨heq, ?_, ?_⟩
    · rw [heq, trustedKey_withSignature]
    · intro usage p
      rw [heq, authorize_withSignature]
  extended := by
    intro x hx
    apply exists_error_of_parse_ne
    intro d hd
    exact hx (eq_nil_of_parse_append h hd)
  cut := by
    rintro front x hx rfl
    apply exists_error_of_parse_ne
    intro d hd
    exact hx (eq_nil_of_parse_append hd h)

/-- A certificate for a key for coin metadata, as an issuer signed it. -/
def coinMetaCertificate : Bytes :=
  [0x01, 0x01, 0x01, 0x02, 0x01, 0x02, 0x10, 0x04, 0x01, 0x02, 0x00, 0x00, 0x11, 0x04, 0x00,
    0x00, 0x00, 0x02, 0x12, 0x01, 0x00, 0x13, 0x02, 0x00, 0x02, 0x14, 0x01, 0x01, 0x16, 0x04,
    0x00, 0x00, 0x00, 0x00, 0x20, 0x09, 0x43, 0x6f, 0x69, 0x6e, 0x5f, 0x6d, 0x65, 0x74, 0x61,
    0x30, 0x02, 0x00, 0x06, 0x31, 0x01, 0x08, 0x32, 0x01, 0x21, 0x33, 0x21, 0x03, 0xe6, 0x8a,
    0xcf, 0xc0, 0x25, 0x3a, 0x10, 0x62, 0x0d, 0xff, 0x70, 0x6b, 0x0a, 0x1b, 0x1f, 0x1f, 0x58,
    0x33, 0xea, 0x3b, 0xeb, 0x3b, 0xde, 0x22, 0x50, 0xd5, 0xf2, 0x71, 0xf3, 0x56, 0x36, 0x06,
    0x34, 0x01, 0x01, 0x35, 0x01, 0x03, 0x15, 0x47, 0x30, 0x45, 0x02, 0x20, 0x58, 0x4f, 0xfb,
    0x60, 0x2c, 0x63, 0x0b, 0xf3, 0x84, 0x54, 0xc6, 0x41, 0xe9, 0x2e, 0x8e, 0xc6, 0x43, 0xb0,
    0x1c, 0x6c, 0x68, 0x2f, 0x4c, 0x50, 0x50, 0x92, 0x9a, 0x43, 0xf5, 0xad, 0x70, 0xc7, 0x02,
    0x21, 0x00, 0xc9, 0x8b, 0xaa, 0xf5, 0x24, 0x7c, 0xac, 0x54, 0xf8, 0x86, 0x2a, 0xa3, 0x28,
    0x09, 0xfe, 0x07, 0x72, 0x52, 0x5a, 0xd0, 0x3b, 0x6d, 0xba, 0x90, 0x26, 0x99, 0x4f, 0x22,
    0xcd, 0xcc, 0xb9, 0xe3]

/-- The signature of the certificate for coin metadata covers it. -/
theorem signature_covers_coinMetaCertificate :
    ∃ c, parse coinMetaCertificate = .ok c ∧ c.signature.length = 71 ∧
      Covered coinMetaCertificate c := by
  have hread :
      ((parse coinMetaCertificate).toOption.map fun c => c.signature.length) = some 71 := by
    decide +kernel
  cases hc : parse coinMetaCertificate with
  | error r =>
    rw [hc] at hread
    cases hread
  | ok c =>
    rw [hc] at hread
    exact ⟨c, rfl, Option.some.inj hread, signature_covers_certificate hc⟩

end TokenProvision.Certificate
