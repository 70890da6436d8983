import TokenProvision.Proofs.Certificate.Progress
import TokenProvision.Proofs.Tlv

/-!
From the fields of a certificate to the certificate and back. `shown` is the value under which a
certificate shows each tag; the certificate that is read from legal fields is the only one that
shows every tag as the fields do and that has the bytes before the signature as its signed part.
-/
namespace TokenProvision.Certificate

/-- The value of the entry in which a certificate shows a tag. -/
def shown (c : Certificate) : Tag → Option Bytes
  | .structureType => some [0x01]
  | .version => some [0x02]
  | .validity => c.validity
  | .validityIndex => c.validityIndex.map Bytes.ofUInt32
  | .challenge => c.challenge
  | .signerKeyId => some (Bytes.ofUInt16 c.signerKeyId)
  | .signerAlgorithm => some [c.signerAlgorithm.code]
  | .signature => some c.signature
  | .timeValidity => c.timeValidity.map Bytes.ofUInt32
  | .trustedName => some c.trustedName.bytes
  | .publicKeyId => c.publicKeyId.map Bytes.ofUInt16
  | .publicKeyUsage => some [c.usage.code]
  | .publicKeyCurve => some [c.curve.code]
  | .publicKey => some c.publicKey.bytes
  | .publicKeyAlgorithm => some [c.publicKeyAlgorithm.code]
  | .targetDevice => c.targetDevice.map fun b => [b]
  | .depth => c.depth.map fun b => [b]

/-- A certificate is determined by what it shows, apart from the signature, by its signature and by
its signed part. -/
theorem eq_of_shown {c d : Certificate} (h : ∀ t, t ≠ .signature → c.shown t = d.shown t)
    (hsigned : c.signed = d.signed) (hsignature : c.signature = d.signature) : c = d := by
  cases c
  cases d
  have h₁ := h .validity (by decide)
  have h₂ := h .validityIndex (by decide)
  have h₃ := h .challenge (by decide)
  have h₄ := h .signerKeyId (by decide)
  have h₅ := h .signerAlgorithm (by decide)
  have h₆ := h .timeValidity (by decide)
  have h₇ := h .trustedName (by decide)
  have h₈ := h .publicKeyId (by decide)
  have h₉ := h .publicKeyUsage (by decide)
  have h₁₀ := h .publicKeyCurve (by decide)
  have h₁₁ := h .publicKey (by decide)
  have h₁₂ := h .publicKeyAlgorithm (by decide)
  have h₁₃ := h .targetDevice (by decide)
  have h₁₄ := h .depth (by decide)
  have hbyte : Function.Injective fun b : UInt8 => [b] := fun _ _ h => List.singleton_inj.mp h
  simp only [shown, Option.some.injEq, List.cons.injEq, and_true, Bytes.ofUInt16_injective.eq_iff,
    (Option.map_injective Bytes.ofUInt16_injective).eq_iff,
    (Option.map_injective Bytes.ofUInt32_injective).eq_iff,
    (Option.map_injective hbyte).eq_iff, Ecdsa.Algorithm.code_injective.eq_iff,
    Usage.code_injective.eq_iff, ← Label.ext_iff, ← FixedBytes.ext_iff]
    at h₁ h₂ h₃ h₄ h₅ h₆ h₇ h₈ h₉ h₁₀ h₁₁ h₁₂ h₁₃ h₁₄
  simp_all

structure Complete (value : Tag → Option Bytes) : Prop where
  legal : ∀ t v, value t = some v → Legal t v
  mandatory : ∀ t ∈ Tag.mandatory, (value t).isSome = true

section Readers

variable {α : Type} {read : Bytes → Option α} {write : α → Bytes}

/-- An optional value that is legal is shown again by what was read from it. -/
theorem eq_map_bind (hread : ∀ {v : Bytes} {a : α}, read v = some a ↔ v = write a)
    {o : Option Bytes} (hlegal : ∀ v, o = some v → ∃ a, v = write a) :
    o = (o.bind read).map write := by
  cases o with
  | none => rfl
  | some v =>
    obtain ⟨a, rfl⟩ := hlegal v rfl
    have ha : read (write a) = some a := hread.mpr rfl
    simp [ha]

/-- A mandatory value that is legal can be read. -/
theorem exists_bind_eq_some (hread : ∀ {v : Bytes} {a : α}, read v = some a ↔ v = write a)
    {o : Option Bytes} (ho : o.isSome = true) (hlegal : ∀ v, o = some v → ∃ a, v = write a) :
    ∃ a, o.bind read = some a := by
  obtain ⟨v, rfl⟩ := Option.isSome_iff_exists.mp ho
  obtain ⟨a, rfl⟩ := hlegal v rfl
  exact ⟨a, hread.mpr rfl⟩

theorem eq_some_of_bind (hread : ∀ {v : Bytes} {a : α}, read v = some a ↔ v = write a)
    {o : Option Bytes} {a : α} (h : o.bind read = some a) : o = some (write a) := by
  obtain ⟨v, rfl, hv⟩ := Option.bind_eq_some_iff.mp h
  rw [hread.mp hv]

end Readers

variable {fields : List Field}

/-- A certificate can be read from complete fields. -/
theorem exists_ofFields? (raw : Bytes) (h : Complete (value? fields)) :
    ∃ c, ofFields? raw fields = some c := by
  obtain ⟨_, hsigner⟩ := exists_bind_eq_some Bytes.toUInt16?_eq_some_iff
    (h.mandatory .signerKeyId (by decide))
    (fun v hv => Bytes.exists_ofUInt16_iff.mpr (h.legal _ v hv))
  obtain ⟨_, halgorithm⟩ := exists_bind_eq_some
    (bind_toUInt8?_eq_some_iff Ecdsa.Algorithm.ofCode?_eq_some_iff)
    (h.mandatory .signerAlgorithm (by decide))
    (fun v hv => (exists_number_iff Ecdsa.Algorithm.exists_code_iff).mpr (h.legal _ v hv))
  obtain ⟨_, hname⟩ := exists_bind_eq_some Label.ofBytes?_eq_some_iff
    (h.mandatory .trustedName (by decide)) (fun v hv => exists_name_iff.mpr (h.legal _ v hv))
  obtain ⟨_, husage⟩ := exists_bind_eq_some
    (bind_toUInt8?_eq_some_iff Usage.ofCode?_eq_some_iff)
    (h.mandatory .publicKeyUsage (by decide))
    (fun v hv => (exists_number_iff Usage.exists_code_iff).mpr (h.legal _ v hv))
  obtain ⟨_, hcurve⟩ := exists_bind_eq_some
    (bind_toUInt8?_eq_some_iff Curve.ofCode?_eq_some_iff)
    (h.mandatory .publicKeyCurve (by decide)) (fun v hv => exists_curve_iff.mpr (h.legal _ v hv))
  obtain ⟨_, hkey⟩ := exists_bind_eq_some FixedBytes.ofBytes?_eq_some_iff
    (h.mandatory .publicKey (by decide)) (fun v hv => exists_key_iff.mpr (h.legal _ v hv))
  obtain ⟨_, hsign⟩ := exists_bind_eq_some
    (bind_toUInt8?_eq_some_iff Ecdsa.Algorithm.ofCode?_eq_some_iff)
    (h.mandatory .publicKeyAlgorithm (by decide))
    (fun v hv => (exists_number_iff Ecdsa.Algorithm.exists_code_iff).mpr (h.legal _ v hv))
  have hfinal := h.mandatory .signature (by decide)
  rw [value?, Option.isSome_map] at hfinal
  obtain ⟨_, hfinal⟩ := Option.isSome_iff_exists.mp hfinal
  rw [← Option.bind_assoc] at halgorithm husage hcurve hsign
  simp [ofFields?, hsigner, halgorithm, hname, husage, hcurve, hkey, hsign, hfinal]

/-- The certificate that is read from complete fields shows every tag as they do, and what lies
before the signature is its signed part. -/
theorem shown_of_ofFields? {raw : Bytes} {c : Certificate} (h : Complete (value? fields))
    (hc : ofFields? raw fields = some c) :
    (∀ t, value? fields t = c.shown t) ∧
      ∃ f, (fields.find? fun f => f.tag = .signature) = some f ∧
        c.signed = raw.take f.offset := by
  unfold ofFields? at hc
  obtain ⟨signer, hsigner, hc⟩ := Option.bind_eq_some_iff.mp hc
  obtain ⟨algorithm, halgorithm, hc⟩ := Option.bind_eq_some_iff.mp hc
  obtain ⟨name, hname, hc⟩ := Option.bind_eq_some_iff.mp hc
  obtain ⟨usage, husage, hc⟩ := Option.bind_eq_some_iff.mp hc
  obtain ⟨curve, hcurve, hc⟩ := Option.bind_eq_some_iff.mp hc
  obtain ⟨key, hkey, hc⟩ := Option.bind_eq_some_iff.mp hc
  obtain ⟨sign, hsign, hc⟩ := Option.bind_eq_some_iff.mp hc
  obtain ⟨final, hfinal, hc⟩ := Option.bind_eq_some_iff.mp hc
  rw [Option.bind_assoc] at halgorithm husage hcurve hsign
  rw [← Option.some.inj hc]
  refine ⟨?_, final, hfinal, rfl⟩
  have fixed {t : Tag} {w : Bytes} (hm : t ∈ Tag.mandatory) (ht : ∀ v, Legal t v → v = w) :
      value? fields t = some w := by
    obtain ⟨v, hv⟩ := Option.isSome_iff_exists.mp (h.mandatory t hm)
    rw [hv, ht v (h.legal t v hv)]
  have byte {t : Tag} (ht : ∀ v, Legal t v → v.length = 1) (v : Bytes)
      (hv : value? fields t = some v) : ∃ b, v = [b] :=
    List.length_eq_one_iff.mp (ht v (h.legal t v hv))
  intro t
  cases t with
  | structureType => exact fixed (by decide) fun v hv => hv
  | version => exact fixed (by decide) fun v hv => hv
  | validity | challenge => rfl
  | validityIndex | timeValidity =>
    exact eq_map_bind Bytes.toUInt32?_eq_some_iff
      fun v hv => Bytes.exists_ofUInt32_iff.mpr (h.legal _ v hv)
  | publicKeyId =>
    exact eq_map_bind Bytes.toUInt16?_eq_some_iff
      fun v hv => Bytes.exists_ofUInt16_iff.mpr (h.legal _ v hv)
  | targetDevice | depth =>
    exact eq_map_bind Bytes.toUInt8?_eq_some_iff (byte fun _ hv => hv)
  | signerKeyId => exact eq_some_of_bind Bytes.toUInt16?_eq_some_iff hsigner
  | signerAlgorithm =>
    exact eq_some_of_bind (bind_toUInt8?_eq_some_iff Ecdsa.Algorithm.ofCode?_eq_some_iff) halgorithm
  | signature => rw [value?, hfinal]; rfl
  | trustedName => exact eq_some_of_bind Label.ofBytes?_eq_some_iff hname
  | publicKeyUsage =>
    exact eq_some_of_bind (bind_toUInt8?_eq_some_iff Usage.ofCode?_eq_some_iff) husage
  | publicKeyCurve =>
    exact eq_some_of_bind (bind_toUInt8?_eq_some_iff Curve.ofCode?_eq_some_iff) hcurve
  | publicKey => exact eq_some_of_bind FixedBytes.ofBytes?_eq_some_iff hkey
  | publicKeyAlgorithm =>
    exact eq_some_of_bind (bind_toUInt8?_eq_some_iff Ecdsa.Algorithm.ofCode?_eq_some_iff) hsign

end TokenProvision.Certificate
