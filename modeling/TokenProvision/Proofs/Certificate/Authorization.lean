import TokenProvision.Certificate.Trust
import TokenProvision.Proofs.Certificate.Grammar

/-!
What decides whether a certificate leads to a trusted key. Four questions are asked in a fixed
order: whether it can be read, whether its issuer vouches for it, whether the device permits the
use, and whether it certifies a key. All must be answered yes, and the first that is not names the
refusal; so a use is refused as such only where the issuer has vouched.
-/
namespace TokenProvision.Certificate

variable {c : Certificate} {key : TrustedKey} {usage : UInt8} {p : Platform} {raw : Bytes}
variable {r : Rejection} {f : Refusal}

/-- Whether the device has an anchor for the issuer of a certificate, and the signature is good
under the key of that anchor. -/
def Vouched (c : Certificate) (p : Platform) : Prop :=
  ∃ anchor issuer, p.anchor? c.signerKeyId = some anchor ∧
    Secp256k1.PublicKey.ofBytes? anchor.publicKey.bytes = some issuer ∧
    Ecdsa.verify issuer c.signerAlgorithm c.signed c.signature = true

/-- What a device asks of a certificate before its key may be used. What a certificate does not say
is not asked, and neither is the time where there is no clock. -/
structure Permitted (c : Certificate) (usage : UInt8) (p : Platform) : Prop where
  usage : c.usage.code = usage
  device : ∀ d, c.targetDevice = some d → d = p.device
  /-- The last second counts, and zero stands for no end. -/
  time : ∀ last now, c.timeValidity = some last → last ≠ 0 → p.clock = some now → now ≤ last
  index : ∀ i, c.validityIndex = some i → p.minValidityIndex ≤ i

def usageObjection? (c : Certificate) (usage : UInt8) : Option Rejection :=
  if c.usage.code = usage then none else some (.wrongUsage c.usage usage)

def deviceObjection? (c : Certificate) (p : Platform) : Option Rejection :=
  match c.targetDevice with
  | none => none
  | some d => if d = p.device then none else some (.wrongDevice d)

def timeObjection? (c : Certificate) (p : Platform) : Option Rejection :=
  match c.timeValidity, p.clock with
  | some last, some now => if last ≠ 0 ∧ last < now then some (.expired last) else none
  | _, _ => none

def indexObjection? (c : Certificate) (p : Platform) : Option Rejection :=
  match c.validityIndex with
  | none => none
  | some i => if i < p.minValidityIndex then some (.revoked i) else none

/-- The first thing that the device has against a use of a certificate. -/
def objection? (c : Certificate) (usage : UInt8) (p : Platform) : Option Rejection :=
  (c.usageObjection? usage).or
    ((c.deviceObjection? p).or ((c.timeObjection? p).or (c.indexObjection? p)))

theorem elim_or {α β : Type} (o o' : Option α) (b : β) (f : α → β) :
    (o.or o').elim b f = o.elim (o'.elim b f) f := by
  cases o <;> rfl

section Checks

-- Each check stands before the rest `k` of them.
variable (k : Unit → Except Rejection Unit)

theorem usageCheck_eq (c : Certificate) (usage : UInt8) :
    (if c.usage.code ≠ usage then throw (.wrongUsage c.usage usage) >>= k else k ()) =
      (c.usageObjection? usage).elim (k ()) .error := by
  unfold usageObjection?
  by_cases h : c.usage.code = usage
  · simp [h]
  · rw [if_pos h, if_neg h]
    rfl

theorem deviceCheck_eq (c : Certificate) (p : Platform) :
    (match c.targetDevice with
      | some d => if d ≠ p.device then throw (.wrongDevice d) >>= k else k ()
      | _ => k ()) = (c.deviceObjection? p).elim (k ()) .error := by
  unfold deviceObjection?
  cases c.targetDevice with
  | none => rfl
  | some d =>
    by_cases h : d = p.device
    · simp [h]
    · simp only [if_pos h, if_neg h]
      rfl

theorem timeCheck_eq (c : Certificate) (p : Platform) :
    (match (c.timeValidity, p.clock) with
      | (some last, some now) =>
        if last ≠ 0 ∧ last < now then throw (.expired last) >>= k else k ()
      | _ => k ()) = (c.timeObjection? p).elim (k ()) .error := by
  unfold timeObjection?
  cases c.timeValidity with
  | none => rfl
  | some last =>
    cases p.clock with
    | none => rfl
    | some now =>
      by_cases h : last ≠ 0 ∧ last < now
      · simp only [if_pos h]
        rfl
      · simp only [if_neg h]
        rfl

theorem indexCheck_eq (c : Certificate) (p : Platform) :
    (match c.validityIndex with
      | some i => if i < p.minValidityIndex then throw (.revoked i) else pure ()
      | _ => pure () : Except Rejection Unit) = (c.indexObjection? p).elim (.ok ()) .error := by
  unfold indexObjection?
  cases c.validityIndex with
  | none => rfl
  | some i =>
    by_cases h : i < p.minValidityIndex
    · simp only [if_pos h]
      rfl
    · simp only [if_neg h]
      rfl

end Checks

/-- The checks are made one after the other, and the first objection ends them. -/
theorem authorize_eq (c : Certificate) (usage : UInt8) (p : Platform) :
    c.authorize usage p = (c.objection? usage p).elim (.ok ()) .error := by
  unfold authorize objection?
  rw [elim_or, elim_or, elim_or]
  refine (usageCheck_eq _ c usage).trans
    (congrArg ((c.usageObjection? usage).elim · Except.error) ?_)
  refine (deviceCheck_eq _ c p).trans (congrArg ((c.deviceObjection? p).elim · Except.error) ?_)
  exact (timeCheck_eq _ c p).trans
    (congrArg ((c.timeObjection? p).elim · Except.error) (indexCheck_eq c p))

theorem usageObjection?_eq_none_iff : c.usageObjection? usage = none ↔ c.usage.code = usage := by
  simp [usageObjection?]

theorem deviceObjection?_eq_none_iff :
    c.deviceObjection? p = none ↔ ∀ d, c.targetDevice = some d → d = p.device := by
  unfold deviceObjection?
  cases c.targetDevice with
  | none => simp
  | some d => simp

theorem timeObjection?_eq_none_iff :
    c.timeObjection? p = none ↔
      ∀ last now, c.timeValidity = some last → last ≠ 0 → p.clock = some now → now ≤ last := by
  unfold timeObjection?
  cases c.timeValidity with
  | none => simp
  | some last =>
    cases p.clock with
    | none => simp
    | some now => simp

theorem indexObjection?_eq_none_iff :
    c.indexObjection? p = none ↔ ∀ i, c.validityIndex = some i → p.minValidityIndex ≤ i := by
  unfold indexObjection?
  cases c.validityIndex with
  | none => simp
  | some i => simp

/-- The device has nothing against a use exactly if it permits it. -/
theorem objection?_eq_none_iff : c.objection? usage p = none ↔ c.Permitted usage p := by
  rw [objection?, Option.or_eq_none_iff, Option.or_eq_none_iff, Option.or_eq_none_iff,
    usageObjection?_eq_none_iff, deviceObjection?_eq_none_iff, timeObjection?_eq_none_iff,
    indexObjection?_eq_none_iff]
  constructor
  · rintro ⟨husage, hdevice, htime, hindex⟩
    exact ⟨husage, hdevice, htime, hindex⟩
  · rintro ⟨husage, hdevice, htime, hindex⟩
    exact ⟨husage, hdevice, htime, hindex⟩

/-- Whatever the device has against a use, it refuses it as not authorized. -/
theorem refusal_of_objection? (h : c.objection? usage p = some r) : r.refusal = .notAuthorized := by
  have husage (h : c.usageObjection? usage = some r) : r.refusal = .notAuthorized := by
    unfold usageObjection? at h
    split at h <;> cases h
    rfl
  have hdevice (h : c.deviceObjection? p = some r) : r.refusal = .notAuthorized := by
    unfold deviceObjection? at h
    split at h
    · cases h
    · split at h <;> cases h
      rfl
  have htime (h : c.timeObjection? p = some r) : r.refusal = .notAuthorized := by
    unfold timeObjection? at h
    split at h
    · split at h <;> cases h
      rfl
    · cases h
  have hindex (h : c.indexObjection? p = some r) : r.refusal = .notAuthorized := by
    unfold indexObjection? at h
    split at h
    · cases h
    · split at h <;> cases h
      rfl
  rw [objection?, Option.or_eq_some_iff, Option.or_eq_some_iff, Option.or_eq_some_iff] at h
  rcases h with h | ⟨-, h | ⟨-, h | ⟨-, h⟩⟩⟩
  · exact husage h
  · exact hdevice h
  · exact htime h
  · exact hindex h

theorem authorize_eq_ok_iff : c.authorize usage p = .ok () ↔ c.Permitted usage p := by
  rw [authorize_eq, ← objection?_eq_none_iff]
  cases c.objection? usage p with
  | none => simp
  | some r => simp

theorem refusal_of_authorize (h : c.authorize usage p = .error r) :
    r.refusal = .notAuthorized := by
  rw [authorize_eq] at h
  cases hobjection : c.objection? usage p with
  | none =>
    rw [hobjection] at h
    cases h
  | some q =>
    rw [hobjection] at h
    cases h
    exact refusal_of_objection? hobjection

/-- The refusals of what cannot be read as a certificate. -/
def IsUnreadable (f : Refusal) : Prop := f = .malformedCertificate ∨ f = .unsupportedVersion

theorem isUnreadable_of_check {t : Tag} {v : Bytes} (h : check t v = .error r) :
    IsUnreadable r.refusal := by
  unfold check at h
  split at h
  · cases h
  · split at h <;> cases h
    · exact .inr rfl
    · exact .inl rfl

theorem isUnreadable_of_accept {s : Progress} {e : Tlv.Entry} (h : accept s e = .error r) :
    IsUnreadable r.refusal := by
  unfold accept at h
  split at h
  · cases h
    exact .inl rfl
  · split at h
    · cases h
      exact .inl rfl
    · split at h
      · cases h
        exact .inl rfl
      · split at h
        · rename_i hcheck
          cases h
          exact isUnreadable_of_check hcheck
        · cases h

theorem isUnreadable_of_collect {s : Progress} {es : List (Except CodecError Tlv.Entry)}
    (h : collect s es = .error r) : IsUnreadable r.refusal := by
  induction es generalizing s with
  | nil => cases h
  | cons x rest ih =>
    cases x with
    | error e =>
      cases h
      exact .inl rfl
    | ok e =>
      unfold collect at h
      split at h
      · rename_i haccept
        cases h
        exact isUnreadable_of_accept haccept
      · exact ih h

/-- What cannot be read is never refused as a forbidden use. -/
theorem isUnreadable_of_parse (h : parse raw = .error r) : IsUnreadable r.refusal := by
  unfold parse at h
  split at h
  · rename_i hcollect
    cases h
    exact isUnreadable_of_collect hcollect
  · split at h
    · cases h
      exact .inl rfl
    · split at h <;> cases h
      exact .inl rfl

theorem vouched_iff :
    c.Vouched p ↔ ∃ anchor, p.anchor? c.signerKeyId = some anchor ∧ c.verify anchor = .ok () := by
  simp only [Vouched, verify_eq_ok_iff, exists_and_left]

/-- There is only one way in which the signature of the issuer can fail. -/
theorem verify_of_ne_ok {anchor : TrustAnchor} (h : c.verify anchor ≠ .ok ()) :
    c.verify anchor = .error .badSignature := by
  unfold verify at h ⊢
  split
  · rfl
  · rename_i issuer hissuer
    rw [hissuer] at h
    by_cases hgood : Ecdsa.verify issuer c.signerAlgorithm c.signed c.signature = true
    · exact absurd (if_pos hgood) h
    · rw [if_neg hgood]

theorem load_of_parse_error (h : parse raw = .error r) : load raw usage p = .error r := by
  rw [load, h]
  rfl

/-- A certificate for which nobody vouches is refused for its issuer, if the device does not know
it, and for its signature otherwise. -/
theorem load_eq_error_of_not_vouched (hparse : parse raw = .ok c) (h : ¬ c.Vouched p) :
    load raw usage p = .error ((p.anchor? c.signerKeyId).elim
      (Rejection.unknownIssuer c.signerKeyId) fun _ => .badSignature) := by
  unfold load
  rw [hparse]
  cases hanchor : p.anchor? c.signerKeyId with
  | none =>
    simp only [Bind.bind, Except.bind, hanchor]
    rfl
  | some anchor =>
    have hverify := verify_of_ne_ok fun hok => h (vouched_iff.mpr ⟨anchor, hanchor, hok⟩)
    simp only [Bind.bind, Except.bind, hanchor, hverify]
    rfl

/-- A certificate for which nobody vouches is refused for its signature, whatever else it says. -/
theorem load_of_not_vouched (hparse : parse raw = .ok c) (h : ¬ c.Vouched p) :
    ∃ r, load raw usage p = .error r ∧ r.refusal = .invalidSignature := by
  refine ⟨_, load_eq_error_of_not_vouched hparse h, ?_⟩
  cases p.anchor? c.signerKeyId with
  | none => rfl
  | some anchor => rfl

/-- Once the issuer has vouched, the device decides, and then the certified key. -/
theorem load_of_vouched (hparse : parse raw = .ok c) (h : c.Vouched p) :
    load raw usage p = (c.authorize usage p).bind fun _ => c.trustedKey := by
  obtain ⟨anchor, hanchor, hverify⟩ := vouched_iff.mp h
  unfold load
  simp only [Bind.bind, Except.bind, hparse, hanchor, hverify]

/-- The refusal that a certificate meets: the first of the four questions that is not answered yes
decides. -/
inductive Refused (raw : Bytes) (usage : UInt8) (p : Platform) : Refusal → Prop where
  | unread {r : Rejection} : parse raw = .error r → Refused raw usage p r.refusal
  | unvouched {c : Certificate} : parse raw = .ok c → ¬ c.Vouched p →
    Refused raw usage p .invalidSignature
  | forbidden {c : Certificate} : parse raw = .ok c → c.Vouched p → ¬ c.Permitted usage p →
    Refused raw usage p .notAuthorized
  | keyless {c : Certificate} : parse raw = .ok c → c.Vouched p → c.Permitted usage p →
    Secp256k1.PublicKey.ofBytes? c.publicKey.bytes = none →
    Refused raw usage p .malformedCertificate

/-- A certificate that does not lead to a key meets the refusal that it ought to meet. -/
theorem refused_of_load (h : load raw usage p = .error r) : Refused raw usage p r.refusal := by
  cases hparse : parse raw with
  | error q =>
    rw [load_of_parse_error hparse] at h
    cases h
    exact .unread hparse
  | ok c =>
    by_cases hvouched : c.Vouched p
    · rw [load_of_vouched hparse hvouched] at h
      cases hauthorize : c.authorize usage p with
      | error q =>
        rw [hauthorize] at h
        cases h
        rw [refusal_of_authorize hauthorize]
        refine .forbidden hparse hvouched fun hpermitted => ?_
        rw [authorize_eq_ok_iff.mpr hpermitted] at hauthorize
        cases hauthorize
      | ok u =>
        rw [hauthorize] at h
        have hpermitted := authorize_eq_ok_iff.mp hauthorize
        change c.trustedKey = .error r at h
        unfold trustedKey at h
        split at h <;> cases h
        rename_i hkey
        exact .keyless hparse hvouched hpermitted hkey
    · obtain ⟨q, hq, hrefusal⟩ : ∃ q, load raw usage p = .error q ∧ _ :=
        load_of_not_vouched hparse hvouched
      rw [hq] at h
      cases h
      rw [hrefusal]
      exact .unvouched hparse hvouched

theorem exists_load_of_refused (h : Refused raw usage p f) :
    ∃ r, load raw usage p = .error r ∧ r.refusal = f := by
  cases h with
  | unread hparse => exact ⟨_, load_of_parse_error hparse, rfl⟩
  | unvouched hparse hvouched => exact load_of_not_vouched hparse hvouched
  | @forbidden c hparse hvouched hforbidden =>
    rw [load_of_vouched hparse hvouched]
    cases hauthorize : c.authorize usage p with
    | ok u => exact absurd (authorize_eq_ok_iff.mp hauthorize) hforbidden
    | error r => exact ⟨r, rfl, refusal_of_authorize hauthorize⟩
  | keyless hparse hvouched hpermitted hkey =>
    rw [load_of_vouched hparse hvouched, authorize_eq_ok_iff.mpr hpermitted]
    refine ⟨.badKey, ?_, rfl⟩
    change trustedKey _ = _
    rw [trustedKey, hkey]

/-- What has to hold of a certificate for it to lead to a key, and what the key then is. -/
theorem load_eq_ok_iff_permitted :
    load raw usage p = .ok key ↔ ∃ c publicKey, parse raw = .ok c ∧ c.Vouched p ∧
      c.Permitted usage p ∧ Secp256k1.PublicKey.ofBytes? c.publicKey.bytes = some publicKey ∧
      key = ⟨c.trustedName, c.signerKeyId, c.publicKeyId, c.usage, c.publicKeyAlgorithm,
        publicKey⟩ := by
  rw [load_eq_ok_iff]
  constructor
  · rintro ⟨c, anchor, hparse, hanchor, hverify, hauthorize, hkey⟩
    obtain ⟨publicKey, hpublic, heq⟩ := trustedKey_eq_ok_iff.mp hkey
    exact ⟨c, publicKey, hparse, vouched_iff.mpr ⟨anchor, hanchor, hverify⟩,
      authorize_eq_ok_iff.mp hauthorize, hpublic, heq⟩
  · rintro ⟨c, publicKey, hparse, hvouched, hpermitted, hpublic, heq⟩
    obtain ⟨anchor, hanchor, hverify⟩ := vouched_iff.mp hvouched
    exact ⟨c, anchor, hparse, hanchor, hverify, authorize_eq_ok_iff.mpr hpermitted,
      trustedKey_eq_ok_iff.mpr ⟨publicKey, hpublic, heq⟩⟩

/-- A use is refused as forbidden only after the issuer has vouched for the certificate. -/
theorem vouched_of_refused (h : Refused raw usage p .notAuthorized) :
    ∃ c, parse raw = .ok c ∧ c.Vouched p ∧ ¬ c.Permitted usage p := by
  generalize hf : Refusal.notAuthorized = f at h
  cases h with
  | unread hparse =>
    rcases isUnreadable_of_parse hparse with h | h
    · rw [h] at hf
      cases hf
    · rw [h] at hf
      cases hf
  | unvouched hparse hvouched => cases hf
  | forbidden hparse hvouched hforbidden => exact ⟨_, hparse, hvouched, hforbidden⟩
  | keyless hparse hvouched hpermitted hkey => cases hf

/-- Loading decides by four questions in a fixed order. The key is trusted exactly if all are
answered yes, and is then the certified one with all that the certificate says of it. Otherwise the
first question that is not names the refusal; in particular a use is refused as forbidden only where
the issuer has vouched. -/
theorem first_failing_check_decides (raw : Bytes) (usage : UInt8) (p : Platform) :
    (∀ key, load raw usage p = .ok key ↔ ∃ c publicKey, parse raw = .ok c ∧ c.Vouched p ∧
      c.Permitted usage p ∧ Secp256k1.PublicKey.ofBytes? c.publicKey.bytes = some publicKey ∧
      key = ⟨c.trustedName, c.signerKeyId, c.publicKeyId, c.usage, c.publicKeyAlgorithm,
        publicKey⟩) ∧
    (∀ key, load raw usage p = .ok key → 1 ≤ key.name.bytes.length ∧ key.name.bytes.length ≤ 32 ∧
      Bytes.ArePrintable key.name.bytes) ∧
    (∀ f, (∃ r, load raw usage p = .error r ∧ r.refusal = f) ↔ Refused raw usage p f) ∧
    ∀ r, load raw usage p = .error r → r.refusal = .notAuthorized →
      ∃ c, parse raw = .ok c ∧ c.Vouched p ∧ ¬ c.Permitted usage p := by
  refine ⟨fun key => load_eq_ok_iff_permitted, ?_, ?_, ?_⟩
  · intro key _
    exact ⟨key.name.length_pos, key.name.length_le, key.name.printable⟩
  · intro f
    constructor
    · rintro ⟨r, hload, rfl⟩
      exact refused_of_load hload
    · exact exists_load_of_refused
  · intro r hload hrefusal
    exact vouched_of_refused (hrefusal ▸ refused_of_load hload)

end TokenProvision.Certificate
