import TokenProvision.Certificate.Trust
import TokenProvision.Proofs.Certificate.Grammar
import TokenProvision.Proofs.Guarded.Basic

/-!
Guarded reading of certificates. The entries come from a cursor, each tag has its bit in the word of
those seen, the signed part is cut at the place of the signature, and when no mandatory tag is
missing the certificate is put together from what was kept. On no byte string does any of this trap,
so no field is missing in the end, and what is read is what the plain reader reads.
-/
namespace TokenProvision.Certificate

open Guarded

def guardedNumber (e : Tlv.Entry) (width : Nat) : Guarded (Except CodecError Nat) := do
  if e.value.length = width then return .ok (← number width e.value)
  else return .error .invalidLength

def guardedCheckNumber (e : Tlv.Entry) (width : Nat) : Guarded (Except Rejection Unit) := do
  match ← guardedNumber e width with
  | .error _ => return .error .malformed
  | .ok _ => return .ok ()

/-- Checks the value of an entry of `raw`, and takes from the entry what its tag asks for. -/
def guardedCheck (raw : Bytes) (tag : Tag) (e : Tlv.Entry) : Guarded (Except Rejection Unit) := do
  match tag with
  | .signerKeyId | .publicKeyId => guardedCheckNumber e 2
  | .validityIndex | .timeValidity => guardedCheckNumber e 4
  | .signature =>
    let _ ← upTo raw e.offset
    return .ok ()
  | _ => return check tag e.value

def guardedAccept (raw : Bytes) (p : Progress) (e : Tlv.Entry) :
    Guarded (Except Rejection Progress) := do
  match Tag.ofCode? e.tag with
  | none => return .error .malformed
  | some tag =>
    let mask ← bit tag.bit
    let last ← bit Tag.signature.bit
    if p.seen &&& last ≠ 0 ∨ p.seen &&& mask ≠ 0 then return .error .malformed
    else if ¬ tag.FitsAt p.fields.length then return .error .malformed
    else
      match ← guardedCheck raw tag e with
      | .error r => return .error r
      | .ok () => return .ok (p.push ⟨tag, e.value, e.offset⟩)

/-- Checks the entries that a cursor answers with. -/
def guardedCollect (c : Tlv.Cursor) (p : Progress) : Guarded (Except Rejection Progress) :=
  match _h : c.next with
  | .error t => .error t
  | .ok (none, _) => .ok (.ok p)
  | .ok (some (.error _), _) => .ok (.error .malformed)
  | .ok (some (.ok e), c') =>
    match guardedAccept c.bytes p e with
    | .error t => .error t
    | .ok (.error r) => .ok (.error r)
    | .ok (.ok p) => guardedCollect c' p
termination_by c.bytes.length - c.index
decreasing_by exact Tlv.Cursor.left_lt_of_next _h

/-- The first of some tags whose bit is not set. -/
def guardedMissing? (p : Progress) : List Tag → Guarded (Option Tag)
  | [] => return none
  | tag :: rest => do
    let mask ← bit tag.bit
    if p.seen &&& mask = 0 then return some tag else guardedMissing? p rest

/-- Puts a certificate together from fields of which none should be missing. -/
def build (raw : Bytes) (fields : List Field) : Guarded Certificate :=
  match ofFields? raw fields with
  | none => .error .missing
  | some c => .ok c

def guardedParse (raw : Bytes) : Guarded (Except Rejection Certificate) := do
  match ← guardedCollect (.start raw) .start with
  | .error r => return .error r
  | .ok p =>
    match ← guardedMissing? p Tag.mandatory with
    | some tag => return .error (.missing tag)
    | none => return .ok (← build raw p.fields)

/-- The certified key, with the name copied into a store of the size of a label. -/
def guardedTrustedKey (c : Certificate) : Guarded (Except Rejection TrustedKey) := do
  match Secp256k1.PublicKey.ofBytes? c.publicKey.bytes with
  | none => return .error .badKey
  | some key =>
    let name ← label maxName c.trustedName.bytes
    return .ok ⟨name, c.signerKeyId, c.publicKeyId, c.usage, c.publicKeyAlgorithm, key⟩

def guardedLoad (raw : Bytes) (usage : UInt8) (p : Platform) :
    Guarded (Except Rejection TrustedKey) := do
  match ← guardedParse raw with
  | .error r => return .error r
  | .ok c =>
    match p.anchor? c.signerKeyId with
    | none => return .error (.unknownIssuer c.signerKeyId)
    | some anchor =>
      match c.verify anchor with
      | .error r => return .error r
      | .ok () =>
        match c.authorize usage p with
        | .error r => return .error r
        | .ok () => guardedTrustedKey c

variable {raw : Bytes} {p : Progress} {tag : Tag} {e : Tlv.Entry}

theorem bit_tag (tag : Tag) : bit tag.bit = .ok tag.mask := by
  cases tag <;> rfl

theorem guardedNumber_eq (e : Tlv.Entry) (width : Nat) :
    guardedNumber e width =
      .ok (if e.value.length = width then .ok (Bytes.toNat e.value)
        else .error .invalidLength) := by
  unfold guardedNumber
  split
  · rename_i hwidth
    rw [number_of_le (Nat.le_of_eq hwidth.symm), List.take_of_length_le (Nat.le_of_eq hwidth)]
    rfl
  · rfl

/-- Where a tag admits the values of a width, reading a number of that width is the check. -/
theorem guardedCheckNumber_of_admits {width : Nat}
    (hadmits : tag.admits e.value = decide (e.value.length = width)) (hversion : tag ≠ .version) :
    guardedCheckNumber e width = .ok (check tag e.value) := by
  rw [guardedCheckNumber, guardedNumber_eq, ok_bind, check, hadmits]
  by_cases hwidth : e.value.length = width
  · rw [if_pos hwidth, if_pos (decide_eq_true hwidth)]
    rfl
  · rw [if_neg hwidth, if_neg (by simp [hwidth]), if_neg fun hand => hversion hand.1]
    rfl

/-- An entry that begins within the bytes is checked as its value alone is. -/
theorem guardedCheck_of_le (h : e.offset ≤ raw.length) (tag : Tag) :
    guardedCheck raw tag e = .ok (check tag e.value) := by
  cases tag with
  | signerKeyId | publicKeyId | validityIndex | timeValidity =>
    exact guardedCheckNumber_of_admits rfl (by decide)
  | signature =>
    unfold guardedCheck
    dsimp only
    rw [upTo_of_le h]
    rfl
  | _ => rfl

/-- An entry that begins within the bytes is accepted as it is without them. -/
theorem guardedAccept_of_le (h : e.offset ≤ raw.length) (p : Progress) :
    guardedAccept raw p e = .ok (accept p e) := by
  unfold guardedAccept accept
  cases Tag.ofCode? e.tag with
  | none => rfl
  | some tag =>
    have hseen : (p.has .signature || p.has tag) = true ↔
        p.seen &&& Tag.signature.mask ≠ 0 ∨ p.seen &&& tag.mask ≠ 0 := by
      simp [Progress.has]
    dsimp only
    rw [bit_tag, ok_bind, bit_tag, ok_bind, guardedCheck_of_le h, ok_bind]
    simp only [hseen]
    split
    · rfl
    · split
      · rfl
      · cases check tag e.value <;> rfl

theorem guardedCollect_of_next {c c' : Tlv.Cursor} {answer : Option (Except CodecError Tlv.Entry)}
    (h : c.next = .ok (answer, c')) (p : Progress) :
    guardedCollect c p =
      match answer with
      | none => .ok (.ok p)
      | some (.error _) => .ok (.error .malformed)
      | some (.ok e) =>
        match guardedAccept c.bytes p e with
        | .error t => .error t
        | .ok (.error r) => .ok (.error r)
        | .ok (.ok p) => guardedCollect c' p := by
  rw [guardedCollect]
  split <;> rename_i hnext <;> rw [h] at hnext <;> cases hnext <;> rfl

/-- The entries of a cursor are checked in turn. -/
theorem guardedCollect_eq (c : Tlv.Cursor) (p : Progress) :
    guardedCollect c p = .ok (collect p c.items) := by
  -- by induction on what lies behind the cursor, one entry a round
  induction hitems : c.items generalizing c p with
  | nil =>
    obtain ⟨c', hnext, -⟩ := c.exists_next
    rw [hitems] at hnext
    rw [guardedCollect_of_next hnext]
    rfl
  | cons item rest ih =>
    obtain ⟨c', hnext, htail, -, hmove⟩ := c.exists_next
    rw [hitems] at hnext htail hmove
    rw [guardedCollect_of_next hnext]
    cases item with
    | error r => rfl
    | ok e =>
      have hplace : e.offset ≤ c.bytes.length := (hmove e rfl).1
      simp only [List.head?_cons, guardedAccept_of_le hplace, collect]
      cases accept p e with
      | error r => rfl
      | ok q => exact ih c' q htail

theorem guardedMissing?_eq (p : Progress) (tags : List Tag) :
    guardedMissing? p tags = .ok (tags.find? fun tag => !p.has tag) := by
  induction tags with
  | nil => rfl
  | cons tag rest ih =>
    rw [guardedMissing?, bit_tag, ok_bind, ih, List.find?_cons]
    by_cases hseen : p.seen &&& tag.mask = 0
    · simp [Progress.has, hseen]
      rfl
    · simp [Progress.has, hseen]

/-- When every entry is accepted and no mandatory tag is missed, no field is missing either. -/
theorem exists_ofFields?_of_collect (hcollect : collect .start (Tlv.scan raw) = .ok p)
    (hmissing : missing? p = none) : ∃ c, ofFields? raw p.fields = some c := by
  obtain ⟨fs, hscan, rfl, hadm⟩ := (collect_eq_ok_iff Progress.sound_start).mp hcollect
  obtain ⟨es, hfits, -, rfl⟩ := scan_eq_fields_iff.mp hscan
  rw [map_pair_fieldsFrom, Progress.entries_start, List.nil_append] at hadm
  have hwell : WellFormed es :=
    wellFormed_iff.mpr ⟨hfits, hadm, (missing?_eq_none_iff hadm).mp hmissing⟩
  rw [fields_foldl_push]
  exact exists_ofFields? raw (complete_fieldsFrom hwell 0)

theorem guardedParse_eq (raw : Bytes) : guardedParse raw = .ok (parse raw) := by
  rw [guardedParse, guardedCollect_eq, ok_bind, Tlv.Cursor.items_start, parse]
  cases hcollect : collect .start (Tlv.scan raw) with
  | error r => rfl
  | ok p =>
    dsimp only
    rw [guardedMissing?_eq, ok_bind, missing?]
    cases hmissing : Tag.mandatory.find? fun tag => !p.has tag with
    | some tag => rfl
    | none =>
      obtain ⟨c, hc⟩ := exists_ofFields?_of_collect hcollect hmissing
      dsimp only
      rw [build, hc]
      rfl

theorem guardedTrustedKey_eq (c : Certificate) : guardedTrustedKey c = .ok c.trustedKey := by
  unfold guardedTrustedKey trustedKey
  cases Secp256k1.PublicKey.ofBytes? c.publicKey.bytes with
  | none => rfl
  | some key =>
    dsimp only
    rw [label_of_ofBytes? (Label.ofBytes?_bytes c.trustedName)]
    rfl

theorem guardedLoad_eq (raw : Bytes) (usage : UInt8) (platform : Platform) :
    guardedLoad raw usage platform = .ok (load raw usage platform) := by
  rw [guardedLoad, guardedParse_eq, ok_bind, load]
  cases parse raw with
  | error r => rfl
  | ok c =>
    simp only [Bind.bind, Except.bind]
    cases platform.anchor? c.signerKeyId with
    | none => rfl
    | some anchor =>
      dsimp only
      cases c.verify anchor with
      | error r => rfl
      | ok _ =>
        dsimp only
        cases c.authorize usage platform with
        | error r => rfl
        | ok _ => exact guardedTrustedKey_eq c

end TokenProvision.Certificate
