import TokenProvision.Proofs.Certificate.Authorization

/-!
Why a byte string is not a certificate. The version is the only cause that the host can tell from
the others, and it is given exactly where the kind of structure stands in front and a version
behind it that is not the current one: nothing before the version can get in the way there, and
whatever follows is not even scanned.
-/
namespace TokenProvision.Certificate

variable {p : Progress} {e : Tlv.Entry} {raw : Bytes} {r : Rejection}

theorem collect_append (p : Progress) (xs ys : List (Except CodecError Tlv.Entry)) :
    collect p (xs ++ ys) = (collect p xs).bind fun q => collect q ys := by
  induction xs generalizing p with
  | nil => rfl
  | cons x xs ih =>
    cases x with
    | error c => rfl
    | ok e =>
      simp only [List.cons_append, collect]
      cases accept p e with
      | error r => rfl
      | ok q => exact ih q

/-- The loop fails exactly at some item, when those before it are accepted and this one is not. -/
theorem collect_eq_error_iff {items : List (Except CodecError Tlv.Entry)} :
    collect p items = .error r ↔ ∃ before item later q, items = before ++ item :: later ∧
      collect p before = .ok q ∧ collect q [item] = .error r := by
  constructor
  · intro h
    -- an item that is accepted moves to those before, so the progress is left general
    induction items generalizing p with
    | nil => cases h
    | cons item later ih =>
      rw [← List.singleton_append, collect_append] at h
      cases hitem : collect p [item] with
      | error c =>
        rw [hitem] at h
        exact ⟨[], item, later, p, rfl, rfl, hitem.trans h⟩
      | ok q =>
        rw [hitem] at h
        obtain ⟨before, x, after, q', rfl, hbefore, hx⟩ := ih h
        refine ⟨item :: before, x, after, q', rfl, ?_, hx⟩
        rw [← List.singleton_append, collect_append, hitem]
        exact hbefore
  · rintro ⟨before, item, later, q, rfl, hbefore, hitem⟩
    rw [← List.singleton_append, collect_append, hbefore]
    change collect q ([item] ++ later) = _
    rw [collect_append, hitem]
    rfl

/-- The only value that is refused for its version is one other byte. -/
theorem check_eq_unsupportedVersion_iff {t : Tag} {v : Bytes} :
    check t v = .error .unsupportedVersion ↔ t = .version ∧ ∃ b, b ≠ 0x02 ∧ v = [b] := by
  unfold check
  constructor
  · intro h
    split at h
    · cases h
    · rename_i hillegal
      split at h
      · rename_i hversion
        obtain ⟨rfl, hlength⟩ := hversion
        obtain ⟨b, rfl⟩ := List.length_eq_one_iff.mp hlength
        refine ⟨rfl, b, ?_, rfl⟩
        rintro rfl
        exact hillegal rfl
      · cases h
  · rintro ⟨rfl, b, hb, rfl⟩
    have hillegal : ¬ Tag.version.admits [b] = true := by
      simpa [admits_iff, Legal] using hb
    rw [if_neg hillegal, if_pos ⟨rfl, rfl⟩]

/-- An entry is refused for its version exactly if it stands second, for the first time, and shows
one other byte. -/
theorem accept_eq_unsupportedVersion_iff :
    accept p e = .error .unsupportedVersion ↔ e.tag = Tag.version.code ∧
      p.has .signature = false ∧ p.has .version = false ∧ p.fields.length = 1 ∧
      ∃ b, b ≠ 0x02 ∧ e.value = [b] := by
  constructor
  · intro h
    unfold accept at h
    split at h
    · cases h
    · rename_i t ht
      split at h
      · cases h
      · rename_i hseen
        split at h
        · cases h
        · rename_i hfits
          split at h
          · rename_i hcheck
            cases h
            obtain ⟨rfl, b, hb, hvalue⟩ := check_eq_unsupportedVersion_iff.mp hcheck
            rw [not_not] at hfits
            rw [Bool.not_eq_true, Bool.or_eq_false_iff] at hseen
            exact ⟨Tag.ofCode?_eq_some_iff.mp ht, hseen.1, hseen.2, hfits.2.mp rfl, b, hb, hvalue⟩
          · cases h
  · rintro ⟨htag, hsignature, hversion, hlength, b, hb, hvalue⟩
    have hfits : Tag.version.FitsAt p.fields.length := by
      rw [hlength]
      decide
    have hcheck := check_eq_unsupportedVersion_iff.mpr ⟨rfl, b, hb, hvalue⟩
    unfold accept
    simp only [htag, Tag.ofCode?_code, hsignature, hversion, Bool.or_self, Bool.false_eq_true,
      if_false, hfits, not_true_eq_false, hcheck]

/-- What fails after the loop does not fail for the version. -/
theorem parse_eq_unsupportedVersion_iff_collect :
    parse raw = .error .unsupportedVersion ↔
      collect .start (Tlv.scan raw) = .error .unsupportedVersion := by
  unfold parse
  constructor
  · intro h
    split at h
    · rename_i hcollect
      rw [hcollect, Except.error.inj h]
    · split at h
      · cases h
      · split at h <;> cases h
  · intro h
    rw [h]

theorem Admissible.eq_structureType {es : List (Tag × Bytes)} (h : Admissible es)
    (hlength : es.length = 1) : es = [(.structureType, [0x01])] := by
  obtain ⟨⟨t, v⟩, rfl⟩ := List.length_eq_one_iff.mp hlength
  have ht : t = .structureType := (h.placed 0 (t, v) rfl).1.mpr rfl
  subst ht
  have hv : v = [0x01] := h.legal (.structureType, v) (by simp)
  rw [hv]

/-- The kind of structure and a version, as they stand in front of a certificate. -/
def front (v : UInt8) : Bytes := [0x01, 0x01, 0x01, 0x02, 0x01, v]

theorem front_eq_encodeAll (v : UInt8) :
    front v = Tlv.encodeAll [(Tag.structureType.code, [0x01]), (Tag.version.code, [v])] := rfl

/-- The front is scanned first, whatever follows it. -/
theorem scan_front_append (v : UInt8) (rest : Bytes) :
    Tlv.scan (front v ++ rest) =
      .ok ⟨0x01, [0x01], 0⟩ :: .ok ⟨0x02, [v], 3⟩ :: Tlv.scanFrom 6 rest := by
  have hfits : Tlv.Fits [(Tag.structureType.code, [0x01]), (Tag.version.code, [v])] := by
    simp [Tlv.Fits, Tlv.maxValueLength]
  rw [front_eq_encodeAll, Tlv.scan, Tlv.scanFrom_encodeAll_append 0 hfits rest]
  rfl

/-- Where the loop fails for the version, it has read the kind of structure and nothing else. -/
theorem eq_front_of_collect
    (h : collect .start (Tlv.scan raw) = .error .unsupportedVersion) :
    ∃ v rest, v ≠ 0x02 ∧ raw = front v ++ rest := by
  obtain ⟨before, item, later, q, hscan, hbefore, hitem⟩ := collect_eq_error_iff.mp h
  obtain ⟨fs, rfl, rfl, hadm⟩ := (collect_eq_ok_iff Progress.sound_start).mp hbefore
  rw [Progress.entries_start, List.nil_append] at hadm
  cases item with
  | error c => cases hitem
  | ok e =>
    have haccept : accept (fs.foldl Progress.push .start) e = .error .unsupportedVersion := by
      simp only [collect] at hitem
      split at hitem
      · rename_i haccept
        rw [haccept, Except.error.inj hitem]
      · cases hitem
    obtain ⟨htag, -, -, hlength, v, hv, hvalue⟩ := accept_eq_unsupportedVersion_iff.mp haccept
    -- the entry is refused as the second one, so a single field has been accepted before it
    rw [fields_foldl_push, Progress.start, List.nil_append] at hlength
    have hfirst := hadm.eq_structureType (by rw [List.length_map, hlength])
    have hitems : Tlv.scanFrom 0 raw = (fs.map Field.entry ++ [e]).map .ok ++ later := by
      rw [← Tlv.scan, hscan]
      simp
    obtain ⟨-, -, rest, hraw, -⟩ := Tlv.eq_encodeAll_append_of_scanFrom hitems
    have hpairs : (fs.map Field.entry).map Tlv.Entry.pair = coded (fs.map Field.pair) := by
      rw [coded, List.map_map, List.map_map]
      rfl
    refine ⟨v, rest, hv, ?_⟩
    rw [hraw, List.map_append, hpairs, hfirst, front_eq_encodeAll, List.map_singleton,
      Tlv.Entry.pair, htag, hvalue]
    rfl

/-- The loop fails for the version wherever another version stands in front. -/
theorem collect_front_append {v : UInt8} (hv : v ≠ 0x02) (rest : Bytes) :
    collect .start (Tlv.scan (front v ++ rest)) = .error .unsupportedVersion := by
  have hkind : accept .start ⟨0x01, [0x01], 0⟩ =
      .ok (Progress.start.push ⟨.structureType, [0x01], 0⟩) := by decide
  have hversion : accept (Progress.start.push ⟨.structureType, [0x01], 0⟩) ⟨0x02, [v], 3⟩ =
      .error .unsupportedVersion :=
    accept_eq_unsupportedVersion_iff.mpr ⟨rfl, by decide, by decide, rfl, v, hv, rfl⟩
  rw [scan_front_append]
  simp only [collect, hkind, hversion]

/-- A certificate is refused for its version exactly if the kind of structure and another version
stand in front. -/
theorem parse_eq_unsupportedVersion_iff :
    parse raw = .error .unsupportedVersion ↔ ∃ v rest, v ≠ 0x02 ∧ raw = front v ++ rest := by
  rw [parse_eq_unsupportedVersion_iff_collect]
  constructor
  · exact eq_front_of_collect
  · rintro ⟨v, rest, hv, rfl⟩
    exact collect_front_append hv rest

theorem Rejection.refusal_eq_unsupportedVersion_iff :
    r.refusal = .unsupportedVersion ↔ r = .unsupportedVersion := by
  cases r <;> simp [Rejection.refusal]

/-- Every byte string that is not a certificate is refused as malformed, unless the kind of
structure stands in front and behind it a version of one byte that is not the current one; then it
is refused for its version, whatever follows. -/
theorem version_in_front_decides_refusal (raw : Bytes) :
    ((∃ r, parse raw = .error r ∧ r.refusal = .unsupportedVersion) ↔
      ∃ v rest, v ≠ 0x02 ∧ raw = [0x01, 0x01, 0x01, 0x02, 0x01, v] ++ rest) ∧
    ∀ r, parse raw = .error r → r.refusal ≠ .unsupportedVersion →
      r.refusal = .malformedCertificate := by
  constructor
  · simp only [Rejection.refusal_eq_unsupportedVersion_iff, exists_eq_right]
    exact parse_eq_unsupportedVersion_iff
  · intro r hparse hother
    exact (isUnreadable_of_parse hparse).resolve_right hother

end TokenProvision.Certificate
