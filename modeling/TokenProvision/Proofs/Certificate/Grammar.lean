import Mathlib.Data.List.Nodup
import TokenProvision.Proofs.Certificate.Reading

/-!
The grammar of certificates. A byte string is read as a certificate exactly if it is the wire form
of well-formed entries, and the certificate shows those entries and no other; what was signed is
the wire form of all of them but the last.
-/
namespace TokenProvision.Certificate

/-- The entries of a certificate: legal values under distinct tags, the kind of structure first, the
version second, the signature last, and no mandatory tag missing. -/
structure WellFormed (entries : List (Tag × Bytes)) : Prop where
  distinct : (entries.map Prod.fst).Nodup
  first : entries[0]? = some (.structureType, [0x01])
  second : entries[1]? = some (.version, [0x02])
  last : (entries.getLast?).map Prod.fst = some .signature
  mandatory : ∀ t ∈ Tag.mandatory, t ∈ entries.map Prod.fst
  legal : ∀ e ∈ entries, Legal e.1 e.2
  fits : ∀ e ∈ entries, e.2.length ≤ 0xffff

def coded (entries : List (Tag × Bytes)) : List (UInt8 × Bytes) :=
  entries.map fun e => (e.1.code, e.2)

/-- The wire form of entries, each with its length in the shortest form. -/
def wire (entries : List (Tag × Bytes)) : Bytes := Tlv.encodeAll (coded entries)

/-- The fields of entries, the first of which lies at `offset`. -/
def fieldsFrom (offset : Nat) : List (Tag × Bytes) → List Field
  | [] => []
  | (tag, value) :: rest =>
    ⟨tag, value, offset⟩ :: fieldsFrom (offset + Tlv.encodedLength value.length) rest

theorem wire_append (xs ys : List (Tag × Bytes)) : wire (xs ++ ys) = wire xs ++ wire ys := by
  rw [wire, coded, List.map_append, Tlv.encodeAll_append]
  rfl

theorem wire_singleton (t : Tag) (v : Bytes) : wire [(t, v)] = Tlv.encode t.code v :=
  List.append_nil _

theorem coded_injective : Function.Injective coded := by
  refine List.map_injective_iff.mpr ?_
  rintro ⟨t, v⟩ ⟨u, w⟩ h
  rw [Prod.mk.injEq] at h ⊢
  exact ⟨Tag.code_injective h.1, h.2⟩

@[simp] theorem map_pair_fieldsFrom (offset : Nat) (es : List (Tag × Bytes)) :
    (fieldsFrom offset es).map Field.pair = es := by
  induction es generalizing offset with
  | nil => rfl
  | cons e rest ih => simp [fieldsFrom, ih, Field.pair]

theorem map_entry_fieldsFrom (offset : Nat) (es : List (Tag × Bytes)) :
    (fieldsFrom offset es).map Field.entry = Tlv.place offset (coded es) := by
  induction es generalizing offset with
  | nil => rfl
  | cons e rest ih =>
    rw [fieldsFrom, List.map_cons, ih]
    rfl

theorem fieldsFrom_append (offset : Nat) (xs ys : List (Tag × Bytes)) :
    fieldsFrom offset (xs ++ ys) =
      fieldsFrom offset xs ++ fieldsFrom (offset + (wire xs).length) ys := by
  apply List.map_injective_iff.mpr Field.entry_injective
  rw [List.map_append, map_entry_fieldsFrom, map_entry_fieldsFrom, map_entry_fieldsFrom, coded,
    List.map_append, Tlv.place_append]
  rfl

/-- A scan finds the entries of some fields, and nothing that cannot be read, exactly if the bytes
are the wire form of those fields. -/
theorem scan_eq_fields_iff {raw : Bytes} {fs : List Field} :
    Tlv.scan raw = fs.map (fun f => .ok f.entry) ↔
      ∃ es, Tlv.Fits (coded es) ∧ raw = wire es ∧ fs = fieldsFrom 0 es := by
  have hmap : fs.map (fun f => Except.ok f.entry) =
      (fs.map Field.entry).map (.ok : Tlv.Entry → Except CodecError Tlv.Entry) := by
    rw [List.map_map]
    rfl
  rw [hmap, Tlv.scan_eq_ok_iff]
  constructor
  · rintro ⟨entries, hfits, rfl, hplace⟩
    have hcoded : entries = coded (fs.map Field.pair) := by
      rw [← Tlv.map_pair_place 0 entries, ← hplace, coded, List.map_map, List.map_map]
      rfl
    subst hcoded
    refine ⟨fs.map Field.pair, hfits, rfl, ?_⟩
    apply List.map_injective_iff.mpr Field.entry_injective
    rw [hplace, map_entry_fieldsFrom]
  · rintro ⟨es, hfits, rfl, rfl⟩
    exact ⟨coded es, hfits, rfl, map_entry_fieldsFrom 0 es⟩

theorem fields_foldl_push (p : Progress) (fs : List Field) :
    (fs.foldl Progress.push p).fields = p.fields ++ fs := by
  induction fs generalizing p with
  | nil => simp
  | cons f fs ih => simp [ih, Progress.push]

theorem sound_foldl_push {p : Progress} (hp : p.Sound) (fs : List Field)
    (h : Admissible (p.entries ++ fs.map Field.pair)) : (fs.foldl Progress.push p).Sound := by
  induction fs generalizing p with
  | nil => exact hp
  | cons f fs ih =>
    rw [List.map_cons, List.append_cons] at h
    refine ih (hp.push h.of_append) ?_
    rw [Progress.entries_push]
    exact h

/-- After admissible entries no tag is missed exactly if every mandatory tag is among theirs. -/
theorem missing?_eq_none_iff {es : List (Tag × Bytes)} (h : Admissible es) :
    missing? ((fieldsFrom 0 es).foldl Progress.push .start) = none ↔
      ∀ t ∈ Tag.mandatory, t ∈ es.map Prod.fst := by
  have hsound := sound_foldl_push Progress.sound_start (fieldsFrom 0 es) (by simpa using h)
  simp only [missing?, List.find?_eq_none, Bool.not_eq_true', Bool.not_eq_false, hsound.has_iff]
  simp [Progress.entries, fields_foldl_push, Progress.start]

/-- Reading a certificate is scanning, checking the entries in turn, looking for what is missing,
and taking the fields out. -/
theorem parse_eq_ok_iff_fields {raw : Bytes} {c : Certificate} :
    parse raw = .ok c ↔
      ∃ es, Tlv.Fits (coded es) ∧ raw = wire es ∧ Admissible es ∧
        (∀ t ∈ Tag.mandatory, t ∈ es.map Prod.fst) ∧ ofFields? raw (fieldsFrom 0 es) = some c := by
  constructor
  · intro h
    unfold parse at h
    cases hcollect : collect .start (Tlv.scan raw) with
    | error r => rw [hcollect] at h; cases h
    | ok p =>
      obtain ⟨fs, hscan, rfl, hadm⟩ := (collect_eq_ok_iff Progress.sound_start).mp hcollect
      obtain ⟨es, hfits, hraw, rfl⟩ := scan_eq_fields_iff.mp hscan
      rw [map_pair_fieldsFrom, Progress.entries_start, List.nil_append] at hadm
      rw [hcollect] at h
      dsimp only at h
      split at h
      · cases h
      · rename_i hnone
        rw [fields_foldl_push] at h
        split at h
        · cases h
        · rename_i hc
          cases h
          exact ⟨es, hfits, hraw, hadm, (missing?_eq_none_iff hadm).mp hnone, hc⟩
  · rintro ⟨es, hfits, hraw, hadm, hmandatory, hc⟩
    have hscan := scan_eq_fields_iff.mpr ⟨es, hfits, hraw, rfl⟩
    have hcollect := (collect_eq_ok_iff Progress.sound_start).mpr
      ⟨fieldsFrom 0 es, hscan, rfl, by simpa using hadm⟩
    have hfields : ((fieldsFrom 0 es).foldl Progress.push .start).fields = fieldsFrom 0 es :=
      fields_foldl_push .start _
    simp only [parse, hcollect, (missing?_eq_none_iff hadm).mpr hmandatory, hfields, hc]

/-- A tag that stands at a place of distinct entries stands at no other. -/
theorem place_unique {es : List (Tag × Bytes)} (h : (es.map Prod.fst).Nodup) {j k : Nat}
    {d e : Tag × Bytes} (hd : es[j]? = some d) (he : es[k]? = some e) (ht : d.1 = e.1) : j = k := by
  have hj : j < (es.map Prod.fst).length := by
    rw [List.length_map]
    exact (List.getElem?_eq_some_iff.mp hd).1
  refine (List.getElem?_inj hj h).mp ?_
  rw [List.getElem?_map, List.getElem?_map, hd, he, Option.map_some, Option.map_some, ht]

theorem WellFormed.fits_coded {es : List (Tag × Bytes)} (h : WellFormed es) :
    Tlv.Fits (coded es) := by
  rw [Tlv.Fits, coded, List.forall_mem_map]
  exact h.fits

/-- The signature of well-formed entries is their last entry. -/
theorem WellFormed.exists_dropLast {es : List (Tag × Bytes)} (h : WellFormed es) :
    ∃ v, es = es.dropLast ++ [(.signature, v)] := by
  obtain ⟨⟨t, v⟩, he, ht⟩ := Option.map_eq_some_iff.mp h.last
  dsimp only at ht
  subst ht
  exact ⟨v, (List.dropLast_append_getLast? _ he).symm⟩

theorem WellFormed.admissible {es : List (Tag × Bytes)} (h : WellFormed es) : Admissible es where
  distinct := h.distinct
  placed := by
    intro k e hk
    constructor
    · constructor
      · intro ht
        exact place_unique h.distinct hk h.first ht
      · rintro rfl
        rw [Option.some.inj (hk.symm.trans h.first)]
    · constructor
      · intro ht
        exact place_unique h.distinct hk h.second ht
      · rintro rfl
        rw [Option.some.inj (hk.symm.trans h.second)]
  final := by
    obtain ⟨v, hes⟩ := h.exists_dropLast
    have hdistinct := h.distinct
    rw [hes, List.map_append, List.nodup_append] at hdistinct
    intro x hx hxs
    exact hdistinct.2.2 x.1 (List.mem_map_of_mem hx) .signature (by simp) hxs
  legal := h.legal

/-- Of admissible entries, one with a mandatory tag that may stand at one place only stands there,
with the only value that is legal for it. -/
theorem Admissible.getElem?_of_mandatory {es : List (Tag × Bytes)} (h : Admissible es)
    (hmandatory : ∀ t ∈ Tag.mandatory, t ∈ es.map Prod.fst) {t : Tag} {v : Bytes} {k : Nat}
    (ht : t ∈ Tag.mandatory) (hplace : ∀ j, t.FitsAt j → j = k) (hvalue : ∀ w, Legal t w → w = v) :
    es[k]? = some (t, v) := by
  obtain ⟨⟨u, w⟩, he, rfl⟩ := List.mem_map.mp (hmandatory t ht)
  obtain ⟨j, hj⟩ := List.mem_iff_getElem?.mp he
  rw [← hplace j (h.placed j _ hj), hj, hvalue w (h.legal _ he)]

/-- Of admissible entries, the signature can only be the last. -/
theorem Admissible.getLast?_of_mandatory {es : List (Tag × Bytes)} (h : Admissible es)
    (hmandatory : ∀ t ∈ Tag.mandatory, t ∈ es.map Prod.fst) :
    (es.getLast?).map Prod.fst = some .signature := by
  obtain ⟨x, hx, hxs⟩ := List.mem_map.mp (hmandatory .signature (by decide))
  have hne : es ≠ [] := List.ne_nil_of_mem hx
  rw [List.getLast?_eq_some_getLast hne, Option.map_some]
  rw [← List.dropLast_append_getLast hne] at hx
  rcases List.mem_append.mp hx with hx | hx
  · exact absurd hxs (h.final x hx)
  · rw [← List.mem_singleton.mp hx, hxs]

/-- Well-formed entries are those with which the loop goes on to the end, none being missed. -/
theorem wellFormed_iff {es : List (Tag × Bytes)} :
    WellFormed es ↔
      Tlv.Fits (coded es) ∧ Admissible es ∧ ∀ t ∈ Tag.mandatory, t ∈ es.map Prod.fst := by
  constructor
  · intro h
    exact ⟨h.fits_coded, h.admissible, h.mandatory⟩
  · rintro ⟨hfits, hadm, hmandatory⟩
    have hfirst := hadm.getElem?_of_mandatory hmandatory (t := .structureType) (by decide)
      (fun j hj => hj.1.mp rfl) (fun _ hw => hw)
    have hsecond := hadm.getElem?_of_mandatory hmandatory (t := .version) (by decide)
      (fun j hj => hj.2.mp rfl) (fun _ hw => hw)
    rw [Tlv.Fits, coded, List.forall_mem_map] at hfits
    exact ⟨hadm.distinct, hfirst, hsecond, hadm.getLast?_of_mandatory hmandatory, hmandatory,
      hadm.legal, hfits⟩

/-- Among distinct entries the value of a tag is the value of the entry with that tag. -/
theorem value?_fieldsFrom {es : List (Tag × Bytes)} (h : (es.map Prod.fst).Nodup) (offset : Nat)
    {t : Tag} {v : Bytes} : value? (fieldsFrom offset es) t = some v ↔ (t, v) ∈ es := by
  have hmem {w : Bytes} (hw : value? (fieldsFrom offset es) t = some w) : (t, w) ∈ es := by
    obtain ⟨f, hf, rfl⟩ := Option.map_eq_some_iff.mp hw
    have hfound := List.find?_some hf
    have ht : f.tag = t := of_decide_eq_true hfound
    have hpair := List.mem_map_of_mem (f := Field.pair) (List.mem_of_find?_eq_some hf)
    rw [map_pair_fieldsFrom, Field.pair, ht] at hpair
    exact hpair
  constructor
  · exact hmem
  · intro he
    have hsome : (value? (fieldsFrom offset es) t).isSome = true := by
      rw [value?, Option.isSome_map, List.find?_isSome]
      rw [← map_pair_fieldsFrom offset es] at he
      obtain ⟨f, hf, hpair⟩ := List.mem_map.mp he
      exact ⟨f, hf, decide_eq_true (Prod.mk.inj hpair).1⟩
    obtain ⟨w, hw⟩ := Option.isSome_iff_exists.mp hsome
    have hinj := List.inj_on_of_nodup_map h (hmem hw) he rfl
    rw [hw, (Prod.mk.inj hinj).2]

theorem complete_fieldsFrom {es : List (Tag × Bytes)} (h : WellFormed es) (offset : Nat) :
    Complete (value? (fieldsFrom offset es)) where
  legal t v hv := h.legal _ ((value?_fieldsFrom h.distinct offset).mp hv)
  mandatory t ht := by
    obtain ⟨⟨u, v⟩, he, rfl⟩ := List.mem_map.mp (h.mandatory t ht)
    rw [(value?_fieldsFrom h.distinct offset).mpr he]
    rfl

/-- The field of the signature lies behind the wire form of all other entries. -/
theorem find?_signature {es : List (Tag × Bytes)} (h : WellFormed es) {f : Field}
    (hf : (fieldsFrom 0 es).find? (fun f => f.tag = .signature) = some f) :
    f.offset = (wire es.dropLast).length := by
  obtain ⟨v, hes⟩ := h.exists_dropLast
  have hnone : (fieldsFrom 0 es.dropLast).find? (fun f => f.tag = .signature) = none := by
    rw [List.find?_eq_none]
    intro g hg hs
    have hpair := List.mem_map_of_mem (f := Field.pair) hg
    rw [map_pair_fieldsFrom] at hpair
    exact h.admissible.final _ hpair (of_decide_eq_true hs)
  rw [hes, fieldsFrom_append, List.find?_append, hnone, Option.none_or] at hf
  simp only [fieldsFrom, List.find?_cons, decide_true, Option.some.injEq] at hf
  rw [← hf, Nat.zero_add]

/-- What a certificate says of the entries from which it was read: it shows each of them under its
tag and no other, and all but the last of them are signed. -/
structure ReadFrom (c : Certificate) (entries : List (Tag × Bytes)) : Prop where
  shown_iff : ∀ t v, c.shown t = some v ↔ (t, v) ∈ entries
  signed_eq : c.signed = wire entries.dropLast

/-- The certificate that is read from well-formed entries is the one that shows them. -/
theorem ofFields?_eq_some_iff {es : List (Tag × Bytes)} (h : WellFormed es) {c : Certificate} :
    ofFields? (wire es) (fieldsFrom 0 es) = some c ↔ ReadFrom c es := by
  have hcomplete := complete_fieldsFrom h 0
  have hread {d : Certificate} (hd : ofFields? (wire es) (fieldsFrom 0 es) = some d) :
      ReadFrom d es := by
    obtain ⟨hshown, f, hf, hsigned⟩ := shown_of_ofFields? hcomplete hd
    obtain ⟨v, hes⟩ := h.exists_dropLast
    refine ⟨?_, ?_⟩
    · intro t w
      rw [← hshown, value?_fieldsFrom h.distinct 0]
    · rw [hsigned, find?_signature h hf]
      nth_rewrite 2 [hes]
      rw [wire_append, List.take_left]
  constructor
  · exact hread
  · intro hc
    obtain ⟨d, hd⟩ := exists_ofFields? (wire es) hcomplete
    have hr := hread hd
    have hshown (t : Tag) : d.shown t = c.shown t := by
      apply Option.ext
      intro v
      rw [hr.shown_iff, hc.shown_iff]
    have hsignature : d.signature = c.signature := Option.some.inj (hshown .signature)
    rw [hd, eq_of_shown (fun t _ => hshown t) (hr.signed_eq.trans hc.signed_eq.symm) hsignature]

/-- A byte string is read as a certificate exactly if it is the wire form of well-formed entries
that the certificate shows. -/
theorem parse_eq_ok_iff {raw : Bytes} {c : Certificate} :
    parse raw = .ok c ↔ ∃ es, WellFormed es ∧ raw = wire es ∧ ReadFrom c es := by
  rw [parse_eq_ok_iff_fields]
  constructor
  · rintro ⟨es, hfits, rfl, hadm, hmandatory, hc⟩
    have h := wellFormed_iff.mpr ⟨hfits, hadm, hmandatory⟩
    exact ⟨es, h, rfl, (ofFields?_eq_some_iff h).mp hc⟩
  · rintro ⟨es, h, rfl, hc⟩
    obtain ⟨hfits, hadm, hmandatory⟩ := wellFormed_iff.mp h
    exact ⟨es, hfits, rfl, hadm, hmandatory, (ofFields?_eq_some_iff h).mpr hc⟩

theorem exists_parse_wire {es : List (Tag × Bytes)} (h : WellFormed es) :
    ∃ c, parse (wire es) = .ok c := by
  obtain ⟨c, hc⟩ := exists_ofFields? (wire es) (complete_fieldsFrom h 0)
  exact ⟨c, parse_eq_ok_iff.mpr ⟨es, h, rfl, (ofFields?_eq_some_iff h).mp hc⟩⟩

/-- Certificates are read exactly from the wire forms of well-formed entries, whatever the order of
the entries between the second and the last; and every part of a certificate is what the entry
under its tag says, an absent part being one without an entry. -/
theorem parse_accepts_grammar (raw : Bytes) :
    ((∃ c, parse raw = .ok c) ↔ ∃ es, WellFormed es ∧ raw = wire es) ∧
      ∀ c, parse raw = .ok c ↔ ∃ es, WellFormed es ∧ raw = wire es ∧ ReadFrom c es := by
  refine ⟨⟨?_, ?_⟩, fun c => parse_eq_ok_iff⟩
  · rintro ⟨c, hc⟩
    obtain ⟨es, hes, hraw, -⟩ := parse_eq_ok_iff.mp hc
    exact ⟨es, hes, hraw⟩
  · rintro ⟨es, hes, rfl⟩
    exact exists_parse_wire hes

end TokenProvision.Certificate
