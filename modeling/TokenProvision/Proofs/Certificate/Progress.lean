import TokenProvision.Certificate.Basic
import TokenProvision.Proofs.Bytes

/-!
The values of certificate entries and the loop over the entries. Which values a tag admits is said
byte by byte, and a certificate is written back tag by tag: a field stands for the only value that
is read as it. Two records are kept of what has been read, the set of bits and the list of fields;
they tell the same tags throughout, and the loop goes on exactly as long as the entries are
admissible.
-/
namespace TokenProvision

/-- Where every number finds its own name, a number finds no other name. -/
theorem find?_number_eq_some_iff {α : Type} {all : List α} {code : α → UInt8}
    (h : ∀ a, (all.find? fun b => code b = code a) = some a) {n : UInt8} {a : α} :
    (all.find? fun b => code b = n) = some a ↔ n = code a := by
  constructor
  · intro hn
    have hfound := List.find?_some hn
    exact (of_decide_eq_true hfound).symm
  · rintro rfl
    exact h a

/-- Where every number finds its own name, no two names share a number. -/
theorem number_injective {α : Type} {find? : UInt8 → Option α} {code : α → UInt8}
    (h : ∀ a, find? (code a) = some a) : Function.Injective code := by
  intro a b hab
  have ha := h a
  rw [hab, h b] at ha
  exact (Option.some.inj ha).symm

namespace Ecdsa.Algorithm

theorem code_injective : Function.Injective code := number_injective ofCode?_code

theorem ofCode?_eq_some_iff {n : UInt8} {a : Algorithm} : ofCode? n = some a ↔ n = a.code :=
  find?_number_eq_some_iff ofCode?_code

theorem exists_code_iff {n : UInt8} : (∃ a : Algorithm, n = a.code) ↔ 1 ≤ n ∧ n ≤ 3 := by
  constructor
  · rintro ⟨a, rfl⟩
    cases a <;> decide
  · intro h
    have hn : n = 1 ∨ n = 2 ∨ n = 3 := by
      simp only [← UInt8.toNat_inj, UInt8.le_iff_toNat_le] at h ⊢
      simp at h ⊢
      omega
    rcases hn with rfl | rfl | rfl
    exacts [⟨.sha256, rfl⟩, ⟨.sha3, rfl⟩, ⟨.keccak, rfl⟩]

end Ecdsa.Algorithm

namespace Certificate

theorem Usage.code_injective : Function.Injective Usage.code := number_injective Usage.ofCode?_code

theorem Usage.ofCode?_eq_some_iff {n : UInt8} {u : Usage} :
    Usage.ofCode? n = some u ↔ n = u.code :=
  find?_number_eq_some_iff Usage.ofCode?_code

theorem Usage.exists_code_iff {n : UInt8} : (∃ u : Usage, n = u.code) ↔ 1 ≤ n ∧ n ≤ 9 := by
  constructor
  · rintro ⟨u, rfl⟩
    cases u <;> decide
  · intro h
    have hn : n = 1 ∨ n = 2 ∨ n = 3 ∨ n = 4 ∨ n = 5 ∨ n = 6 ∨ n = 7 ∨ n = 8 ∨ n = 9 := by
      simp only [← UInt8.toNat_inj, UInt8.le_iff_toNat_le] at h ⊢
      simp at h ⊢
      omega
    rcases hn with rfl | rfl | rfl | rfl | rfl | rfl | rfl | rfl | rfl
    exacts [⟨.genuineCheck, rfl⟩, ⟨.exchangePayload, rfl⟩, ⟨.nftMetadata, rfl⟩,
      ⟨.trustedName, rfl⟩, ⟨.backupProvider, rfl⟩, ⟨.recoverOrchestrator, rfl⟩,
      ⟨.pluginMetadata, rfl⟩, ⟨.coinMeta, rfl⟩, ⟨.seedIdAuth, rfl⟩]

theorem Curve.ofCode?_eq_some_iff {n : UInt8} {c : Curve} :
    Curve.ofCode? n = some c ↔ n = c.code :=
  find?_number_eq_some_iff Curve.ofCode?_code

theorem Tag.ofCode?_eq_some_iff {n : UInt8} {t : Tag} : Tag.ofCode? n = some t ↔ n = t.code :=
  find?_number_eq_some_iff Tag.ofCode?_code

theorem Tag.code_injective : Function.Injective Tag.code := number_injective Tag.ofCode?_code

/-- The values that an entry with a given tag may have. -/
def Legal : Tag → Bytes → Prop
  | .structureType, v => v = [0x01]
  | .version, v => v = [0x02]
  | .validity, v | .validityIndex, v | .timeValidity, v => v.length = 4
  | .challenge, v => v.length ≤ 32
  | .signerKeyId, v | .publicKeyId, v => v.length = 2
  | .signerAlgorithm, v | .publicKeyAlgorithm, v => ∃ b, v = [b] ∧ 1 ≤ b ∧ b ≤ 3
  | .signature, _ => True
  | .trustedName, v => 1 ≤ v.length ∧ v.length ≤ 32 ∧ ∀ b ∈ v, 0x20 ≤ b ∧ b ≤ 0x7e
  | .publicKeyUsage, v => ∃ b, v = [b] ∧ 1 ≤ b ∧ b ≤ 9
  | .publicKeyCurve, v => v = [0x21]
  | .publicKey, v => v.length = 33
  | .targetDevice, v | .depth, v => v.length = 1

theorem bind_toUInt8?_eq_some_iff {α : Type} {find? : UInt8 → Option α} {code : α → UInt8}
    (hfind : ∀ {n : UInt8} {a : α}, find? n = some a ↔ n = code a) {v : Bytes} {a : α} :
    (Bytes.toUInt8? v).bind find? = some a ↔ v = [code a] := by
  rw [Option.bind_eq_some_iff]
  constructor
  · rintro ⟨b, hb, ha⟩
    rw [Bytes.toUInt8?_eq_some_iff.mp hb, hfind.mp ha]
  · rintro rfl
    exact ⟨code a, Bytes.toUInt8?_eq_some_iff.mpr rfl, hfind.mpr rfl⟩

/-- The single bytes with a number in a range are those with the number of something. -/
theorem exists_number_iff {α : Type} {code : α → UInt8} {lo hi : UInt8}
    (hcode : ∀ {n : UInt8}, (∃ a, n = code a) ↔ lo ≤ n ∧ n ≤ hi) {v : Bytes} :
    (∃ a, v = [code a]) ↔ ∃ b, v = [b] ∧ lo ≤ b ∧ b ≤ hi := by
  simp only [← hcode]
  constructor
  · rintro ⟨a, rfl⟩
    exact ⟨code a, rfl, a, rfl⟩
  · rintro ⟨b, rfl, a, rfl⟩
    exact ⟨a, rfl⟩

theorem exists_curve_iff {v : Bytes} : (∃ c : Curve, v = [c.code]) ↔ v = [0x21] := by
  constructor
  · rintro ⟨c, rfl⟩
    cases c
    rfl
  · rintro rfl
    exact ⟨.secp256k1, rfl⟩

theorem exists_name_iff {v : Bytes} :
    (∃ l : Label maxName, v = l.bytes) ↔
      1 ≤ v.length ∧ v.length ≤ 32 ∧ ∀ b ∈ v, 0x20 ≤ b ∧ b ≤ 0x7e := by
  constructor
  · rintro ⟨l, rfl⟩
    exact ⟨l.length_pos, l.length_le, l.printable⟩
  · rintro ⟨hpos, hle, hprintable⟩
    exact ⟨⟨v, List.length_pos_iff.mp hpos, hle, hprintable⟩, rfl⟩

theorem exists_key_iff {v : Bytes} :
    (∃ k : Secp256k1.CompressedKey, v = k.bytes) ↔ v.length = 33 := by
  constructor
  · rintro ⟨k, rfl⟩
    exact k.length_eq
  · intro h
    exact ⟨⟨v, h⟩, rfl⟩

/-- A reader accepts what its writer writes. -/
theorem isSome_iff_exists_write {α : Type} {read : Bytes → Option α} {write : α → Bytes}
    (hread : ∀ {v : Bytes} {a : α}, read v = some a ↔ v = write a) {v : Bytes} :
    (read v).isSome = true ↔ ∃ a, v = write a := by
  simp only [Option.isSome_iff_exists, hread]

/-- The check of a value accepts the legal values. -/
theorem admits_iff {t : Tag} {v : Bytes} : t.admits v = true ↔ Legal t v := by
  cases t with
  | signerAlgorithm | publicKeyAlgorithm =>
    exact (isSome_iff_exists_write
      (bind_toUInt8?_eq_some_iff Ecdsa.Algorithm.ofCode?_eq_some_iff)).trans
      (exists_number_iff Ecdsa.Algorithm.exists_code_iff)
  | publicKeyUsage =>
    exact (isSome_iff_exists_write (bind_toUInt8?_eq_some_iff Usage.ofCode?_eq_some_iff)).trans
      (exists_number_iff Usage.exists_code_iff)
  | publicKeyCurve =>
    exact (isSome_iff_exists_write (bind_toUInt8?_eq_some_iff Curve.ofCode?_eq_some_iff)).trans
      exists_curve_iff
  | trustedName =>
    exact (isSome_iff_exists_write Label.ofBytes?_eq_some_iff).trans exists_name_iff
  | signature => exact iff_of_true rfl trivial
  | _ => exact decide_eq_true_iff

def Field.entry (f : Field) : Tlv.Entry := ⟨f.tag.code, f.value, f.offset⟩

def Field.pair (f : Field) : Tag × Bytes := (f.tag, f.value)

theorem Field.entry_injective : Function.Injective Field.entry := by
  intro f g h
  obtain ⟨ft, fv, fo⟩ := f
  obtain ⟨gt, gv, go⟩ := g
  simp only [Field.entry, Tlv.Entry.mk.injEq] at h
  obtain ⟨ht, rfl, rfl⟩ := h
  rw [Tag.code_injective ht]

/-- What the entries before any point of a certificate satisfy: no tag stands twice, each stands
where it may, nothing follows the signature, and every value is legal. -/
structure Admissible (entries : List (Tag × Bytes)) : Prop where
  distinct : (entries.map Prod.fst).Nodup
  placed : ∀ (k : Nat) (e : Tag × Bytes), entries[k]? = some e → e.1.FitsAt k
  final : ∀ e ∈ entries.dropLast, e.1 ≠ .signature
  legal : ∀ e ∈ entries, Legal e.1 e.2

theorem admissible_nil : Admissible [] where
  distinct := List.nodup_nil
  placed := by simp
  final := by simp
  legal := by simp

theorem Admissible.concat {es : List (Tag × Bytes)} {e : Tag × Bytes} (h : Admissible es)
    (hs : .signature ∉ es.map Prod.fst) (he : e.1 ∉ es.map Prod.fst) (hfits : e.1.FitsAt es.length)
    (hlegal : Legal e.1 e.2) : Admissible (es ++ [e]) where
  distinct := by
    rw [List.map_append, List.nodup_append]
    refine ⟨h.distinct, by simp, ?_⟩
    intro t ht u hu htu
    simp only [List.map_cons, List.map_nil, List.mem_singleton] at hu
    exact he (by rw [← hu, ← htu]; exact ht)
  placed := by
    intro k x hk
    rcases Nat.lt_trichotomy k es.length with hlt | rfl | hgt
    · rw [List.getElem?_append_left hlt] at hk
      exact h.placed k x hk
    · rw [List.getElem?_concat_length] at hk
      rw [← Option.some.inj hk]
      exact hfits
    · rw [List.getElem?_eq_none (by rw [List.length_append, List.length_singleton]; omega)] at hk
      cases hk
  final := by
    rw [List.dropLast_concat]
    intro x hx hxs
    exact hs (List.mem_map.mpr ⟨x, hx, hxs⟩)
  legal := by
    intro x hx
    rcases List.mem_append.mp hx with hx | hx
    · exact h.legal x hx
    · rw [List.mem_singleton.mp hx]
      exact hlegal

/-- The last of admissible entries may follow the others, and they are admissible. -/
theorem admissible_concat {es : List (Tag × Bytes)} {e : Tag × Bytes} :
    Admissible (es ++ [e]) ↔
      Admissible es ∧ .signature ∉ es.map Prod.fst ∧ e.1 ∉ es.map Prod.fst ∧
        e.1.FitsAt es.length ∧ Legal e.1 e.2 := by
  constructor
  · intro h
    have hdistinct := h.distinct
    rw [List.map_append, List.nodup_append] at hdistinct
    have hfinal := h.final
    rw [List.dropLast_concat] at hfinal
    refine ⟨⟨hdistinct.1, ?_, ?_, ?_⟩, ?_, ?_, ?_, ?_⟩
    · intro k x hk
      have hlt := (List.getElem?_eq_some_iff.mp hk).1
      exact h.placed k x (by rw [List.getElem?_append_left hlt, hk])
    · intro x hx
      exact hfinal x (List.dropLast_subset _ hx)
    · intro x hx
      exact h.legal x (List.mem_append_left _ hx)
    · intro hs
      obtain ⟨x, hx, hxs⟩ := List.mem_map.mp hs
      exact hfinal x hx hxs
    · intro he
      exact hdistinct.2.2 e.1 he e.1 (by simp) rfl
    · exact h.placed es.length e (by simp)
    · exact h.legal e (by simp)
  · rintro ⟨h, hs, he, hfits, hlegal⟩
    exact h.concat hs he hfits hlegal

theorem Admissible.of_append {xs ys : List (Tag × Bytes)} (h : Admissible (xs ++ ys)) :
    Admissible xs := by
  induction ys using List.reverseRecOn with
  | nil => simpa using h
  | append_singleton ys y ih =>
    rw [← List.append_assoc] at h
    exact ih (admissible_concat.mp h).1

/-- The bits of two tags overlap only if the tags are equal. -/
theorem Tag.mask_and_mask (t u : Tag) : t.mask &&& u.mask = if t = u then t.mask else 0 := by
  cases t <;> cases u <;> rfl

theorem Tag.mask_ne_zero (t : Tag) : t.mask ≠ 0 := by
  cases t <;> decide

namespace Progress

theorem has_start (t : Tag) : start.has t = false := by
  simp [has, start]

/-- Reading a field sets the bit of its tag and no other. -/
theorem has_push (p : Progress) (f : Field) (t : Tag) :
    (p.push f).has t = true ↔ p.has t = true ∨ f.tag = t := by
  have hbits : (p.seen ||| f.tag.mask) &&& t.mask =
      (p.seen &&& t.mask) ||| (f.tag.mask &&& t.mask) :=
    UInt32.toBitVec_inj.mp BitVec.and_or_distrib_right
  have hmask := Tag.mask_ne_zero f.tag
  simp only [has, push, hbits, Tag.mask_and_mask, decide_eq_true_eq, ne_eq, UInt32.or_eq_zero_iff]
  by_cases h : f.tag = t
  · simp [h, Tag.mask_ne_zero]
  · simp [h]

def entries (p : Progress) : List (Tag × Bytes) := p.fields.map Field.pair

@[simp] theorem entries_start : start.entries = [] := rfl
@[simp] theorem entries_push (p : Progress) (f : Field) :
    (p.push f).entries = p.entries ++ [f.pair] := by
  simp [entries, push]

/-- The bits and the fields tell the same tags, and what has been read is admissible. -/
structure Sound (p : Progress) : Prop where
  has_iff : ∀ t, p.has t = true ↔ t ∈ p.entries.map Prod.fst
  admissible : Admissible p.entries

theorem sound_start : start.Sound where
  has_iff t := by simp [has_start]
  admissible := admissible_nil

theorem Sound.push {p : Progress} {f : Field} (h : p.Sound)
    (hf : Admissible (p.entries ++ [f.pair])) : (p.push f).Sound where
  has_iff t := by
    rw [has_push, h.has_iff, entries_push, List.map_append, List.mem_append]
    simp [Field.pair, eq_comm]
  admissible := by
    rw [entries_push]
    exact hf

end Progress

/-- The check of a value passes exactly the legal ones. -/
theorem check_eq_ok_iff {t : Tag} {v : Bytes} : check t v = .ok () ↔ Legal t v := by
  rw [← admits_iff]
  unfold check
  split
  · simp_all
  · split <;> simp_all

/-- The loop accepts an entry exactly if it is admissible behind those before it. -/
theorem accept_eq_ok_iff {p q : Progress} (hp : p.Sound) {e : Tlv.Entry} :
    accept p e = .ok q ↔
      ∃ f : Field, e = f.entry ∧ q = p.push f ∧ Admissible (p.entries ++ [f.pair]) := by
  have hlen : p.fields.length = p.entries.length := by simp [Progress.entries]
  constructor
  · intro h
    unfold accept at h
    split at h
    · cases h
    · rename_i t ht
      split at h
      · cases h
      · rename_i hseen
        split at h
        · cases h
        · rename_i hfits
          split at h
          · cases h
          · rename_i hcheck
            cases h
            simp only [Bool.or_eq_true, hp.has_iff, not_or] at hseen
            rw [hlen, not_not] at hfits
            refine ⟨⟨t, e.value, e.offset⟩, ?_, rfl, ?_⟩
            · rw [Field.entry, ← Tag.ofCode?_eq_some_iff.mp ht]
            · exact admissible_concat.mpr
                ⟨hp.admissible, hseen.1, hseen.2, hfits, check_eq_ok_iff.mp hcheck⟩
  · rintro ⟨f, rfl, rfl, hf⟩
    obtain ⟨-, hs, ht, hfits, hlegal⟩ := admissible_concat.mp hf
    have hseen : ¬ (p.has .signature || p.has f.tag) = true := by
      simp only [Bool.or_eq_true, hp.has_iff, not_or]
      exact ⟨hs, ht⟩
    have hcheck : check f.tag f.value = .ok () := check_eq_ok_iff.mpr hlegal
    have hplace : f.tag.FitsAt p.fields.length := by
      rw [hlen]
      exact hfits
    unfold accept
    simp only [Field.entry, Tag.ofCode?_code, if_neg hseen, not_true_eq_false, hplace, if_false,
      hcheck]

/-- The loop ends well exactly if it finds entries that are admissible behind those before them. -/
theorem collect_eq_ok_iff {p q : Progress} (hp : p.Sound)
    {items : List (Except CodecError Tlv.Entry)} :
    collect p items = .ok q ↔
      ∃ fs : List Field, items = fs.map (fun f => .ok f.entry) ∧
        q = fs.foldl Progress.push p ∧ Admissible (p.entries ++ fs.map Field.pair) := by
  induction items generalizing p with
  | nil =>
    constructor
    · intro h
      cases h
      exact ⟨[], rfl, rfl, by simpa using hp.admissible⟩
    · rintro ⟨fs, hfs, rfl, -⟩
      rw [List.map_eq_nil_iff.mp hfs.symm]
      rfl
  | cons item rest ih =>
    cases item with
    | error c =>
      constructor
      · intro h
        cases h
      · rintro ⟨fs, hfs, -, -⟩
        cases fs with
        | nil => cases hfs
        | cons f fs => cases hfs
    | ok e =>
      constructor
      · intro h
        simp only [collect] at h
        cases haccept : accept p e with
        | error r => rw [haccept] at h; cases h
        | ok p' =>
          rw [haccept] at h
          obtain ⟨f, rfl, rfl, hf⟩ := (accept_eq_ok_iff hp).mp haccept
          obtain ⟨fs, rfl, rfl, hfs⟩ := (ih (hp.push hf)).mp h
          refine ⟨f :: fs, rfl, rfl, ?_⟩
          rw [Progress.entries_push, List.append_assoc] at hfs
          exact hfs
      · rintro ⟨fs, hfs, rfl, hadm⟩
        cases fs with
        | nil => cases hfs
        | cons f fs =>
          rw [List.map_cons, List.cons.injEq, Except.ok.injEq] at hfs
          obtain ⟨rfl, rfl⟩ := hfs
          rw [List.map_cons, List.append_cons] at hadm
          have haccept : accept p f.entry = .ok (p.push f) :=
            (accept_eq_ok_iff hp).mpr ⟨f, rfl, rfl, hadm.of_append⟩
          simp only [collect, haccept]
          refine (ih (hp.push hadm.of_append)).mpr ⟨fs, rfl, rfl, ?_⟩
          rw [Progress.entries_push]
          exact hadm

end Certificate

end TokenProvision
