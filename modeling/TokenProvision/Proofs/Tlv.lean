import TokenProvision.Proofs.Bytes
import TokenProvision.Tlv

/-!
Entries are canonical and show their own end. Reading undoes writing, whatever follows, and what
can be read is what writing gives: so a byte string is the wire form of at most one sequence of
entries, and a sequence whose wire form begins another one begins it entry by entry.
-/
namespace TokenProvision.Tlv

def encodeAll (entries : List (UInt8 × Bytes)) : Bytes := entries.flatMap fun e => encode e.1 e.2

/-- Whether every value is short enough for its length to be written. -/
def Fits (entries : List (UInt8 × Bytes)) : Prop := ∀ e ∈ entries, e.2.length ≤ maxValueLength

/-- The entries with their places, the first of them at `offset`. -/
def place (offset : Nat) : List (UInt8 × Bytes) → List Entry
  | [] => []
  | (tag, value) :: rest => ⟨tag, value, offset⟩ :: place (offset + encodedLength value.length) rest

def Entry.pair (e : Entry) : UInt8 × Bytes := (e.tag, e.value)

@[simp] theorem encodeAll_nil : encodeAll [] = [] := rfl
@[simp] theorem encodeAll_cons (e : UInt8 × Bytes) (rest : List (UInt8 × Bytes)) :
    encodeAll (e :: rest) = encode e.1 e.2 ++ encodeAll rest := rfl

theorem encodeAll_append (xs ys : List (UInt8 × Bytes)) :
    encodeAll (xs ++ ys) = encodeAll xs ++ encodeAll ys := List.flatMap_append

theorem fits_cons {e : UInt8 × Bytes} {rest : List (UInt8 × Bytes)} :
    Fits (e :: rest) ↔ e.2.length ≤ maxValueLength ∧ Fits rest := List.forall_mem_cons

theorem fits_append {xs ys : List (UInt8 × Bytes)} :
    Fits (xs ++ ys) ↔ Fits xs ∧ Fits ys := List.forall_mem_append

@[simp] theorem place_nil (offset : Nat) : place offset [] = [] := rfl
@[simp] theorem place_cons (offset : Nat) (e : UInt8 × Bytes) (rest : List (UInt8 × Bytes)) :
    place offset (e :: rest) =
      ⟨e.1, e.2, offset⟩ :: place (offset + encodedLength e.2.length) rest := rfl

@[simp] theorem map_pair_place (offset : Nat) (entries : List (UInt8 × Bytes)) :
    (place offset entries).map Entry.pair = entries := by
  induction entries generalizing offset with
  | nil => rfl
  | cons e rest ih => simp [ih, Entry.pair]

/-- An entry lies behind the wire form of the entries before it. -/
theorem place_append (offset : Nat) (xs ys : List (UInt8 × Bytes)) :
    place offset (xs ++ ys) = place offset xs ++ place (offset + (encodeAll xs).length) ys := by
  induction xs generalizing offset with
  | nil => rfl
  | cons e rest ih => simp [ih, Nat.add_assoc]

/-- The three forms of a length, by their size. -/
theorem length_lengthForm (n : Nat) :
    (lengthForm n).length = if n < 0x80 then 1 else if n < 0x100 then 2 else 3 := by
  unfold lengthForm
  split
  · rfl
  · split <;> simp

theorem encodedLength_eq (n : Nat) : encodedLength n = 1 + (lengthForm n).length + n := by
  rw [length_lengthForm]
  unfold encodedLength
  split
  · omega
  · split <;> omega

theorem encodedLength_mono {m n : Nat} (h : m ≤ n) : encodedLength m ≤ encodedLength n := by
  unfold encodedLength
  repeat' split
  all_goals omega

/-- A length in its shortest form reads back, whatever follows. -/
theorem decodeLength_lengthForm {n : Nat} (h : n ≤ maxValueLength) (rest : Bytes) :
    decodeLength (lengthForm n ++ rest) = .ok (n, (lengthForm n).length) := by
  have hmax : n < 0x10000 := Nat.lt_succ_of_le h
  rw [length_lengthForm]
  unfold lengthForm
  by_cases h₁ : n < 0x80
  · have hn : (UInt8.ofNat n).toNat = n := by simp; omega
    have hlt : UInt8.ofNat n < 0x80 := by rw [UInt8.lt_iff_toNat_lt, hn]; exact h₁
    simp [h₁, decodeLength, hlt, hn]
  · by_cases h₂ : n < 0x100
    · have hn : (UInt8.ofNat n).toNat = n := by simp; omega
      have hge : ¬ UInt8.ofNat n < 0x80 := by rw [UInt8.lt_iff_toNat_lt, hn]; exact h₁
      simp [h₁, h₂, decodeLength, Bytes.ofNat, hge, hn, Nat.mod_eq_of_lt h₂]
    · have hhi : n / 256 % 256 = n / 256 := Nat.mod_eq_of_lt (by omega)
      have hne : ¬ UInt8.ofNat (n / 256) = 0 := by
        intro he
        have hz := congrArg UInt8.toNat he
        rw [UInt8.toNat_ofNat', hhi] at hz
        simp at hz
        omega
      simp only [if_neg h₁, if_neg h₂, Bytes.ofNat, hhi, List.nil_append, List.cons_append]
      simp [decodeLength, hne, hhi, Nat.div_add_mod']

theorem eq_lengthForm_of_decodeLength {bs : Bytes} {n form : Nat}
    (h : decodeLength bs = .ok (n, form)) :
    n ≤ maxValueLength ∧ form = (lengthForm n).length ∧ bs = lengthForm n ++ bs.drop form := by
  unfold decodeLength at h
  split at h
  · cases h
  · rename_i l rest
    split at h
    · rename_i hl
      cases h
      have hn : l.toNat < 0x80 := hl
      refine ⟨by unfold maxValueLength; omega, ?_, ?_⟩ <;> simp [lengthForm, hn]
    · split at h
      · rename_i n rest _
        split at h
        · cases h
        · rename_i hn
          cases h
          have hge : ¬ n.toNat < 0x80 := hn
          have hlt : n.toNat < 0x100 := n.toNat_lt
          refine ⟨by unfold maxValueLength; omega, ?_, ?_⟩ <;>
            simp [lengthForm, hge, hlt, Bytes.ofNat]
      · rename_i hi lo rest _
        split at h
        · cases h
        · rename_i hne
          cases h
          have hpos : hi.toNat ≠ 0 := fun he => hne (UInt8.toNat_inj.mp he)
          have hhi := hi.toNat_lt
          have hlo := lo.toNat_lt
          have h₁ : ¬ hi.toNat * 256 + lo.toNat < 0x80 := by omega
          have h₂ : ¬ hi.toNat * 256 + lo.toNat < 0x100 := by omega
          have hdiv : (hi.toNat * 256 + lo.toNat) / 256 = hi.toNat := by omega
          have hmod : (hi.toNat * 256 + lo.toNat) % 256 = lo.toNat := by omega
          refine ⟨by unfold maxValueLength; omega, ?_, ?_⟩
          · simp [length_lengthForm, h₁, h₂]
          · simp only [lengthForm, if_neg h₁, if_neg h₂, Bytes.ofNat, hdiv, hmod,
              Nat.mod_eq_of_lt hhi, UInt8.ofNat_toNat]
            rfl
      · cases h

/-- An entry is read by its length first. -/
theorem readEntry_of_decodeLength (offset : Nat) (tag : UInt8) {bs : Bytes} {n form : Nat}
    (h : decodeLength bs = .ok (n, form)) :
    readEntry offset (tag :: bs) =
      if (bs.drop form).length < n then .error .invalidLength
      else .ok (⟨tag, (bs.drop form).take n, offset⟩, 1 + form + n) := by
  cases bs with
  | nil => cases h
  | cons l rest => simp only [readEntry, h]

theorem readEntry_encode (offset : Nat) (tag : UInt8) {value : Bytes}
    (h : value.length ≤ maxValueLength) (rest : Bytes) :
    readEntry offset (encode tag value ++ rest) =
      .ok (⟨tag, value, offset⟩, encodedLength value.length) := by
  have hlen := decodeLength_lengthForm h (value ++ rest)
  have hbs : encode tag value ++ rest = tag :: (lengthForm value.length ++ (value ++ rest)) := by
    simp [encode]
  rw [hbs, readEntry_of_decodeLength offset tag hlen, List.drop_left, if_neg (by simp),
    List.take_left, encodedLength_eq]

/-- What reads as an entry is the wire form of that entry, and the rest is left. -/
theorem eq_encode_of_readEntry {offset : Nat} {bs : Bytes} {e : Entry} {n : Nat}
    (h : readEntry offset bs = .ok (e, n)) :
    e.value.length ≤ maxValueLength ∧ e.offset = offset ∧ n = encodedLength e.value.length ∧
      bs = encode e.tag e.value ++ bs.drop n := by
  cases bs with
  | nil => cases h
  | cons tag bs =>
    cases hlen : decodeLength bs with
    | error c => cases bs <;> simp [readEntry, hlen] at h
    | ok r =>
      obtain ⟨len, form⟩ := r
      rw [readEntry_of_decodeLength offset tag hlen] at h
      obtain ⟨hmax, hform, hbs⟩ := eq_lengthForm_of_decodeLength hlen
      split at h
      · cases h
      · rename_i hfits
        cases h
        have hvalue : ((bs.drop form).take len).length = len := by
          rw [List.length_take]
          omega
        have hdrop : (tag :: bs).drop (1 + form + len) = (bs.drop form).drop len := by
          rw [List.drop_drop, show 1 + form + len = (form + len) + 1 by omega, List.drop_succ_cons]
        dsimp only
        refine ⟨by rw [hvalue]; exact hmax, rfl, by rw [hvalue, encodedLength_eq, hform], ?_⟩
        rw [hdrop, encode, hvalue, List.cons_append, List.cons_append, List.append_assoc,
          List.take_append_drop, ← hbs]

@[simp] theorem scanFrom_nil (offset : Nat) : scanFrom offset [] = [] := by
  rw [scanFrom]
  rfl

theorem scanFrom_of_ok {offset : Nat} {bs : Bytes} {e : Entry} {n : Nat}
    (h : readEntry offset bs = .ok (e, n)) :
    scanFrom offset bs = .ok e :: scanFrom (offset + n) (bs.drop n) := by
  have hne : bs.isEmpty = false := by
    cases bs with
    | nil => cases h
    | cons b bs => rfl
  rw [scanFrom, hne]
  simp only [Bool.false_eq_true, if_false]
  split
  · simp_all
  · simp_all

/-- The scan ends with the first entry that cannot be read. -/
theorem scanFrom_of_error {offset : Nat} {bs : Bytes} {c : CodecError} (hne : bs ≠ [])
    (h : readEntry offset bs = .error c) : scanFrom offset bs = [.error c] := by
  rw [scanFrom, List.isEmpty_eq_false_iff.mpr hne]
  simp only [Bool.false_eq_true, if_false]
  split
  · simp_all
  · simp_all

/-- Written entries scan back with their places, and the scan goes on behind them. -/
theorem scanFrom_encodeAll_append (offset : Nat) {entries : List (UInt8 × Bytes)}
    (h : Fits entries) (rest : Bytes) :
    scanFrom offset (encodeAll entries ++ rest) =
      (place offset entries).map .ok ++ scanFrom (offset + (encodeAll entries).length) rest := by
  induction entries generalizing offset with
  | nil => simp
  | cons e tail ih =>
    obtain ⟨hvalue, htail⟩ := fits_cons.mp h
    have hread := readEntry_encode offset e.1 hvalue (encodeAll tail ++ rest)
    rw [encodeAll_cons, List.append_assoc, scanFrom_of_ok hread,
      List.drop_left' (length_encode e.1 e.2), ih _ htail]
    simp [Nat.add_assoc]

theorem scanFrom_eq_nil_iff {offset : Nat} {bs : Bytes} : scanFrom offset bs = [] ↔ bs = [] := by
  constructor
  · intro h
    by_contra hne
    cases hread : readEntry offset bs with
    | error c =>
      rw [scanFrom_of_error hne hread] at h
      cases h
    | ok r =>
      rw [scanFrom_of_ok hread] at h
      cases h
  · rintro rfl
    exact scanFrom_nil offset

/-- Entries that a scan finds before anything else are the only ones whose wire form stands in
front, and the scan goes on behind it. -/
theorem eq_encodeAll_append_of_scanFrom {offset : Nat} {bs : Bytes} {es : List Entry}
    {items : List (Except CodecError Entry)} (h : scanFrom offset bs = es.map .ok ++ items) :
    Fits (es.map Entry.pair) ∧ es = place offset (es.map Entry.pair) ∧
      ∃ rest, bs = encodeAll (es.map Entry.pair) ++ rest ∧
        items = scanFrom (offset + (encodeAll (es.map Entry.pair)).length) rest := by
  induction es generalizing offset bs with
  | nil => exact ⟨by simp [Fits], rfl, bs, rfl, h.symm⟩
  | cons e es ih =>
    have hne : bs ≠ [] := by
      rintro rfl
      simp at h
    cases hread : readEntry offset bs with
    | error c => rw [scanFrom_of_error hne hread] at h; cases h
    | ok r =>
      obtain ⟨e', n⟩ := r
      rw [scanFrom_of_ok hread, List.map_cons, List.cons_append, List.cons.injEq,
        Except.ok.injEq] at h
      obtain ⟨rfl, hrest⟩ := h
      obtain ⟨hvalue, hoffset, hn, hbs⟩ := eq_encode_of_readEntry hread
      obtain ⟨hfits, hplace, rest, htail, hitems⟩ := ih hrest
      subst hn hoffset
      refine ⟨fits_cons.mpr ⟨hvalue, hfits⟩, ?_, rest, ?_, ?_⟩
      · rw [List.map_cons, place_cons]
        exact congrArg (e' :: ·) hplace
      · rw [List.map_cons, encodeAll_cons, List.append_assoc, ← htail]
        exact hbs
      · rw [hitems, List.map_cons, encodeAll_cons, List.length_append, length_encode,
          Nat.add_assoc]
        rfl

/-- Entries that scan without a fault are the only ones with that wire form. -/
theorem eq_encodeAll_of_scanFrom {offset : Nat} {bs : Bytes} {es : List Entry}
    (h : scanFrom offset bs = es.map .ok) :
    Fits (es.map Entry.pair) ∧ bs = encodeAll (es.map Entry.pair) ∧
      es = place offset (es.map Entry.pair) := by
  rw [← List.append_nil (es.map Except.ok)] at h
  obtain ⟨hfits, hplace, rest, hbs, hrest⟩ := eq_encodeAll_append_of_scanFrom h
  rw [scanFrom_eq_nil_iff.mp hrest.symm, List.append_nil] at hbs
  exact ⟨hfits, hbs, hplace⟩

/-- A scan finds exactly some entries, all readable, when the bytes are their wire form. -/
theorem scan_eq_ok_iff {bs : Bytes} {es : List Entry} :
    scan bs = es.map .ok ↔
      ∃ entries, Fits entries ∧ bs = encodeAll entries ∧ es = place 0 entries := by
  constructor
  · intro h
    exact ⟨es.map Entry.pair, eq_encodeAll_of_scanFrom h⟩
  · rintro ⟨entries, hfits, rfl, rfl⟩
    have h := scanFrom_encodeAll_append 0 hfits []
    simpa [scan] using h

/-- Of two wire forms of which one begins the other, the entries of the one begin the entries of
the other. -/
theorem prefix_of_encodeAll_append {xs ys : List (UInt8 × Bytes)} (hx : Fits xs) (hy : Fits ys)
    (rest : Bytes) (h : encodeAll xs ++ rest = encodeAll ys) : xs <+: ys := by
  have hys := scanFrom_encodeAll_append 0 hy []
  have hxs := scanFrom_encodeAll_append 0 hx rest
  rw [List.append_nil, scanFrom_nil, List.append_nil, ← h, hxs] at hys
  have hmap : (place 0 xs).map .ok <+: (place 0 ys).map (.ok : Entry → Except CodecError Entry) :=
    ⟨_, hys⟩
  have hplace : place 0 xs <+: place 0 ys := by
    obtain ⟨zs, hzs, he⟩ := List.prefix_map_iff.mp hmap
    have hinj : place 0 xs = zs := (List.map_inj_right fun _ _ => Except.ok.inj).mp he
    rw [hinj]
    exact hzs
  have hpairs := hplace.map Entry.pair
  rwa [map_pair_place, map_pair_place] at hpairs

theorem encodeAll_inj {xs ys : List (UInt8 × Bytes)} (hx : Fits xs) (hy : Fits ys)
    (h : encodeAll xs = encodeAll ys) : xs = ys := by
  have hxy := prefix_of_encodeAll_append hx hy [] (by rw [List.append_nil, h])
  have hyx := prefix_of_encodeAll_append hy hx [] (by rw [List.append_nil, h])
  exact hxy.eq_of_length (Nat.le_antisymm hxy.length_le hyx.length_le)

end TokenProvision.Tlv
