import TokenProvision.Certificate.Basic
import TokenProvision.Proofs.Guarded.Basic

/-!
Sequences of entries, written and scanned. Writing entries one after the other succeeds if every
value fits, and gives the bytes in which a scan finds these entries and nothing else, each at the
place where those before it end; no other bytes scan to them.

Of arbitrary bytes entries tile the longest front that entries can tile; a cursor answers with them,
then with one fault where they do not reach the end, and after that with nothing, however often it
is asked. What is appended to a byte string changes none of the entries that were read of it.
-/
namespace TokenProvision.Tlv

variable {entries : List (UInt8 × Bytes)} {bs : Bytes}

/-- Writes entries one after the other, each where there is room for just that entry. -/
def writeAll : List (UInt8 × Bytes) → Except CodecError Bytes
  | [] => .ok []
  | (tag, value) :: rest =>
    match write tag value (encodedLength value.length) with
    | .error c => .error c
    | .ok head => (writeAll rest).map (head ++ ·)

def encodedLengthAll (entries : List (UInt8 × Bytes)) : Nat :=
  entries.foldr (fun e size => encodedLength e.2.length + size) 0

@[simp] theorem encodedLengthAll_nil : encodedLengthAll [] = 0 := rfl
@[simp] theorem encodedLengthAll_cons (e : UInt8 × Bytes) (rest : List (UInt8 × Bytes)) :
    encodedLengthAll (e :: rest) = encodedLength e.2.length + encodedLengthAll rest := rfl

/-- An entry can be written, where there is just room for it, if its value fits. -/
theorem write_eq_ok_iff {tag : UInt8} {value head : Bytes} :
    write tag value (encodedLength value.length) = .ok head ↔
      value.length ≤ maxValueLength ∧ head = encode tag value := by
  unfold write
  split
  · rename_i hlong
    simp [Nat.not_le.mpr hlong]
  · rename_i hfits
    rw [writeWithin_of_le _ (Nat.le_refl _)]
    simp [Nat.not_lt.mp hfits, eq_comm]

/-- A sequence is written entry by entry. -/
theorem writeAll_cons_eq_ok_iff {e : UInt8 × Bytes} {rest : List (UInt8 × Bytes)} :
    writeAll (e :: rest) = .ok bs ↔
      ∃ head tail, write e.1 e.2 (encodedLength e.2.length) = .ok head ∧
        writeAll rest = .ok tail ∧ bs = head ++ tail := by
  rw [writeAll]
  cases write e.1 e.2 (encodedLength e.2.length) with
  | error c => simp
  | ok head => cases writeAll rest <;> simp [Except.map, eq_comm]

/-- Exactly the sequences whose values fit can be written. -/
theorem writeAll_eq_ok_iff : writeAll entries = .ok bs ↔ Fits entries ∧ bs = encodeAll entries := by
  induction entries generalizing bs with
  | nil => simp [writeAll, Fits, eq_comm]
  | cons e rest ih =>
    simp only [writeAll_cons_eq_ok_iff, write_eq_ok_iff, ih, fits_cons, encodeAll_cons]
    constructor
    · rintro ⟨head, tail, ⟨hvalue, rfl⟩, ⟨hrest, rfl⟩, rfl⟩
      exact ⟨⟨hvalue, hrest⟩, rfl⟩
    · rintro ⟨⟨hvalue, hrest⟩, rfl⟩
      exact ⟨_, _, ⟨hvalue, rfl⟩, ⟨hrest, rfl⟩, rfl⟩

theorem getElem?_place (offset : Nat) (entries : List (UInt8 × Bytes)) (i : Nat) :
    (place offset entries)[i]? =
      entries[i]?.map fun e => ⟨e.1, e.2, offset + encodedLengthAll (entries.take i)⟩ := by
  induction entries generalizing offset i with
  | nil => simp
  | cons e rest ih =>
    cases i with
    | zero => simp
    | succ i => simp [ih, Nat.add_assoc]

/-- The entries of a sequence, each where those before it end. -/
theorem map_ok_place (entries : List (UInt8 × Bytes)) :
    (place 0 entries).map (.ok : Entry → Except CodecError Entry) =
      entries.mapIdx fun i e => .ok ⟨e.1, e.2, encodedLengthAll (entries.take i)⟩ := by
  symm
  rw [List.mapIdx_eq_iff]
  intro i
  rw [List.getElem?_map, getElem?_place, Option.map_map, Nat.zero_add]
  rfl

/-- Bytes are what a sequence is written as exactly if a scan of them finds that sequence. -/
theorem writeAll_eq_ok_iff_scan :
    writeAll entries = .ok bs ↔ scan bs = (place 0 entries).map .ok := by
  rw [writeAll_eq_ok_iff]
  constructor
  · rintro ⟨hfits, rfl⟩
    exact scan_eq_ok_iff.mpr ⟨entries, hfits, rfl, rfl⟩
  · intro h
    obtain ⟨others, hfits, rfl, hplace⟩ := scan_eq_ok_iff.mp h
    have hsame := congrArg (List.map Entry.pair) hplace
    rw [map_pair_place, map_pair_place] at hsame
    subst hsame
    exact ⟨hfits, rfl⟩

/-- A draft is written as the sequence of its entries. -/
theorem encode_draft_eq_some_iff :
    (Certificate.Draft.mk entries).encode = some bs ↔ writeAll entries = .ok bs := by
  rw [writeAll_eq_ok_iff]
  unfold Certificate.Draft.encode
  split
  · rename_i hfits
    have hfits : Fits entries := hfits
    simp [hfits, encodeAll, eq_comm]
  · rename_i hunfit
    have hunfit : ¬ Fits entries := hunfit
    simp [hunfit]

/-- Sequences of entries can be written and scanned in turn. If every value fits, the entries are
written one after the other, as a draft of a certificate is, and a scan of the bytes finds exactly
these entries in order, each at the sum of the sizes of those before it. If a scan finds nothing but
entries, they are written as the bytes that were scanned. -/
theorem sequences_round_trip :
    (∀ entries : List (UInt8 × Bytes), (∀ e ∈ entries, e.2.length ≤ 65535) →
      ∃ bs, writeAll entries = .ok bs ∧ (Certificate.Draft.mk entries).encode = some bs ∧
        scan bs = entries.mapIdx fun i e => .ok ⟨e.1, e.2, encodedLengthAll (entries.take i)⟩) ∧
    ∀ (bs : Bytes) (es : List Entry), scan bs = es.map .ok →
      writeAll (es.map fun e => (e.tag, e.value)) = .ok bs := by
  constructor
  · intro entries hfits
    have hwrite : writeAll entries = .ok (encodeAll entries) :=
      writeAll_eq_ok_iff.mpr ⟨hfits, rfl⟩
    refine ⟨encodeAll entries, hwrite, encode_draft_eq_some_iff.mpr hwrite, ?_⟩
    rw [writeAll_eq_ok_iff_scan.mp hwrite, map_ok_place]
  · intro bs es hscan
    obtain ⟨entries, hfits, rfl, rfl⟩ := scan_eq_ok_iff.mp hscan
    have hpairs : (place 0 entries).map (fun e => (e.tag, e.value)) = entries :=
      map_pair_place 0 entries
    rw [hpairs]
    exact writeAll_eq_ok_iff.mpr ⟨hfits, rfl⟩

def Entry.stop (e : Entry) : Nat := e.offset + encodedLength e.value.length

variable {es : List Entry} {start stop : Nat}

/-- Whether a byte string begins with a whole entry, the length of which is in its shortest form. -/
def BeginsWithEntry (bs : Bytes) : Prop :=
  ∃ (tag : UInt8) (value : Bytes), value.length ≤ maxValueLength ∧ encode tag value <+: bs

/-- Whether entries lie in a byte string one behind the other, from `start` on and up to `stop`. -/
def Tiles (bs : Bytes) : (start : Nat) → List Entry → (stop : Nat) → Prop
  | start, [], stop => stop = start
  | start, e :: es, stop =>
    e.offset = start ∧ start + 2 ≤ e.stop ∧ e.value.length ≤ maxValueLength ∧
      encode e.tag e.value <+: bs.drop start ∧ Tiles bs e.stop es stop

theorem two_le_encodedLength (n : Nat) : 2 ≤ encodedLength n := by
  unfold encodedLength
  repeat' split
  all_goals omega

/-- An entry can be read exactly where one begins. -/
theorem exists_readEntry_iff (offset : Nat) :
    (∃ r, readEntry offset bs = .ok r) ↔ BeginsWithEntry bs := by
  constructor
  · rintro ⟨⟨e, n⟩, h⟩
    obtain ⟨hvalue, -, -, hbs⟩ := eq_encode_of_readEntry h
    exact ⟨e.tag, e.value, hvalue, _, hbs.symm⟩
  · rintro ⟨tag, value, hvalue, rest, rfl⟩
    exact ⟨_, readEntry_encode offset tag hvalue rest⟩

namespace Tiles

/-- Each entry takes at least two bytes. -/
theorem length_le (h : Tiles bs start es stop) : start + 2 * es.length ≤ stop := by
  induction es generalizing start with
  | nil =>
    rw [h]
    exact Nat.le_refl _
  | cons e es ih =>
    obtain ⟨-, htwo, -, -, hrest⟩ := h
    have := ih hrest
    rw [List.length_cons]
    omega

theorem append (h : Tiles bs start es stop) (more : Bytes) : Tiles (bs ++ more) start es stop := by
  induction es generalizing start with
  | nil => exact h
  | cons e es ih =>
    obtain ⟨hoffset, htwo, hvalue, hfront, hrest⟩ := h
    have hdrop : bs.drop start <+: (bs ++ more).drop start := by
      rw [List.drop_append]
      exact List.prefix_append _ _
    exact ⟨hoffset, htwo, hvalue, hfront.trans hdrop, ih hrest⟩

/-- A scan finds the entries first, and goes on behind them. -/
theorem scanFrom_eq (h : Tiles bs start es stop) :
    scanFrom start (bs.drop start) = es.map .ok ++ scanFrom stop (bs.drop stop) := by
  induction es generalizing start with
  | nil =>
    rw [h]
    rfl
  | cons e es ih =>
    obtain ⟨rfl, -, hvalue, ⟨rest, hfront⟩, hrest⟩ := h
    have hread := readEntry_encode e.offset e.tag hvalue rest
    rw [hfront] at hread
    rw [scanFrom_of_ok hread, List.drop_drop]
    exact congrArg (.ok e :: ·) (ih hrest)

end Tiles

/-- Entries that begin other entries, with faults behind them, are the first of those. -/
theorem prefix_of_map_ok_append {es' : List Entry} {faults : List CodecError}
    {items : List (Except CodecError Entry)}
    (h : es'.map .ok ++ items = es.map .ok ++ faults.map .error) : es' <+: es := by
  induction es' generalizing es with
  | nil => exact List.nil_prefix
  | cons e es' ih =>
    cases es with
    | nil => cases faults <;> cases h
    | cons e₁ es =>
      rw [List.map_cons, List.map_cons, List.cons_append, List.cons_append, List.cons.injEq,
        Except.ok.injEq] at h
      obtain ⟨rfl, h⟩ := h
      exact (List.prefix_cons_inj e).mpr (ih h)

/-- What a scan finds from a place on: entries that tile a piece of the bytes, behind which no entry
begins, and one fault if bytes are left. -/
theorem exists_tiles (bs : Bytes) (start : Nat) (hstart : start ≤ bs.length) :
    ∃ (es : List Entry) (stop : Nat) (fault? : Option CodecError),
      scanFrom start (bs.drop start) = es.map .ok ++ fault?.toList.map .error ∧
      Tiles bs start es stop ∧ stop ≤ bs.length ∧ (fault? = none ↔ stop = bs.length) ∧
      ¬ BeginsWithEntry (bs.drop stop) := by
  induction hleft : bs.length - start using Nat.strongRecOn generalizing start with
  | _ left ih =>
    cases hread : readEntry start (bs.drop start) with
    | error c =>
      have hnone : ¬ BeginsWithEntry (bs.drop start) := by
        rw [← exists_readEntry_iff start, hread]
        simp
      by_cases hend : start = bs.length
      · refine ⟨[], start, none, ?_, rfl, hstart, by simp [hend], hnone⟩
        rw [hend, List.drop_length, scanFrom_nil]
        rfl
      · have hne : bs.drop start ≠ [] := by
          rw [Ne, List.drop_eq_nil_iff]
          omega
        exact ⟨[], start, some c, scanFrom_of_error hne hread, rfl, hstart, by simp [hend], hnone⟩
    | ok r =>
      obtain ⟨e, n⟩ := r
      obtain ⟨hvalue, rfl, rfl, hbs⟩ := eq_encode_of_readEntry hread
      have htwo := two_le_encodedLength e.value.length
      have hfits : e.offset + encodedLength e.value.length ≤ bs.length := by
        have hlength := congrArg List.length hbs
        rw [List.length_append, length_encode, List.length_drop] at hlength
        omega
      obtain ⟨es, stop, fault?, hscan, htiles, hstop, hfault, hnone⟩ :=
        ih (bs.length - e.stop) (by rw [Entry.stop]; omega) e.stop hfits rfl
      have hfront : encode e.tag e.value <+: bs.drop e.offset := ⟨_, hbs.symm⟩
      refine ⟨e :: es, stop, fault?, ?_, ⟨rfl, ?_, hvalue, hfront, htiles⟩, hstop, hfault, hnone⟩
      · rw [scanFrom_of_ok hread, List.drop_drop]
        exact congrArg (.ok e :: ·) hscan
      · rw [Entry.stop]
        omega

/-- A list that is asked for its elements in turn answers with each of them, then with nothing. -/
theorem map_getElem?_range {α : Type} (xs : List α) (k : Nat) :
    (List.range (xs.length + k)).map (fun i => xs[i]?) = xs.map some ++ List.replicate k none := by
  induction xs with
  | nil => simp [List.map_const']
  | cons x xs ih =>
    have hlength : (x :: xs).length + k = (xs.length + k) + 1 := by
      rw [List.length_cons]
      omega
    rw [hlength, List.range_succ_eq_map, List.map_cons, List.map_map]
    exact congrArg (some x :: ·) ih

/-- A cursor before entries and at most one fault answers with the entries, with the fault if there
is one, and then with nothing. -/
theorem answers_of_scan {fault? : Option CodecError}
    (h : scan bs = es.map .ok ++ fault?.toList.map .error) (k : Nat) :
    (Cursor.start bs).answers (es.length + 1 + k) =
      .ok (es.map (fun e => some (.ok e)) ++ fault?.map .error :: List.replicate k none) := by
  rw [Cursor.answers_eq, Cursor.items_start, h]
  cases fault? with
  | none =>
    have hlength : es.length + 1 + k =
        (es.map .ok : List (Except CodecError Entry)).length + (k + 1) := by
      rw [List.length_map]
      omega
    rw [hlength, Option.toList_none, List.map_nil, List.append_nil, map_getElem?_range,
      List.map_map]
    rfl
  | some c =>
    have hlength : es.length + 1 + k = (es.map Except.ok ++ [Except.error c]).length + k := by
      simp
    rw [hlength, Option.toList_some, List.map_singleton, map_getElem?_range, List.map_append,
      List.map_map, List.append_assoc]
    rfl

/-- Any byte string is read up to the end of its longest front that entries tile. A cursor answers
with these entries, at most one for every two bytes, then with a fault if they do not reach the end,
and then with nothing for as long as it is asked. It is a fault exactly if bytes are left and no
whole entry with a length in its shortest form begins there. Any entries that tile a front are the
first of those that are read, and they are read first when more bytes follow. -/
theorem cursor_reads_longest_front (bs : Bytes) :
    ∃ (es : List Entry) (stop : Nat) (fault? : Option CodecError),
      scan bs = es.map .ok ++ fault?.toList.map .error ∧
      (∀ k, (Cursor.start bs).answers (es.length + 1 + k) =
        .ok (es.map (fun e => some (.ok e)) ++ fault?.map .error :: List.replicate k none)) ∧
      Tiles bs 0 es stop ∧ stop ≤ bs.length ∧ es.length ≤ bs.length / 2 ∧
      (fault? = none ↔ stop = bs.length) ∧
      (fault?.isSome = true ↔ bs.drop stop ≠ [] ∧ ¬ BeginsWithEntry (bs.drop stop)) ∧
      (∀ es' stop', Tiles bs 0 es' stop' → es' <+: es) ∧
      ∀ more, ∃ items, scan (bs ++ more) = es.map .ok ++ items := by
  obtain ⟨es, stop, fault?, hscan, htiles, hstop, hfault, hnone⟩ :=
    exists_tiles bs 0 (Nat.zero_le _)
  have hleft : bs.drop stop ≠ [] ↔ stop ≠ bs.length := by
    rw [Ne, List.drop_eq_nil_iff]
    omega
  refine ⟨es, stop, fault?, hscan, answers_of_scan hscan, htiles, hstop, ?_, hfault, ?_, ?_, ?_⟩
  · have := htiles.length_le
    omega
  · rw [hleft, Ne, ← hfault, ← Option.ne_none_iff_isSome]
    exact (and_iff_left hnone).symm
  · intro es' stop' htiles'
    rw [htiles'.scanFrom_eq] at hscan
    exact prefix_of_map_ok_append hscan
  · intro more
    exact ⟨_, (htiles.append more).scanFrom_eq⟩

-- an entry, and behind it one that announces more bytes than there are
example : (Cursor.start [0x13, 0x02, 0x00, 0x02, 0x20, 0x05, 0x61, 0x62]).answers 4 =
    .ok [some (.ok ⟨0x13, [0x00, 0x02], 0⟩), some (.error .invalidLength), none, none] := rfl

end TokenProvision.Tlv
