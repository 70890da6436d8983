import TokenProvision.Proofs.Tlv

/-!
Guarded steps: what a device does with its buffers, its counters and its stores of a fixed size,
with the checks that the machine makes on the way. A step whose check fails traps, and a trap ends
the program. Each guarded step has one lemma, which says when it does not trap and what it gives.

A cursor reads entries with such steps. It moves through the bytes entry by entry and stops for good
at the first entry that cannot be read. However often it is asked, it does not trap, and it answers
with the entries of the scan in turn and with nothing after them.
-/
namespace TokenProvision

inductive Trap where
  /-- An index or a piece that does not lie in its list. -/
  | range
  /-- A number that is taken from a smaller one. -/
  | underflow
  /-- A bit that lies outside the word. -/
  | shift
  /-- A store of a fixed size that is to hold more than fits. -/
  | capacity
  /-- Something that was asserted and does not hold. -/
  | assertion
  /-- A field that is missing after it was seen. -/
  | missing
  deriving DecidableEq, Repr

abbrev Guarded (α : Type) := Except Trap α

namespace Guarded

variable {α β : Type}

@[simp] theorem ok_bind (a : α) (f : α → Guarded β) : (Except.ok a : Guarded α) >>= f = f a := rfl

def item (xs : List α) (i : Nat) : Guarded α :=
  match xs[i]? with
  | some x => .ok x
  | none => .error .range

def assign (xs : List α) (i : Nat) (x : α) : Guarded (List α) :=
  if i < xs.length then .ok (xs.set i x) else .error .range

/-- What lies in front of a place. -/
def upTo (xs : List α) (n : Nat) : Guarded (List α) :=
  if n ≤ xs.length then .ok (xs.take n) else .error .range

/-- What lies behind a place. -/
def behind (xs : List α) (n : Nat) : Guarded (List α) :=
  if n ≤ xs.length then .ok (xs.drop n) else .error .range

/-- A buffer with other bytes from a place on. -/
def overwrite (buffer : Bytes) (place : Nat) (bs : Bytes) : Guarded Bytes := do
  let tail ← behind buffer place
  let _ ← upTo tail bs.length
  return buffer.take place ++ bs ++ tail.drop bs.length

def minus (m n : Nat) : Guarded Nat :=
  if n ≤ m then .ok (m - n) else .error .underflow

/-- A word of 32 bits of which one is set. -/
def bit (n : Nat) : Guarded UInt32 :=
  if n < 32 then .ok (1 <<< UInt32.ofNat n) else .error .shift

/-- The big-endian number in the first bytes of a string. -/
def number (width : Nat) (bs : Bytes) : Guarded Nat := do
  let digits ← upTo bs width
  return Bytes.toNat digits

def fixed (n : Nat) (bs : Bytes) : Guarded (FixedBytes n) :=
  if h : bs.length = n then .ok ⟨bs, h⟩ else .error .range

def label (max : Nat) (bs : Bytes) : Guarded (Label max) :=
  match Label.ofBytes? max bs with
  | some l => .ok l
  | none => .error .capacity

/-- A store of a fixed size with one more element. -/
def push (size : Nat) (xs : List α) (x : α) : Guarded (List α) :=
  if xs.length < size then .ok (xs ++ [x]) else .error .capacity

def insist (p : Prop) [Decidable p] : Guarded Unit :=
  if p then .ok () else .error .assertion

theorem item_of_getElem? {xs : List α} {i : Nat} {x : α} (h : xs[i]? = some x) :
    item xs i = .ok x := by
  simp only [item, h]

theorem assign_of_lt {xs : List α} {i : Nat} (h : i < xs.length) (x : α) :
    assign xs i x = .ok (xs.set i x) := if_pos h

theorem upTo_of_le {xs : List α} {n : Nat} (h : n ≤ xs.length) :
    upTo xs n = .ok (xs.take n) := if_pos h

theorem behind_of_le {xs : List α} {n : Nat} (h : n ≤ xs.length) :
    behind xs n = .ok (xs.drop n) := if_pos h

theorem overwrite_of_le {buffer bs : Bytes} {place : Nat}
    (h : place + bs.length ≤ buffer.length) :
    overwrite buffer place bs =
      .ok (buffer.take place ++ bs ++ buffer.drop (place + bs.length)) := by
  have hplace : place ≤ buffer.length := by omega
  have htail : bs.length ≤ (buffer.drop place).length := by
    rw [List.length_drop]
    omega
  rw [overwrite, behind_of_le hplace, ok_bind, upTo_of_le htail, ok_bind, List.drop_drop]
  rfl

theorem minus_of_le {m n : Nat} (h : n ≤ m) : minus m n = .ok (m - n) := if_pos h

theorem number_of_le {width : Nat} {bs : Bytes} (h : width ≤ bs.length) :
    number width bs = .ok (Bytes.toNat (bs.take width)) := by
  rw [number, upTo_of_le h]
  rfl

theorem fixed_of_length {n : Nat} {bs : Bytes} (h : bs.length = n) :
    fixed n bs = .ok ⟨bs, h⟩ := dif_pos h

theorem label_of_ofBytes? {max : Nat} {bs : Bytes} {l : Label max}
    (h : Label.ofBytes? max bs = some l) : label max bs = .ok l := by
  simp only [label, h]

theorem push_of_lt {size : Nat} {xs : List α} (h : xs.length < size) (x : α) :
    push size xs x = .ok (xs ++ [x]) := if_pos h

theorem insist_of {p : Prop} [Decidable p] (h : p) : insist p = .ok () := if_pos h

end Guarded

open Guarded

namespace Tlv

/-- A place in a byte string between two entries, and whether reading has failed there. -/
structure Cursor where
  bytes : Bytes
  index : Nat
  failed : Bool

namespace Cursor

variable {c c' : Cursor} {e : Entry}

def start (bs : Bytes) : Cursor := ⟨bs, 0, false⟩

def read (c : Cursor) : Guarded (Except CodecError Entry × Cursor) := do
  let rest ← behind c.bytes c.index
  if rest.length < 2 then return (.error .invalidLength, c)
  else
    let tag ← item rest 0
    match decodeLength (← behind rest 1) with
    | .error e => return (.error e, c)
    | .ok (len, form) =>
      if rest.length < 1 + form + len then return (.error .invalidLength, c)
      else
        let value ← upTo (← behind rest (1 + form)) len
        return (.ok ⟨tag, value, c.index⟩, { c with index := c.index + (1 + form + len) })

/-- Reads the next entry, if there is one and reading has not failed. -/
def next (c : Cursor) : Guarded (Option (Except CodecError Entry) × Cursor) := do
  if c.failed ∨ c.bytes.length ≤ c.index then return (none, c)
  else
    match ← c.read with
    | (.error e, c) => return (some (.error e), { c with failed := true })
    | (.ok e, c) => return (some (.ok e), c)

/-- What a cursor answers when it is asked a number of times. -/
def answers (c : Cursor) : Nat → Guarded (List (Option (Except CodecError Entry)))
  | 0 => return []
  | n + 1 => do
    let (answer, c) ← c.next
    return answer :: (← c.answers n)

def items (c : Cursor) : List (Except CodecError Entry) :=
  if c.failed then [] else scanFrom c.index (c.bytes.drop c.index)

@[simp] theorem items_start (bs : Bytes) : (start bs).items = scan bs := rfl

theorem form_le_of_decodeLength {bs : Bytes} {len form : Nat}
    (h : decodeLength bs = .ok (len, form)) : form ≤ bs.length := by
  obtain ⟨-, hform, hbytes⟩ := eq_lengthForm_of_decodeLength h
  have hlength := congrArg List.length hbytes
  rw [List.length_append, ← hform] at hlength
  omega

/-- A cursor within its bytes reads the entry behind it. -/
theorem read_of_le (h : c.index ≤ c.bytes.length) :
    c.read = .ok (match readEntry c.index (c.bytes.drop c.index) with
      | .error e => (.error e, c)
      | .ok (e, n) => (.ok e, { c with index := c.index + n })) := by
  rw [read, behind_of_le h, ok_bind]
  match c.bytes.drop c.index with
  | [] | [_] => rfl
  | tag :: l :: rest =>
    have hitem : item (tag :: l :: rest) 0 = .ok tag := rfl
    have hbehind : behind (tag :: l :: rest) 1 = .ok (l :: rest) :=
      behind_of_le (Nat.le_add_left 1 _)
    have hlong : ¬ (tag :: l :: rest).length < 2 := by simp
    rw [if_neg hlong, hitem, ok_bind, hbehind, ok_bind]
    cases hlen : decodeLength (l :: rest) with
    | error e =>
      simp only [readEntry, hlen]
      rfl
    | ok r =>
      obtain ⟨len, form⟩ := r
      have hform := form_le_of_decodeLength hlen
      have hdrop : (tag :: l :: rest).drop (1 + form) = (l :: rest).drop form := by
        rw [Nat.add_comm, List.drop_succ_cons]
      rw [readEntry_of_decodeLength c.index tag hlen, List.length_cons]
      dsimp only
      by_cases hcut : ((l :: rest).drop form).length < len
      · rw [if_pos hcut, if_pos (by rw [List.length_drop] at hcut; omega)]
        rfl
      · rw [if_neg hcut, if_neg (by rw [List.length_drop] at hcut; omega),
          behind_of_le (by rw [List.length_cons]; omega), ok_bind, hdrop,
          upTo_of_le (Nat.not_lt.mp hcut)]
        rfl

theorem next_of_done (h : c.failed ∨ c.bytes.length ≤ c.index) :
    c.next = .ok (none, c) ∧ c.items = [] := by
  refine ⟨if_pos h, ?_⟩
  unfold items
  split
  · rfl
  · rename_i hfailed
    rw [List.drop_eq_nil_of_le (h.resolve_left hfailed), scanFrom_nil]

/-- A cursor at an entry that cannot be read answers with the fault and is done. -/
theorem next_of_error {r : CodecError} (h : ¬ (c.failed ∨ c.bytes.length ≤ c.index))
    (hread : readEntry c.index (c.bytes.drop c.index) = .error r) :
    c.next = .ok (some (.error r), { c with failed := true }) ∧ c.items = [.error r] := by
  obtain ⟨hfailed, hlt⟩ := not_or.mp h
  have hne : c.bytes.drop c.index ≠ [] := by
    rw [Ne, List.drop_eq_nil_iff]
    exact hlt
  rw [next, if_neg h, read_of_le (by omega), hread, items, if_neg hfailed,
    scanFrom_of_error hne hread]
  exact ⟨rfl, rfl⟩

/-- A cursor at an entry that can be read answers with it and moves over it. -/
theorem next_of_ok {n : Nat} (h : ¬ (c.failed ∨ c.bytes.length ≤ c.index))
    (hread : readEntry c.index (c.bytes.drop c.index) = .ok (e, n)) :
    c.next = .ok (some (.ok e), { c with index := c.index + n }) ∧
      c.items = .ok e :: ({ c with index := c.index + n } : Cursor).items := by
  obtain ⟨hfailed, hlt⟩ := not_or.mp h
  rw [next, if_neg h, read_of_le (by omega), hread]
  refine ⟨rfl, ?_⟩
  unfold items
  rw [if_neg hfailed, if_neg hfailed, scanFrom_of_ok hread, List.drop_drop]

/-- A cursor that is asked for the next entry answers with the first of its items and has the others
left. An entry that it answers with begins within the bytes, and the cursor has moved. -/
theorem exists_next (c : Cursor) :
    ∃ c', c.next = .ok (c.items.head?, c') ∧ c'.items = c.items.tail ∧ c'.bytes = c.bytes ∧
      ∀ e, c.items.head? = some (.ok e) →
        e.offset ≤ c.bytes.length ∧ c.index < c.bytes.length ∧ c.index < c'.index := by
  by_cases hdone : c.failed ∨ c.bytes.length ≤ c.index
  · obtain ⟨hnext, hitems⟩ := next_of_done hdone
    rw [hnext, hitems]
    exact ⟨c, rfl, hitems, rfl, by simp⟩
  · obtain ⟨-, hlt⟩ := not_or.mp hdone
    cases hread : readEntry c.index (c.bytes.drop c.index) with
    | error r =>
      obtain ⟨hnext, hitems⟩ := next_of_error hdone hread
      rw [hnext, hitems]
      exact ⟨_, rfl, rfl, rfl, by simp⟩
    | ok r =>
      obtain ⟨e, n⟩ := r
      obtain ⟨hnext, hitems⟩ := next_of_ok hdone hread
      rw [hnext, hitems]
      refine ⟨_, rfl, rfl, rfl, ?_⟩
      rintro e' he'
      cases he'
      have hoffset := (eq_encode_of_readEntry hread).2.1
      have hpos := readEntry_pos hread
      dsimp only
      omega

/-- A cursor that answers with an entry has fewer bytes before it than it had. -/
theorem left_lt_of_next (h : c.next = .ok (some (.ok e), c')) :
    c'.bytes.length - c'.index < c.bytes.length - c.index := by
  obtain ⟨c'', hnext, -, hbytes, hmove⟩ := c.exists_next
  rw [h, Except.ok.injEq, Prod.mk.injEq] at hnext
  obtain ⟨hhead, rfl⟩ := hnext
  have hmove := hmove e hhead.symm
  rw [hbytes]
  omega

/-- However often it is asked, a cursor answers with its items in turn, and then with nothing. -/
theorem answers_eq (c : Cursor) (n : Nat) :
    c.answers n = .ok ((List.range n).map fun i => c.items[i]?) := by
  induction n generalizing c with
  | zero => rfl
  | succ n ih =>
    obtain ⟨c', hnext, hitems, -⟩ := c.exists_next
    rw [answers, hnext, ok_bind]
    dsimp only
    rw [ih, hitems, List.range_succ_eq_map, List.map_cons, List.map_map, List.head?_eq_getElem?]
    simp only [Function.comp_def, List.getElem?_tail]
    rfl

end Cursor

end Tlv

end TokenProvision
