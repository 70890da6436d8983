import Mathlib.Algebra.Group.Nat.Defs
import Mathlib.Data.List.Induction
import TokenProvision.Bytes

/-!
Big-endian numbers read back: a byte string is determined by its length and by the number that it
writes, so the readers of two and of four bytes undo the writers and nothing else passes them.
The same holds of labels and of strings of a fixed length.
-/
namespace TokenProvision.Bytes

/-- The number of a byte string lies below the power of 256 that its length names. -/
theorem toNat_lt (bs : Bytes) : toNat bs < 256 ^ bs.length := by
  induction bs using List.reverseRecOn with
  | nil => simp
  | append_singleton bs b ih =>
    have hb := b.toNat_lt
    rw [toNat_concat, List.length_append, List.length_singleton, Nat.pow_succ]
    omega

/-- The first byte counts for the power of 256 that the bytes behind it name. -/
theorem toNat_cons (b : UInt8) (bs : Bytes) :
    toNat (b :: bs) = b.toNat * 256 ^ bs.length + toNat bs := by
  induction bs using List.reverseRecOn with
  | nil => simp [toNat]
  | append_singleton bs c ih =>
    rw [← List.cons_append, toNat_concat, ih, toNat_concat, List.length_append,
      List.length_singleton, Nat.pow_succ, ← Nat.mul_assoc]
    omega

theorem toNat_zero_cons (bs : Bytes) : toNat (0 :: bs) = toNat bs := by
  simp [toNat_cons]

/-- Zeros in front do not count. -/
theorem toNat_dropWhile_zero (bs : Bytes) : toNat (bs.dropWhile (· = 0)) = toNat bs := by
  induction bs with
  | nil => rfl
  | cons b bs ih =>
    by_cases hb : b = 0
    · rw [List.dropWhile_cons_of_pos (by simpa using hb), ih, hb, toNat_zero_cons]
    · rw [List.dropWhile_cons_of_neg (by simpa using hb)]

/-- Writing the number of a byte string in as many bytes gives the string again. -/
theorem ofNat_toNat (bs : Bytes) : ofNat bs.length (toNat bs) = bs := by
  induction bs using List.reverseRecOn with
  | nil => rfl
  | append_singleton bs b ih =>
    have hb := b.toNat_lt
    have hdiv : (toNat bs * 256 + b.toNat) / 256 = toNat bs := by omega
    have hmod : (toNat bs * 256 + b.toNat) % 256 = b.toNat := by omega
    rw [toNat_concat, List.length_append, List.length_singleton, ofNat, hdiv, hmod, ih,
      UInt8.ofNat_toNat]

/-- A number that is written in some bytes reads back as its last digits. -/
theorem toNat_ofNat (width n : Nat) : toNat (ofNat width n) = n % 256 ^ width := by
  induction width generalizing n with
  | zero => simp [Nat.mod_one]
  | succ width ih =>
    rw [ofNat, toNat_concat, ih, Nat.pow_succ', Nat.mod_mul]
    simp
    omega

theorem toNat_ofNat_of_lt {width n : Nat} (h : n < 256 ^ width) : toNat (ofNat width n) = n := by
  rw [toNat_ofNat, Nat.mod_eq_of_lt h]

theorem eq_of_toNat_eq {xs ys : Bytes} (hlen : xs.length = ys.length)
    (h : toNat xs = toNat ys) : xs = ys := by
  rw [← ofNat_toNat xs, ← ofNat_toNat ys, hlen, h]

theorem toUInt8?_eq_some_iff {bs : Bytes} {b : UInt8} : toUInt8? bs = some b ↔ bs = [b] := by
  unfold toUInt8?
  split <;> simp_all

/-- Whether a type has exactly the numbers that `width` bytes write. -/
structure Fills {α : Type} (width : Nat) (ofNumber : Nat → α) (number : α → Nat) : Prop where
  number_lt : ∀ v, number v < 256 ^ width
  number_ofNumber : ∀ {n}, n < 256 ^ width → number (ofNumber n) = n
  ofNumber_number : ∀ v, ofNumber (number v) = v

namespace Fills

variable {α : Type} {width : Nat} {ofNumber : Nat → α} {number : α → Nat} {bs : Bytes} {v : α}

theorem toNat_write (h : Fills width ofNumber number) (v : α) :
    toNat (ofNat width (number v)) = number v :=
  toNat_ofNat_of_lt (h.number_lt v)

theorem write_injective (h : Fills width ofNumber number) :
    Function.Injective fun v => ofNat width (number v) := by
  intro v w hvw
  have hnumber : number v = number w := by
    rw [← h.toNat_write v, ← h.toNat_write w]
    exact congrArg toNat hvw
  rw [← h.ofNumber_number v, hnumber, h.ofNumber_number]

/-- Only the bytes of a number are read as that number. -/
theorem read_eq_some_iff (h : Fills width ofNumber number) :
    (if bs.length = width then some (ofNumber (toNat bs)) else none) = some v ↔
      bs = ofNat width (number v) := by
  rw [Option.ite_none_right_eq_some, Option.some_inj]
  constructor
  · rintro ⟨hlen, rfl⟩
    have hlt : toNat bs < 256 ^ width := hlen ▸ toNat_lt bs
    rw [h.number_ofNumber hlt, ← hlen, ofNat_toNat]
  · rintro rfl
    exact ⟨length_ofNat .., by rw [h.toNat_write, h.ofNumber_number]⟩

/-- Every string of `width` bytes is read as a number. -/
theorem exists_write_iff (h : Fills width ofNumber number) :
    (∃ v, bs = ofNat width (number v)) ↔ bs.length = width := by
  constructor
  · rintro ⟨v, rfl⟩
    exact length_ofNat ..
  · intro hlen
    exact ⟨ofNumber (toNat bs), h.read_eq_some_iff.mp (if_pos hlen)⟩

end Fills

theorem fills_uint16 : Fills 2 UInt16.ofNat UInt16.toNat :=
  ⟨UInt16.toNat_lt, UInt16.toNat_ofNat_of_lt', fun _ => UInt16.ofNat_toNat⟩

theorem fills_uint32 : Fills 4 UInt32.ofNat UInt32.toNat :=
  ⟨UInt32.toNat_lt, UInt32.toNat_ofNat_of_lt', fun _ => UInt32.ofNat_toNat⟩

theorem toNat_ofUInt16 (v : UInt16) : toNat (ofUInt16 v) = v.toNat := fills_uint16.toNat_write v
theorem toNat_ofUInt32 (v : UInt32) : toNat (ofUInt32 v) = v.toNat := fills_uint32.toNat_write v

theorem ofUInt16_injective : Function.Injective ofUInt16 := fills_uint16.write_injective
theorem ofUInt32_injective : Function.Injective ofUInt32 := fills_uint32.write_injective

theorem toUInt16?_eq_some_iff {bs : Bytes} {v : UInt16} :
    toUInt16? bs = some v ↔ bs = ofUInt16 v :=
  fills_uint16.read_eq_some_iff

theorem toUInt32?_eq_some_iff {bs : Bytes} {v : UInt32} :
    toUInt32? bs = some v ↔ bs = ofUInt32 v :=
  fills_uint32.read_eq_some_iff

theorem exists_ofUInt16_iff {bs : Bytes} : (∃ v, bs = ofUInt16 v) ↔ bs.length = 2 :=
  fills_uint16.exists_write_iff

theorem exists_ofUInt32_iff {bs : Bytes} : (∃ v, bs = ofUInt32 v) ↔ bs.length = 4 :=
  fills_uint32.exists_write_iff

end TokenProvision.Bytes

namespace TokenProvision

theorem FixedBytes.ofBytes?_eq_some_iff {n : Nat} {bs : Bytes} {f : FixedBytes n} :
    FixedBytes.ofBytes? n bs = some f ↔ bs = f.bytes := by
  constructor
  · intro h
    unfold FixedBytes.ofBytes? at h
    split at h <;> cases h
    rfl
  · rintro rfl
    exact FixedBytes.ofBytes?_bytes f

theorem Label.ofBytes?_eq_some_iff {max : Nat} {bs : Bytes} {l : Label max} :
    Label.ofBytes? max bs = some l ↔ bs = l.bytes := by
  constructor
  · intro h
    exact (Label.bytes_of_ofBytes? h).symm
  · rintro rfl
    exact Label.ofBytes?_bytes l

end TokenProvision
