import Mathlib.Data.List.Forall2
import Mathlib.Data.List.Induction
import TokenProvision.Text

/-!
What reads as bytes or as a number. Bytes are read from pairs of hexadecimal digits in either case
and from nothing else, although the reader looks at the UTF-8 form of a text and not at its
characters. A numeral is read exactly if it is made of digits, with a plus sign in front or without,
and its value is within the limit.
-/
namespace TokenProvision.Text

/-- What holds of the first 128 characters one by one holds of each of them. -/
theorem forall_ascii (P : Char → Prop) (h : ∀ n < 128, P (Char.ofNat n)) (c : Char)
    (hc : c.toNat < 128) : P c := by
  have hp := h c.toNat hc
  rwa [Char.ofNat_toNat] at hp

namespace Numeral

variable {base limit n m : Nat} {cs : List Char} {vs : List Nat} {c : Char}

theorem digitValue?_of_le (h : 128 ≤ c.toNat) : digitValue? base c = none := by
  have habove (d : Char) (hd : d.toNat < 128) : ¬ c ≤ d := by
    rw [Char.le_def, UInt32.le_iff_toNat_le]
    exact Nat.not_le.mpr (Nat.lt_of_lt_of_le hd h)
  simp only [digitValue?, habove '9' (by decide), habove 'z' (by decide), habove 'Z' (by decide),
    and_false, if_false, Nat.lt_irrefl]

theorem digitValue?_plus : digitValue? base '+' = none := by
  have hrange : ¬ ('0' ≤ '+' ∧ '+' ≤ '9') ∧ ¬ ('a' ≤ '+' ∧ '+' ≤ 'z') ∧
      ¬ ('A' ≤ '+' ∧ '+' ≤ 'Z') := by
    decide
  simp only [digitValue?, hrange, if_false, Nat.lt_irrefl]

/-- A hexadecimal digit is neither blank nor the sign of a remark. -/
theorem not_blank_of_digit {v : Nat} (h : digitValue? 16 c = some v) :
    isBlank c = false ∧ c ≠ '#' := by
  by_cases hc : c.toNat < 128
  · refine forall_ascii
      (fun c => (digitValue? 16 c).isSome = true → isBlank c = false ∧ c ≠ '#')
      (by decide +kernel) c hc ?_
    rw [h]
    rfl
  · rw [digitValue?_of_le (Nat.not_lt.mp hc)] at h
    cases h

/-- The number that goes on from `n` with some digits. -/
def valueFrom (base n : Nat) (vs : List Nat) : Nat := vs.foldl (fun n v => n * base + v) n

def HaveValues (base : Nat) (cs : List Char) (vs : List Nat) : Prop :=
  List.Forall₂ (fun c v => digitValue? base c = some v) cs vs

/-- Whether characters are a numeral of a number: at least one digit, with a plus sign in front or
without, and the number is within the limit. -/
def Denotes (base limit : Nat) (cs : List Char) (n : Nat) : Prop :=
  ∃ ds vs, (cs = ds ∨ cs = '+' :: ds) ∧ ds ≠ [] ∧ HaveValues base ds vs ∧
    n = valueFrom base 0 vs ∧ n ≤ limit

theorem le_valueFrom (hbase : 0 < base) (n : Nat) (vs : List Nat) : n ≤ valueFrom base n vs := by
  induction vs generalizing n with
  | nil => exact Nat.le_refl n
  | cons v vs ih =>
    calc n ≤ n * base := Nat.le_mul_of_pos_right n hbase
      _ ≤ n * base + v := Nat.le_add_right _ _
      _ ≤ valueFrom base (n * base + v) vs := ih _

/-- Digits are read exactly if the number that they make is within the limit: as it only grows, it
was within the limit at every digit. -/
theorem readDigits_eq_ok_iff (hbase : 0 < base) (hn : n ≤ limit) :
    readDigits base limit n cs = .ok m ↔
      ∃ vs, HaveValues base cs vs ∧ m = valueFrom base n vs ∧ m ≤ limit := by
  induction cs generalizing n with
  | nil =>
    constructor
    · rintro ⟨⟩
      exact ⟨[], .nil, rfl, hn⟩
    · rintro ⟨vs, ⟨⟩, rfl, -⟩
      rfl
  | cons c cs ih =>
    unfold readDigits
    cases hc : digitValue? base c with
    | none =>
      constructor
      · rintro ⟨⟩
      · rintro ⟨_, hvs, -⟩
        cases hvs with
        | cons hv _ =>
          rw [hc] at hv
          cases hv
    | some v =>
      dsimp only
      split
      · rename_i hlarge
        constructor
        · rintro ⟨⟩
        · rintro ⟨_, hvs, rfl, hm⟩
          cases hvs with
          | @cons _ w _ vs hv _ =>
            cases hc.symm.trans hv
            have hgrows : n * base + v ≤ valueFrom base n (v :: vs) := le_valueFrom hbase _ vs
            omega
      · rename_i hsmall
        rw [ih (Nat.not_lt.mp hsmall)]
        constructor
        · rintro ⟨vs, hvs, hm⟩
          exact ⟨v :: vs, .cons hc hvs, hm⟩
        · rintro ⟨_, hvs, hm⟩
          cases hvs with
          | @cons _ w _ vs hv hvs =>
            cases hc.symm.trans hv
            exact ⟨vs, hvs, hm⟩

theorem not_haveValues_plus {rest : List Char} : ¬ HaveValues base ('+' :: rest) vs := by
  rintro (_ | ⟨hv, -⟩)
  rw [digitValue?_plus] at hv
  cases hv

/-- Exactly the numerals of numbers within the limit are read. -/
theorem read_eq_ok_iff (hbase : 0 < base) :
    read base limit cs = .ok n ↔ Denotes base limit cs n := by
  have hdigits (ds : List Char) : readDigits base limit 0 ds = .ok n ↔
      ∃ vs, HaveValues base ds vs ∧ n = valueFrom base 0 vs ∧ n ≤ limit :=
    readDigits_eq_ok_iff hbase (Nat.zero_le limit)
  unfold read
  split
  · constructor
    · rintro ⟨⟩
    · rintro ⟨ds, vs, rfl | hplus, hne, -⟩
      · exact absurd rfl hne
      · cases hplus
  · constructor
    · rintro ⟨⟩
    · rintro ⟨ds, vs, rfl | hplus, hne, hvs, -⟩
      · exact absurd hvs not_haveValues_plus
      · cases hplus
        exact absurd rfl hne
  · rename_i rest hne
    rw [hdigits]
    constructor
    · rintro ⟨vs, hvs, hn⟩
      exact ⟨rest, vs, .inr rfl, hne, hvs, hn⟩
    · rintro ⟨ds, vs, rfl | hplus, -, hvs, hn⟩
      · exact absurd hvs not_haveValues_plus
      · cases hplus
        exact ⟨vs, hvs, hn⟩
  · rename_i hne _ hplus
    rw [hdigits]
    constructor
    · rintro ⟨vs, hvs, hn⟩
      exact ⟨cs, vs, .inl rfl, hne, hvs, hn⟩
    · rintro ⟨ds, vs, rfl | rfl, -, hvs, hn⟩
      · exact ⟨vs, hvs, hn⟩
      · exact absurd rfl (hplus ds)

end Numeral

namespace Hex

variable {cs : List Char} {bs : Bytes} {place : Nat}

/-- How characters spell bytes: two hexadecimal digits for each. -/
inductive Spells : List Char → Bytes → Prop where
  | nil : Spells [] []
  | cons {hi lo : Char} {h l : Nat} {cs : List Char} {bs : Bytes}
    (high : Numeral.digitValue? 16 hi = some h) (low : Numeral.digitValue? 16 lo = some l)
    (tail : Spells cs bs) : Spells (hi :: lo :: cs) (UInt8.ofNat (h * 16 + l) :: bs)

theorem digitValue?_ofNat_of_le {n : Nat} (h : 128 ≤ n) (hn : n < 256) :
    digitValue? (UInt8.ofNat n) = none := by
  have hcheck : ∀ n < 256, 128 ≤ n → digitValue? (UInt8.ofNat n) = none := by decide +kernel
  exact hcheck n hn h

/-- The UTF-8 form of a character is one byte, which is a digit if the character is one; or it is
more than one, of which the first is no digit, and neither is the character. -/
theorem utf8_cases (c : Char) :
    (∃ b, String.utf8EncodeChar c = [b] ∧
      (digitValue? b).map UInt8.toNat = Numeral.digitValue? 16 c) ∨
    ∃ b b' more, String.utf8EncodeChar c = b :: b' :: more ∧ digitValue? b = none ∧
      Numeral.digitValue? 16 c = none := by
  by_cases hc : c.toNat < 128
  · have hdigit := forall_ascii
      (fun c => (digitValue? (UInt8.ofNat c.toNat)).map UInt8.toNat = Numeral.digitValue? 16 c)
      (by decide +kernel) c hc
    exact .inl ⟨UInt8.ofNat c.toNat, if_pos (Nat.le_of_lt_succ hc), hdigit⟩
  · have hnone : Numeral.digitValue? 16 c = none := Numeral.digitValue?_of_le (Nat.not_lt.mp hc)
    have hlong : ¬ c.val.toNat ≤ 0x7f := fun h => hc (Nat.lt_succ_of_le h)
    unfold String.utf8EncodeChar
    dsimp only
    rw [if_neg hlong]
    split
    · exact .inr ⟨_, _, _, rfl, digitValue?_ofNat_of_le (by omega) (by omega), hnone⟩
    · split
      · exact .inr ⟨_, _, _, rfl, digitValue?_ofNat_of_le (by omega) (by omega), hnone⟩
      · exact .inr ⟨_, _, _, rfl, digitValue?_ofNat_of_le (by omega) (by omega), hnone⟩

/-- A digit is one byte in UTF-8, and that byte is the digit. -/
theorem utf8_of_digit {c : Char} {v : Nat} (hv : Numeral.digitValue? 16 c = some v) :
    ∃ b h, String.utf8EncodeChar c = [b] ∧ digitValue? b = some h ∧ h.toNat = v := by
  rcases utf8_cases c with ⟨b, hb, hdigit⟩ | ⟨b, b', more, -, -, hnone⟩
  · rw [hv] at hdigit
    obtain ⟨h, hh, hvalue⟩ := Option.map_eq_some_iff.mp hdigit
    exact ⟨b, h, hb, hh, hvalue⟩
  · rw [hnone] at hv
    cases hv

/-- A byte that is a digit, where the UTF-8 form of a character begins, is that character. -/
theorem digit_of_utf8 {c : Char} {b h : UInt8} {more : Bytes}
    (hc : String.utf8EncodeChar c = b :: more) (hh : digitValue? b = some h) :
    more = [] ∧ Numeral.digitValue? 16 c = some h.toNat := by
  rcases utf8_cases c with ⟨b', hb, hdigit⟩ | ⟨b', b'', more', hb, hnone, -⟩
  · rw [hc] at hb
    cases hb
    rw [hh] at hdigit
    exact ⟨rfl, hdigit.symm⟩
  · rw [hc] at hb
    cases hb
    rw [hh] at hnone
    cases hnone

theorem exists_utf8_eq_cons (c : Char) : ∃ b more, String.utf8EncodeChar c = b :: more := by
  rcases utf8_cases c with ⟨b, hb, -⟩ | ⟨b, b', more, hb, -⟩
  · exact ⟨b, [], hb⟩
  · exact ⟨b, b' :: more, hb⟩

theorem readPairs_eq_ok_iff {hi lo : UInt8} {rest : Bytes} :
    readPairs place (hi :: lo :: rest) = .ok bs ↔ ∃ h l tail, digitValue? hi = some h ∧
      digitValue? lo = some l ∧ readPairs (place + 2) rest = .ok tail ∧
      bs = (h * 16 + l) :: tail := by
  rw [readPairs]
  cases digitValue? hi with
  | none => simp
  | some h =>
    cases digitValue? lo with
    | none => simp
    | some l => cases readPairs (place + 2) rest <;> simp [eq_comm]

/-- What is read as bytes to its end, in pairs, spells them. -/
theorem spells_of_readPairs (heven : (utf8 cs).length % 2 ≠ 1)
    (h : readPairs place (utf8 cs) = .ok bs) : Spells cs bs := by
  induction cs using List.twoStepInduction generalizing place bs with
  | nil =>
    cases h
    exact .nil
  | singleton c =>
    obtain ⟨b, more, hc⟩ := exists_utf8_eq_cons c
    have hutf8 : utf8 [c] = b :: more := by simp [utf8, hc]
    rw [hutf8] at heven h
    cases more with
    | nil => exact absurd rfl heven
    | cons b' more =>
      obtain ⟨high, -, -, hhigh, -⟩ := readPairs_eq_ok_iff.mp h
      cases (digit_of_utf8 hc hhigh).1
  | cons_cons c d cs ih _ =>
    obtain ⟨b, more, hc⟩ := exists_utf8_eq_cons c
    obtain ⟨b', more', hd⟩ := exists_utf8_eq_cons d
    have hutf8 : utf8 (c :: d :: cs) = b :: (more ++ b' :: (more' ++ utf8 cs)) := by
      simp [utf8, hc, hd]
    rw [hutf8] at heven h
    cases more with
    | nil =>
      obtain ⟨high, low, tail, hhigh, hlow, htail, rfl⟩ := readPairs_eq_ok_iff.mp h
      obtain ⟨rfl, hlow⟩ := digit_of_utf8 hd hlow
      have hbyte : high * 16 + low = UInt8.ofNat (high.toNat * 16 + low.toNat) := by simp
      simp only [List.nil_append, List.length_cons] at heven
      rw [hbyte]
      exact .cons (digit_of_utf8 hc hhigh).2 hlow (ih (by omega) htail)
    | cons b'' more =>
      obtain ⟨high, -, -, hhigh, -⟩ := readPairs_eq_ok_iff.mp h
      cases (digit_of_utf8 hc hhigh).1

/-- What spells bytes is read as them to its end. -/
theorem readPairs_of_spells (h : Spells cs bs) (place : Nat) :
    (utf8 cs).length % 2 ≠ 1 ∧ readPairs place (utf8 cs) = .ok bs := by
  induction h generalizing place with
  | nil => exact ⟨by decide, rfl⟩
  | @cons hi lo _ _ cs bs high low tail ih =>
    obtain ⟨b, h, hhi, hb, rfl⟩ := utf8_of_digit high
    obtain ⟨b', l, hlo, hb', rfl⟩ := utf8_of_digit low
    obtain ⟨heven, hread⟩ := ih (place + 2)
    have hutf8 : utf8 (hi :: lo :: cs) = b :: b' :: utf8 cs := by simp [utf8, hhi, hlo]
    rw [hutf8]
    refine ⟨?_, readPairs_eq_ok_iff.mpr ⟨h, l, bs, hb, hb', hread, by simp⟩⟩
    simp only [List.length_cons]
    omega

/-- Exactly the spellings of bytes are decoded. -/
theorem decode_eq_ok_iff : decode cs = .ok bs ↔ Spells cs bs := by
  unfold decode
  constructor
  · intro h
    split at h
    · cases h
    · rename_i heven
      exact spells_of_readPairs heven h
  · intro h
    obtain ⟨heven, hread⟩ := readPairs_of_spells h 0
    rw [if_neg heven, hread]

theorem digitValue?_digit : ∀ n < 16, Numeral.digitValue? 16 (digit n) = some n := by decide

theorem digitValue?_byteDigits (b : UInt8) :
    Numeral.digitValue? 16 (digit (b.toNat / 16)) = some (b.toNat / 16) ∧
      Numeral.digitValue? 16 (digit (b.toNat % 16)) = some (b.toNat % 16) := by
  have hb := b.toNat_lt
  exact ⟨digitValue?_digit _ (by omega), digitValue?_digit _ (by omega)⟩

/-- Bytes are spelled by their digits. -/
theorem spells_digits (bs : Bytes) : Spells (digits bs) bs := by
  induction bs with
  | nil => exact .nil
  | cons b bs ih =>
    obtain ⟨hhigh, hlow⟩ := digitValue?_byteDigits b
    have hbyte : UInt8.ofNat (b.toNat / 16 * 16 + b.toNat % 16) = b := by
      rw [Nat.div_add_mod', UInt8.ofNat_toNat]
    have hspells := Spells.cons hhigh hlow ih
    rwa [hbyte] at hspells

/-- The digits of bytes have values that make up the number of the bytes. -/
theorem exists_values_digits (bs : Bytes) (n : Nat) :
    ∃ vs, Numeral.HaveValues 16 (digits bs) vs ∧
      Numeral.valueFrom 16 n vs = bs.foldl (fun n b => n * 256 + b.toNat) n := by
  induction bs generalizing n with
  | nil => exact ⟨[], .nil, rfl⟩
  | cons b bs ih =>
    obtain ⟨hhigh, hlow⟩ := digitValue?_byteDigits b
    obtain ⟨vs, hvs, hvalue⟩ := ih (n * 256 + b.toNat)
    refine ⟨b.toNat / 16 :: b.toNat % 16 :: vs, .cons hhigh (.cons hlow hvs), ?_⟩
    have hbyte : (n * 16 + b.toNat / 16) * 16 + b.toNat % 16 = n * 256 + b.toNat := by omega
    rw [List.foldl_cons, ← hvalue, ← hbyte]
    rfl

/-- The digits of bytes are a numeral of the number of the bytes. -/
theorem denotes_digits {limit : Nat} (hne : bs ≠ []) (h : Bytes.toNat bs ≤ limit) :
    Numeral.Denotes 16 limit (digits bs) (Bytes.toNat bs) := by
  obtain ⟨vs, hvs, hvalue⟩ := exists_values_digits bs 0
  refine ⟨digits bs, vs, .inl rfl, ?_, hvs, hvalue.symm, h⟩
  obtain ⟨b, rest, rfl⟩ := List.exists_cons_of_ne_nil hne
  exact List.cons_ne_nil _ _

theorem Spells.isBlank_eq_false (h : Spells cs bs) : ∀ c ∈ cs, isBlank c = false ∧ c ≠ '#' := by
  induction h with
  | nil => exact List.forall_mem_nil _
  | cons high low tail ih =>
    exact List.forall_mem_cons.mpr ⟨Numeral.not_blank_of_digit high,
      List.forall_mem_cons.mpr ⟨Numeral.not_blank_of_digit low, ih⟩⟩

end Hex

end TokenProvision.Text
