import TokenProvision.Ecdsa
import TokenProvision.Proofs.Bytes

/-!
The encoding of signatures reads back. Each number has one shortest form, which shows its own end
behind its length, so a signature is read from its encoding and from nothing shorter or longer: no
other spelling and no byte more. So a signature that verifies has at most 72 bytes; and the
signature that is made of a message is a low one, which is verified as it is.
-/
namespace TokenProvision.Ecdsa

open Secp256k1 (PublicKey SecretKey order)

namespace Signature

variable {n : Nat} {sig : Signature}

/-- The bytes of an integer come from those of its number without zeros in front: a zero is put
before them if they would show a sign, or if there are none. -/
theorem exists_shortest (h : n < 256 ^ 32) :
    ∃ bs : Bytes, Bytes.toNat bs = n ∧ bs.length ≤ 32 ∧ bs.head? ≠ some 0 ∧
      integerBytes n = match bs with
        | [] => [0]
        | b :: _ => if b < 0x80 then bs else 0 :: bs := by
  have hnumber := Bytes.toNat_ofNat_of_lt h
  have hlength := Bytes.length_ofNat 32 n
  unfold integerBytes
  generalize Bytes.ofNat 32 n = digits at hnumber hlength ⊢
  refine ⟨digits.dropWhile (· = 0), ?_, ?_, ?_, rfl⟩
  · rw [Bytes.toNat_dropWhile_zero, hnumber]
  · rw [← hlength]
    exact (List.dropWhile_sublist _).length_le
  · intro hzero
    have hhead := List.head?_dropWhile_not (fun b : UInt8 => decide (b = 0)) digits
    rw [hzero] at hhead
    simp at hhead

/-- The bytes of an integer show its number, they are the shortest that do, and there is at most one
more of them than the number has. -/
theorem integerBytes_spec (h : n < 256 ^ 32) :
    Bytes.toNat (integerBytes n) = n ∧ IsShortest (integerBytes n) ∧
      (integerBytes n).length ≤ 33 := by
  obtain ⟨bs, hnumber, hlength, hhead, heq⟩ := exists_shortest h
  rw [heq]
  match bs, hnumber, hlength, hhead with
  | [], hnumber, _, _ => exact ⟨hnumber, by decide, by decide⟩
  | b :: rest, hnumber, hlength, hhead =>
    dsimp only
    split
    · rename_i hsmall
      refine ⟨hnumber, ?_, by omega⟩
      cases rest with
      | nil => exact hsmall
      | cons c rest => exact ⟨hsmall, fun hzero => absurd (by rw [hzero]; rfl) hhead⟩
    · rename_i hlarge
      rw [Bytes.toNat_zero_cons, List.length_cons]
      exact ⟨hnumber, ⟨by decide, fun _ => UInt8.not_lt.mp hlarge⟩, by omega⟩

theorem toNat_lengthByte {k : Nat} (h : k < 0x80) :
    UInt8.ofNat k < 0x80 ∧ (UInt8.ofNat k).toNat = k := by
  have hk : (UInt8.ofNat k).toNat = k := UInt8.toNat_ofNat_of_lt' (Nat.lt_trans h (by decide))
  refine ⟨UInt8.lt_iff_toNat_lt.mpr ?_, hk⟩
  rw [hk]
  exact h

/-- An integer reads back, whatever follows it. -/
theorem decodeInteger?_encodeInteger_append (h : n < 256 ^ 32) (rest : Bytes) :
    decodeInteger? (encodeInteger n ++ rest) = some (n, rest) := by
  have hspec := integerBytes_spec h
  unfold encodeInteger
  generalize integerBytes n = bs at hspec ⊢
  obtain ⟨hnumber, hshortest, hlength⟩ := hspec
  obtain ⟨hshort, htoNat⟩ := toNat_lengthByte (k := bs.length) (by omega)
  have hfits : (UInt8.ofNat bs.length).toNat ≤ (bs ++ rest).length := by
    rw [htoNat, List.length_append]
    exact Nat.le_add_right _ _
  simp only [List.cons_append, decodeInteger?]
  rw [htoNat] at hfits ⊢
  rw [List.take_left, List.drop_left, if_pos ⟨trivial, hshort, hfits, hshortest⟩, hnumber]

theorem length_encodeInteger_le (h : n < 256 ^ 32) : (encodeInteger n).length ≤ 35 := by
  have hlength := (integerBytes_spec h).2.2
  simp only [encodeInteger, List.length_cons]
  omega

theorem r_lt_pow (sig : Signature) : sig.r < 256 ^ 32 := Nat.lt_trans sig.r_lt (by decide)

theorem s_lt_pow (sig : Signature) : sig.s < 256 ^ 32 := Nat.lt_trans sig.s_lt (by decide)

theorem length_body_le (sig : Signature) :
    (encodeInteger sig.r ++ encodeInteger sig.s).length ≤ 70 := by
  have hr := length_encodeInteger_le sig.r_lt_pow
  have hs := length_encodeInteger_le sig.s_lt_pow
  rw [List.length_append]
  omega

@[simp] theorem decode?_encode (sig : Signature) : decode? sig.encode = some sig := by
  have hr := decodeInteger?_encodeInteger_append sig.r_lt_pow (encodeInteger sig.s)
  have hs := decodeInteger?_encodeInteger_append sig.s_lt_pow []
  rw [List.append_nil] at hs
  obtain ⟨hshort, htoNat⟩ := toNat_lengthByte (Nat.lt_of_le_of_lt sig.length_body_le (by decide))
  have hnumbers : ofNumbers? sig.r sig.s = some sig :=
    dif_pos ⟨sig.r_pos, sig.r_lt, sig.s_pos, sig.s_lt⟩
  simp only [encode, decode?]
  rw [if_pos ⟨trivial, hshort, htoNat⟩]
  simp only [hr, hs, hnumbers]

/-- The encoding of a signature has at most 72 bytes. -/
theorem length_encode_le (sig : Signature) : sig.encode.length ≤ 72 := by
  have := sig.length_body_le
  simp only [encode, List.length_cons]
  omega

theorem isLow_normalize (sig : Signature) : sig.normalize.IsLow := by
  by_cases hlow : sig.IsLow
  · rw [normalize, if_pos hlow]
    exact hlow
  · rw [normalize, if_neg hlow]
    unfold IsLow flip at *
    dsimp only
    omega

theorem normalize_of_isLow (h : sig.IsLow) : sig.normalize = sig := if_pos h

@[simp] theorem flip_flip (sig : Signature) : sig.flip.flip = sig := by
  have hs : order - (order - sig.s) = sig.s := Nat.sub_sub_self (Nat.le_of_lt sig.s_lt)
  simp only [flip, hs]

/-- The order is odd, so a signature and its opposite are never both low nor both high. -/
theorem isLow_flip_iff : sig.flip.IsLow ↔ ¬ sig.IsLow := by
  have hodd : order = order / 2 + order / 2 + 1 := by decide
  have hlt := sig.s_lt
  simp only [IsLow, flip]
  omega

/-- A signature and its opposite are made the same low signature. -/
@[simp] theorem normalize_flip (sig : Signature) : sig.flip.normalize = sig.normalize := by
  by_cases hlow : sig.IsLow
  · have hhigh : ¬ sig.flip.IsLow := fun h => isLow_flip_iff.mp h hlow
    rw [normalize, if_neg hhigh, flip_flip, normalize_of_isLow hlow]
  · rw [normalize_of_isLow (isLow_flip_iff.mpr hlow), normalize, if_neg hlow]

end Signature

variable {key : SecretKey} {algorithm : Algorithm} {msg : Bytes}

/-- An encoded signature is verified as the low one of it and its opposite. -/
theorem verify_encode (publicKey : PublicKey) (algorithm : Algorithm) (msg : Bytes)
    (sig : Signature) : verify publicKey algorithm msg sig.encode =
      verifyDigest publicKey (algorithm.digest msg) sig.normalize := by
  rw [verify, Signature.decode?_encode]

/-- A signature verifies exactly if its opposite does. -/
theorem verify_encode_flip (publicKey : PublicKey) (algorithm : Algorithm) (msg : Bytes)
    (sig : Signature) :
    verify publicKey algorithm msg sig.flip.encode = verify publicKey algorithm msg sig.encode := by
  rw [verify_encode, verify_encode, Signature.normalize_flip]

theorem isLow_of_signDigest {digest : Bytes} {sig : Signature}
    (h : signDigest key digest = some sig) : sig.IsLow := by
  simp only [signDigest, Option.bind_eq_bind, Option.bind_eq_some_iff] at h
  obtain ⟨k, -, low, -, hlow⟩ := h
  cases hlow
  exact Signature.isLow_normalize low

/-- Whether a key signs a message, and its public key accepts the signature of the digest. -/
def Attests (key : SecretKey) (algorithm : Algorithm) (msg : Bytes) : Prop :=
  ∃ sig, signDigest key (algorithm.digest msg) = some sig ∧
    verifyDigest key.publicKey (algorithm.digest msg) sig = true

theorem attests_iff_any :
    Attests key algorithm msg ↔ (signDigest key (algorithm.digest msg)).any
      (verifyDigest key.publicKey (algorithm.digest msg)) = true := by
  rw [Option.any_eq_true]
  rfl

/-- A message that a key attests can be signed with it, and the encoded signature is short and
verifies. -/
theorem exists_sign_of_attests (h : Attests key algorithm msg) :
    ∃ signature, sign key algorithm msg = some signature ∧ signature.length ≤ 72 ∧
      verify key.publicKey algorithm msg signature = true := by
  obtain ⟨sig, hsign, hverify⟩ := h
  refine ⟨sig.encode, ?_, sig.length_encode_le, ?_⟩
  · rw [sign, hsign]
    rfl
  · rw [verify_encode, Signature.normalize_of_isLow (isLow_of_signDigest hsign)]
    exact hverify

namespace Signature

variable {bs cs rest : Bytes} {n : Nat} {sig : Signature}

/-- The shortest bytes of a number leave room for a sign, and one byte less would not. -/
theorem IsShortest.bounds (h : IsShortest bs) :
    2 * Bytes.toNat bs < 256 ^ bs.length ∧
      (bs = [0] ∨ 256 ^ (bs.length - 1) ≤ 2 * Bytes.toNat bs) := by
  match bs, h with
  | [b], h =>
    have hb : b.toNat < 128 := h
    rw [Bytes.toNat_cons]
    refine ⟨by simp; omega, ?_⟩
    by_cases hzero : b = 0
    · exact .inl (by rw [hzero])
    · have hpos : b.toNat ≠ 0 := fun he => hzero (UInt8.toNat_inj.mp he)
      exact .inr (by simp; omega)
  | b :: c :: rest, ⟨hb, hc⟩ =>
    have hb : b.toNat < 128 := hb
    have hclt := c.toNat_lt
    have htail := Bytes.toNat_lt rest
    rw [Bytes.toNat_cons, Bytes.toNat_cons]
    simp only [List.length_cons, Nat.add_sub_cancel, Nat.pow_succ, ← Nat.mul_assoc]
    generalize 256 ^ rest.length = power at htail ⊢
    have hbhigh : b.toNat * power ≤ 127 * power := Nat.mul_le_mul_right _ (by omega)
    have hchigh : c.toNat * power ≤ 255 * power := Nat.mul_le_mul_right _ (by omega)
    refine ⟨by omega, .inr ?_⟩
    by_cases hzero : b = 0
    · have hclow : 128 * power ≤ c.toNat * power := Nat.mul_le_mul_right _ (hc hzero)
      omega
    · have hpos : b.toNat ≠ 0 := fun he => hzero (UInt8.toNat_inj.mp he)
      have hblow : 1 * power ≤ b.toNat * power := Nat.mul_le_mul_right _ (by omega)
      omega

/-- A number has only one string of shortest bytes. -/
theorem IsShortest.eq_of_toNat_eq (hbs : IsShortest bs) (hcs : IsShortest cs)
    (h : Bytes.toNat bs = Bytes.toNat cs) : bs = cs := by
  obtain ⟨hbs_lt, hbs_le⟩ := hbs.bounds
  obtain ⟨hcs_lt, hcs_le⟩ := hcs.bounds
  have hzero (k : Nat) : 2 * Bytes.toNat [0] < 256 ^ k := Nat.pow_pos (by decide)
  rcases hbs_le with rfl | hbs_le
  · rcases hcs_le with rfl | hcs_le
    · rfl
    · rw [← h] at hcs_le
      exact absurd hcs_le (Nat.not_le.mpr (hzero _))
  · rcases hcs_le with rfl | hcs_le
    · rw [h] at hbs_le
      exact absurd hbs_le (Nat.not_le.mpr (hzero _))
    · rw [h] at hbs_lt hbs_le
      have hone : 1 < 256 := by decide
      have hle := (Nat.pow_lt_pow_iff_right hone).mp (Nat.lt_of_le_of_lt hbs_le hcs_lt)
      have hge := (Nat.pow_lt_pow_iff_right hone).mp (Nat.lt_of_le_of_lt hcs_le hbs_lt)
      exact Bytes.eq_of_toNat_eq (by omega) h

/-- The shortest bytes of a number are those with which the number is written. -/
theorem IsShortest.integerBytes_eq (h : IsShortest bs) (hn : Bytes.toNat bs = n)
    (hlt : n < 256 ^ 32) : integerBytes n = bs := by
  have hspec := integerBytes_spec hlt
  -- the bytes are not to be computed
  generalize integerBytes n = digits at hspec ⊢
  obtain ⟨hnumber, hshortest, -⟩ := hspec
  exact hshortest.eq_of_toNat_eq h (hnumber.trans hn.symm)

/-- What is read as an integer is its encoding, and the rest is left. -/
theorem eq_encodeInteger_append_of_decodeInteger? (h : decodeInteger? bs = some (n, rest))
    (hn : n < 256 ^ 32) : bs = encodeInteger n ++ rest := by
  unfold decodeInteger? at h
  split at h
  · rename_i tag len tail
    dsimp only at h
    split at h
    · rename_i hlegal
      obtain ⟨rfl, -, hfits, hshortest⟩ := hlegal
      cases h
      have hlength : (tail.take len.toNat).length = len.toNat := by
        rw [List.length_take, Nat.min_eq_left hfits]
      rw [encodeInteger, hshortest.integerBytes_eq rfl hn, hlength, UInt8.ofNat_toNat,
        List.cons_append, List.cons_append, List.take_append_drop]
    · cases h
  · cases h

theorem ofNumbers?_eq_some_iff {r s : Nat} :
    ofNumbers? r s = some sig ↔ sig.r = r ∧ sig.s = s := by
  constructor
  · intro h
    unfold ofNumbers? at h
    split at h <;> cases h
    exact ⟨rfl, rfl⟩
  · rintro ⟨rfl, rfl⟩
    exact dif_pos ⟨sig.r_pos, sig.r_lt, sig.s_pos, sig.s_lt⟩

/-- What is read as a signature is its encoding. -/
theorem eq_encode_of_decode? (h : decode? bs = some sig) : bs = sig.encode := by
  unfold decode? at h
  split at h
  · rename_i tag len body
    split at h
    · rename_i hlegal
      obtain ⟨rfl, -, hlen⟩ := hlegal
      split at h
      · cases h
      · rename_i r rest hr
        split at h
        · rename_i s hs
          obtain ⟨rfl, rfl⟩ := ofNumbers?_eq_some_iff.mp h
          have hrest := eq_encodeInteger_append_of_decodeInteger? hs sig.s_lt_pow
          rw [List.append_nil] at hrest
          have hbody := eq_encodeInteger_append_of_decodeInteger? hr sig.r_lt_pow
          rw [hrest] at hbody
          rw [encode, ← hbody, ← hlen, UInt8.ofNat_toNat]
        · cases h
    · cases h
  · cases h

/-- A signature is read from its encoding and from nothing else. -/
theorem decode?_eq_some_iff : decode? bs = some sig ↔ bs = sig.encode := by
  constructor
  · exact eq_encode_of_decode?
  · rintro rfl
    exact sig.decode?_encode

-- the two numbers are one and one; with a zero in front of the first they are not read
example : Signature.decode? [0x30, 0x06, 0x02, 0x01, 0x01, 0x02, 0x01, 0x01] =
    some ⟨1, 1, by decide, by decide, by decide, by decide⟩ := by decide
example : Signature.decode? [0x30, 0x07, 0x02, 0x02, 0x00, 0x01, 0x02, 0x01, 0x01] = none := by
  decide

end Signature

/-- A signature that verifies has at most 72 bytes. -/
theorem length_le_of_verify {key : PublicKey} {algorithm : Algorithm} {msg signature : Bytes}
    (h : verify key algorithm msg signature = true) : signature.length ≤ 72 := by
  unfold verify at h
  split at h
  · cases h
  · rename_i sig hsig
    rw [Signature.eq_encode_of_decode? hsig]
    exact sig.length_encode_le

end TokenProvision.Ecdsa
