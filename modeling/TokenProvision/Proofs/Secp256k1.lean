import Mathlib.FieldTheory.Finite.Basic
import Mathlib.NumberTheory.LucasPrimality
import Mathlib.Tactic.NormNum.Prime
import TokenProvision.Proofs.Bytes
import TokenProvision.Secp256k1

/-!
The prime of the field, and public keys against the strings that they are read from.

For a prime modulus the inverse of a residue inverts it. A number is prime if some residue modulo it
has the order of the units of a field, which is told by powers of the residue once the primes that
divide the number before it are known; these are primes for the same reason, down to some that are
small. So no point of the curve has a zero as its second coordinate, the two points with one first
coordinate differ in the parity of the second, and the tag of a compressed key tells them apart. A
key is written as it was read, except that a compact key, which has a tag of its own, is written in
compressed form.
-/
namespace TokenProvision.Secp256k1

namespace Modular

theorem pow_eq (m b e bits : Nat) (h : e < 2 ^ bits) : pow m b e bits = b ^ e % m := by
  induction bits generalizing e with
  | zero =>
    have : e = 0 := by omega
    simp [pow, this]
  | succ bits ih =>
    have half := ih (e / 2) (by rw [Nat.pow_succ] at h; omega)
    have split : b ^ e = b ^ (e / 2) * b ^ (e / 2) * b ^ (e % 2) := by
      rw [← Nat.pow_add, ← Nat.pow_add]
      congr 1
      omega
    simp only [pow, half, ← Nat.mul_mod]
    rcases Nat.mod_two_eq_zero_or_one e with even | odd
    · simp [even, split]
    · simp [odd, split, Nat.mul_mod]

/-- A residue times its inverse is one, modulo a prime that does not divide it. -/
theorem mul_inv {m a : Nat} (hm : m.Prime) (hbits : m ≤ 2 ^ 256) (ha : ¬ m ∣ a) :
    a * inv m a % m = 1 := by
  have hexp : m - 2 < 2 ^ 256 := by
    have := hm.two_le
    omega
  have hcoprime : a.Coprime m := ((Nat.Prime.coprime_iff_not_dvd hm).mpr ha).symm
  have hfermat : a ^ (m - 1) ≡ 1 [MOD m] := by
    have h := Nat.ModEq.pow_totient hcoprime
    rwa [Nat.totient_prime hm] at h
  have hpow : a * a ^ (m - 2) = a ^ (m - 1) := by
    have := hm.two_le
    rw [← Nat.pow_succ']
    congr 1
    omega
  calc a * inv m a % m = a * (a ^ (m - 2) % m) % m := by rw [inv, pow_eq m a _ _ hexp]
    _ = a ^ (m - 1) % m := by rw [Nat.mul_mod_mod, hpow]
    _ = 1 % m := hfermat
    _ = 1 := Nat.mod_eq_of_lt hm.one_lt

/-- A power is one as a residue exactly if the computed power is one. -/
theorem natCast_pow_eq_one_iff {m a e : Nat} (hm : 1 < m) (he : e < 2 ^ 256) :
    (a : ZMod m) ^ e = 1 ↔ pow m a e 256 = 1 := by
  rw [pow_eq m a e 256 he, ← Nat.cast_pow, ← Nat.cast_one, ZMod.natCast_eq_natCast_iff',
    Nat.mod_eq_of_lt hm]

end Modular

/-- A number, a residue that generates the units modulo it, and the number before it as a product
of powers. -/
structure Rung where
  number : Nat
  generator : Nat
  factors : List (Nat × Nat)
  deriving DecidableEq, Repr

namespace Rung

def product (factors : List (Nat × Nat)) : Nat := factors.foldr (fun f n => f.1 ^ f.2 * n) 1

def power (r : Rung) (e : Nat) : Nat := Modular.pow r.number r.generator e 256

/-- Whether a rung stands on numbers that are known to be prime: its factors are among them, and the
powers of the generator show the order of the generator. -/
def Stands (known : List Nat) (r : Rung) : Prop :=
  1 < r.number ∧ r.number ≤ 2 ^ 256 ∧ r.number = product r.factors + 1 ∧
    r.power (r.number - 1) = 1 ∧
    ∀ f ∈ r.factors, f.1 ∈ known ∧ r.power ((r.number - 1) / f.1) ≠ 1

instance (known : List Nat) (r : Rung) : Decidable (r.Stands known) :=
  inferInstanceAs (Decidable (_ ∧ _ ∧ _ ∧ _ ∧ _))

/-- A prime that divides a product of powers of primes is one of these primes. -/
theorem exists_factor_of_dvd {q : Nat} (hq : q.Prime) {factors : List (Nat × Nat)}
    (hprime : ∀ f ∈ factors, f.1.Prime) (hdvd : q ∣ product factors) : ∃ f ∈ factors, f.1 = q := by
  induction factors with
  | nil => exact absurd (Nat.dvd_one.mp hdvd) hq.ne_one
  | cons f rest ih =>
    rw [List.forall_mem_cons] at hprime
    rcases hq.dvd_mul.mp hdvd with hpower | hrest
    · have heq := (Nat.prime_dvd_prime_iff_eq hq hprime.1).mp (hq.dvd_of_dvd_pow hpower)
      exact ⟨f, List.mem_cons_self, heq.symm⟩
    · obtain ⟨g, hg, heq⟩ := ih hprime.2 hrest
      exact ⟨g, List.mem_cons_of_mem f hg, heq⟩

/-- The number of a rung that stands on primes is prime. -/
theorem Stands.prime {known : List Nat} {r : Rung} (h : r.Stands known)
    (hknown : ∀ n ∈ known, n.Prime) : r.number.Prime := by
  obtain ⟨hone, hmax, hnumber, hfull, hfactors⟩ := h
  have hpow {e : Nat} (he : e ≤ r.number - 1) :
      (r.generator : ZMod r.number) ^ e = 1 ↔ r.power e = 1 :=
    Modular.natCast_pow_eq_one_iff hone (by omega)
  apply lucas_primality r.number (r.generator : ZMod r.number)
  · exact (hpow (Nat.le_refl _)).mpr hfull
  · intro q hq hdvd
    -- the powers are computed for the factors only, and a prime divisor has to be one of them
    have hproduct : r.number - 1 = product r.factors := by omega
    rw [hproduct] at hdvd
    obtain ⟨f, hf, rfl⟩ :=
      exists_factor_of_dvd hq (fun f hf => hknown f.1 (hfactors f hf).1) hdvd
    intro hpart
    exact (hfactors f hf).2 ((hpow (Nat.div_le_self _ _)).mp hpart)

end Rung

/-- Whether every rung of a ladder stands on numbers that are known and on the rungs before it. -/
def Ladder (known : List Nat) : List Rung → Prop
  | [] => True
  | r :: rest => r.Stands known ∧ Ladder (r.number :: known) rest

instance decidableLadder : (known : List Nat) → (rungs : List Rung) →
    Decidable (Ladder known rungs)
  | _, [] => inferInstanceAs (Decidable True)
  | known, r :: rest =>
    have := decidableLadder (r.number :: known) rest
    inferInstanceAs (Decidable (_ ∧ _))

/-- Every number of a ladder that stands on primes is prime. -/
theorem Ladder.prime {known : List Nat} {rungs : List Rung} (h : Ladder known rungs)
    (hknown : ∀ n ∈ known, n.Prime) : ∀ r ∈ rungs, r.number.Prime := by
  induction rungs generalizing known with
  | nil => simp
  | cons r rest ih =>
    have hr := h.1.prime hknown
    rw [List.forall_mem_cons]
    exact ⟨hr, ih h.2 (List.forall_mem_cons.mpr ⟨hr, hknown⟩)⟩

def ground : List Nat :=
  [2, 3, 5, 7, 11, 29, 31, 1627, 2621, 2657, 4423, 5323, 7723, 13441, 24809, 41201, 96557, 7240687,
    13331831, 107590001]

theorem prime_of_mem_ground : ∀ n ∈ ground, n.Prime := by
  simp only [ground, List.forall_mem_cons]
  norm_num

def ladder : List Rung :=
  [⟨173378833005251801, 6, [(2, 3), (5, 2), (2621, 1), (24809, 1), (13331831, 1)]⟩,
   ⟨22149492674086928081353, 5, [(2, 3), (3, 1), (5323, 1), (173378833005251801, 1)]⟩,
   ⟨132896956044521568488119, 6, [(2, 1), (3, 1), (22149492674086928081353, 1)]⟩,
   ⟨255515944373312847190720520512484175977, 3,
     [(2, 3), (7, 2), (11, 1), (1627, 1), (2657, 1), (4423, 1), (41201, 1), (96557, 1),
      (7240687, 1), (107590001, 1)]⟩,
   ⟨205115282021455665897114700593932402728804164701536103180137503955397371, 10,
     [(2, 1), (3, 1), (5, 1), (29, 2), (31, 1), (7723, 1), (132896956044521568488119, 1),
      (255515944373312847190720520512484175977, 1)]⟩,
   ⟨prime, 3,
     [(2, 1), (3, 1), (7, 1), (13441, 1),
      (205115282021455665897114700593932402728804164701536103180137503955397371, 1)]⟩]

theorem ladder_ground : Ladder ground ladder := by
  decide +kernel

/-- The prime of the field is a prime. -/
theorem prime_prime : prime.Prime :=
  have hlast : ladder.getLast (by simp [ladder]) ∈ ladder := List.getLast_mem _
  ladder_ground.prime prime_of_mem_ground _ hlast

namespace Affine

/-- Minus seven is no cube: as a cube it would have one as its power with a third of the exponent
with which every unit has it. -/
theorem cube_ne_neg_seven (x : ZMod prime) : x ^ 3 ≠ -7 := by
  have := Fact.mk prime_prime
  intro hcube
  have hseven : (-7 : ZMod prime) = ((prime - 7 : Nat) : ZMod prime) := by
    rw [Nat.cast_sub (by decide), ZMod.natCast_self]
    norm_num
  have hx : x ≠ 0 := by
    rintro rfl
    have hzero : ((7 : Nat) : ZMod prime) = 0 := by
      have h : (-7 : ZMod prime) = 0 := by rw [← hcube]; norm_num
      simpa using h
    exact absurd ((ZMod.natCast_eq_zero_iff _ _).mp hzero) (by decide)
  have hone : ((prime - 7 : Nat) : ZMod prime) ^ ((prime - 1) / 3) = 1 := by
    calc ((prime - 7 : Nat) : ZMod prime) ^ ((prime - 1) / 3)
        = (x ^ 3) ^ ((prime - 1) / 3) := by rw [hcube, hseven]
      _ = x ^ (prime - 1) := by rw [← pow_mul]; rfl
      _ = 1 := ZMod.pow_card_sub_one_eq_one hx
  have hpow := (Modular.natCast_pow_eq_one_iff (by decide) (by decide)).mp hone
  have hne : Modular.pow prime (prime - 7) ((prime - 1) / 3) 256 ≠ 1 := by decide +kernel
  exact hne hpow

/-- The second coordinate of a point is not zero. -/
theorem IsOnCurve.y_ne_zero {a : Affine} (h : a.IsOnCurve) : a.y ≠ 0 := by
  intro hy
  have hequation := h.2.2
  rw [hy, Nat.zero_mul, Nat.zero_mod] at hequation
  have hdvd : prime ∣ a.x * a.x * a.x + 7 := Nat.dvd_of_mod_eq_zero hequation.symm
  have hzero := (ZMod.natCast_eq_zero_iff _ _).mpr hdvd
  apply cube_ne_neg_seven (a.x : ZMod prime)
  apply eq_neg_of_add_eq_zero_left
  calc (a.x : ZMod prime) ^ 3 + 7 = ((a.x * a.x * a.x + 7 : Nat) : ZMod prime) := by
        push_cast
        ring
    _ = 0 := hzero

end Affine

/-- Whether a key of the size of a compressed one is given in compact form, without the parity of
its second coordinate. -/
def CompressedKey.IsCompact (k : CompressedKey) : Prop := k.bytes.head? = some 0x05

instance (k : CompressedKey) : Decidable k.IsCompact := inferInstanceAs (Decidable (_ = _))

namespace PublicKey

variable {key : PublicKey} {x : Nat} {odd : Bool}

/-- The opposite of a residue that is not zero has the other parity. -/
theorem sub_zero_mod_two {y : Nat} (hlt : y < prime) (hne : y ≠ 0) :
    Modular.sub prime 0 y % 2 = 1 - y % 2 := by
  have hodd : prime % 2 = 1 := by decide
  have hopposite : prime - y < prime := Nat.sub_lt prime_prime.pos (Nat.pos_of_ne_zero hne)
  rw [Modular.sub, Nat.mod_eq_of_lt hlt, Nat.zero_add, Nat.mod_eq_of_lt hopposite]
  omega

theorem lift?_spec (h : lift? x odd = some key) : key.x = x ∧ (key.y % 2 == 1) = odd := by
  unfold lift? at h
  rw [Modular.pow_eq _ _ _ _ (by decide)] at h
  have hlt := Nat.mod_lt ((x * x * x + 7) ^ ((prime + 1) / 4)) prime_prime.pos
  generalize (x * x * x + 7) ^ ((prime + 1) / 4) % prime = root at h hlt
  dsimp only at h
  by_cases hparity : ((root % 2 == 1) == odd) = true
  · rw [if_pos hparity] at h
    split at h <;> cases h
    exact ⟨rfl, beq_iff_eq.mp hparity⟩
  · rw [if_neg hparity] at h
    split at h <;> cases h
    rename_i hcurve
    -- the opposite of zero would be zero again, with the wrong parity
    have hroot : root ≠ 0 := by
      rintro rfl
      have hzero : Modular.sub prime 0 0 = 0 := by decide
      exact hcurve.y_ne_zero hzero
    refine ⟨rfl, ?_⟩
    dsimp only
    rw [sub_zero_mod_two hlt hroot]
    revert hparity
    rcases Nat.mod_two_eq_zero_or_one root with heven | hodd <;> cases odd <;> simp [*]

/-- A lifted key has the given coordinate and the given parity in its compressed form. -/
theorem compressed_of_lift? (h : lift? x odd = some key) :
    key.compressed.bytes = (if odd then 0x03 else 0x02) :: Bytes.ofNat 32 x := by
  obtain ⟨rfl, hparity⟩ := lift?_spec h
  subst hparity
  unfold compressed
  rcases Nat.mod_two_eq_zero_or_one key.y with heven | hodd <;> simp [*]

/-- A key that is read from a string of the size of a compressed one is written as that string,
unless the string is in compact form; then it is written with the tag for an even coordinate. -/
theorem compressed_of_ofBytes? {k : CompressedKey} (h : ofBytes? k.bytes = some key) :
    key.compressed.bytes = if k.IsCompact then 0x02 :: k.bytes.tail else k.bytes := by
  obtain ⟨bytes, hlength⟩ := k
  unfold CompressedKey.IsCompact
  dsimp only at h ⊢
  cases bytes with
  | nil => cases hlength
  | cons tag rest =>
    have hrest : rest.length = 32 := Nat.succ.inj hlength
    have hback : Bytes.ofNat 32 (Bytes.toNat rest) = rest := by
      rw [← hrest, Bytes.ofNat_toNat]
    rw [ofBytes?, if_pos hrest] at h
    split at h
    · rename_i htag
      rw [compressed_of_lift? h, hback]
      rcases htag with rfl | rfl <;> simp
    · split at h
      · rename_i htag
        subst htag
        rw [compressed_of_lift? h, hback]
        simp
      · cases h

end PublicKey

end TokenProvision.Secp256k1
