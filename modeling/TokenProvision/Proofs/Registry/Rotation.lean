import Mathlib.Data.List.Induction
import Mathlib.Order.Interval.Finset.Nat
import TokenProvision.Proofs.Registry

/-!
The registry as a queue. A token that comes in anew takes the place of the one that has been there
longest, and a token that is there already keeps its place. So the slots go round: of the tokens
that came in anew since the last clear, the one with number `m` came into slot `m % capacity`, and
the last `capacity` of them are the ones that are held.
-/
namespace TokenProvision.Registry

open Token (Descriptor)

variable {r : Registry} {t d : Descriptor} {slot : Nat} {ops : List Op}

def Holds (r : Registry) (d : Descriptor) : Prop := ∃ t ∈ r.tokens, t.SameToken d

instance (r : Registry) (d : Descriptor) : Decidable (r.Holds d) :=
  inferInstanceAs (Decidable (∃ t ∈ r.tokens, t.SameToken d))

/-- A token that came in anew, and the slot that was answered. -/
structure Arrival where
  token : Descriptor
  slot : Nat
  deriving DecidableEq, Repr

/-- The arrivals since the last clear, when an operation follows on `arrived`. -/
def record (r : Registry) (arrived : List Arrival) : Op → List Arrival
  | .insert d => if r.Holds d then arrived else arrived ++ [⟨d, (r.insert d).2⟩]
  | .clear => []

/-- The arrivals since the last clear, when some operations follow on `arrived`. -/
def arrivalsFrom (r : Registry) (arrived : List Arrival) : List Op → List Arrival
  | [] => arrived
  | op :: ops => arrivalsFrom (r.apply op) (r.record arrived op) ops

/-- The arrivals since the last clear of some operations on an empty registry, oldest first. -/
def arrivals (ops : List Op) : List Arrival := arrivalsFrom empty [] ops

theorem capacity_pos : 0 < capacity := Nat.zero_lt_two

theorem slot?_eq_none_of_not_holds (h : ¬ r.Holds d) :
    r.slot? d.address d.chainId = none := by
  cases hslot : r.slot? d.address d.chainId with
  | none => rfl
  | some slot =>
    obtain ⟨a, ha, hsame⟩ := sameToken_of_slot? hslot
    exact absurd ⟨a, List.mem_of_getElem? ha, hsame⟩ h

theorem mod_ne_mod {m n N : Nat} (hlt : m < n) (h : n < m + N) : m % N ≠ n % N := by
  intro heq
  have hm : m ∈ Finset.Ico m (m + N) := Finset.mem_Ico.mpr ⟨Nat.le_refl m, by omega⟩
  have hn : n ∈ Finset.Ico m (m + N) := Finset.mem_Ico.mpr ⟨Nat.le_of_lt hlt, h⟩
  exact Nat.ne_of_lt hlt (Nat.mod_injOn_Ico m N hm hn heq)

/-- Of the last `N` numbers below `n` one leaves any given remainder. -/
theorem exists_mod_eq {i n N : Nat} (hn : i < n) (hN : i < N) :
    ∃ m, m < n ∧ n ≤ m + N ∧ m % N = i := by
  have hdiv := Nat.div_add_mod (n - 1 - i) N
  have hmod := Nat.mod_lt (n - 1 - i) (by omega : 0 < N)
  refine ⟨i + N * ((n - 1 - i) / N), by omega, by omega, ?_⟩
  rw [Nat.add_mul_mod_self_left, Nat.mod_eq_of_lt hN]

/-- In a list with one more element, that one is found at the end and the others where they were. -/
theorem getElem?_concat_eq_some {α : Type} {xs : List α} {x y : α} {m : Nat}
    (h : (xs ++ [x])[m]? = some y) :
    (m < xs.length ∧ xs[m]? = some y) ∨ (m = xs.length ∧ y = x) := by
  rcases Nat.lt_trichotomy m xs.length with hm | rfl | hm
  · rw [List.getElem?_append_left hm] at h
    exact .inl ⟨hm, h⟩
  · rw [List.getElem?_concat_length] at h
    exact .inr ⟨rfl, (Option.some.inj h).symm⟩
  · rw [List.getElem?_eq_none (by simp; omega)] at h
    cases h

structure Follows (r : Registry) (arrived : List Arrival) : Prop where
  next : r.next = arrived.length % capacity
  size : r.tokens.length = min arrived.length capacity
  slot : ∀ (m : Nat) (a : Arrival), arrived[m]? = some a → a.slot = m % capacity
  /-- The last `capacity` arrivals are held in their slots. -/
  holds : ∀ (m : Nat) (a : Arrival), arrived[m]? = some a → arrived.length ≤ m + capacity →
    ∃ t, r.tokens[a.slot]? = some t ∧ t.SameToken a.token

theorem follows_empty : Follows empty [] where
  next := rfl
  size := rfl
  slot := by simp
  holds := by simp

/-- A token that is there already is held in the same slot after an insertion. -/
theorem Follows.insert_of_slot? {arrived : List Arrival} (h : r.Follows arrived)
    (hslot : r.slot? d.address d.chainId = some slot) : (r.insert d).1.Follows arrived := by
  obtain ⟨b, hb, hsame⟩ := sameToken_of_slot? hslot
  rw [Registry.insert_of_slot? hslot]
  refine ⟨h.next, ?_, h.slot, ?_⟩
  · rw [List.length_set]
    exact h.size
  · intro m a ha hm
    obtain ⟨t, ht, hta⟩ := h.holds m a ha hm
    by_cases heq : slot = a.slot
    · rw [← heq, hb] at ht
      cases ht
      refine ⟨d, ?_, hsame.symm.trans hta⟩
      rw [← heq, List.getElem?_set_self (List.getElem?_eq_some_iff.mp hb).1]
    · refine ⟨t, ?_, hta⟩
      rw [List.getElem?_set_ne heq, ht]

/-- A token that comes in anew takes the next slot, which none of the other last `capacity` arrivals
came into. -/
theorem Follows.insert_of_not_holds {arrived : List Arrival} (h : r.Follows arrived)
    (hnew : ¬ r.Holds d) : (r.insert d).1.Follows (arrived ++ [⟨d, (r.insert d).2⟩]) := by
  have hpos := capacity_pos
  have hnext := h.next
  have hsize := h.size
  have hlt := Nat.mod_lt arrived.length hpos
  -- while the registry fills, the next slot is the first empty one
  have hfilling : arrived.length < capacity → r.next = arrived.length := by
    intro hless
    rw [hnext, Nat.mod_eq_of_lt hless]
  have hle : r.next ≤ r.tokens.length := by omega
  rw [insert_of_slot?_eq_none (slot?_eq_none_of_not_holds hnew)]
  refine ⟨?_, ?_, ?_, ?_⟩
  · rw [List.length_append, List.length_singleton, hnext, Nat.mod_add_mod]
  · rw [length_put, List.length_append, List.length_singleton]
    split <;> omega
  · intro m a ha
    rcases getElem?_concat_eq_some ha with ⟨-, ha⟩ | ⟨rfl, rfl⟩
    · exact h.slot m a ha
    · exact hnext
  · intro m a ha hwindow
    rw [List.length_append, List.length_singleton] at hwindow
    rcases getElem?_concat_eq_some ha with ⟨hm, ha⟩ | ⟨rfl, rfl⟩
    · obtain ⟨t, ht, hta⟩ := h.holds m a ha (by omega)
      have hne : a.slot ≠ r.next := by
        rw [h.slot m a ha, hnext]
        exact mod_ne_mod hm (by omega)
      exact ⟨t, getElem?_put_of_ne ht hne d, hta⟩
    · exact ⟨d, getElem?_put_self hle d, .refl d⟩

theorem Follows.apply {arrived : List Arrival} (h : r.Follows arrived) (op : Op) :
    (r.apply op).Follows (r.record arrived op) := by
  cases op with
  | insert d =>
    unfold record
    dsimp only
    split
    · rename_i hholds
      obtain ⟨t, ht, hsame⟩ := hholds
      cases hslot : r.slot? d.address d.chainId with
      | none =>
        obtain ⟨i, hi⟩ := List.mem_iff_getElem?.mp ht
        exact absurd hsame (not_sameToken_of_slot? hslot hi)
      | some slot => exact h.insert_of_slot? hslot
    · rename_i hnew
      exact h.insert_of_not_holds hnew
  | clear => exact follows_empty

theorem Follows.after {arrived : List Arrival} (h : r.Follows arrived) (ops : List Op) :
    (r.after ops).Follows (r.arrivalsFrom arrived ops) := by
  induction ops generalizing r arrived with
  | nil => exact h
  | cons op ops ih => exact ih (h.apply op)

/-- A slot holds a token exactly if one of the last `capacity` arrivals is of that token and came
into that slot. -/
theorem Follows.holds_iff {arrived : List Arrival} (h : r.Follows arrived) :
    (∃ t, r.get? slot = some t ∧ t.SameToken d) ↔
      ∃ a ∈ arrived.drop (arrived.length - capacity), a.slot = slot ∧ a.token.SameToken d := by
  constructor
  · rintro ⟨t, ht, hsame⟩
    have hslot := (List.getElem?_eq_some_iff.mp ht).1
    rw [h.size] at hslot
    obtain ⟨m, hm, hwindow, hmod⟩ := exists_mod_eq (Nat.lt_of_lt_of_le hslot (Nat.min_le_left _ _))
      (Nat.lt_of_lt_of_le hslot (Nat.min_le_right _ _))
    have ha := List.getElem?_eq_getElem hm
    have hplace := (h.slot m _ ha).trans hmod
    obtain ⟨t', ht', hsame'⟩ := h.holds m _ ha hwindow
    rw [hplace] at ht'
    cases ht'.symm.trans ht
    refine ⟨arrived[m], ?_, hplace, hsame'.symm.trans hsame⟩
    refine List.mem_of_getElem? (i := m - (arrived.length - capacity)) ?_
    rw [List.getElem?_drop, ← ha]
    congr 1
    omega
  · rintro ⟨a, ha, rfl, hsame⟩
    obtain ⟨k, hk⟩ := List.mem_iff_getElem?.mp ha
    rw [List.getElem?_drop] at hk
    obtain ⟨t, ht, hta⟩ := h.holds _ a hk (by omega)
    exact ⟨t, ht, hta.trans hsame⟩

/-- What is held was put in by an insertion after the last clear, and no later insertion was of the
same token. -/
theorem exists_insert_of_mem (h : t ∈ (empty.after ops).tokens) :
    ∃ before later, ops = before ++ .insert t :: later ∧
      ∀ op ∈ later, op ≠ .clear ∧ ∀ d, op = .insert d → ¬ d.SameToken t := by
  induction ops using List.reverseRecOn with
  | nil => cases h
  | append_singleton ops op ih =>
    rw [after_append] at h
    cases op with
    | clear => cases h
    | insert d =>
      have hdistinct := (wellFormed_empty.after ops).distinct
      rcases mem_insert hdistinct h with rfl | ⟨hmem, hother⟩
      · exact ⟨ops, [], rfl, by simp⟩
      · obtain ⟨before, later, rfl, hlater⟩ := ih hmem
        refine ⟨before, later ++ [.insert d], by simp, ?_⟩
        intro op hop
        rcases List.mem_append.mp hop with hop | hop
        · exact hlater op hop
        · cases List.mem_singleton.mp hop
          refine ⟨by simp, ?_⟩
          rintro d' hd' hsame
          cases hd'
          exact hother hsame.symm

/-- The registry is a queue with replacement in place. After any operations, a token that comes in
anew is answered the slot that its number among the arrivals since the last clear names, and a token
that is there already the slot that holds it; the slots hold exactly the tokens of the last
`capacity` arrivals, each in the slot that was answered when it arrived; and each with the
descriptor that was inserted last for it. -/
theorem queue_with_replacement (ops : List Op) :
    let r := empty.after ops
    let arrived := arrivals ops
    (∀ d, ¬ r.Holds d → (r.insert d).2 = arrived.length % capacity) ∧
    (∀ d slot t, r.get? slot = some t → t.SameToken d → (r.insert d).2 = slot) ∧
    (∀ m a, arrived[m]? = some a → a.slot = m % capacity) ∧
    r.size = min arrived.length capacity ∧
    (∀ slot d, (∃ t, r.get? slot = some t ∧ t.SameToken d) ↔
      ∃ a ∈ arrived.drop (arrived.length - capacity), a.slot = slot ∧ a.token.SameToken d) ∧
    ∀ t ∈ r.tokens, ∃ before later, ops = before ++ .insert t :: later ∧
      ∀ op ∈ later, op ≠ .clear ∧ ∀ d, op = .insert d → ¬ d.SameToken t := by
  intro r arrived
  have hfollows : r.Follows arrived := follows_empty.after ops
  have hdistinct := (wellFormed_empty.after ops).distinct
  refine ⟨?_, ?_, hfollows.slot, hfollows.size, fun slot d => hfollows.holds_iff,
    fun t => exists_insert_of_mem⟩
  · intro d hnew
    rw [insert_of_slot?_eq_none (slot?_eq_none_of_not_holds hnew)]
    exact hfollows.next
  · intro d slot t ht hsame
    rw [insert_of_slot? (slot?_of_sameToken hdistinct ht hsame)]

structure Bounded (r : Registry) : Prop where
  next_lt : r.next < capacity
  length_le : r.tokens.length ≤ capacity

/-- After any operations a registry is bounded. -/
theorem bounded_after (ops : List Op) : (empty.after ops).Bounded := by
  have hfollows := follows_empty.after ops
  refine ⟨?_, ?_⟩
  · rw [hfollows.next]
    exact Nat.mod_lt _ capacity_pos
  · rw [hfollows.size]
    exact Nat.min_le_right _ _

theorem Bounded.slot_lt (h : r.Bounded) (d : Descriptor) : (r.insert d).2 < capacity := by
  cases hslot : r.slot? d.address d.chainId with
  | none =>
    rw [insert_of_slot?_eq_none hslot]
    exact h.next_lt
  | some slot =>
    obtain ⟨a, ha, -⟩ := sameToken_of_slot? hslot
    rw [insert_of_slot? hslot]
    exact Nat.lt_of_lt_of_le (List.getElem?_eq_some_iff.mp ha).1 h.length_le

/-- What was put in is found in the slot that was answered. -/
theorem WellFormed.find?_insert (h : r.WellFormed) (d : Descriptor) :
    (r.insert d).1.find? d.address d.chainId = some ((r.insert d).2, d) := by
  have hself := h.getElem?_insert d
  rw [find?, slot?_of_sameToken (h.insert d).distinct hself (.refl d), Option.bind_some, get?,
    hself, Option.map_some]

end TokenProvision.Registry
