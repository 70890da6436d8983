import TokenProvision.Proofs.Registry.Rotation

/-!
Looking tokens up. Slots and tokens lead to the same descriptors, because no token is in two slots.
So what an insertion does to look-ups follows from what it does to slots: the new descriptor is
found, every other slot is left alone, and the only token that can be lost is the one in the next
slot of a full registry, where another one comes in anew.
-/
namespace TokenProvision.Registry

open Token (Descriptor Address)

variable {r : Registry} {d t : Descriptor} {slot : Nat} {address : Address} {chainId : UInt32}

/-- What is found for a contract on a chain is of that contract and chain, and in the slot that is
found with it. -/
theorem get?_of_find? (h : r.find? address chainId = some (slot, t)) :
    r.get? slot = some t ∧ t.address = address ∧ t.chainId = chainId := by
  obtain ⟨i, hslot, hfound⟩ := Option.bind_eq_some_iff.mp h
  obtain ⟨u, hu, heq⟩ := Option.map_eq_some_iff.mp hfound
  cases heq
  obtain ⟨hlt, hsame, -⟩ := List.findIdx?_eq_some_iff_getElem.mp hslot
  have htoken : r.tokens[slot] = t := Option.some.inj ((List.getElem?_eq_getElem hlt).symm.trans hu)
  rw [htoken] at hsame
  exact ⟨hu, of_decide_eq_true hsame⟩

/-- Of distinct tokens, what a slot holds is found for its contract and chain, and nothing else. -/
theorem Distinct.find?_eq_some_iff (h : r.Distinct) :
    r.find? address chainId = some (slot, t) ↔
      r.get? slot = some t ∧ t.address = address ∧ t.chainId = chainId := by
  constructor
  · exact get?_of_find?
  · rintro ⟨hget, rfl, rfl⟩
    rw [find?, slot?_of_sameToken h hget (.refl t), Option.bind_some, hget, Option.map_some]

theorem slot?_eq_some_of_holds (h : r.Holds d) :
    ∃ slot, r.slot? d.address d.chainId = some slot := by
  obtain ⟨t, ht, hsame⟩ := h
  obtain ⟨i, hi⟩ := List.mem_iff_getElem?.mp ht
  exact Option.ne_none_iff_exists'.mp fun hnone => not_sameToken_of_slot? hnone hi hsame

theorem holds_of_get? (h : r.get? slot = some t) (hsame : t.SameToken d) : r.Holds d :=
  ⟨t, List.mem_of_getElem? h, hsame⟩

theorem find?_eq_none_of_not_holds (h : ¬ r.Holds d) : r.find? d.address d.chainId = none := by
  rw [find?, slot?_eq_none_of_not_holds h, Option.bind_none]

theorem slot_insert_of_not_holds (h : ¬ r.Holds d) : (r.insert d).2 = r.next := by
  rw [insert_of_slot?_eq_none (slot?_eq_none_of_not_holds h)]

/-- An insertion leaves every slot alone but the one that is answered. -/
theorem WellFormed.get?_insert_of_ne (h : r.WellFormed) (hne : slot ≠ (r.insert d).2) :
    (r.insert d).1.get? slot = r.get? slot := by
  have hle := h.slot_le d
  unfold get?
  rw [tokens_insert, put]
  split
  · rw [List.getElem?_set_ne hne.symm]
  · rw [List.getElem?_append]
    split
    · rfl
    · rw [List.getElem?_eq_none (by simp; omega), List.getElem?_eq_none (by omega)]

theorem size_le_insert (r : Registry) (d : Descriptor) : r.size ≤ (r.insert d).1.size := by
  unfold size
  rw [tokens_insert, length_put]
  split <;> omega

/-- Whether an insertion makes a contract on a chain one that is no longer found. -/
def Loses (r : Registry) (d : Descriptor) (address : Address) (chainId : UInt32) : Prop :=
  (∃ found, r.find? address chainId = some found) ∧ (r.insert d).1.find? address chainId = none

/-- An insertion loses the token in the next slot, if there is one, and if the token that is
inserted comes in anew; and it loses no other token. -/
theorem WellFormed.loses_iff (h : r.WellFormed) :
    r.Loses d address chainId ↔ ¬ r.Holds d ∧
      ∃ t, r.get? r.next = some t ∧ t.address = address ∧ t.chainId = chainId := by
  have hthen := (h.insert d).distinct
  constructor
  · rintro ⟨⟨⟨slot, t⟩, hfound⟩, hlost⟩
    obtain ⟨hget, rfl, rfl⟩ := get?_of_find? hfound
    -- a slot that is left alone would still be found
    have hslot : slot = (r.insert d).2 := by
      by_contra hne
      have hstill := hthen.find?_eq_some_iff.mpr
        ⟨(h.get?_insert_of_ne hne).trans hget, rfl, rfl⟩
      rw [hlost] at hstill
      cases hstill
    have hnew : ¬ r.Holds d := by
      intro hholds
      obtain ⟨i, hi⟩ := slot?_eq_some_of_holds hholds
      obtain ⟨a, ha, hsame⟩ := sameToken_of_slot? hi
      rw [insert_of_slot? hi] at hslot
      subst hslot
      cases ha.symm.trans hget
      have hstill := h.find?_insert d
      rw [← hsame.1, ← hsame.2, hlost] at hstill
      cases hstill
    rw [slot_insert_of_not_holds hnew] at hslot
    subst hslot
    exact ⟨hnew, t, hget, rfl, rfl⟩
  · rintro ⟨hnew, t, hget, rfl, rfl⟩
    have hslot := slot_insert_of_not_holds hnew
    refine ⟨⟨_, h.distinct.find?_eq_some_iff.mpr ⟨hget, rfl, rfl⟩⟩, ?_⟩
    cases hfound : (r.insert d).1.find? t.address t.chainId with
    | none => rfl
    | some found =>
      obtain ⟨hthere, haddress, hchain⟩ := get?_of_find? hfound
      by_cases heq : found.1 = r.next
      · rw [heq, ← hslot, get?, h.getElem?_insert] at hthere
        cases hthere
        exact absurd (holds_of_get? hget ⟨haddress.symm, hchain.symm⟩) hnew
      · rw [h.get?_insert_of_ne (hslot ▸ heq)] at hthere
        exact absurd (h.distinct _ _ _ _ hthere hget ⟨haddress, hchain⟩) heq

/-- What is found before an insertion of another token is found where it was, unless it is lost. -/
theorem WellFormed.find?_insert_of_not_loses (h : r.WellFormed)
    (hfound : r.find? address chainId = some (slot, t)) (hother : ¬ d.SameToken t)
    (hkept : ¬ r.Loses d address chainId) :
    (r.insert d).1.find? address chainId = some (slot, t) := by
  obtain ⟨hget, rfl, rfl⟩ := get?_of_find? hfound
  cases hthen : (r.insert d).1.find? t.address t.chainId with
  | none => exact absurd ⟨⟨_, hfound⟩, hthen⟩ hkept
  | some found =>
    obtain ⟨i, u⟩ := found
    obtain ⟨hthere, haddress, hchain⟩ := get?_of_find? hthen
    have hi : i ≠ (r.insert d).2 := by
      rintro rfl
      rw [get?, h.getElem?_insert] at hthere
      cases hthere
      exact hother ⟨haddress, hchain⟩
    rw [h.get?_insert_of_ne hi] at hthere
    have hslot : i = slot := h.distinct _ _ _ _ hthere hget ⟨haddress, hchain⟩
    subst hslot
    cases hthere.symm.trans hget
    rfl

/-- The next slot is a filled one exactly if the registry is full. -/
theorem Follows.next_lt_size_iff {arrived : List Arrival} (h : r.Follows arrived) :
    r.next < r.size ↔ r.size = capacity := by
  have hnext := h.next
  have hsize : r.size = min arrived.length capacity := h.size
  have hlt := Nat.mod_lt arrived.length capacity_pos
  constructor
  · intro hfilled
    by_contra hspare
    rw [Nat.mod_eq_of_lt (by omega)] at hnext
    omega
  · intro hfull
    omega

structure Stores (r : Registry) (d : Descriptor) : Prop where
  slot_lt : (r.insert d).2 < capacity
  /-- The descriptor is in the slot that is answered. -/
  get?_self : (r.insert d).1.get? (r.insert d).2 = some d
  /-- It is found in that slot. -/
  find?_self : (r.insert d).1.find? d.address d.chainId = some ((r.insert d).2, d)
  /-- Every other slot is left alone. -/
  get?_of_ne : ∀ slot, slot ≠ (r.insert d).2 → (r.insert d).1.get? slot = r.get? slot
  size_le : r.size ≤ (r.insert d).1.size
  /-- A token is lost only where the registry was full, and another one came in anew. -/
  full_of_loses : ∀ address chainId, r.Loses d address chainId →
    r.size = capacity ∧ r.find? d.address d.chainId = none
  /-- At most one token is lost. -/
  loses_unique : ∀ address chainId address' chainId', r.Loses d address chainId →
    r.Loses d address' chainId' → address = address' ∧ chainId = chainId'

theorem Follows.stores {arrived : List Arrival} (h : r.Follows arrived) (hw : r.WellFormed)
    (hb : r.Bounded) (d : Descriptor) : r.Stores d where
  slot_lt := hb.slot_lt d
  get?_self := hw.getElem?_insert d
  find?_self := hw.find?_insert d
  get?_of_ne slot hne := hw.get?_insert_of_ne hne
  size_le := r.size_le_insert d
  full_of_loses := by
    intro address chainId hloses
    obtain ⟨hnew, t, hget, -, -⟩ := hw.loses_iff.mp hloses
    have hfilled : r.next < r.size := (List.getElem?_eq_some_iff.mp hget).1
    exact ⟨h.next_lt_size_iff.mp hfilled, find?_eq_none_of_not_holds hnew⟩
  loses_unique := by
    intro address chainId address' chainId' hloses hloses'
    obtain ⟨-, t, hget, rfl, rfl⟩ := hw.loses_iff.mp hloses
    obtain ⟨-, t', hget', rfl, rfl⟩ := hw.loses_iff.mp hloses'
    cases hget.symm.trans hget'
    exact ⟨rfl, rfl⟩

/-- After any operations the registry is within its capacity and holds no token twice, and a look-up
by contract and chain finds exactly what a look-up by slot does. An insertion puts its descriptor
where both find it, leaves every other slot alone, and loses at most one other token, which it does
only where the registry was full and its own token was not there. -/
theorem lookups_are_coherent (ops : List Op) :
    let r := empty.after ops
    r.size ≤ capacity ∧ r.Distinct ∧
    (∀ address chainId slot t, r.find? address chainId = some (slot, t) ↔
      r.get? slot = some t ∧ t.address = address ∧ t.chainId = chainId) ∧
    ∀ d, r.Stores d := by
  intro r
  have hwellFormed : r.WellFormed := wellFormed_empty.after ops
  have hbounded : r.Bounded := bounded_after ops
  refine ⟨hbounded.length_le, hwellFormed.distinct, ?_, ?_⟩
  · intro address chainId slot t
    exact hwellFormed.distinct.find?_eq_some_iff
  · exact (follows_empty.after ops).stores hwellFormed hbounded

end TokenProvision.Registry
