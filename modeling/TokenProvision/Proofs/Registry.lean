import TokenProvision.Registry

/-!
What the registry holds. No two slots hold the same token, because a token that is there already
keeps its slot; so a descriptor that is put in takes the place of every other one of its token.

Insertions and clears, one after the other, keep the registry well formed: no token is in two slots,
and the slot that the next new token takes is a filled one or the first empty one. So an insertion
that is repeated finds its token in the slot where it was put.
-/
namespace TokenProvision

open Token (Descriptor)

namespace Token.Descriptor

theorem SameToken.refl (a : Descriptor) : a.SameToken a := ⟨rfl, rfl⟩

theorem SameToken.symm {a b : Descriptor} (h : a.SameToken b) : b.SameToken a :=
  ⟨h.1.symm, h.2.symm⟩

theorem SameToken.trans {a b c : Descriptor} (h : a.SameToken b) (h' : b.SameToken c) :
    a.SameToken c :=
  ⟨h.1.trans h'.1, h.2.trans h'.2⟩

end Token.Descriptor

namespace Registry

variable {r : Registry} {a b d : Descriptor} {i j : Nat}

def Distinct (r : Registry) : Prop :=
  ∀ (i j : Nat) (a b : Descriptor), r.tokens[i]? = some a → r.tokens[j]? = some b →
    a.SameToken b → i = j

theorem distinct_empty : Distinct empty := by
  intro i j a b ha
  simp [empty] at ha

theorem sameToken_of_slot? (h : r.slot? d.address d.chainId = some i) :
    ∃ a, r.tokens[i]? = some a ∧ a.SameToken d := by
  obtain ⟨hi, hsame, -⟩ := List.findIdx?_eq_some_iff_getElem.mp h
  exact ⟨r.tokens[i], List.getElem?_eq_getElem hi, of_decide_eq_true hsame⟩

theorem not_sameToken_of_slot? (h : r.slot? d.address d.chainId = none)
    (ha : r.tokens[i]? = some a) : ¬ a.SameToken d := by
  intro hsame
  have hfalse := List.findIdx?_eq_none_iff.mp h a (List.mem_of_getElem? ha)
  exact of_decide_eq_false hfalse hsame

/-- Of distinct tokens, the one with a descriptor's contract and chain is in the slot found. -/
theorem slot?_of_sameToken (hr : r.Distinct) (ha : r.tokens[i]? = some a) (h : a.SameToken d) :
    r.slot? d.address d.chainId = some i := by
  cases hslot : r.slot? d.address d.chainId with
  | none => exact absurd h (not_sameToken_of_slot? hslot ha)
  | some j =>
    obtain ⟨b, hb, hsame⟩ := sameToken_of_slot? hslot
    rw [hr i j a b ha hb (h.trans hsame.symm)]

theorem insert_of_slot? (h : r.slot? d.address d.chainId = some i) :
    r.insert d = ({ r with tokens := r.tokens.set i d }, i) := by
  simp only [insert, h]

theorem insert_of_slot?_eq_none (h : r.slot? d.address d.chainId = none) :
    r.insert d = (⟨put r.tokens r.next d, (r.next + 1) % capacity⟩, r.next) := by
  simp only [insert, h]

/-- A descriptor is put into the slot that is answered. -/
theorem tokens_insert (r : Registry) (d : Descriptor) :
    (r.insert d).1.tokens = put r.tokens (r.insert d).2 d := by
  unfold insert
  cases h : r.slot? d.address d.chainId with
  | none => rfl
  | some slot =>
    obtain ⟨a, ha, -⟩ := sameToken_of_slot? h
    have hslot : slot < r.tokens.length := (List.getElem?_eq_some_iff.mp ha).1
    simp only [put, if_pos hslot]

theorem length_put (tokens : List Descriptor) (slot : Nat) (d : Descriptor) :
    (put tokens slot d).length = if slot < tokens.length then tokens.length
      else tokens.length + 1 := by
  unfold put
  split <;> simp

/-- A descriptor that is put into a filled slot, or into the first empty one, is in that slot. -/
theorem getElem?_put_self {tokens : List Descriptor} {slot : Nat} (h : slot ≤ tokens.length)
    (d : Descriptor) : (put tokens slot d)[slot]? = some d := by
  unfold put
  split
  · rename_i hslot
    rw [List.getElem?_set_self hslot]
  · rename_i hslot
    have hend : slot = tokens.length := by omega
    rw [hend, List.getElem?_concat_length]

theorem getElem?_put_of_ne {tokens : List Descriptor} {slot : Nat} (ha : tokens[i]? = some a)
    (hi : i ≠ slot) (d : Descriptor) : (put tokens slot d)[i]? = some a := by
  unfold put
  split
  · rw [List.getElem?_set_ne hi.symm, ha]
  · rw [List.getElem?_append_left (List.getElem?_eq_some_iff.mp ha).1, ha]

theorem getElem?_put {tokens : List Descriptor} {slot : Nat}
    (h : (put tokens slot d)[i]? = some a) :
    (a = d ∧ i = min slot tokens.length) ∨ (tokens[i]? = some a ∧ i ≠ slot) := by
  unfold put at h
  split at h
  · rename_i hslot
    rw [List.getElem?_set] at h
    by_cases hi : slot = i
    · rw [if_pos hi, if_pos hslot] at h
      exact .inl ⟨(Option.some.inj h).symm, by omega⟩
    · rw [if_neg hi] at h
      exact .inr ⟨h, by omega⟩
  · rename_i hslot
    rw [List.getElem?_append] at h
    by_cases hi : i < tokens.length
    · rw [if_pos hi] at h
      exact .inr ⟨h, by omega⟩
    · rw [if_neg hi, List.getElem?_singleton] at h
      split at h
      · exact .inl ⟨(Option.some.inj h).symm, by omega⟩
      · cases h

/-- Every slot but the one that is answered holds another token than the one that is put in. -/
theorem not_sameToken_of_ne (hr : r.Distinct) (ha : r.tokens[i]? = some a)
    (hi : i ≠ (r.insert d).2) : ¬ a.SameToken d := by
  unfold insert at hi
  cases h : r.slot? d.address d.chainId with
  | none => exact not_sameToken_of_slot? h ha
  | some slot =>
    rw [h] at hi
    obtain ⟨b, hb, hsame⟩ := sameToken_of_slot? h
    intro hsame'
    exact hi (hr i slot a b ha hb (hsame'.trans hsame.symm))

/-- What is held after an insertion is the new descriptor or a descriptor of another token. -/
theorem mem_insert (hr : r.Distinct) (h : a ∈ (r.insert d).1.tokens) :
    a = d ∨ (a ∈ r.tokens ∧ ¬ a.SameToken d) := by
  obtain ⟨i, hi⟩ := List.mem_iff_getElem?.mp h
  rw [tokens_insert] at hi
  rcases getElem?_put hi with ⟨ha, -⟩ | ⟨ha, hne⟩
  · exact .inl ha
  · exact .inr ⟨List.mem_of_getElem? ha, not_sameToken_of_ne hr ha hne⟩

theorem Distinct.insert (hr : r.Distinct) (d : Descriptor) : (r.insert d).1.Distinct := by
  intro i j a b ha hb hsame
  rw [tokens_insert] at ha hb
  rcases getElem?_put ha with ⟨rfl, hi⟩ | ⟨ha', hi⟩
  · rcases getElem?_put hb with ⟨-, hj⟩ | ⟨hb', hj⟩
    · rw [hi, hj]
    · exact absurd hsame.symm (not_sameToken_of_ne hr hb' hj)
  · rcases getElem?_put hb with ⟨rfl, -⟩ | ⟨hb', -⟩
    · exact absurd hsame (not_sameToken_of_ne hr ha' hi)
    · exact hr i j a b ha' hb' hsame

inductive Op where
  | insert (d : Descriptor)
  | clear
  deriving DecidableEq, Repr

def apply (r : Registry) : Op → Registry
  | .insert d => (r.insert d).1
  | .clear => r.clear

def after (r : Registry) : List Op → Registry
  | [] => r
  | op :: ops => after (r.apply op) ops

@[simp] theorem after_nil (r : Registry) : r.after [] = r := rfl
@[simp] theorem after_cons (r : Registry) (op : Op) (ops : List Op) :
    r.after (op :: ops) = (r.apply op).after ops := rfl

theorem after_append (r : Registry) (xs ys : List Op) :
    r.after (xs ++ ys) = (r.after xs).after ys := by
  induction xs generalizing r with
  | nil => rfl
  | cons op xs ih => exact ih (r.apply op)

structure WellFormed (r : Registry) : Prop where
  distinct : r.Distinct
  /-- No empty slot lies before the next one. -/
  next_le : r.next ≤ r.tokens.length

theorem wellFormed_empty : WellFormed empty := ⟨distinct_empty, Nat.le_refl 0⟩

/-- The slot that is answered is a filled one or the first empty one. -/
theorem WellFormed.slot_le (h : r.WellFormed) (d : Descriptor) :
    (r.insert d).2 ≤ r.tokens.length := by
  cases hslot : r.slot? d.address d.chainId with
  | none =>
    rw [insert_of_slot?_eq_none hslot]
    exact h.next_le
  | some slot =>
    obtain ⟨a, ha, -⟩ := sameToken_of_slot? hslot
    rw [insert_of_slot? hslot]
    exact Nat.le_of_lt (List.getElem?_eq_some_iff.mp ha).1

theorem WellFormed.getElem?_insert (h : r.WellFormed) (d : Descriptor) :
    (r.insert d).1.tokens[(r.insert d).2]? = some d := by
  rw [tokens_insert]
  exact getElem?_put_self (h.slot_le d) d

theorem WellFormed.insert (h : r.WellFormed) (d : Descriptor) : (r.insert d).1.WellFormed := by
  refine ⟨h.distinct.insert d, ?_⟩
  have hnext := h.next_le
  cases hslot : r.slot? d.address d.chainId with
  | none =>
    have hmod := Nat.mod_le (r.next + 1) capacity
    rw [insert_of_slot?_eq_none hslot, length_put]
    dsimp only
    split <;> omega
  | some slot =>
    rw [insert_of_slot? hslot, List.length_set]
    exact hnext

theorem WellFormed.apply (h : r.WellFormed) (op : Op) : (r.apply op).WellFormed := by
  cases op with
  | insert d => exact h.insert d
  | clear => exact wellFormed_empty

theorem WellFormed.after (h : r.WellFormed) (ops : List Op) : (r.after ops).WellFormed := by
  induction ops generalizing r with
  | nil => exact h
  | cons op ops ih => exact ih (h.apply op)

/-- An insertion that is repeated changes nothing and answers the same slot. -/
theorem WellFormed.insert_insert (h : r.WellFormed) (d : Descriptor) :
    (r.insert d).1.insert d = r.insert d := by
  have hself := h.getElem?_insert d
  obtain ⟨hlt, hget⟩ := List.getElem?_eq_some_iff.mp hself
  have hset : (r.insert d).1.tokens.set (r.insert d).2 d = (r.insert d).1.tokens := by
    have h' := List.set_getElem_self hlt
    rwa [hget] at h'
  rw [insert_of_slot? (slot?_of_sameToken (h.insert d).distinct hself (.refl d)), hset]

end Registry

end TokenProvision
