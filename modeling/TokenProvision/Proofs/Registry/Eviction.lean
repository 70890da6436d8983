import TokenProvision.Proofs.Registry.Lookup

/-!
Which token makes way. An insertion into a full registry loses the token that came in anew the
longest ago, and no insertion loses another one. A token that is inserted again keeps its place in
this order, so it can be the next to make way although its descriptor is the latest; the two tokens
that were inserted last are both found in every other case.
-/
namespace TokenProvision.Registry

open Token (Descriptor addressLength maxTicker)

variable {r : Registry} {arrived : List Arrival} {d s t : Descriptor}

/-- Whether a token came in as the oldest of as many arrivals as the registry has slots. -/
def IsOldest (arrived : List Arrival) (d : Descriptor) : Prop :=
  capacity ≤ arrived.length ∧ ∃ a ∈ arrived[arrived.length - capacity]?, a.token.SameToken d

instance (arrived : List Arrival) (d : Descriptor) : Decidable (IsOldest arrived d) :=
  inferInstanceAs (Decidable (_ ∧ _))

/-- The oldest token is the one in the next slot. -/
theorem Follows.isOldest_iff (h : r.Follows arrived) :
    IsOldest arrived d ↔ ∃ t, r.get? r.next = some t ∧ t.SameToken d := by
  have hoccupant (hfull : capacity ≤ arrived.length) {a : Arrival}
      (ha : arrived[arrived.length - capacity]? = some a) :
      ∃ t, r.get? r.next = some t ∧ t.SameToken a.token := by
    have hslot : a.slot = r.next := by
      rw [h.slot _ a ha, h.next, ← Nat.add_mod_right, Nat.sub_add_cancel hfull]
    exact hslot ▸ h.holds _ a ha (by omega)
  constructor
  · rintro ⟨hfull, a, ha, hsame⟩
    obtain ⟨t, ht, hta⟩ := hoccupant hfull ha
    exact ⟨t, ht, hta.trans hsame⟩
  · rintro ⟨t, ht, hsame⟩
    have hsize : r.size = min arrived.length capacity := h.size
    have hfull := h.next_lt_size_iff.mp (List.getElem?_eq_some_iff.mp ht).1
    have hpos := capacity_pos
    have ha := List.getElem?_eq_getElem (l := arrived) (i := arrived.length - capacity) (by omega)
    obtain ⟨t', ht', hsame'⟩ := hoccupant (by omega) ha
    cases ht'.symm.trans ht
    exact ⟨by omega, _, ha, hsame'.symm.trans hsame⟩

/-- The only token that an insertion loses is the oldest one, where another one comes in anew. -/
theorem Follows.loses_iff (h : r.Follows arrived) (hw : r.WellFormed) :
    r.Loses d t.address t.chainId ↔ IsOldest arrived t ∧ ¬ r.Holds d := by
  rw [hw.loses_iff, h.isOldest_iff, and_comm]
  rfl

theorem Follows.holds_of_isOldest (h : r.Follows arrived) (hold : IsOldest arrived d) :
    r.Holds d := by
  obtain ⟨t, ht, hsame⟩ := h.isOldest_iff.mp hold
  exact holds_of_get? ht hsame

/-- A token that is inserted is the oldest afterwards only if it was the oldest before: one that
comes in anew stands behind another, as there is more than one slot. -/
theorem Follows.isOldest_record_iff (h : r.Follows arrived) (hw : r.WellFormed) (hb : r.Bounded) :
    IsOldest (r.record arrived (.insert s)) s ↔ IsOldest arrived s := by
  by_cases hholds : r.Holds s
  · rw [record, if_pos hholds]
  · refine iff_of_false ?_ fun hold => hholds (h.holds_of_isOldest hold)
    intro hold
    obtain ⟨t, ht, hsame⟩ := (h.apply (.insert s)).isOldest_iff.mp hold
    have hslot := (hw.insert s).distinct _ _ _ _ ht (hw.getElem?_insert s) hsame
    have hnext : (r.apply (.insert s)).next = (r.next + 1) % capacity := by
      rw [Registry.apply, insert_of_slot?_eq_none (slot?_eq_none_of_not_holds hholds)]
    rw [hnext, slot_insert_of_not_holds hholds] at hslot
    have hlt : r.next < 2 := hb.next_lt
    change (r.next + 1) % 2 = r.next at hslot
    omega

/-- An insertion into the slot of a token changes nothing for any other token. -/
theorem WellFormed.holds_insert_iff (h : r.WellFormed) (hs : r.Holds s) (hne : ¬ s.SameToken t) :
    (r.insert s).1.Holds t ↔ r.Holds t := by
  constructor
  · rintro ⟨a, ha, hsame⟩
    rcases mem_insert h.distinct ha with rfl | ⟨hmem, -⟩
    · exact absurd hsame hne
    · exact ⟨a, hmem, hsame⟩
  · rintro ⟨a, ha, hsame⟩
    obtain ⟨i, hi⟩ := List.mem_iff_getElem?.mp ha
    obtain ⟨slot, hslot⟩ := slot?_eq_some_of_holds hs
    obtain ⟨b, hb, hbs⟩ := sameToken_of_slot? hslot
    have hother : i ≠ (r.insert s).2 := by
      rw [insert_of_slot? hslot]
      rintro rfl
      cases hb.symm.trans hi
      exact hne (hbs.symm.trans hsame)
    exact holds_of_get? ((h.get?_insert_of_ne hother).trans hi) hsame

/-- The token that was inserted before another one is lost exactly if it was the oldest one and the
other one comes in anew. -/
theorem Follows.loses_insert_iff (h : r.Follows arrived) (hw : r.WellFormed) (hb : r.Bounded)
    (hne : ¬ s.SameToken t) :
    (r.insert s).1.Loses t s.address s.chainId ↔ IsOldest arrived s ∧ ¬ r.Holds t := by
  have hthen : (r.insert s).1.Follows (r.record arrived (.insert s)) := h.apply (.insert s)
  rw [hthen.loses_iff (hw.insert s), h.isOldest_record_iff hw hb]
  refine and_congr_right fun hold => not_congr ?_
  exact hw.holds_insert_iff (h.holds_of_isOldest hold) hne

/-- The registry keeps the tokens that came in last. After any operations, of two tokens that are
inserted one after the other the second is found, and so is the first, unless it was the oldest
token of a full registry and the second came in anew: then the first is the one that makes way. An
insertion loses the oldest token or none, and of the tokens that came in anew the last `capacity`
are held. -/
theorem latest_arrivals_are_kept (ops : List Op) (hne : ¬ s.SameToken t) :
    let r := empty.after ops
    let arrived := arrivals ops
    let first := r.insert s
    let second := first.1.insert t
    second.1.find? t.address t.chainId = some (second.2, t) ∧
    (¬ (IsOldest arrived s ∧ ¬ r.Holds t) →
      second.1.find? s.address s.chainId = some (first.2, s)) ∧
    (IsOldest arrived s ∧ ¬ r.Holds t → second.1.find? s.address s.chainId = none) ∧
    (∀ d u, r.Loses d u.address u.chainId ↔ IsOldest arrived u ∧ ¬ r.Holds d) ∧
    ∀ a ∈ arrived.drop (arrived.length - capacity), r.Holds a.token := by
  intro r arrived first second
  have hfollows : r.Follows arrived := follows_empty.after ops
  have hw : r.WellFormed := wellFormed_empty.after ops
  have hloses := hfollows.loses_insert_iff hw (bounded_after ops) hne
  have hfirst : first.1.find? s.address s.chainId = some (first.2, s) := hw.find?_insert s
  refine ⟨(hw.insert s).find?_insert t, ?_, ?_, fun d u => hfollows.loses_iff hw, ?_⟩
  · intro hkept
    exact (hw.insert s).find?_insert_of_not_loses hfirst (fun hsame => hne hsame.symm)
      (fun hlost => hkept (hloses.mp hlost))
  · intro hlost
    exact (hloses.mpr hlost).2
  · intro a ha
    obtain ⟨t, ht, hsame⟩ := hfollows.holds_iff.mpr ⟨a, ha, rfl, .refl a.token⟩
    exact holds_of_get? ht hsame

/-- A token with 18 decimals at the address that consists of one byte only. -/
def sample (ticker : Label maxTicker) (byte : UInt8) (chainId : UInt32) : Descriptor :=
  ⟨ticker, ⟨List.replicate addressLength byte, List.length_replicate⟩, 18, chainId⟩

def aaa : Descriptor := sample ⟨[0x41, 0x41, 0x41], by decide, by decide, by decide⟩ 1 1

/-- The token `AAA` on the first chain, renamed `AA2`. -/
def aaaRenamed : Descriptor := sample ⟨[0x41, 0x41, 0x32], by decide, by decide, by decide⟩ 1 1

def aaaElsewhere : Descriptor := sample ⟨[0x41, 0x41, 0x41], by decide, by decide, by decide⟩ 1 3

def bbb : Descriptor := sample ⟨[0x42, 0x42, 0x42], by decide, by decide, by decide⟩ 2 1

/-- The second of two tokens is inserted again and then a third one comes in: both are found. -/
theorem latest_arrivals_are_kept_bbb :
    let r := ((empty.after [.insert aaa, .insert bbb]).insert bbb).1.insert aaaElsewhere
    ¬ bbb.SameToken aaaElsewhere ∧
    r.1.find? aaaElsewhere.address aaaElsewhere.chainId = some (0, aaaElsewhere) ∧
    r.1.find? bbb.address bbb.chainId = some (1, bbb) := by
  have hne : ¬ bbb.SameToken aaaElsewhere := by decide
  obtain ⟨hsecond, hfirst, -⟩ := latest_arrivals_are_kept [.insert aaa, .insert bbb] hne
  exact ⟨hne, hsecond, hfirst (by decide)⟩

/-- The first of two tokens is renamed and then a third one comes in: the one that was renamed is no
longer found, although it was inserted just before. -/
theorem renamed_token_makes_way :
    let r := empty.after [.insert aaa, .insert bbb]
    ¬ aaaRenamed.SameToken aaaElsewhere ∧
    ((r.insert aaaRenamed).1.insert aaaElsewhere).1.find? aaaRenamed.address aaaRenamed.chainId =
      none := by
  decide

end TokenProvision.Registry
