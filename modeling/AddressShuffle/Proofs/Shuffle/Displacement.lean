import AddressShuffle.Proofs.Shuffle.Enumeration
import Mathlib.Data.Set.Function
import Mathlib.Order.Interval.Set.Defs

/-! A slot that does not hold its own address holds one from beyond the cursor, so at most half of a
range is stored. -/

namespace AddressShuffle.Shuffle

universe u

variable {γ : Type u}

/-- All that is stored sits in play and comes from out of play. -/
structure Tidy (s : Shuffle γ) : Prop where
  cursor_le : s.cursor ≤ s.range.lastOffset
  slot_le : ∀ {n : Nat} {a : Address}, s.displaced[n]? = some a → n ≤ s.cursor
  moved : ∀ {n : Nat} {a : Address}, s.displaced[n]? = some a →
    ∃ m, s.cursor < m ∧ m ≤ s.range.lastOffset ∧ s.range.address m = a
  empty : s.exhausted = true → s.displaced = ∅

lemma tidy_ofRange (range : AddressRange) (picker : γ) : (ofRange range picker).Tidy := by
  refine ⟨Nat.le_refl _, ?_, ?_, nofun⟩
  · intro n a h
    simp [ofRange] at h
  · intro n a h
    simp [ofRange] at h

lemma of_getElem?_refill {displaced : Std.HashMap Nat Address} {cursor picked n : Nat}
    {top a : Address} (h : (refill displaced cursor picked top)[n]? = some a) :
    n ≠ cursor ∧ (n = picked ∧ a = top ∨ displaced[n]? = some a) := by
  rw [refill] at h
  split_ifs at h with hp
  · rw [Std.HashMap.getElem?_erase] at h
    simp only [beq_iff_eq, Option.ite_none_left_eq_some] at h
    exact ⟨Ne.symm h.1, Or.inr h.2⟩
  · rw [Std.HashMap.getElem?_insert, Std.HashMap.getElem?_erase] at h
    simp only [beq_iff_eq] at h
    split_ifs at h with hn hc
    · exact ⟨hn ▸ hp, Or.inl ⟨hn.symm, (Option.some.inj h).symm⟩⟩
    · exact ⟨Ne.symm hc, Or.inr h⟩

lemma slot_of_stored {s : Shuffle γ} {n : Nat} {a : Address} (h : s.displaced[n]? = some a) :
    s.slot n = a := by
  rw [slot, held, h, Option.getD_some]

lemma Tidy.exists_offset_cursor {s : Shuffle γ} (h : s.Tidy) :
    ∃ m, s.cursor ≤ m ∧ m ≤ s.range.lastOffset ∧ s.range.address m = s.slot s.cursor := by
  cases hd : s.displaced[s.cursor]? with
  | none => exact ⟨s.cursor, Nat.le_refl _, h.cursor_le, by rw [slot, held, hd, Option.getD_none]⟩
  | some a =>
    obtain ⟨m, hm, hlast, ha⟩ := h.moved hd
    exact ⟨m, Nat.le_of_lt hm, hlast, ha.trans (slot_of_stored hd).symm⟩

lemma Tidy.deal {s : Shuffle γ} (h : s.Tidy) (he : s.exhausted = false) (hc : s.cursor ≠ 0)
    {picked : Nat} (hp : picked ≤ s.cursor) : (s.deal picked).Tidy := by
  have hcursor : (s.deal picked).cursor = s.cursor - 1 := rfl
  have hcursor_le := h.cursor_le
  refine ⟨Nat.le_trans (Nat.sub_le _ _) h.cursor_le, ?_, ?_, ?_⟩
  · intro n a hn
    obtain ⟨hne, ⟨rfl, -⟩ | hstored⟩ := of_getElem?_refill hn
    · omega
    · have := h.slot_le hstored
      omega
  · intro n a hn
    obtain ⟨-, ⟨-, rfl⟩ | hstored⟩ := of_getElem?_refill hn
    · obtain ⟨m, hm, hlast, ha⟩ := h.exists_offset_cursor
      exact ⟨m, by omega, hlast, ha⟩
    · obtain ⟨m, hm, hlast, ha⟩ := h.moved hstored
      exact ⟨m, by omega, hlast, ha⟩
  · intro hexhausted
    exact absurd (he.symm.trans hexhausted) Bool.false_ne_true

lemma Tidy.next [Picker γ] {s : Shuffle γ} (h : s.Tidy) : s.next.2.Tidy := by
  cases he : s.exhausted with
  | true =>
    rw [next_of_exhausted he]
    exact h
  | false =>
    by_cases hc : s.cursor = 0
    · rw [next_of_cursor_eq_zero he hc]
      refine ⟨h.cursor_le, ?_, ?_, fun _ => rfl⟩
      · intro n a hn
        simp at hn
      · intro n a hn
        simp at hn
    · rw [next_eq_deal he hc]
      have hdealt := h.deal he hc (Nat.le_of_lt_succ (Picker.pick s.picker s.cursor).1.isLt)
      exact ⟨hdealt.cursor_le, hdealt.slot_le, hdealt.moved, hdealt.empty⟩

lemma Tidy.after [Picker γ] {s : Shuffle γ} (h : s.Tidy) (k : Nat) : (after k s).Tidy := by
  induction k generalizing s with
  | zero => exact h
  | succ k ih => exact ih h.next

lemma Tidy.ne_address {s : Shuffle γ} (h : s.Tidy) {n : Nat} {a : Address}
    (hn : s.displaced[n]? = some a) : a ≠ s.range.address n := by
  obtain ⟨m, hm, hlast, rfl⟩ := h.moved hn
  intro heq
  have hle := h.slot_le hn
  have hmn := AddressRange.address_injective hlast (by omega) heq
  omega

lemma Tidy.stored_injective {s : Shuffle γ} (h : s.Tidy) (he : s.exhausted = false)
    (hs : s.inPlay.Nodup) {m n : Nat} {a : Address} (hm : s.displaced[m]? = some a)
    (hn : s.displaced[n]? = some a) : m = n := by
  apply slot_injective he hs (h.slot_le hm) (h.slot_le hn)
  rw [slot_of_stored hm, slot_of_stored hn]

lemma exists_stored_of_mem_keys {s : Shuffle γ} {n : Nat} (h : n ∈ s.displaced.keys) :
    ∃ a, s.displaced[n]? = some a :=
  Option.isSome_iff_exists.mp
    (Std.HashMap.mem_iff_isSome_getElem?.mp (Std.HashMap.mem_keys.mp h))

lemma nodup_keys_displaced (s : Shuffle γ) : s.displaced.keys.Nodup :=
  Std.HashMap.nodup_keys

lemma Tidy.le_cursor_of_mem_keys {s : Shuffle γ} (h : s.Tidy) {n : Nat}
    (hn : n ∈ s.displaced.keys) : n ≤ s.cursor := by
  obtain ⟨a, ha⟩ := exists_stored_of_mem_keys hn
  exact h.slot_le ha

lemma Tidy.size_le_cursor {s : Shuffle γ} (h : s.Tidy) :
    s.displaced.size ≤ s.cursor + 1 := by
  have hsub : s.displaced.keys ⊆ List.range (s.cursor + 1) := by
    intro n hn
    exact List.mem_range.mpr (Nat.lt_succ_of_le (h.le_cursor_of_mem_keys hn))
  have hlength := s.nodup_keys_displaced.length_le_of_subset hsub
  rwa [Std.HashMap.length_keys, List.length_range] at hlength

lemma Tidy.size_le_dealt {s : Shuffle γ} (h : s.Tidy) (he : s.exhausted = false)
    (hs : s.inPlay.Nodup) : s.displaced.size ≤ s.range.lastOffset - s.cursor := by
  -- No two slots store the same address, and there are only so many beyond the cursor.
  have hnodup : (s.displaced.keys.map s.slot).Nodup := by
    apply s.nodup_keys_displaced.map_on
    intro m hm n hn heq
    exact slot_injective he hs (h.le_cursor_of_mem_keys hm) (h.le_cursor_of_mem_keys hn) heq
  have hsub : s.displaced.keys.map s.slot ⊆
      (List.range' (s.cursor + 1) (s.range.lastOffset - s.cursor)).map s.range.address := by
    intro b hb
    obtain ⟨n, hn, rfl⟩ := List.mem_map.mp hb
    obtain ⟨a, ha⟩ := exists_stored_of_mem_keys hn
    obtain ⟨m, hm, hlast, hma⟩ := h.moved ha
    apply List.mem_map.mpr
    refine ⟨m, ?_, hma.trans (slot_of_stored ha).symm⟩
    rw [List.mem_range'_1]
    omega
  have hlength := hnodup.length_le_of_subset hsub
  rwa [List.length_map, List.length_map, List.length_range', Std.HashMap.length_keys] at hlength

section

variable [Picker γ] {range : AddressRange} {k : Nat}

lemma not_exhausted_after (hk : k < range.size) (picker : γ) :
    (after k (ofRange range picker)).exhausted = false := by
  rw [exhausted_after, left_ofRange]
  exact decide_eq_false (Nat.not_le.mpr hk)

lemma cursor_after (hk : k < range.size) (picker : γ) :
    (after k (ofRange range picker)).cursor = range.size - 1 - k := by
  have hleft := left_after k (ofRange range picker)
  rw [left_of_not_exhausted (not_exhausted_after hk picker), left_ofRange] at hleft
  omega

lemma nodup_inPlay_after (hk : k ≤ range.size) (picker : γ) :
    (after k (ofRange range picker)).inPlay.Nodup := by
  have h := (perm_taken_ofRange hk picker).nodup_iff.mpr range.nodup_addresses
  exact h.of_append_right

lemma mem_inPlay_after_iff (hk : k ≤ range.size) (picker : γ) (a : Address) :
    a ∈ (after k (ofRange range picker)).inPlay ↔
      range.contains a = true ∧ a ∉ taken k (ofRange range picker) := by
  have hperm := perm_taken_ofRange hk picker
  have hmem : a ∈ taken k (ofRange range picker) ∨
      a ∈ (after k (ofRange range picker)).inPlay ↔ range.contains a = true := by
    rw [← List.mem_append, hperm.mem_iff, AddressRange.mem_addresses]
  have hdisjoint := List.disjoint_of_nodup_append (hperm.nodup_iff.mpr range.nodup_addresses)
  constructor
  · intro ha
    exact ⟨hmem.mp (Or.inr ha), fun htaken => hdisjoint htaken ha⟩
  · rintro ⟨hcontains, htaken⟩
    exact (hmem.mpr hcontains).resolve_left htaken

lemma bijOn_slot_after (hk : k < range.size) (picker : γ) :
    Set.BijOn (after k (ofRange range picker)).slot
      (Set.Iic (after k (ofRange range picker)).cursor)
      {a | range.contains a = true ∧ a ∉ taken k (ofRange range picker)} := by
  have he := not_exhausted_after hk picker
  have hmem := mem_inPlay_after_iff (Nat.le_of_lt hk) picker
  refine ⟨?_, ?_, ?_⟩
  · intro n hn
    apply (hmem _).mp
    rw [inPlay_of_not_exhausted he]
    exact List.mem_map_of_mem (List.mem_range.mpr (Nat.lt_succ_of_le hn))
  · intro m hm n hn heq
    exact slot_injective he (nodup_inPlay_after (Nat.le_of_lt hk) picker) hm hn heq
  · intro a ha
    obtain ⟨-, n, hn, hna⟩ := exists_slot_of_mem_inPlay ((hmem a).mpr ha)
    exact ⟨n, hn, hna⟩

end

theorem stores_at_most_half [Picker γ] (range : AddressRange) (picker : γ) :
    (∀ k < range.size,
      let s := after k (ofRange range picker)
      s.cursor = range.size - 1 - k ∧
      (∀ (n : Nat) (a : Address), s.displaced[n]? = some a →
        n ≤ s.cursor ∧ a ≠ range.address n ∧
          ∃ m, s.cursor < m ∧ m ≤ range.lastOffset ∧ range.address m = a) ∧
      (∀ (m n : Nat) (a : Address), s.displaced[m]? = some a → s.displaced[n]? = some a → m = n) ∧
      Set.BijOn s.slot (Set.Iic s.cursor)
        {a | range.contains a = true ∧ a ∉ taken k (ofRange range picker)} ∧
      s.displaced.size ≤ min k (range.size - k) ∧ 2 * s.displaced.size ≤ range.size) ∧
    ∀ k, (after k (ofRange range picker)).exhausted = true →
      (after k (ofRange range picker)).displaced.size = 0 := by
  have htidy (k : Nat) := (tidy_ofRange range picker).after k
  refine ⟨?_, ?_⟩
  · intro k hk s
    have hs : s.Tidy := htidy k
    have he : s.exhausted = false := not_exhausted_after hk picker
    have hcursor : s.cursor = range.size - 1 - k := cursor_after hk picker
    have hrange : s.range = range := range_after k _
    have hnodup : s.inPlay.Nodup := nodup_inPlay_after (Nat.le_of_lt hk) picker
    have hslots := hs.size_le_cursor
    have hdealt := hs.size_le_dealt he hnodup
    have hsize : range.size = range.lastOffset + 1 := rfl
    rw [hrange] at hdealt
    refine ⟨hcursor, ?_, ?_, bijOn_slot_after hk picker, ?_, ?_⟩
    · intro n a hn
      rw [← hrange]
      exact ⟨hs.slot_le hn, hs.ne_address hn, hs.moved hn⟩
    · intro m n a hm hn
      exact hs.stored_injective he hnodup hm hn
    · apply le_min <;> omega
    · omega
  · intro k he
    rw [(htidy k).empty he]
    rfl

theorem stores_at_most_half_of_quad :
    let range := AddressRange.ofNetwork ⟨.unspecified .v4, 30, by decide⟩
    let s := after 2 (ofRange range (Script.mk [0, 1]))
    2 < range.size ∧ s.displaced.size = 2 ∧ s.displaced.size ≤ min 2 (range.size - 2) ∧
      Set.BijOn s.slot (Set.Iic s.cursor) {a | range.contains a = true ∧
        a ∉ taken 2 (ofRange range (Script.mk [0, 1]))} := by
  intro range s
  have hk : 2 < range.size := by decide
  have h := (stores_at_most_half range (Script.mk [0, 1])).1 2 hk
  have hsize : s.displaced.size = 2 := by
    obtain ⟨a, b, hstored⟩ : ∃ a b, s.displaced =
        ((((∅ : Std.HashMap Nat Address).erase 3).insert 0 a).erase 2).insert 1 b := ⟨_, _, rfl⟩
    rw [hstored]
    simp [Std.HashMap.size_insert, Std.HashMap.size_erase]
  exact ⟨hk, hsize, h.2.2.2.2.1, h.2.2.2.1⟩

end AddressShuffle.Shuffle
