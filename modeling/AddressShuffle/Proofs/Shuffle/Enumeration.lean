import AddressShuffle.Proofs.Shuffle.Run

namespace AddressShuffle.Shuffle

universe u

variable {γ : Type u} [Picker γ]

lemma perm_taken_ofRange {range : AddressRange} {k : Nat} (hk : k ≤ range.size) (picker : γ) :
    (taken k (ofRange range picker) ++ (after k (ofRange range picker)).inPlay).Perm
      range.addresses := by
  rw [← inPlay_ofRange range picker]
  exact perm_taken_inPlay hk

lemma nodup_taken {range : AddressRange} {k : Nat} (hk : k ≤ range.size) (picker : γ) :
    (taken k (ofRange range picker)).Nodup := by
  have h := (perm_taken_ofRange hk picker).nodup_iff.mpr range.nodup_addresses
  exact h.of_append_left

lemma contains_of_mem_taken {range : AddressRange} {k : Nat} (hk : k ≤ range.size) {picker : γ}
    {a : Address} (ha : a ∈ taken k (ofRange range picker)) : range.contains a = true := by
  have h := (perm_taken_ofRange hk picker).subset (List.mem_append_left _ ha)
  exact AddressRange.mem_addresses.mp h

lemma inPlay_after_size (range : AddressRange) (picker : γ) :
    (after range.size (ofRange range picker)).inPlay = [] := by
  apply inPlay_of_exhausted
  rw [exhausted_after, left_ofRange]
  exact decide_eq_true (Nat.le_refl _)

lemma mem_taken_size {range : AddressRange} {a : Address} (ha : range.contains a = true)
    (picker : γ) : a ∈ taken range.size (ofRange range picker) := by
  have h := perm_taken_ofRange (Nat.le_refl range.size) picker
  rw [inPlay_after_size, List.append_nil] at h
  exact h.mem_iff.mpr (AddressRange.mem_addresses.mpr ha)

lemma map_snd_answers {s : Shuffle γ} (h : s.exhausted = false) :
    (answers (s.cursor + 1) s).map Prod.snd = List.replicate s.cursor false ++ [true] := by
  induction hn : s.cursor generalizing s with
  | zero => simp [answers, next_of_cursor_eq_zero h hn]
  | succ n ih =>
    rw [answers, next_eq_deal h (by omega), List.map_cons, List.replicate_succ, List.cons_append]
    exact congrArg _ (ih h (Nat.sub_eq_of_eq_add hn))

lemma remaining?_after {range : AddressRange} (k : Nat) (picker : γ) :
    (after k (ofRange range picker)).remaining? =
      if range.size - k = 2 ^ 128 then none else some (range.size - k) := by
  have hsize := range.size_le_two_pow
  rw [remaining?, left_after, left_ofRange, AddressRange.counted?, Family.size_v6]
  split_ifs with h₁ h₂
  · omega
  · rfl
  · rfl
  · omega

theorem calls_enumerate_range (range : AddressRange) (picker : γ) :
    let s := ofRange range picker
    (∀ k ≤ range.size,
      (taken k s).length = k ∧ (taken k s).Nodup ∧ (∀ a ∈ taken k s, range.contains a = true) ∧
      (after k s).remaining? =
        if range.size - k = 2 ^ 128 then none else some (range.size - k)) ∧
    (∀ a, range.contains a = true → (taken range.size s).count a = 1) ∧
    (answers range.size s).map Prod.snd = List.replicate range.lastOffset false ++ [true] ∧
    (∀ k, (after k s).exhausted = decide (range.size ≤ k)) ∧
    ∀ k, range.size ≤ k → (after k s).next = ((.unspecified range.family, true), after k s) := by
  intro s
  refine ⟨?_, ?_, map_snd_answers rfl, fun k => exhausted_after k s, ?_⟩
  · intro k hk
    exact ⟨length_taken k s, nodup_taken hk picker, fun a ha => contains_of_mem_taken hk ha,
      remaining?_after k picker⟩
  · intro a ha
    exact List.count_eq_one_of_mem (nodup_taken (Nat.le_refl _) picker) (mem_taken_size ha picker)
  · intro k hk
    have he : (after k s).exhausted = true := by
      rw [exhausted_after]
      exact decide_eq_true hk
    rw [next_of_exhausted he, range_after]
    rfl

theorem calls_enumerate_range_of_unspecified :
    let range := AddressRange.ofNetwork ⟨.unspecified .v4, 30, by decide⟩
    let s := ofRange range (Script.mk [1, 2, 0])
    (taken 2 s).Nodup ∧ (after 2 s).remaining? = some 2 ∧
      (taken 4 s).count (.unspecified .v4) = 1 ∧
      (after 4 s).next = ((.unspecified .v4, true), after 4 s) := by
  intro range s
  have h := calls_enumerate_range range (Script.mk [1, 2, 0])
  exact ⟨(h.1 2 (by decide)).2.1, (h.1 2 (by decide)).2.2.2, h.2.1 (.unspecified .v4) (by decide),
    h.2.2.2.2 4 (by decide)⟩

end AddressShuffle.Shuffle
