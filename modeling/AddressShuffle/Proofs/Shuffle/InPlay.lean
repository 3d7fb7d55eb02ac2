import AddressShuffle.Proofs.Range.Addresses
import AddressShuffle.Shuffle.Addresses
import Mathlib.Logic.Equiv.Basic

/-! A call of `next` deals out one of the addresses in play and keeps the others. -/

namespace AddressShuffle.Shuffle

universe u v

variable {γ : Type u}

lemma held_refill (range : AddressRange) (displaced : Std.HashMap Nat Address)
    {cursor picked n : Nat} (top : Address) (hn : n < cursor) :
    held range (refill displaced cursor picked top) n =
      if n = picked then top else held range displaced n := by
  have hc : cursor ≠ n := by omega
  by_cases hp : picked = cursor
  · have hnp : n ≠ picked := by omega
    simp [held, refill, hp, Std.HashMap.getElem?_erase, hc, hp ▸ hnp]
  · by_cases hnp : n = picked
    · simp [held, refill, hp, hnp]
    · simp [held, refill, hp, hnp, Std.HashMap.getElem?_insert, Std.HashMap.getElem?_erase, hc,
        Ne.symm hnp]

def inPlay (s : Shuffle γ) : List Address :=
  (List.range s.left).map s.slot

lemma inPlay_ofRange (range : AddressRange) (picker : γ) :
    (ofRange range picker).inPlay = range.addresses := by
  rw [inPlay, AddressRange.addresses]
  apply List.map_congr_left
  intro n _
  exact slot_ofRange range picker n

lemma inPlay_of_exhausted {s : Shuffle γ} (h : s.exhausted = true) : s.inPlay = [] := by
  rw [inPlay, left_eq_zero_iff.mpr h]
  rfl

lemma left_of_not_exhausted {s : Shuffle γ} (h : s.exhausted = false) :
    s.left = s.cursor + 1 := by
  simp [left, h]

lemma not_exhausted_of_left_pos {s : Shuffle γ} (h : 0 < s.left) : s.exhausted = false := by
  rw [← Bool.not_eq_true, ← left_eq_zero_iff]
  omega

lemma cursor_of_left_sub_one {s : Shuffle γ} {c : Nat} (h : s.left - 1 = c + 1) :
    s.exhausted = false ∧ s.cursor = c + 1 := by
  have he : s.exhausted = false := not_exhausted_of_left_pos (by omega)
  rw [left_of_not_exhausted he] at h
  exact ⟨he, h⟩

lemma exists_slot_of_mem_inPlay {s : Shuffle γ} {a : Address} (ha : a ∈ s.inPlay) :
    s.exhausted = false ∧ ∃ n ≤ s.cursor, s.slot n = a := by
  obtain ⟨n, hn, hna⟩ := List.mem_map.mp ha
  rw [List.mem_range] at hn
  have he : s.exhausted = false := not_exhausted_of_left_pos (by omega)
  rw [left_of_not_exhausted he] at hn
  exact ⟨he, n, Nat.le_of_lt_succ hn, hna⟩

lemma inPlay_of_not_exhausted {s : Shuffle γ} (h : s.exhausted = false) :
    s.inPlay = (List.range (s.cursor + 1)).map s.slot := by
  rw [inPlay, left_of_not_exhausted h]

lemma slot_injective {s : Shuffle γ} (h : s.exhausted = false) (hs : s.inPlay.Nodup)
    {m n : Nat} (hm : m ≤ s.cursor) (hn : n ≤ s.cursor) (heq : s.slot m = s.slot n) : m = n := by
  rw [inPlay_of_not_exhausted h] at hs
  exact List.inj_on_of_nodup_map hs (List.mem_range.mpr (by omega))
    (List.mem_range.mpr (by omega)) heq

lemma perm_map_refill {α : Type u} (f : Nat → α) {i n : Nat} (hi : i ≤ n) :
    (f i :: (List.range n).map fun j => if j = i then f n else f j).Perm
      ((List.range (n + 1)).map f) := by
  let σ := Equiv.swap i n
  have hσ : ((List.range (n + 1)).map σ).Perm (List.range (n + 1)) := by
    apply (List.perm_ext_iff_of_nodup (List.nodup_range.map σ.injective) List.nodup_range).mpr
    have hlt : ∀ j < n + 1, σ j < n + 1 := by
      intro j hj
      simp only [σ, Equiv.swap_apply_def]
      split_ifs <;> omega
    intro j
    rw [List.mem_map, List.mem_range]
    constructor
    · rintro ⟨k, hk, rfl⟩
      exact hlt k (List.mem_range.mp hk)
    · intro hj
      exact ⟨σ j, List.mem_range.mpr (hlt j hj), Equiv.swap_apply_self i n j⟩
  have hbelow : (List.range n).map (fun j => if j = i then f n else f j) =
      (List.range n).map fun j => f (σ j) := by
    apply List.map_congr_left
    intro j hj
    rw [List.mem_range] at hj
    have hjn : j ≠ n := by omega
    simp only [σ, Equiv.swap_apply_def, hjn, if_false]
    exact (apply_ite f (j = i) n j).symm
  have htop : f i = f (σ n) := (congrArg f (Equiv.swap_apply_right i n)).symm
  rw [hbelow, htop]
  refine (List.perm_append_singleton _ _).symm.trans ?_
  simpa only [List.map_map, Function.comp_def, List.range_succ, List.map_append,
    List.map_singleton] using hσ.map f

def deal (s : Shuffle γ) (n : Nat) : Shuffle γ :=
  { s with
    cursor := s.cursor - 1
    displaced := refill s.displaced s.cursor n (s.slot s.cursor) }

def withPicker {δ : Type v} (s : Shuffle γ) (picker : δ) : Shuffle δ :=
  ⟨s.range, s.cursor, s.displaced, s.exhausted, picker⟩

lemma next_eq_deal [Picker γ] {s : Shuffle γ} (h : s.exhausted = false) (hc : s.cursor ≠ 0) :
    s.next =
      ((s.slot (Picker.pick s.picker s.cursor).1, false),
        (s.deal (Picker.pick s.picker s.cursor).1).withPicker
          (Picker.pick s.picker s.cursor).2) :=
  next_of_cursor_ne_zero h hc

lemma slot_deal (s : Shuffle γ) (picked : Nat) {n : Nat} (hn : n < s.cursor) :
    (s.deal picked).slot n = if n = picked then s.slot s.cursor else s.slot n :=
  held_refill s.range s.displaced (s.slot s.cursor) hn

lemma left_deal {s : Shuffle γ} (h : s.exhausted = false) (hc : s.cursor ≠ 0) (picked : Nat) :
    (s.deal picked).left = s.cursor := by
  simp only [left, deal, h, Bool.false_eq_true, if_false]
  omega

lemma perm_inPlay_deal {s : Shuffle γ} (h : s.exhausted = false) (hc : s.cursor ≠ 0)
    {picked : Nat} (hp : picked ≤ s.cursor) :
    (s.slot picked :: (s.deal picked).inPlay).Perm s.inPlay := by
  have hdealt : (s.deal picked).inPlay = (List.range s.cursor).map fun n =>
      if n = picked then s.slot s.cursor else s.slot n := by
    rw [inPlay, left_deal h hc]
    apply List.map_congr_left
    intro n hn
    exact slot_deal s picked (List.mem_range.mp hn)
  rw [hdealt, inPlay_of_not_exhausted h]
  exact perm_map_refill s.slot hp

lemma mem_inPlay_deal {s : Shuffle γ} (h : s.exhausted = false) (hc : s.cursor ≠ 0)
    {picked : Nat} (hp : picked ≤ s.cursor) {a : Address} (ha : a ∈ s.inPlay)
    (hne : a ≠ s.slot picked) : a ∈ (s.deal picked).inPlay := by
  have hin := (perm_inPlay_deal h hc hp).mem_iff.mpr ha
  exact (List.mem_cons.mp hin).resolve_left hne

lemma nodup_inPlay_deal {s : Shuffle γ} (h : s.exhausted = false) (hc : s.cursor ≠ 0)
    {picked : Nat} (hp : picked ≤ s.cursor) (hs : s.inPlay.Nodup) :
    (s.deal picked).inPlay.Nodup := by
  have hcons := (perm_inPlay_deal h hc hp).nodup_iff.mpr hs
  exact hcons.of_cons

lemma perm_inPlay_next [Picker γ] {s : Shuffle γ} (h : s.exhausted = false) :
    (s.next.1.1 :: s.next.2.inPlay).Perm s.inPlay := by
  by_cases hc : s.cursor = 0
  · rw [next_of_cursor_eq_zero h hc, inPlay_of_exhausted rfl, inPlay_of_not_exhausted h, hc]
    exact List.Perm.refl _
  · rw [next_eq_deal h hc]
    exact perm_inPlay_deal h hc (Nat.le_of_lt_succ (Fin.isLt _))

end AddressShuffle.Shuffle
