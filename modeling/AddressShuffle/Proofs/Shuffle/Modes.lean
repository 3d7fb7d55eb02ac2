import AddressShuffle.Proofs.Shuffle.Addresses
import Mathlib.Data.List.Perm.Subperm

/-! A shuffle that is asked by calls and read as a sequence in turns. -/

namespace AddressShuffle.Shuffle

open Picker

universe u

variable {γ : Type u}

inductive Mode where
  | calls
  | items

structure View (γ : Type u) where
  mode : Mode
  shuffle : Shuffle γ

variable [Picker γ]

/-- One use of a shuffle and the addresses it takes: those answered or passed over, but not the
unspecified address that calls answer after the end. -/
inductive Use : View γ → List Address → View γ → Prop
  | call (s) : Use ⟨.calls, s⟩ (if s.exhausted then [] else [s.next.1.1]) ⟨.calls, s.next.2⟩
  | item (s) : Use ⟨.items, s⟩ s.next?.1.toList ⟨.items, s.next?.2⟩
  | nth (n s) : Use ⟨.items, s⟩ (take (n + 1) s).1 ⟨.items, (s.nth? n).2⟩
  | turn (m m' s) : Use ⟨m, s⟩ [] ⟨m', s⟩

inductive Uses : View γ → List Address → View γ → Prop
  | nil (v) : Uses v [] v
  | cons {v w x as bs} : Use v as w → Uses w bs x → Uses v (as ++ bs) x

/-- Calls that answer `as`, none of them after the end, lead from `s` to `t`. -/
structure Produces (s : Shuffle γ) (as : List Address) (t : Shuffle γ) : Prop where
  length_le : as.length ≤ s.left
  taken_eq : taken as.length s = as
  after_eq : after as.length s = t

lemma Produces.refl (s : Shuffle γ) : Produces s [] s :=
  ⟨Nat.zero_le _, rfl, rfl⟩

lemma Produces.trans {s t r : Shuffle γ} {as bs : List Address} (h : Produces s as t)
    (h' : Produces t bs r) : Produces s (as ++ bs) r := by
  have hleft : t.left = s.left - as.length := by rw [← h.after_eq, left_after]
  refine ⟨?_, ?_, ?_⟩
  · have := h.length_le
    have := h'.length_le
    rw [List.length_append]
    omega
  · rw [List.length_append, taken_add, h.after_eq, h.taken_eq, h'.taken_eq]
  · rw [List.length_append, after_add, h.after_eq, h'.after_eq]

lemma produces_next {s : Shuffle γ} (h : s.exhausted = false) :
    Produces s [s.next.1.1] s.next.2 := by
  refine ⟨?_, rfl, rfl⟩
  rw [left_of_not_exhausted h, List.length_singleton]
  omega

lemma produces_take (limit : Nat) (s : Shuffle γ) :
    Produces s (take limit s).1 (take limit s).2 := by
  rw [take_eq_taken]
  refine ⟨?_, ?_, ?_⟩
  · rw [length_taken]
    exact Nat.min_le_right limit s.left
  · rw [length_taken]
  · rw [length_taken]

lemma length_take (limit : Nat) (s : Shuffle γ) :
    (take limit s).1.length = min limit s.left := by
  rw [take_eq_taken, length_taken]

lemma nth?_eq_getElem?_take (n : Nat) (s : Shuffle γ) :
    s.nth? n = ((take (n + 1) s).1[n]?, (take (n + 1) s).2) := by
  induction n generalizing s with
  | zero =>
    rw [nth?, take_succ]
    rcases s.next? with ⟨_ | a, t⟩
    · rfl
    · rfl
  | succ n ih =>
    rw [nth?, take_succ]
    rcases s.next? with ⟨_ | a, t⟩
    · rfl
    · simp only [ih, List.getElem?_cons_succ]

lemma Use.produces {v w : View γ} {as : List Address} (h : Use v as w) :
    Produces v.shuffle as w.shuffle := by
  cases h with
  | call s =>
    cases he : s.exhausted with
    | true =>
      rw [if_pos rfl, next_of_exhausted he]
      exact .refl s
    | false =>
      rw [if_neg Bool.false_ne_true]
      exact produces_next he
  | item s =>
    cases he : s.exhausted with
    | true =>
      rw [next?_of_exhausted he]
      exact .refl s
    | false =>
      rw [next?_of_not_exhausted he]
      exact produces_next he
  | nth n s =>
    rw [nth?_eq_getElem?_take]
    exact produces_take (n + 1) s
  | turn m m' s => exact .refl s

lemma Uses.produces {v w : View γ} {as : List Address} (h : Uses v as w) :
    Produces v.shuffle as w.shuffle := by
  induction h with
  | nil v => exact .refl v.shuffle
  | cons huse _ ih => exact huse.produces.trans ih

omit [Picker γ] in
lemma sizeBounds_eq (s : Shuffle γ) :
    s.sizeBounds =
      if s.left ≤ 2 ^ 64 - 1 then (s.left, some s.left) else (2 ^ 64 - 1, none) := by
  have hsize : UInt64.size = 2 ^ 64 := rfl
  rw [sizeBounds, hsize]
  split_ifs with h₁ h₂
  · rfl
  · omega
  · omega
  · rfl

lemma Produces.eq_of_exhausted {s t : Shuffle γ} {as : List Address} (h : Produces s as t)
    (he : s.exhausted = true) : as = [] ∧ t = s := by
  have hnil : as = [] := by
    apply List.eq_nil_of_length_eq_zero
    have := h.length_le
    rw [left_eq_zero_iff.mpr he] at this
    omega
  subst hnil
  exact ⟨rfl, h.after_eq.symm⟩

lemma next?_eq_none_iff (s : Shuffle γ) : s.next?.1 = none ↔ s.left = 0 := by
  rw [left_eq_zero_iff]
  cases he : s.exhausted with
  | true => simp [next?_of_exhausted he]
  | false => simp [next?_of_not_exhausted he]

lemma getElem?_take (n : Nat) (s : Shuffle γ) :
    (take (n + 1) s).1[n]? = (taken s.left s)[n]? := by
  rw [take_eq_taken]
  rcases Nat.lt_or_ge n s.left with h | h
  · rw [Nat.min_eq_left h, ← Nat.add_sub_of_le h, taken_add, List.getElem?_append_left]
    rw [length_taken]
    exact n.lt_succ_self
  · rw [Nat.min_eq_right (Nat.le_succ_of_le h)]

lemma eq_size_iff_forall_mem_taken {range : AddressRange} {k : Nat} (hk : k ≤ range.size)
    (picker : γ) :
    k = range.size ↔ ∀ a, range.contains a = true → a ∈ taken k (ofRange range picker) := by
  constructor
  · rintro rfl a ha
    exact mem_taken_size ha picker
  · intro h
    have hsubset : range.addresses ⊆ taken k (ofRange range picker) := fun a ha =>
      h a (AddressRange.mem_addresses.mp ha)
    have hle : range.addresses.length ≤ (taken k (ofRange range picker)).length :=
      (range.nodup_addresses.subperm hsubset).length_le
    rw [AddressRange.length_addresses, length_taken] at hle
    exact Nat.le_antisymm hk hle

theorem mixed_uses_follow_one_run (range : AddressRange) (picker : γ) {as : List Address}
    {v : View γ} (h : Uses ⟨.calls, ofRange range picker⟩ as v) :
    let s := ofRange range picker
    let m := range.size - as.length
    as.length ≤ range.size ∧ as = taken as.length s ∧ v.shuffle = after as.length s ∧
    v.shuffle.picker = afterBounds ((countdown range.lastOffset).take as.length) picker ∧
    (v.shuffle.next?.1 = none ↔ as.length = range.size) ∧
    (v.shuffle.next?.1 = none ↔ ∀ a, range.contains a = true → a ∈ as) ∧
    (∀ n, v.shuffle.nth? n = ((take (n + 1) v.shuffle).1[n]?, (take (n + 1) v.shuffle).2) ∧
      (v.shuffle.nth? n).1 = (taken range.size s)[as.length + n]?) ∧
    (as.length = range.size → ∀ bs w, Uses v bs w → bs = [] ∧ w.shuffle = v.shuffle ∧
      w.shuffle.next? = (none, w.shuffle) ∧
      w.shuffle.next = ((.unspecified range.family, true), w.shuffle)) ∧
    (∀ limit, (take limit v.shuffle).1.length = min limit m) ∧
      v.shuffle.sizeBounds = if m ≤ 2 ^ 64 - 1 then (m, some m) else (2 ^ 64 - 1, none) := by
  intro s m
  have hproduces : Produces s as v.shuffle := h.produces
  have hle : as.length ≤ range.size := hproduces.length_le
  have hleft : v.shuffle.left = m := by
    rw [← hproduces.after_eq, left_after]
    rfl
  have hend : v.shuffle.next?.1 = none ↔ as.length = range.size := by
    rw [next?_eq_none_iff, hleft]
    omega
  refine ⟨hle, hproduces.taken_eq.symm, hproduces.after_eq.symm, ?_, hend, ?_, ?_, ?_, ?_, ?_⟩
  · rw [← hproduces.after_eq, picker_after]
    rfl
  · have hall := eq_size_iff_forall_mem_taken hle picker
    rw [hproduces.taken_eq] at hall
    exact hend.trans hall
  · intro n
    refine ⟨nth?_eq_getElem?_take n v.shuffle, ?_⟩
    -- the calls up to the end are those made so far and those that are left
    have hall : taken range.size s = as ++ taken v.shuffle.left v.shuffle := by
      have hsum : range.size = as.length + v.shuffle.left := by omega
      rw [hsum, taken_add, hproduces.taken_eq, hproduces.after_eq]
    rw [nth?_eq_getElem?_take, getElem?_take, hall, List.getElem?_append_right (by omega),
      Nat.add_sub_cancel_left]
  · intro hlength bs w hw
    have he : v.shuffle.exhausted = true := left_eq_zero_iff.mp (by omega)
    have hrange : v.shuffle.range = range := by
      rw [← hproduces.after_eq, range_after]
      rfl
    obtain ⟨hbs, hsame⟩ := hw.produces.eq_of_exhausted he
    rw [hsame]
    refine ⟨hbs, rfl, next?_of_exhausted he, ?_⟩
    rw [next_of_exhausted he, hrange]
  · intro limit
    rw [length_take, hleft]
  · rw [sizeBounds_eq, hleft]

theorem mixed_uses_follow_one_run_of_skipped :
    let range := AddressRange.ofNetwork ⟨.unspecified .v4, 30, by decide⟩
    let s := ofRange range (Script.mk [1, 2, 0])
    let t := s.next.2.nth? 2
    t.1 = (taken 4 s)[3]? ∧ t.2.next? = (none, t.2) ∧ t.2.sizeBounds = (0, some 0) := by
  intro range s t
  have hcall : Uses ⟨.calls, s⟩ [s.next.1.1] ⟨.items, s.next.2⟩ :=
    .cons (.call s) (.cons (.turn .calls .items s.next.2) (.nil _))
  have hall : Uses ⟨.calls, s⟩ ([s.next.1.1] ++ ([] ++ ((take 3 s.next.2).1 ++ [])))
      ⟨.items, t.2⟩ :=
    .cons (.call s) (.cons (.turn .calls .items s.next.2)
      (.cons (.nth 2 s.next.2) (.nil _)))
  have hlength : ([s.next.1.1] ++ ([] ++ ((take 3 s.next.2).1 ++ []))).length = range.size := by
    simp only [List.length_append, List.length_singleton, List.length_nil, length_take, left_next]
    rfl
  have hbefore := (mixed_uses_follow_one_run range (Script.mk [1, 2, 0]) hcall).2.2.2.2.2.2.1 2
  have hafter := (mixed_uses_follow_one_run range (Script.mk [1, 2, 0]) hall).2.2.2.2.2.2.2
  obtain ⟨-, -, hnone, -⟩ := hafter.1 hlength [] _ (.nil _)
  have hbounds := hafter.2.2
  rw [hlength] at hbounds
  exact ⟨hbefore.2, hnone, hbounds⟩

end AddressShuffle.Shuffle
