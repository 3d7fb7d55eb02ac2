import AddressShuffle.Proofs.Shuffle.Enumeration

/-! A shuffle of a range answers as the shuffle of a full array of offsets does. -/

namespace AddressShuffle.Shuffle

open Picker

universe u v

variable {γ : Type u} {δ : Type v} [Picker γ] [Picker δ]

def denseFrom {n : Nat} (array : Vector Nat (n + 1)) :
    (c : Nat) → c ≤ n → γ → List (Nat × Bool)
  | 0, _, _ => [(array[0], true)]
  | c + 1, h, picker =>
    let (r, picker) := pick picker (c + 1)
    have hr : r.val < n + 1 := Nat.lt_of_lt_of_le r.isLt (Nat.succ_le_succ h)
    (array[r.val], false) ::
      denseFrom (array.set r.val array[c + 1]) c (Nat.le_of_succ_le h) picker

def dense (last : Nat) (picker : γ) : List (Nat × Bool) :=
  denseFrom (Vector.range (last + 1)) last (Nat.le_refl last) picker

def located (range : AddressRange) (e : Nat × Bool) : Address × Bool :=
  (range.address e.1, e.2)

lemma answers_eq_denseFrom {n c : Nat} (array : Vector Nat (n + 1)) {s : Shuffle γ}
    (he : s.exhausted = false) (hcursor : s.cursor = c) (hc : c ≤ n)
    (hslot : ∀ i (h : i ≤ c), s.slot i = s.range.address array[i]) :
    answers (c + 1) s =
      (denseFrom array c hc s.picker).map (located s.range) := by
  induction c generalizing s array with
  | zero =>
    rw [answers, next_of_cursor_eq_zero he hcursor, hslot 0 (Nat.le_refl 0)]
    rfl
  | succ c ih =>
    let r := (pick s.picker (c + 1)).1
    have hr : r.val ≤ c + 1 := Nat.le_of_lt_succ r.isLt
    let t := (s.deal r).withPicker (pick s.picker (c + 1)).2
    have hnext : s.next = ((s.slot r, false), t) := by
      rw [next_eq_deal he (by omega), hcursor]
    have ht : t.cursor = c := by
      simp [t, withPicker, deal, hcursor]
    -- the array with its slot overwritten still says what the slots below the cursor hold
    have hslot' : ∀ i (h : i ≤ c),
        t.slot i = t.range.address (array.set r.val array[c + 1])[i] := by
      intro i hi
      have hdeal : t.slot i = if i = r.val then s.slot s.cursor else s.slot i :=
        slot_deal s r (by omega)
      rw [hdeal, hcursor, Vector.getElem_set]
      by_cases hir : i = r.val
      · rw [if_pos hir, if_pos hir.symm]
        exact hslot (c + 1) (Nat.le_refl _)
      · rw [if_neg hir, if_neg (Ne.symm hir)]
        exact hslot i (by omega)
    have hrest := ih (array.set r.val array[c + 1]) (s := t) he ht (by omega) hslot'
    rw [answers, hnext, hrest, hslot r hr]
    rfl

lemma answers_eq_dense (range : AddressRange) (picker : γ) :
    answers range.size (ofRange range picker) =
      (dense range.lastOffset picker).map (located range) := by
  apply answers_eq_denseFrom (Vector.range (range.lastOffset + 1)) rfl rfl (Nat.le_refl _)
  intro i hi
  rw [slot_ofRange, Vector.getElem_range]
  rfl

lemma answers_of_exhausted {s : Shuffle γ} (h : s.exhausted = true) (k : Nat) :
    answers k s = List.replicate k (.unspecified s.range.family, true) := by
  induction k with
  | zero => rfl
  | succ k ih => rw [answers, next_of_exhausted h, ih, List.replicate_succ]

lemma answers_eq_take_dense (range : AddressRange) (picker : γ) (k : Nat) :
    answers k (ofRange range picker) =
      ((dense range.lastOffset picker).map (located range) ++
        List.replicate k (Address.unspecified range.family, true)).take k := by
  let s := ofRange range picker
  have he : (after range.size s).exhausted = true := by
    rw [exhausted_after]
    exact decide_eq_true (Nat.le_refl _)
  have hall : answers (range.size + k) s =
      (dense range.lastOffset picker).map (located range) ++
        List.replicate k (Address.unspecified range.family, true) := by
    rw [answers_add, answers_eq_dense, answers_of_exhausted he, range_after]
    rfl
  rw [← hall, Nat.add_comm, answers_add, List.take_append_of_le_length (length_answers k s).ge,
    List.take_of_length_le (length_answers k s).le]

lemma bounds_after (range : AddressRange) (picker : γ) (k : Nat) :
    (after k (ofRange range (Recorded.mk picker []))).picker.bounds =
      (countdown range.lastOffset).take k := by
  rw [picker_after, bounds_afterBounds]
  rfl

lemma answers_recorded (range : AddressRange) (picker : γ) (k : Nat) :
    answers k (ofRange range (Recorded.mk picker [])) = answers k (ofRange range picker) :=
  answers_withPicker k (ofRange range picker) (Recorded.mk picker []) (choices_recorded _ picker [])

lemma denseFrom_congr {n c : Nat} (array : Vector Nat (n + 1)) (hc : c ≤ n) {picker : γ}
    {other : δ} (h : choices (countdown c) other = choices (countdown c) picker) :
    denseFrom array c hc other = denseFrom array c hc picker := by
  induction c generalizing array picker other with
  | zero => rfl
  | succ c ih =>
    rw [countdown, choices, choices, List.cons.injEq] at h
    have hpick : (pick other (c + 1)).1 = (pick picker (c + 1)).1 := Fin.ext h.1
    simp only [denseFrom, hpick]
    exact congrArg _ (ih _ _ h.2)

lemma fst_le_of_mem_denseFrom {n c : Nat} {array : Vector Nat (n + 1)} (hc : c ≤ n) {picker : γ}
    (harray : ∀ i (h : i ≤ n), array[i] ≤ n) {e : Nat × Bool}
    (he : e ∈ denseFrom array c hc picker) : e.1 ≤ n := by
  induction c generalizing array picker with
  | zero =>
    rw [denseFrom, List.mem_singleton] at he
    exact he ▸ harray 0 (Nat.zero_le n)
  | succ c ih =>
    let r := (pick picker (c + 1)).1
    have hr : r.val ≤ n := Nat.le_trans (Nat.le_of_lt_succ r.isLt) hc
    rcases List.mem_cons.mp he with h | h
    · exact h ▸ harray r hr
    · refine ih (Nat.le_of_succ_le hc) ?_ h
      intro i hi
      rw [Vector.getElem_set]
      split_ifs
      · exact harray (c + 1) hc
      · exact harray i hi

lemma offsets_taken {range : AddressRange} (picker : γ) {k : Nat} (hk : k ≤ range.size) :
    (taken k (ofRange range picker)).map (fun a => a.bits - range.first.bits) =
      ((dense range.lastOffset picker).map Prod.fst).take k := by
  have hlen : ((dense range.lastOffset picker).map (located range)).length = range.size := by
    rw [← answers_eq_dense, length_answers]
  rw [taken, answers_eq_take_dense, List.take_append_of_le_length (hlen.symm ▸ hk), List.map_take,
    List.map_take, List.map_map, List.map_map]
  congr 1
  apply List.map_congr_left
  intro e he
  have hle : e.1 ≤ range.lastOffset := by
    refine fst_le_of_mem_denseFrom (Nat.le_refl _) ?_ he
    intro i hi
    rw [Vector.getElem_range]
    exact hi
  change (range.address e.1).bits - range.first.bits = e.1
  rw [AddressRange.bits_address hle]
  omega

end AddressShuffle.Shuffle
