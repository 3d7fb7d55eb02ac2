import AddressShuffle.Proofs.Random.Script
import AddressShuffle.Proofs.Shuffle.InPlay

namespace AddressShuffle.Shuffle

open Picker

universe u v

variable {γ : Type u} {δ : Type v} [Picker γ] [Picker δ]

def after : Nat → Shuffle γ → Shuffle γ
  | 0, s => s
  | k + 1, s => after k s.next.2

def answers : Nat → Shuffle γ → List (Address × Bool)
  | 0, _ => []
  | k + 1, s => s.next.1 :: answers k s.next.2

def taken (k : Nat) (s : Shuffle γ) : List Address :=
  (answers k s).map Prod.fst

lemma taken_succ (k : Nat) (s : Shuffle γ) :
    taken (k + 1) s = s.next.1.1 :: taken k s.next.2 := rfl

lemma length_answers (k : Nat) (s : Shuffle γ) : (answers k s).length = k := by
  induction k generalizing s with
  | zero => rfl
  | succ k ih => simp [answers, ih]

lemma length_taken (k : Nat) (s : Shuffle γ) : (taken k s).length = k := by
  rw [taken, List.length_map, length_answers]

lemma answers_add (j k : Nat) (s : Shuffle γ) :
    answers (j + k) s = answers j s ++ answers k (after j s) := by
  induction j generalizing s with
  | zero => simp [answers, after]
  | succ j ih => rw [Nat.succ_add, answers, answers, after, ih, List.cons_append]

lemma after_add (j k : Nat) (s : Shuffle γ) : after (j + k) s = after k (after j s) := by
  induction j generalizing s with
  | zero => rw [Nat.zero_add, after]
  | succ j ih => rw [Nat.succ_add, after, after, ih]

lemma taken_add (j k : Nat) (s : Shuffle γ) :
    taken (j + k) s = taken j s ++ taken k (after j s) := by
  rw [taken, answers_add, List.map_append, taken, taken]

lemma range_after (k : Nat) (s : Shuffle γ) : (after k s).range = s.range := by
  induction k generalizing s with
  | zero => rfl
  | succ k ih => rw [after, ih, range_next]

lemma left_after (k : Nat) (s : Shuffle γ) : (after k s).left = s.left - k := by
  induction k generalizing s with
  | zero => rfl
  | succ k ih =>
    rw [after, ih, left_next]
    omega

lemma min_succ_left {s : Shuffle γ} (h : s.exhausted = false) (k : Nat) :
    min (k + 1) s.left = min k s.next.2.left + 1 := by
  rw [left_next, left_of_not_exhausted h]
  omega

lemma exhausted_after (k : Nat) (s : Shuffle γ) :
    (after k s).exhausted = decide (s.left ≤ k) := by
  have h := left_after k s
  cases he : (after k s).exhausted with
  | true =>
    rw [left_eq_zero_iff.mpr he] at h
    exact (decide_eq_true (by omega)).symm
  | false =>
    have hne : (after k s).left ≠ 0 := by
      rw [Ne, left_eq_zero_iff, he]
      exact Bool.false_ne_true
    exact (decide_eq_false (by omega)).symm

lemma perm_taken_inPlay {k : Nat} {s : Shuffle γ} (hk : k ≤ s.left) :
    (taken k s ++ (after k s).inPlay).Perm s.inPlay := by
  induction k generalizing s with
  | zero => exact List.Perm.refl _
  | succ k ih =>
    have he : s.exhausted = false := not_exhausted_of_left_pos (by omega)
    have hn : k ≤ s.next.2.left := by
      rw [left_next]
      omega
    exact ((ih hn).cons s.next.1.1).trans (perm_inPlay_next he)

lemma picker_next_of_left_le_one {s : Shuffle γ} (h : s.left ≤ 1) :
    s.next.2.picker = s.picker := by
  cases he : s.exhausted with
  | true => rw [next_of_exhausted he]
  | false =>
    rw [left_of_not_exhausted he] at h
    rw [next_of_cursor_eq_zero he (by omega)]

lemma picker_after (k : Nat) (s : Shuffle γ) :
    (after k s).picker = afterBounds ((countdown (s.left - 1)).take k) s.picker := by
  induction k generalizing s with
  | zero => simp [after, afterBounds]
  | succ k ih =>
    rw [after, ih, left_next]
    cases hl : s.left - 1 with
    | zero =>
      have hle : s.left ≤ 1 := Nat.sub_eq_zero_iff_le.mp hl
      simp [countdown, picker_next_of_left_le_one hle, afterBounds]
    | succ c =>
      obtain ⟨he, hc⟩ := cursor_of_left_sub_one hl
      rw [next_eq_deal he (by omega), hc]
      rfl

lemma next_withPicker_of_left_le_one {s : Shuffle γ} (h : s.left ≤ 1) (picker : δ) :
    (s.withPicker picker).next = (s.next.1, s.next.2.withPicker picker) := by
  cases he : s.exhausted with
  | true =>
    have he' : (s.withPicker picker).exhausted = true := he
    rw [next_of_exhausted he, next_of_exhausted he']
    rfl
  | false =>
    have he' : (s.withPicker picker).exhausted = false := he
    rw [left_of_not_exhausted he] at h
    have hc : s.cursor = 0 := by omega
    have hc' : (s.withPicker picker).cursor = 0 := hc
    rw [next_of_cursor_eq_zero he hc, next_of_cursor_eq_zero he' hc']
    rfl

omit [Picker γ] in
lemma next_withPicker {s : Shuffle γ} (h : s.exhausted = false) (hc : s.cursor ≠ 0)
    (picker : δ) :
    (s.withPicker picker).next =
      ((s.slot (pick picker s.cursor).1, false),
        (s.deal (pick picker s.cursor).1).withPicker (pick picker s.cursor).2) :=
  next_eq_deal (s := s.withPicker picker) h hc

lemma answers_withPicker (k : Nat) (s : Shuffle γ) (picker : δ)
    (h : choices ((countdown (s.left - 1)).take k) picker =
      choices ((countdown (s.left - 1)).take k) s.picker) :
    answers k (s.withPicker picker) = answers k s := by
  induction k generalizing s picker with
  | zero => rfl
  | succ k ih =>
    rw [answers, answers]
    cases hl : s.left - 1 with
    | zero =>
      have hle : s.left ≤ 1 := Nat.sub_eq_zero_iff_le.mp hl
      rw [next_withPicker_of_left_le_one hle]
      congr 1
      apply ih
      simp [left_next, hl, countdown, choices]
    | succ c =>
      obtain ⟨he, hc⟩ := cursor_of_left_sub_one hl
      rw [hl, countdown, List.take_succ_cons, choices, choices, List.cons.injEq, ← hc] at h
      have hpick : (pick picker s.cursor).1 = (pick s.picker s.cursor).1 := Fin.ext h.1
      let t := (s.deal (pick s.picker s.cursor).1).withPicker (pick s.picker s.cursor).2
      have hleft : t.left - 1 = c := by
        have ht : t.left = s.cursor := left_deal he (by omega) (pick s.picker s.cursor).1
        omega
      have hrest : answers k (t.withPicker (pick picker s.cursor).2) = answers k t :=
        ih t _ (hleft.symm ▸ h.2)
      rw [next_withPicker he (by omega), next_eq_deal he (by omega), hpick]
      exact congrArg _ hrest

end AddressShuffle.Shuffle
