import AddressShuffle.Proofs.Shuffle.Enumeration

namespace AddressShuffle.Shuffle

universe u

variable {γ : Type u} [Picker γ]

lemma take_eq_taken (limit : Nat) (s : Shuffle γ) :
    take limit s = (taken (min limit s.left) s, after (min limit s.left) s) := by
  induction limit generalizing s with
  | zero => rw [Nat.zero_min, take_zero, after, taken, answers, List.map_nil]
  | succ limit ih =>
    rw [take_succ]
    cases he : s.exhausted with
    | true =>
      have hleft : s.left = 0 := left_eq_zero_iff.mpr he
      rw [next?_of_exhausted he, hleft, Nat.min_zero, after, taken, answers, List.map_nil]
    | false =>
      rw [next?_of_not_exhausted he, min_succ_left he, taken_succ, after]
      simp only [ih]

end AddressShuffle.Shuffle
