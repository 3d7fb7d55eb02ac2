import Mathlib.Data.List.TakeWhile

namespace AddressShuffle.Text

variable {accept : Char → Bool} {s r : List Char}

lemma ne_of_accept {c d : Char} (hc : accept c = true) (hd : accept d = false) : c ≠ d := by
  rintro rfl
  exact Bool.false_ne_true (hd.symm.trans hc)

lemma takeWhile_append_of_head (hin : ∀ c ∈ s, accept c = true)
    (hout : ∀ c ∈ r.head?, accept c = false) : (s ++ r).takeWhile accept = s := by
  rw [List.takeWhile_append_of_pos hin]
  cases r with
  | nil => rw [List.takeWhile_nil, List.append_nil]
  | cons c r => rw [List.takeWhile_cons_of_neg (by simp [hout c rfl]), List.append_nil]

lemma dropWhile_append_of_head (hin : ∀ c ∈ s, accept c = true)
    (hout : ∀ c ∈ r.head?, accept c = false) : (s ++ r).dropWhile accept = r := by
  rw [List.dropWhile_append_of_pos hin]
  cases r with
  | nil => rfl
  | cons c r => exact List.dropWhile_cons_of_neg (by simp [hout c rfl])

end AddressShuffle.Text
