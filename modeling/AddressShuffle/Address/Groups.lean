namespace AddressShuffle.Groups

variable {b : Nat}

def value (gs : List (Fin b)) : Nat :=
  gs.foldl (fun n g => b * n + g.val) 0

def ofNat (hb : 0 < b) : (count n : Nat) → List (Fin b)
  | 0, _ => []
  | count + 1, n => ofNat hb count (n / b) ++ [⟨n % b, Nat.mod_lt n hb⟩]

@[simp] theorem value_nil : value ([] : List (Fin b)) = 0 := rfl

@[simp] theorem value_concat (gs : List (Fin b)) (g : Fin b) :
    value (gs ++ [g]) = b * value gs + g.val := by
  simp [value, List.foldl_append]

@[simp] theorem length_ofNat (hb : 0 < b) (count n : Nat) : (ofNat hb count n).length = count := by
  induction count generalizing n with
  | zero => rfl
  | succ count ih => simp [ofNat, ih]

theorem foldl_lt (gs : List (Fin b)) (n m : Nat) (h : n < m) :
    gs.foldl (fun n g => b * n + g.val) n < m * b.pow gs.length := by
  induction gs generalizing n m with
  | nil => simpa using h
  | cons g gs ih =>
    have hg : b * n + g.val < m * b := by
      have hle : b * (n + 1) ≤ b * m := Nat.mul_le_mul_left b h
      have := g.isLt
      rw [Nat.mul_add] at hle
      rw [Nat.mul_comm m b]
      omega
    have hp : b.pow (g :: gs).length = b * b.pow gs.length := Nat.mul_comm _ _
    rw [List.foldl_cons, hp, ← Nat.mul_assoc]
    exact ih _ _ hg

theorem value_lt (gs : List (Fin b)) : value gs < b.pow gs.length := by
  have h := foldl_lt gs 0 1 Nat.zero_lt_one
  rwa [Nat.one_mul] at h

theorem value_ofNat (hb : 0 < b) (count n : Nat) :
    value (ofNat hb count n) = n % b.pow count := by
  induction count generalizing n with
  | zero => simp [ofNat, Nat.mod_one]
  | succ count ih =>
    have hs : b.pow (count + 1) = b * b.pow count := Nat.mul_comm _ _
    rw [ofNat, value_concat, ih, hs, Nat.mod_mul]
    exact Nat.add_comm _ _

end AddressShuffle.Groups
