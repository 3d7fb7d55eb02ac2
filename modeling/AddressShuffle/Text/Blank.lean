namespace AddressShuffle.Text

/-- The code points with the property `White_Space`, as closed intervals in increasing order. -/
def blankIntervals : List (Nat × Nat) :=
  [(0x9, 0xD), (0x20, 0x20), (0x85, 0x85), (0xA0, 0xA0), (0x1680, 0x1680), (0x2000, 0x200A),
    (0x2028, 0x2029), (0x202F, 0x202F), (0x205F, 0x205F), (0x3000, 0x3000)]

def isBlank (c : Char) : Bool :=
  blankIntervals.any fun i => decide (i.1 ≤ c.toNat ∧ c.toNat ≤ i.2)

def trim (s : List Char) : List Char :=
  ((s.dropWhile isBlank).reverse.dropWhile isBlank).reverse

theorem trim_of_forall_isBlank {s : List Char} (h : ∀ c ∈ s, isBlank c = true) : trim s = [] := by
  have hs : s.dropWhile isBlank = [] := by
    induction s with
    | nil => rfl
    | cons c r ih =>
      rw [List.dropWhile_cons_of_pos (h c List.mem_cons_self)]
      exact ih fun d hd => h d (List.mem_cons_of_mem c hd)
  simp [trim, hs]

end AddressShuffle.Text
