import AddressShuffle.Proofs.Text.Accept
import AddressShuffle.Proofs.Text.Numeral
import AddressShuffle.Text.Blank

namespace AddressShuffle.Text

lemma trim_append_append {w s w' : List Char} (hw : ∀ c ∈ w, isBlank c = true)
    (hs : ∀ c ∈ s, isBlank c = false) (hw' : ∀ c ∈ w', isBlank c = true) :
    trim (w ++ s ++ w') = s := by
  cases s with
  | nil =>
    rw [List.append_nil]
    exact trim_of_forall_isBlank (List.forall_mem_append.mpr ⟨hw, hw'⟩)
  | cons c r =>
    have hfront : (w ++ (c :: r ++ w')).dropWhile isBlank = c :: r ++ w' := by
      apply dropWhile_append_of_head hw
      intro d hd
      obtain rfl : c = d := Option.some.inj hd
      exact hs c List.mem_cons_self
    have hback : (w'.reverse ++ (c :: r).reverse).dropWhile isBlank = (c :: r).reverse := by
      apply dropWhile_append_of_head
      · intro d hd
        exact hw' d (List.mem_reverse.mp hd)
      · intro d hd
        exact hs d (List.mem_reverse.mp (List.mem_of_mem_head? hd))
    rw [trim, List.append_assoc, hfront, List.reverse_append, hback, List.reverse_reverse]

lemma digitValue_of_isBlank {c : Char} (h : isBlank c = true) :
    Numeral.digitValue c = 16 := by
  simp only [isBlank, blankIntervals, List.any_cons, List.any_nil, Bool.or_eq_true,
    decide_eq_true_eq, Bool.false_eq_true, or_false] at h
  exact Numeral.digitValue_eq_sixteen (by omega)

end AddressShuffle.Text
