import AddressShuffle.Proofs.Network.Mask
import AddressShuffle.Range.Basic

namespace AddressShuffle

namespace Address

lemma getMsbD_word {a : Address} {i : Nat} (h : i < a.family.width) :
    a.word.getMsbD i = a.bits.testBit (a.family.width - 1 - i) := by
  have hlt : a.family.width - 1 - i < a.family.width := by omega
  rw [BitVec.getMsbD_eq_getLsbD, word, BitVec.getLsbD_ofNat, decide_eq_true h, decide_eq_true hlt,
    Bool.true_and, Bool.true_and]

lemma testBit_bits_eq_false {a : Address} {i : Nat} (h : a.family.width ≤ i) :
    a.bits.testBit i = false := by
  have hlt := a.bits_lt
  rw [Family.size_eq_two_pow] at hlt
  exact Nat.testBit_lt_two_pow (Nat.lt_of_lt_of_le hlt (Nat.pow_le_pow_right Nat.two_pos h))

lemma div_two_pow_eq_iff {a b : Address} (hf : a.family = b.family) {k : Nat}
    (hk : k ≤ a.family.width) :
    a.bits / 2 ^ (a.family.width - k) = b.bits / 2 ^ (a.family.width - k) ↔
      ∀ i < k, a.word.getMsbD i = b.word.getMsbD i := by
  have hwidth : a.family.width = b.family.width := congrArg Family.width hf
  constructor
  · intro h i hi
    have hsplit : a.family.width - 1 - i = k - 1 - i + (a.family.width - k) := by omega
    rw [getMsbD_word (by omega), getMsbD_word (by omega), ← hwidth, hsplit,
      ← Nat.testBit_div_two_pow, ← Nat.testBit_div_two_pow, h]
  · intro h
    apply Nat.eq_of_testBit_eq
    intro j
    rw [Nat.testBit_div_two_pow, Nat.testBit_div_two_pow]
    by_cases hj : j < k
    · have hbit := h (k - 1 - j) (by omega)
      have hsplit : a.family.width - 1 - (k - 1 - j) = j + (a.family.width - k) := by omega
      rwa [getMsbD_word (by omega), getMsbD_word (by omega), ← hwidth, hsplit] at hbit
    · rw [testBit_bits_eq_false (by omega), testBit_bits_eq_false (by omega)]

end Address

def Network.IsMember (n : Network) (a : Address) : Prop :=
  a.family = n.address.family ∧ ∀ i < n.length, a.word.getMsbD i = n.address.word.getMsbD i

namespace AddressRange

lemma contains_ofNetwork_iff_div {n : Network} {a : Address} :
    (ofNetwork n).contains a = true ↔
      a.family = n.address.family ∧ a.bits / n.size = n.address.bits / n.size := by
  have hpos := n.size_pos
  have hlast : n.address.bits / n.size * n.size + (n.size - 1) =
      n.address.bits / n.size * n.size + n.size - 1 := (Nat.add_sub_assoc hpos _).symm
  rw [contains_iff, Nat.div_eq_iff hpos, ← hlast]
  rfl

lemma contains_ofNetwork_iff {n : Network} {a : Address} :
    (ofNetwork n).contains a = true ↔ n.IsMember a := by
  rw [contains_ofNetwork_iff_div, Network.IsMember]
  refine and_congr_right fun hf => ?_
  have hlength : n.length ≤ a.family.width := hf ▸ n.length_le
  rw [← Address.div_two_pow_eq_iff hf hlength, n.size_eq_two_pow, hf]

lemma size_ofNetwork (n : Network) :
    (ofNetwork n).size = 2 ^ (n.address.family.width - n.length) := by
  have hpos := n.size_pos
  rw [size, lastOffset_ofNetwork, ← n.size_eq_two_pow]
  omega

lemma two_pow_lt_size_v6_iff (n : Network) :
    2 ^ (n.address.family.width - n.length) < Family.v6.size ↔
      ¬(n.length = 0 ∧ n.address.family = .v6) := by
  rw [Family.size_eq_two_pow, Nat.pow_lt_pow_iff_right Nat.one_lt_two]
  cases hf : n.address.family <;> simp [Family.width] <;> omega

lemma count?_ofNetwork (n : Network) :
    (ofNetwork n).count? =
      if n.length = 0 ∧ n.address.family = .v6 then none
      else some (2 ^ (n.address.family.width - n.length)) := by
  rw [count?, counted?, size_ofNetwork]
  simp only [two_pow_lt_size_v6_iff, ite_not]

end AddressRange

end AddressShuffle
