import AddressShuffle.Network.Basic
import Mathlib.Algebra.Group.Nat.Defs

/-! Networks by their masks: the bits of the mask are those that the members share. -/

namespace AddressShuffle

lemma Family.size_eq_two_pow (f : Family) : f.size = 2 ^ f.width :=
  Nat.one_shiftLeft _

namespace Address

def word (a : Address) : BitVec a.family.width := BitVec.ofNat _ a.bits

def ofWord (f : Family) (w : BitVec f.width) : Address :=
  ⟨f, w.toNat, f.size_eq_two_pow ▸ w.isLt⟩

lemma bits_ofWord (f : Family) (w : BitVec f.width) : (ofWord f w).bits = w.toNat := rfl

lemma toNat_word (a : Address) : a.word.toNat = a.bits := by
  have hlt := a.bits_lt
  rw [Family.size_eq_two_pow] at hlt
  exact Nat.mod_eq_of_lt hlt

end Address

namespace Network

def mask (n : Network) : BitVec n.address.family.width :=
  BitVec.allOnes _ <<< (n.address.family.width - n.length)

lemma size_eq_two_pow (n : Network) : n.size = 2 ^ (n.address.family.width - n.length) :=
  Nat.one_shiftLeft _

lemma toNat_and_mask (n : Network) (x : BitVec n.address.family.width) :
    (x &&& n.mask).toNat = x.toNat / n.size * n.size := by
  have hlt : x.toNat / n.size * n.size < 2 ^ n.address.family.width :=
    Nat.lt_of_le_of_lt (Nat.div_mul_le_self _ _) x.isLt
  rw [size_eq_two_pow] at hlt ⊢
  rw [mask, ← BitVec.shiftLeft_ushiftRight, BitVec.toNat_shiftLeft, BitVec.toNat_ushiftRight,
    Nat.shiftRight_eq_div_pow, Nat.shiftLeft_eq, Nat.mod_eq_of_lt hlt]

lemma toNat_mask (n : Network) : n.mask.toNat = n.address.family.size - n.size := by
  obtain ⟨m, hm⟩ := n.size_dvd
  have hpos := n.size_pos
  have hm_pos : 0 < m := by
    apply Nat.pos_of_ne_zero
    rintro rfl
    exact Nat.ne_of_gt n.address.family.size_pos hm
  have hsplit : n.size * m - 1 = n.size - 1 + n.size * (m - 1) := by
    have := Nat.mul_sub_one n.size m
    have := Nat.le_mul_of_pos_right n.size hm_pos
    omega
  have hdiv : (n.size * m - 1) / n.size = m - 1 := by
    rw [hsplit, Nat.add_mul_div_left _ _ hpos, Nat.div_eq_of_lt (by omega), Nat.zero_add]
  have hones := n.toNat_and_mask (BitVec.allOnes _)
  rw [BitVec.allOnes_and, BitVec.toNat_allOnes, ← Family.size_eq_two_pow, hm, hdiv] at hones
  rw [hones, hm, Nat.sub_one_mul, Nat.mul_comm]

lemma toNat_not_mask (n : Network) : (~~~n.mask).toNat = n.size - 1 := by
  have hle : n.size ≤ n.address.family.size := Nat.le_of_dvd n.address.family.size_pos n.size_dvd
  have hpos := n.size_pos
  rw [BitVec.toNat_not, toNat_mask, ← Family.size_eq_two_pow]
  omega

lemma lowest_eq_ofWord (n : Network) :
    n.lowest = .ofWord n.address.family (n.address.word &&& n.mask) := by
  refine Address.ext rfl ?_
  rw [Address.bits_ofWord, toNat_and_mask, Address.toNat_word]
  rfl

lemma highest_eq_ofWord (n : Network) :
    n.highest = .ofWord n.address.family (n.address.word &&& n.mask ||| ~~~n.mask) := by
  have hlt : n.size - 1 < 2 ^ (n.address.family.width - n.length) := by
    have hpos := n.size_pos
    rw [← size_eq_two_pow]
    omega
  have hor := Nat.two_pow_add_eq_or_of_lt hlt (n.address.bits / n.size)
  rw [← size_eq_two_pow, Nat.mul_comm] at hor
  refine Address.ext rfl ?_
  rw [Address.bits_ofWord, BitVec.toNat_or, toNat_not_mask, toNat_and_mask, Address.toNat_word,
    ← hor]
  rfl

end Network

end AddressShuffle
