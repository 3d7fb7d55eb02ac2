import AddressShuffle.Address.Basic

namespace AddressShuffle

structure Network where
  address : Address
  length : Nat
  length_le : length ≤ address.family.width
  deriving DecidableEq

namespace Network

def size (n : Network) : Nat :=
  1 <<< (n.address.family.width - n.length)

theorem size_pos (n : Network) : 0 < n.size := by
  rw [size, Nat.one_shiftLeft]
  exact Nat.two_pow_pos _

theorem size_dvd (n : Network) : n.size ∣ n.address.family.size := by
  rw [size, Family.size, Nat.one_shiftLeft, Nat.one_shiftLeft]
  exact Nat.pow_dvd_pow 2 (Nat.sub_le _ _)

def lowest (n : Network) : Address where
  family := n.address.family
  bits := n.address.bits / n.size * n.size
  bits_lt := Nat.lt_of_le_of_lt (Nat.div_mul_le_self _ _) n.address.bits_lt

def highest (n : Network) : Address where
  family := n.address.family
  bits := n.address.bits / n.size * n.size + (n.size - 1)
  bits_lt := by
    have hlt : n.address.bits / n.size < n.address.family.size / n.size :=
      Nat.div_lt_div_of_lt_of_dvd n.size_dvd n.address.bits_lt
    have hle : (n.address.bits / n.size + 1) * n.size ≤ n.address.family.size := by
      calc (n.address.bits / n.size + 1) * n.size
          ≤ n.address.family.size / n.size * n.size := Nat.mul_le_mul_right _ hlt
        _ = n.address.family.size := Nat.div_mul_cancel n.size_dvd
    have hpos := n.size_pos
    rw [Nat.add_mul] at hle
    omega

@[simp] theorem family_lowest (n : Network) : n.lowest.family = n.address.family := rfl

@[simp] theorem family_highest (n : Network) : n.highest.family = n.address.family := rfl

theorem bits_highest (n : Network) : n.highest.bits = n.lowest.bits + (n.size - 1) := rfl

end Network

end AddressShuffle
