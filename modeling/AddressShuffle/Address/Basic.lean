namespace AddressShuffle

inductive Family where
  | v4
  | v6
  deriving DecidableEq, Repr

namespace Family

def width : Family → Nat
  | .v4 => 32
  | .v6 => 128

def size (f : Family) : Nat := 1 <<< f.width

theorem size_pos (f : Family) : 0 < f.size := by cases f <;> decide

theorem size_le (f : Family) : f.size ≤ v6.size := by cases f <;> decide

end Family

structure Address where
  family : Family
  bits : Nat
  bits_lt : bits < family.size
  deriving DecidableEq

namespace Address

theorem ext {a b : Address} (hf : a.family = b.family) (hb : a.bits = b.bits) : a = b := by
  cases a
  cases b
  cases hf
  cases hb
  rfl

instance : Hashable Address where
  hash a := mixHash (hash a.family.width) (hash a.bits)

def unspecified (f : Family) : Address :=
  ⟨f, 0, f.size_pos⟩

def advance (a : Address) (n : Nat) : Address :=
  ⟨a.family, (a.bits + n) % a.family.size, Nat.mod_lt _ a.family.size_pos⟩

@[simp] theorem family_unspecified (f : Family) : (unspecified f).family = f := rfl

@[simp] theorem family_advance (a : Address) (n : Nat) : (a.advance n).family = a.family := rfl

theorem bits_advance {a : Address} {n : Nat} (h : a.bits + n < a.family.size) :
    (a.advance n).bits = a.bits + n :=
  Nat.mod_eq_of_lt h

@[simp] theorem advance_zero (a : Address) : a.advance 0 = a :=
  ext rfl (Nat.mod_eq_of_lt a.bits_lt)

end Address

end AddressShuffle
