import AddressShuffle.Network.Basic

namespace AddressShuffle

inductive RangeError where
  | wrongOrder (first last : Address)
  | mixedFamilies (first last : Address)
  | invalidAddress
  | invalidNetwork (text : String)
  deriving DecidableEq

structure AddressRange where
  first : Address
  last : Address
  family_eq : first.family = last.family
  bits_le : first.bits ≤ last.bits
  deriving DecidableEq

namespace AddressRange

theorem ext {r s : AddressRange} (hf : r.first = s.first) (hl : r.last = s.last) : r = s := by
  cases r
  cases s
  cases hf
  cases hl
  rfl

def ofBounds (first last : Address) : Except RangeError AddressRange :=
  if hf : first.family = last.family then
    if hb : first.bits ≤ last.bits then .ok ⟨first, last, hf, hb⟩
    else .error (.wrongOrder first last)
  else .error (.mixedFamilies first last)

def ofNetwork (n : Network) : AddressRange where
  first := n.lowest
  last := n.highest
  family_eq := rfl
  bits_le := Nat.le_add_right _ _

def family (r : AddressRange) : Family := r.first.family

def lastOffset (r : AddressRange) : Nat := r.last.bits - r.first.bits

def size (r : AddressRange) : Nat := r.lastOffset + 1

def counted? (n : Nat) : Option Nat :=
  if n < Family.v6.size then some n else none

def count? (r : AddressRange) : Option Nat := counted? r.size

def contains (r : AddressRange) (a : Address) : Bool :=
  decide (a.family = r.family ∧ r.first.bits ≤ a.bits ∧ a.bits ≤ r.last.bits)

def address (r : AddressRange) (n : Nat) : Address := r.first.advance n

def offset? (r : AddressRange) (n : Nat) : Option Address :=
  if n ≤ r.lastOffset then some (r.address n) else none

theorem bits_first_add {r : AddressRange} {n : Nat} (h : n ≤ r.lastOffset) :
    r.first.bits + n ≤ r.last.bits := by
  have := r.bits_le
  unfold lastOffset at h
  omega

theorem bits_first_add_lt {r : AddressRange} {n : Nat} (h : n ≤ r.lastOffset) :
    r.first.bits + n < r.first.family.size := by
  have := r.last.bits_lt
  rw [← r.family_eq] at this
  exact Nat.lt_of_le_of_lt (bits_first_add h) this

theorem bits_address {r : AddressRange} {n : Nat} (h : n ≤ r.lastOffset) :
    (r.address n).bits = r.first.bits + n :=
  Address.bits_advance (bits_first_add_lt h)

@[simp] theorem family_address (r : AddressRange) (n : Nat) :
    (r.address n).family = r.family := rfl

@[simp] theorem address_zero (r : AddressRange) : r.address 0 = r.first :=
  Address.advance_zero _

theorem address_lastOffset (r : AddressRange) : r.address r.lastOffset = r.last := by
  refine Address.ext r.family_eq ?_
  have := r.bits_le
  rw [bits_address (Nat.le_refl _), lastOffset]
  omega

theorem address_injective {r : AddressRange} {m n : Nat} (hm : m ≤ r.lastOffset)
    (hn : n ≤ r.lastOffset) (h : r.address m = r.address n) : m = n := by
  have hb := congrArg Address.bits h
  rw [bits_address hm, bits_address hn] at hb
  omega

theorem contains_iff {r : AddressRange} {a : Address} :
    r.contains a = true ↔
      a.family = r.family ∧ r.first.bits ≤ a.bits ∧ a.bits ≤ r.last.bits := by
  simp [contains]

theorem contains_address {r : AddressRange} {n : Nat} (h : n ≤ r.lastOffset) :
    r.contains (r.address n) = true := by
  rw [contains_iff, bits_address h]
  exact ⟨rfl, Nat.le_add_right _ _, bits_first_add h⟩

def trimmed (r : AddressRange) (n : Nat) (h : 2 * n ≤ r.lastOffset) : AddressRange where
  first := r.address n
  last := r.address (r.lastOffset - n)
  family_eq := rfl
  bits_le := by
    rw [bits_address (by omega), bits_address (by omega)]
    omega

theorem lastOffset_ofNetwork (n : Network) : (ofNetwork n).lastOffset = n.size - 1 := by
  simp [lastOffset, ofNetwork, Network.bits_highest]

def usableHosts (n : Network) : AddressRange :=
  if h : n.address.family = .v4 ∧ n.length < 31 then
    (ofNetwork n).trimmed 1 (by
      have hle : 2 ^ 2 ≤ n.size := by
        rw [Network.size, Nat.one_shiftLeft, h.1, Family.width]
        exact Nat.pow_le_pow_right (by decide) (by omega)
      rw [lastOffset_ofNetwork]
      omega)
  else ofNetwork n

end AddressRange

end AddressShuffle
