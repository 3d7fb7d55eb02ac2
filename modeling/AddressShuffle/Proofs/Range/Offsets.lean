import AddressShuffle.Proofs.Address.Order
import AddressShuffle.Proofs.Range.Addresses
import Mathlib.Order.Bounds.Basic
import Mathlib.Order.Hom.Basic
import Mathlib.Order.Interval.Finset.Nat
import Mathlib.SetTheory.Cardinal.Finite

namespace AddressShuffle.AddressRange

lemma first_le_last (r : AddressRange) : r.first ≤ r.last :=
  (Address.le_iff_bits_le r.family_eq).mpr r.bits_le

lemma contains_iff_le {r : AddressRange} {a : Address} :
    r.contains a = true ↔ a.family = r.family ∧ r.first ≤ a ∧ a ≤ r.last := by
  rw [contains_iff]
  refine and_congr_right fun hf => ?_
  rw [Address.le_iff_bits_le hf.symm, Address.le_iff_bits_le (hf.trans r.family_eq)]

lemma isLeast_first (r : AddressRange) : IsLeast {a | r.contains a = true} r.first :=
  ⟨contains_iff_le.mpr ⟨rfl, le_rfl, r.first_le_last⟩, fun _ ha => (contains_iff_le.mp ha).2.1⟩

lemma isGreatest_last (r : AddressRange) : IsGreatest {a | r.contains a = true} r.last :=
  ⟨contains_iff_le.mpr ⟨r.family_eq.symm, r.first_le_last, le_rfl⟩,
    fun _ ha => (contains_iff_le.mp ha).2.2⟩

lemma address_le_address_iff {r : AddressRange} {m n : Nat} (hm : m ≤ r.lastOffset)
    (hn : n ≤ r.lastOffset) : r.address m ≤ r.address n ↔ m ≤ n := by
  have hfamily : (r.address m).family = (r.address n).family := rfl
  rw [Address.le_iff_bits_le hfamily, bits_address hm, bits_address hn, Nat.add_le_add_iff_left]

def offsetIso (r : AddressRange) :
    Set.Iic r.lastOffset ≃o { a : Address // r.contains a = true } where
  toFun n := ⟨r.address n, contains_address n.property⟩
  invFun a := ⟨a.val.bits - r.first.bits, bits_sub_le_lastOffset a.property⟩
  left_inv n := by
    apply Subtype.ext
    change (r.address n).bits - r.first.bits = n
    rw [bits_address n.property, Nat.add_sub_cancel_left]
  right_inv a := Subtype.ext (address_bits_sub a.property)
  map_rel_iff' {m n} := address_le_address_iff m.property n.property

lemma offset?_eq_offsetIso (r : AddressRange) (n : Set.Iic r.lastOffset) :
    r.offset? n = some (r.offsetIso n).val :=
  if_pos n.property

lemma card_contains (r : AddressRange) : Nat.card { a // r.contains a = true } = r.size := by
  rw [← Nat.card_congr r.offsetIso.toEquiv, size]
  simp

lemma count?_eq_none_iff {r : AddressRange} : r.count? = none ↔ Family.v6.size ≤ r.size := by
  rw [count?, counted?, ite_eq_right_iff, ← Nat.not_lt]
  simp

lemma bits_of_size_v6_le {r : AddressRange} (h : Family.v6.size ≤ r.size) :
    r.family = .v6 ∧ r.first.bits = 0 ∧ r.last.bits = Family.v6.size - 1 := by
  have hlast := r.last.bits_lt
  have hbits := r.bits_le
  have hpos := Family.v6.size_pos
  rw [size, lastOffset] at h
  have hfamily : r.last.family = .v6 := by
    cases hf : r.last.family with
    | v6 => rfl
    | v4 =>
      have hlt : Family.v4.size < Family.v6.size := by decide
      rw [hf] at hlast
      omega
  rw [hfamily] at hlast
  refine ⟨r.family_eq.trans hfamily, ?_, ?_⟩ <;> omega

lemma size_v6_le_size_iff {r : AddressRange} :
    Family.v6.size ≤ r.size ↔ ∀ a, r.contains a = true ↔ a.family = .v6 := by
  constructor
  · intro h a
    obtain ⟨hf, hfirst, hlast⟩ := bits_of_size_v6_le h
    rw [contains_iff, hf, hfirst, hlast, and_iff_left_iff_imp]
    intro ha
    have hlt := a.bits_lt
    rw [ha] at hlt
    omega
  · intro h
    let lowest : Address := .unspecified .v6
    let highest : Address := ⟨.v6, Family.v6.size - 1, by decide⟩
    have hfirst : r.first.bits ≤ 0 := (contains_iff.mp ((h lowest).mpr rfl)).2.1
    have hlast : Family.v6.size - 1 ≤ r.last.bits := (contains_iff.mp ((h highest).mpr rfl)).2.2
    rw [size, lastOffset]
    omega

theorem offsets_enumerate_range (r : AddressRange) :
    (∃ e : Set.Iic r.lastOffset ≃o { a : Address // r.contains a = true },
      ∀ n : Set.Iic r.lastOffset, r.offset? n = some (e n).val) ∧
    r.offset? 0 = some r.first ∧ r.offset? r.lastOffset = some r.last ∧
    (∀ n, r.lastOffset < n → r.offset? n = none) ∧
    (∀ a, r.contains a = true ↔ a.family = r.family ∧ r.first ≤ a ∧ a ≤ r.last) ∧
    (∀ a, a.family ≠ r.family → r.contains a = false) ∧
    (∀ n, r.count? = some n → n = Nat.card { a // r.contains a = true }) ∧
    (r.count? = none ↔ ∀ a, r.contains a = true ↔ a.family = .v6) := by
  refine ⟨⟨r.offsetIso, r.offset?_eq_offsetIso⟩, ?_, ?_, ?_, fun a => contains_iff_le, ?_, ?_, ?_⟩
  · rw [offset?, if_pos (Nat.zero_le _), address_zero]
  · rw [offset?, if_pos le_rfl, address_lastOffset]
  · intro n hn
    rw [offset?, if_neg (Nat.not_le.mpr hn)]
  · intro a hf
    rw [← Bool.not_eq_true, contains_iff]
    exact fun h => hf h.1
  · intro n hn
    obtain ⟨-, hsize⟩ := Option.ite_none_right_eq_some.mp hn
    rw [card_contains, Option.some.inj hsize]
  · rw [count?_eq_none_iff, size_v6_le_size_iff]

theorem offsets_enumerate_range_of_carry :
    let r : AddressRange :=
      ⟨⟨.v4, 0x0a0000ff, by decide⟩, ⟨.v4, 0x0a000101, by decide⟩, rfl, by decide⟩
    r.offset? 2 = some r.last ∧ r.offset? 3 = none ∧
      3 = Nat.card { a : Address // r.contains a = true } := by
  intro r
  obtain ⟨-, -, hlast, hnone, -, -, hcard, -⟩ := offsets_enumerate_range r
  have hoffset : r.lastOffset = 2 := by decide
  have hcount : r.count? = some 3 := by decide
  rw [hoffset] at hlast hnone
  exact ⟨hlast, hnone 3 (by decide), hcard 3 hcount⟩

end AddressShuffle.AddressRange
