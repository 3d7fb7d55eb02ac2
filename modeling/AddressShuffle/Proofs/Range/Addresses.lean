import AddressShuffle.Range.Basic
import Mathlib.Algebra.Group.Nat.Defs
import Mathlib.Data.List.Nodup
import Mathlib.Data.List.Range

namespace AddressShuffle

lemma Family.size_v6 : v6.size = 2 ^ 128 := by decide

namespace AddressRange

lemma size_le_two_pow (r : AddressRange) : r.size ≤ 2 ^ 128 := by
  have hlast := bits_first_add_lt (Nat.le_refl r.lastOffset)
  have hfamily := r.first.family.size_le
  rw [Family.size_v6] at hfamily
  rw [size]
  omega

def addresses (r : AddressRange) : List Address :=
  (List.range r.size).map r.address

lemma length_addresses (r : AddressRange) : r.addresses.length = r.size := by
  simp [addresses]

lemma nodup_addresses (r : AddressRange) : r.addresses.Nodup := by
  apply List.nodup_range.map_on
  intro m hm n hn h
  rw [List.mem_range, size] at hm hn
  exact address_injective (by omega) (by omega) h

lemma bits_sub_le_lastOffset {r : AddressRange} {a : Address} (h : r.contains a = true) :
    a.bits - r.first.bits ≤ r.lastOffset := by
  have hle := (contains_iff.mp h).2.2
  rw [lastOffset]
  omega

lemma address_bits_sub {r : AddressRange} {a : Address} (h : r.contains a = true) :
    r.address (a.bits - r.first.bits) = a := by
  obtain ⟨hf, hle, -⟩ := contains_iff.mp h
  refine Address.ext hf.symm ?_
  rw [bits_address (bits_sub_le_lastOffset h)]
  omega

lemma exists_address_of_contains {r : AddressRange} {a : Address} (h : r.contains a = true) :
    ∃ n ≤ r.lastOffset, r.address n = a :=
  ⟨a.bits - r.first.bits, bits_sub_le_lastOffset h, address_bits_sub h⟩

lemma mem_addresses {r : AddressRange} {a : Address} :
    a ∈ r.addresses ↔ r.contains a = true := by
  rw [addresses, List.mem_map]
  constructor
  · rintro ⟨n, hn, rfl⟩
    rw [List.mem_range, size] at hn
    exact contains_address (by omega)
  · intro h
    obtain ⟨n, hn, hna⟩ := exists_address_of_contains h
    exact ⟨n, List.mem_range.mpr (Nat.lt_succ_of_le hn), hna⟩

end AddressRange

end AddressShuffle
