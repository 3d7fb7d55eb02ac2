import AddressShuffle.Proofs.Network.Prefix
import AddressShuffle.Proofs.Range.Bounds
import AddressShuffle.Proofs.Range.Offsets

/-! The usable hosts of a network, by its members. -/

namespace AddressShuffle

/-- In IPv4 the two ends of a network are no hosts unless it has no other members. -/
def Network.IsHost (n : Network) (a : Address) : Prop :=
  n.IsMember a ∧ (n.address.family = .v4 → n.length < 31 →
    ¬IsLeast {b | n.IsMember b} a ∧ ¬IsGreatest {b | n.IsMember b} a)

namespace AddressRange

section Trimming

variable {r : AddressRange} {n : Nat} {h : 2 * n ≤ r.lastOffset}

lemma bits_first_trimmed : (r.trimmed n h).first.bits = r.first.bits + n :=
  bits_address (by omega)

lemma bits_last_trimmed : (r.trimmed n h).last.bits + n = r.last.bits := by
  have hbits : (r.trimmed n h).last.bits = r.first.bits + (r.lastOffset - n) :=
    bits_address (Nat.sub_le _ _)
  have hle := r.bits_le
  have hlast : r.lastOffset = r.last.bits - r.first.bits := rfl
  omega

lemma size_trimmed : (r.trimmed n h).size + 2 * n = r.size := by
  have hfirst : (r.trimmed n h).first.bits = r.first.bits + n := bits_first_trimmed
  have hlast : (r.trimmed n h).last.bits + n = r.last.bits := bits_last_trimmed
  have hle := (r.trimmed n h).bits_le
  rw [size, size, lastOffset, lastOffset]
  omega

lemma contains_trimmed_iff {a : Address} :
    (r.trimmed n h).contains a = true ↔
      a.family = r.family ∧ r.first.bits + n ≤ a.bits ∧ a.bits + n ≤ r.last.bits := by
  have hlast : (r.trimmed n h).last.bits + n = r.last.bits := bits_last_trimmed
  rw [contains_iff, bits_first_trimmed, ← hlast, Nat.add_le_add_iff_right]
  rfl

lemma contains_trimmed_one_iff {h : 2 * 1 ≤ r.lastOffset} {a : Address} :
    (r.trimmed 1 h).contains a = true ↔ r.contains a = true ∧ a ≠ r.first ∧ a ≠ r.last := by
  rw [contains_trimmed_iff, contains_iff]
  constructor
  · rintro ⟨hf, hfirst, hlast⟩
    refine ⟨⟨hf, by omega, by omega⟩, ?_, ?_⟩
    · rintro rfl
      omega
    · rintro rfl
      omega
  · rintro ⟨⟨hf, hfirst, hlast⟩, hne_first, hne_last⟩
    have hfirst_bits : r.first.bits ≠ a.bits := fun hb => hne_first (Address.ext hf hb.symm)
    have hlast_bits : r.last.bits ≠ a.bits := fun hb =>
      hne_last (Address.ext (hf.trans r.family_eq) hb.symm)
    exact ⟨hf, by omega, by omega⟩

end Trimming

variable {n : Network}

lemma exists_usableHosts_eq_trimmed (hf : n.address.family = .v4) (hlength : n.length < 31) :
    ∃ h, usableHosts n = (ofNetwork n).trimmed 1 h :=
  ⟨_, dif_pos ⟨hf, hlength⟩⟩

lemma usableHosts_eq_ofNetwork (h : ¬(n.address.family = .v4 ∧ n.length < 31)) :
    usableHosts n = ofNetwork n :=
  dif_neg h

lemma setOf_contains_ofNetwork (n : Network) :
    {a | (ofNetwork n).contains a = true} = {a | n.IsMember a} :=
  Set.ext fun _ => contains_ofNetwork_iff

lemma isLeast_member_iff {a : Address} : IsLeast {b | n.IsMember b} a ↔ a = n.lowest := by
  rw [← setOf_contains_ofNetwork]
  exact ⟨fun h => h.unique (isLeast_first _), fun h => h ▸ isLeast_first _⟩

lemma isGreatest_member_iff {a : Address} : IsGreatest {b | n.IsMember b} a ↔ a = n.highest := by
  rw [← setOf_contains_ofNetwork]
  exact ⟨fun h => h.unique (isGreatest_last _), fun h => h ▸ isGreatest_last _⟩

lemma contains_usableHosts_iff {a : Address} :
    (usableHosts n).contains a = true ↔ n.IsHost a := by
  rw [Network.IsHost, isLeast_member_iff, isGreatest_member_iff, ← contains_ofNetwork_iff]
  by_cases hsmall : n.address.family = .v4 ∧ n.length < 31
  · obtain ⟨h, htrimmed⟩ := exists_usableHosts_eq_trimmed hsmall.1 hsmall.2
    rw [htrimmed, contains_trimmed_one_iff]
    exact and_congr_right fun _ => ⟨fun hne _ _ => hne, fun hne => hne hsmall.1 hsmall.2⟩
  · rw [usableHosts_eq_ofNetwork hsmall, iff_self_and]
    exact fun _ hf hlength => absurd ⟨hf, hlength⟩ hsmall

lemma count?_usableHosts (hf : n.address.family = .v4) (hlength : n.length < 31) :
    (usableHosts n).count? = some (2 ^ (32 - n.length) - 2) := by
  obtain ⟨h, htrimmed⟩ := exists_usableHosts_eq_trimmed hf hlength
  have hsize : ((ofNetwork n).trimmed 1 h).size + 2 = 2 ^ (32 - n.length) := by
    rw [size_trimmed, size_ofNetwork, hf]
    rfl
  have hlt : 2 ^ (32 - n.length) < Family.v6.size := by
    rw [Family.size_eq_two_pow]
    exact Nat.pow_lt_pow_right Nat.one_lt_two (by rw [Family.width]; omega)
  rw [count?, htrimmed, counted?, if_pos (by omega), ← hsize, Nat.add_sub_cancel]

theorem usable_hosts_drop_ends (n : Network) :
    (∃ b, Bounds.usableHosts? n = some b ∧ b = (usableHosts n).bounds ∧
      b.first.family = b.last.family ∧ b.first ≤ b.last) ∧
    (∃ a, (usableHosts n).contains a = true) ∧
    (∀ a, (usableHosts n).contains a = true ↔ (ofNetwork n).contains a = true ∧
      (n.address.family = .v4 → n.length < 31 →
        ¬IsLeast { b | (ofNetwork n).contains b = true } a ∧
        ¬IsGreatest { b | (ofNetwork n).contains b = true } a)) ∧
    (n.address.family = .v4 → n.length < 31 →
      (usableHosts n).count? = some (2 ^ (32 - n.length) - 2)) ∧
    (¬(n.address.family = .v4 ∧ n.length < 31) →
      (usableHosts n).count? = (ofNetwork n).count?) := by
  refine ⟨⟨_, Bounds.usableHosts?_eq n, rfl, (usableHosts n).family_eq,
    (usableHosts n).first_le_last⟩, ⟨_, (usableHosts n).isLeast_first.1⟩, ?_, ?_, ?_⟩
  · intro a
    rw [contains_usableHosts_iff, contains_ofNetwork_iff, setOf_contains_ofNetwork]
    exact Iff.rfl
  · exact count?_usableHosts
  · intro h
    rw [usableHosts_eq_ofNetwork h]

theorem usable_hosts_drop_ends_of_quad :
    let n : Network := ⟨⟨.v4, 0x0a000006, by decide⟩, 30, by decide⟩
    (usableHosts n).count? = some 2 ∧ (usableHosts n).contains n.address = true ∧
      (usableHosts n).contains n.lowest = false := by
  intro n
  obtain ⟨-, -, hcontains, hcount, -⟩ := usable_hosts_drop_ends n
  have hfirst : n.address ≠ (ofNetwork n).first := by decide
  have hlast : n.address ≠ (ofNetwork n).last := by decide
  refine ⟨hcount rfl (by decide), (hcontains n.address).mpr ⟨by decide, fun _ _ => ⟨?_, ?_⟩⟩, ?_⟩
  · exact fun h => hfirst (h.unique (isLeast_first _))
  · exact fun h => hlast (h.unique (isGreatest_last _))
  · rw [← Bool.not_eq_true, hcontains n.lowest]
    exact fun h => (h.2 rfl (by decide)).1 (isLeast_first _)

end AddressRange

end AddressShuffle
