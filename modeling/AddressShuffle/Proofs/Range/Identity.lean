import AddressShuffle.Proofs.Range.Bounds
import AddressShuffle.Proofs.Range.Offsets
import AddressShuffle.Proofs.Range.Text

/-! Ranges with the same addresses are the same, and so are ranges with the same text. -/

namespace AddressShuffle

namespace Bounds

def contains (b : Bounds) (a : Address) : Bool :=
  decide (a.family = b.first.family ∧ b.first ≤ a ∧ a ≤ b.last)

instance : ToString Bounds where
  toString b := s!"{b.first}-{b.last}"

end Bounds

namespace AddressRange

lemma bounds_injective : Function.Injective bounds := by
  intro r s h
  obtain ⟨hfirst, hlast⟩ := Bounds.mk.inj h
  exact ext hfirst hlast

lemma obtained_bounds (r : AddressRange) : r.bounds.Obtained := by
  apply Bounds.Obtained.bounds
  rw [Bounds.ofBounds_eq]
  exact congrArg (Except.map bounds) r.ofBounds_self

lemma contains_bounds (r : AddressRange) : r.bounds.contains = r.contains := by
  funext a
  rw [Bool.eq_iff_iff, contains_iff_le]
  exact decide_eq_true_iff

lemma toString_bounds (r : AddressRange) : toString r.bounds = toString r := by
  rw [← String.toList_inj]
  simp [toString, chars, bounds, String.toList_append]

lemma eq_of_contains_eq {r s : AddressRange} (h : r.contains = s.contains) : r = s := by
  have hset : {a | r.contains a = true} = {a | s.contains a = true} := by rw [h]
  have hfirst := r.isLeast_first
  have hlast := r.isGreatest_last
  rw [hset] at hfirst hlast
  exact ext (hfirst.unique s.isLeast_first) (hlast.unique s.isGreatest_last)

lemma eq_of_contains_iff {r s : AddressRange} {p : Address → Prop}
    (hr : ∀ a, r.contains a = true ↔ p a) (hs : ∀ a, s.contains a = true ↔ p a) : r = s :=
  eq_of_contains_eq (funext fun a => Bool.eq_iff_iff.mpr ((hr a).trans (hs a).symm))

lemma toString_injective : Function.Injective (toString : AddressRange → String) := by
  intro r s h
  exact Except.ok.inj (by rw [← ofString_toString r, h, ofString_toString s])

theorem identified_by_members_and_text (r s : AddressRange) :
    (r = s ↔ ∀ a, r.contains a = s.contains a) ∧ (r = s ↔ toString r = toString s) ∧
    ∀ b c : Bounds, b.Obtained → c.Obtained →
      (b = c ↔ ∀ a, b.contains a = c.contains a) ∧ (b = c ↔ toString b = toString c) := by
  have hmembers : ∀ r s : AddressRange, r = s ↔ ∀ a, r.contains a = s.contains a :=
    fun r s => ⟨fun h _ => h ▸ rfl, fun h => eq_of_contains_eq (funext h)⟩
  have htext : ∀ r s : AddressRange, r = s ↔ toString r = toString s :=
    fun r s => toString_injective.eq_iff.symm
  refine ⟨hmembers r s, htext r s, ?_⟩
  intro b c hb hc
  obtain ⟨r, rfl⟩ := hb.exists_bounds_eq
  obtain ⟨s, rfl⟩ := hc.exists_bounds_eq
  rw [bounds_injective.eq_iff, contains_bounds, contains_bounds, toString_bounds, toString_bounds]
  exact ⟨hmembers r s, htext r s⟩

theorem identified_by_members_and_text_of_hosts :
    let first : Address := ⟨.v4, 0x0a000001, by decide⟩
    let r : AddressRange := ⟨first, ⟨.v4, 0x0a000006, by decide⟩, rfl, by decide⟩
    let n : Network := ⟨⟨.v4, 0x0a000003, by decide⟩, 29, by decide⟩
    let hosts := (usableHosts n).bounds
    r.bounds.Obtained ∧ hosts.Obtained ∧ (∀ a, r.bounds.contains a = hosts.contains a) ∧
      toString hosts = toString r.bounds := by
  intro first r n hosts
  have hr : r.bounds.Obtained := r.obtained_bounds
  have hhosts : hosts.Obtained := .hosts (Bounds.usableHosts?_eq n)
  have heq : r.bounds = hosts := by decide
  obtain ⟨hmembers, htext⟩ :=
    (identified_by_members_and_text r (usableHosts n)).2.2 r.bounds hosts hr hhosts
  exact ⟨hr, hhosts, hmembers.mp heq, (htext.mp heq).symm⟩

end AddressRange

end AddressShuffle
