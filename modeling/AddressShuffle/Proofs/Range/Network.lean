import AddressShuffle.Proofs.Network.Prefix
import AddressShuffle.Proofs.Network.Text
import AddressShuffle.Proofs.Range.Text

namespace AddressShuffle.AddressRange

open Text

lemma ofChars_of_hyphen_not_mem {s : List Char} (h : '-' ∉ s) :
    ofChars s = (networkOfChars (trim s)).map ofNetwork := by
  have hdrop : s.dropWhile (· ≠ '-') = [] := List.dropWhile_eq_nil_iff.mpr (forall_ne_hyphen h)
  rw [ofChars, hdrop]

lemma networkOfChars_eq_ok {s : List Char} {n : Network} (h : Network.ofChars? s = some n) :
    networkOfChars s = .ok n := by
  rw [networkOfChars, h]

lemma ofString_of_network {w w' s : String} {n : Network}
    (hw : ∀ c ∈ w.toList, isBlank c = true) (hw' : ∀ c ∈ w'.toList, isBlank c = true)
    (hs : ∀ c ∈ s.toList, isBlank c = false) (hhyphen : '-' ∉ s.toList)
    (h : Network.ofChars? s.toList = some n) : ofString (w ++ s ++ w') = .ok (ofNetwork n) := by
  have hnone : '-' ∉ (w ++ s ++ w').toList := by
    simp [String.toList_append, hyphen_not_mem hw, hhyphen, hyphen_not_mem hw']
  rw [ofString, ofChars_of_hyphen_not_mem hnone, String.toList_append, String.toList_append,
    trim_append_append hw hs hw', networkOfChars_eq_ok h]
  rfl

lemma range_of_network {s : String} {n : Network} (h : Network.ofChars? s.toList = some n) :
    Entry.range { network := some s } = .ok (ofNetwork n) := by
  have hrange : Entry.range { network := some s } =
      ((networkOfChars s.toList).map ofNetwork).mapError .invalid := rfl
  rw [hrange, networkOfChars_eq_ok h]
  rfl

lemma isBlank_of_mem_network {n : Network} {c : Char} (hc : c ∈ n.chars) :
    isBlank c = false := by
  rw [← Bool.not_eq_true]
  intro hblank
  have hdot : c ≠ '.' := ne_of_accept hblank (by decide)
  have hcolon : c ≠ ':' := ne_of_accept hblank (by decide)
  have hslash : c ≠ '/' := ne_of_accept hblank (by decide)
  exact Network.not_mem_chars (digitValue_of_isBlank hblank) hdot hcolon hslash n hc

lemma ofNetwork_ofAddress (a : Address) :
    ofNetwork (.ofAddress a) = ⟨a, a, rfl, Nat.le_refl _⟩ := by
  have hsize : (Network.ofAddress a).size = 1 := by
    rw [Network.size_eq_two_pow]
    simp [Network.ofAddress]
  have hlowest : (Network.ofAddress a).lowest.bits = a.bits := by
    change a.bits / (Network.ofAddress a).size * (Network.ofAddress a).size = a.bits
    rw [hsize, Nat.div_one, Nat.mul_one]
  have hhighest : (Network.ofAddress a).highest.bits = a.bits := by
    rw [Network.bits_highest, hlowest, hsize]
    rfl
  exact ext (Address.ext rfl hlowest) (Address.ext rfl hhighest)

theorem network_holds_prefix_class (n : Network) :
    let text := toString n.address ++ "/" ++ toString n.length
    let only : AddressRange := ⟨n.address, n.address, rfl, Nat.le_refl _⟩
    (∀ a, (ofNetwork n).contains a = true ↔ a.family = n.address.family ∧
      ∀ i < n.length, a.word.getMsbD i = n.address.word.getMsbD i) ∧
    (ofNetwork n).count? =
      (if n.length = 0 ∧ n.address.family = .v6 then none
      else some (2 ^ (n.address.family.width - n.length))) ∧
    (∀ w w' : String, (∀ c ∈ w.toList ++ w'.toList, isBlank c = true) →
      ofString (w ++ text ++ w') = .ok (ofNetwork n) ∧
      ofString (w ++ toString n.address ++ w') = .ok only) ∧
    Entry.range { network := some text } = .ok (ofNetwork n) ∧
    Entry.range { network := some (toString n.address) } = .ok only := by
  intro text only
  have htext : text.toList = n.chars := n.toList_text
  have hread : Network.ofChars? text.toList = some n := by
    rw [htext, Network.ofChars?_chars]
  have haddress : Network.ofChars? (toString n.address).toList = some (.ofAddress n.address) := by
    rw [Address.toList_toString, Network.ofChars?_address]
  have honly : ofNetwork (.ofAddress n.address) = only := ofNetwork_ofAddress n.address
  refine ⟨fun a => contains_ofNetwork_iff, count?_ofNetwork n, ?_, range_of_network hread, ?_⟩
  · intro w w' hblank
    obtain ⟨hw, hw'⟩ := List.forall_mem_append.mp hblank
    constructor
    · apply ofString_of_network hw hw' ?_ ?_ hread
      · rw [htext]
        exact fun c hc => isBlank_of_mem_network hc
      · rw [htext]
        exact Network.not_mem_chars (by decide) (by decide) (by decide) (by decide) n
    · rw [← honly]
      apply ofString_of_network hw hw' ?_ ?_ haddress
      · rw [Address.toList_toString]
        exact fun c hc => isBlank_of_mem_chars hc
      · rw [Address.toList_toString]
        exact Address.not_mem_chars (by decide) (by decide) (by decide) n.address
  · rw [← honly]
    exact range_of_network haddress

theorem network_holds_prefix_class_of_host_bit :
    let n : Network := ⟨⟨.v6, 0x20010db8000000000000000000000001, by decide⟩, 127, by decide⟩
    ofString ("\t" ++ (toString n.address ++ "/" ++ toString n.length) ++ "\u00a0") =
        .ok (ofNetwork n) ∧
      (ofNetwork n).contains n.address = true ∧ (ofNetwork n).contains n.lowest = true ∧
      (ofNetwork n).count? = some 2 := by
  intro n
  obtain ⟨hcontains, hcount, htext, -⟩ := network_holds_prefix_class n
  have hblank : ("\t".toList ++ "\u00a0".toList).all isBlank = true := by decide
  have hproper : ¬(n.length = 0 ∧ n.address.family = .v6) := by decide
  have hfree : n.address.family.width - n.length = 1 := by decide
  rw [if_neg hproper, hfree] at hcount
  refine ⟨(htext "\t" "\u00a0" (List.all_eq_true.mp hblank)).1, ?_, ?_, hcount⟩
  · exact (hcontains n.address).mpr ⟨rfl, fun _ _ => rfl⟩
  · exact (hcontains n.lowest).mpr ⟨rfl, by decide⟩

end AddressShuffle.AddressRange
