import AddressShuffle.Network.Text
import AddressShuffle.Proofs.Address.Text

namespace AddressShuffle.Network

open Text

lemma slash_not_mem_chars (a : Address) : '/' ∉ a.chars :=
  Address.not_mem_chars (by decide) (by decide) (by decide) a

lemma lengthOfChars?_toDigits {k : Nat} (h : k < 256) :
    lengthOfChars? (Nat.toDigits 10 k) = some k := by
  have hplus : '+' ∉ Nat.toDigits 10 k :=
    Numeral.not_mem_toDigits (by decide) (by decide) (by decide)
  have hvalue : Numeral.value? 10 (Nat.toDigits 10 k) = some k :=
    Numeral.value?_toDigits (by decide) (by decide) k
  unfold lengthOfChars?
  generalize Nat.toDigits 10 k = digits at hplus hvalue
  split
  · exact absurd List.mem_cons_self hplus
  · dsimp only
    rw [hvalue, Option.filter_some, if_pos (decide_eq_true h)]

lemma v4LengthOfChars?_toDigits {k : Nat} (h : k < 256) :
    v4LengthOfChars? (Nat.toDigits 10 k) = some k := by
  -- without a point it is no mask
  have hdot : '.' ∉ Nat.toDigits 10 k :=
    Numeral.not_mem_toDigits (by decide) (by decide) (by decide)
  rw [v4LengthOfChars?, Address.v4OfChars?, Address.octets?_eq_none_of_dot_not_mem hdot,
    Option.map_none]
  exact lengthOfChars?_toDigits h

lemma length_lt (n : Network) : n.length < 256 := by
  have hle := n.length_le
  cases hf : n.address.family <;> rw [hf, Family.width] at hle <;> omega

lemma ofLength?_length (n : Network) : ofLength? n.address n.length = some n :=
  dif_pos n.length_le

lemma ofChars?_chars (n : Network) : ofChars? n.chars = some n := by
  have hfields : n.chars.splitOn '/' = [n.address.chars, Nat.toDigits 10 n.length] := by
    have hslash : '/' ∉ Nat.toDigits 10 n.length :=
      Numeral.not_mem_toDigits (by decide) (by decide) (by decide)
    rw [chars, List.splitOn_append_cons_self_of_not_mem (slash_not_mem_chars n.address),
      List.splitOn_eq_singleton hslash]
  rw [ofChars?, hfields]
  cases hf : n.address.family with
  | v4 =>
    simp [ofFields?, Address.v4OfChars?_chars hf, v4LengthOfChars?_toDigits n.length_lt,
      ofLength?_length]
  | v6 =>
    simp [ofFields?, Address.v4OfChars?_chars_of_v6 hf, Address.v6OfChars?_chars hf,
      lengthOfChars?_toDigits n.length_lt, ofLength?_length]

def ofAddress (a : Address) : Network := ⟨a, a.family.width, Nat.le_refl _⟩

lemma ofChars?_address (a : Address) : ofChars? a.chars = some (ofAddress a) := by
  rw [ofChars?, List.splitOn_eq_singleton (slash_not_mem_chars a)]
  cases hf : a.family with
  | v4 => simp [ofFields?, Address.v4OfChars?_chars hf, ofLength?, ofAddress]
  | v6 =>
    simp [ofFields?, Address.v4OfChars?_chars_of_v6 hf, Address.v6OfChars?_chars hf, ofLength?,
      ofAddress]

lemma not_mem_chars {c : Char} (hc : Numeral.digitValue c = 16) (hdot : c ≠ '.')
    (hcolon : c ≠ ':') (hslash : c ≠ '/') (n : Network) : c ∉ n.chars := by
  have haddress := Address.not_mem_chars hc hdot hcolon n.address
  have hlength : c ∉ Nat.toDigits 10 n.length :=
    Numeral.not_mem_toDigits (by decide) (by decide) hc
  simp [chars, haddress, hslash, hlength]

lemma toList_text (n : Network) :
    (toString n.address ++ "/" ++ toString n.length).toList = n.chars := by
  simp [String.toList_append, chars]

end AddressShuffle.Network
