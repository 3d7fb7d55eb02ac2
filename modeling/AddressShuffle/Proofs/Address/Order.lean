import AddressShuffle.Proofs.Address.Text
import Mathlib.Data.List.Lex
import Mathlib.Data.Prod.Lex
import Mathlib.Order.Fin.Basic

namespace AddressShuffle

namespace Groups

variable {b : Nat}

lemma value_cons (g : Fin b) (gs : List (Fin b)) :
    value (g :: gs) = g.val * b ^ gs.length + value gs := by
  have hvalue : value [g] = g.val := by simp [value]
  have happend := value_append [g] gs
  rwa [hvalue] at happend

lemma mul_add_lt_mul_add_iff {m n x y c : Nat} (hx : x < c) (hy : y < c) :
    m * c + x < n * c + y ↔ m < n ∨ m = n ∧ x < y := by
  rcases Nat.lt_trichotomy m n with hlt | rfl | hgt
  · have hle : (m + 1) * c ≤ n * c := Nat.mul_le_mul_right c hlt
    rw [Nat.succ_mul] at hle
    omega
  · omega
  · have hle : (n + 1) * c ≤ m * c := Nat.mul_le_mul_right c hgt
    rw [Nat.succ_mul] at hle
    omega

lemma value_lt_value_iff {gs hs : List (Fin b)} (h : gs.length = hs.length) :
    value gs < value hs ↔ gs < hs := by
  induction gs generalizing hs with
  | nil =>
    obtain rfl := List.length_eq_zero_iff.mp h.symm
    simp
  | cons g gs ih =>
    obtain ⟨k, hs, rfl⟩ := List.exists_cons_of_length_eq_add_one h.symm
    have hlength : gs.length = hs.length := Nat.succ.inj h
    have hgs : value gs < b ^ hs.length := hlength ▸ value_lt gs
    rw [value_cons, value_cons, List.cons_lt_cons_iff, ← ih hlength, hlength,
      mul_add_lt_mul_add_iff hgs (value_lt hs), ← Fin.lt_def, Fin.val_inj]

end Groups

namespace Family

lemma width_inj {f g : Family} : f.width = g.width ↔ f = g := by
  cases f <;> cases g <;> decide

lemma size_eq_octets (f : Family) : f.size = 256 ^ (f.width / 8) := by
  cases f <;> rfl

end Family

namespace Address

def toOctets (a : Address) : List (Fin 256) := octets (a.family.width / 8) a.bits

lemma length_toOctets (a : Address) : a.toOctets.length = a.family.width / 8 :=
  length_octets _ _

lemma value_toOctets (a : Address) : Groups.value a.toOctets = a.bits := by
  have hlt := a.bits_lt
  rw [Family.size_eq_octets] at hlt
  rw [toOctets, value_octets, Nat.mod_eq_of_lt hlt]

def rank (a : Address) : Nat ×ₗ List (Fin 256) := toLex (a.family.width, a.toOctets)

lemma rank_injective : Function.Injective rank := by
  intro a b h
  obtain ⟨hwidth, hoctets⟩ := Prod.mk.inj (toLex.injective h)
  refine ext (Family.width_inj.mp hwidth) ?_
  rw [← value_toOctets a, hoctets, value_toOctets]

instance : LinearOrder Address := LinearOrder.lift' rank rank_injective

lemma lt_iff {a b : Address} :
    a < b ↔ a.family.width < b.family.width ∨ a.family = b.family ∧ a.bits < b.bits := by
  have hrank : a < b ↔ rank a < rank b := Iff.rfl
  rw [hrank, rank, rank, Prod.Lex.toLex_lt_toLex]
  dsimp only
  rw [Family.width_inj]
  refine or_congr_right (and_congr_right fun hf => ?_)
  have hlength : a.toOctets.length = b.toOctets.length := by
    rw [length_toOctets, length_toOctets, hf]
  rw [← Groups.value_lt_value_iff hlength, value_toOctets, value_toOctets]

lemma lt_iff_bits_lt {a b : Address} (h : a.family = b.family) : a < b ↔ a.bits < b.bits := by
  simp [lt_iff, h]

lemma le_iff_bits_le {a b : Address} (h : a.family = b.family) : a ≤ b ↔ a.bits ≤ b.bits := by
  rw [← not_lt, lt_iff_bits_lt h.symm, Nat.not_lt]

end Address

end AddressShuffle
