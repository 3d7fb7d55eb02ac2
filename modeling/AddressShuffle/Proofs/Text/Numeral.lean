import AddressShuffle.Text.Numeral
import Mathlib.Data.List.Basic

namespace AddressShuffle.Text.Numeral

variable {base : Nat}

lemma digitValue_digitChar {d : Nat} (hd : d < 16) : digitValue d.digitChar = d := by
  have h : ∀ d, d < 16 → digitValue d.digitChar = d := by decide
  exact h d hd

lemma digitValue_eq_sixteen {c : Char} (h : c.toNat < 48 ∨ 102 < c.toNat) :
    digitValue c = 16 := by
  have hnot (low high : Char) (hlow : 48 ≤ low.toNat) (hhigh : high.toNat ≤ 102) :
      ¬(low ≤ c ∧ c ≤ high) := by
    rintro ⟨hl, hh⟩
    have hl' : low.toNat ≤ c.toNat := hl
    have hh' : c.toNat ≤ high.toNat := hh
    omega
  rw [digitValue, if_neg (hnot _ _ (by decide) (by decide)),
    if_neg (hnot _ _ (by decide) (by decide)), if_neg (hnot _ _ (by decide) (by decide))]

lemma digit?_digitChar {d : Nat} (hbase : base ≤ 16) (hd : d < base) :
    digit? base d.digitChar = some d := by
  have hvalue : digitValue d.digitChar = d := digitValue_digitChar (by omega)
  rw [digit?, hvalue, if_pos (by omega)]

lemma isSome_digit?_of_isDigit {c : Char} (h : c.isDigit = true) :
    (digit? 10 c).isSome = true := by
  have hc : '0' ≤ c ∧ c ≤ '9' := by simpa [Char.isDigit, Char.le_def] using h
  have hle : c.toNat ≤ 57 := hc.2
  rw [digit?, digitValue, if_pos hc, if_pos (by omega)]
  rfl

lemma valueFrom?_toDigits (hlt : 1 < base) (hle : base ≤ 16) (n : Nat) :
    valueFrom? base 0 (Nat.toDigits base n) = some n := by
  induction n using Nat.strongRecOn with
  | ind n ih =>
    rw [Nat.toDigits_eq_if hlt]
    split
    next h => simp [valueFrom?, digit?_digitChar hle h]
    next h =>
      have hdiv : n / base < n := Nat.div_lt_self (by omega) hlt
      have hmod : n % base < base := Nat.mod_lt n (by omega)
      rw [valueFrom?_append, ih _ hdiv]
      simp [valueFrom?, digit?_digitChar hle hmod, Nat.div_add_mod]

lemma value?_toDigits (hlt : 1 < base) (hle : base ≤ 16) (n : Nat) :
    value? base (Nat.toDigits base n) = some n := by
  rw [value?, if_neg (by simp [Nat.toDigits_ne_nil]), valueFrom?_toDigits hlt hle]

lemma not_mem_of_valueFrom?_eq_some {n m : Nat} {s : List Char} {c : Char}
    (hc : digitValue c = 16) (h : valueFrom? base n s = some m) : c ∉ s := by
  induction s generalizing n with
  | nil => exact List.not_mem_nil
  | cons x r ih =>
    obtain ⟨d, hd, hr⟩ := Option.bind_eq_some_iff.mp h
    obtain ⟨hlt, -⟩ := Option.ite_none_right_eq_some.mp hd
    rintro (_ | ⟨_, hmem⟩)
    · omega
    · exact ih hr hmem

lemma not_mem_of_value?_eq_some {n : Nat} {s : List Char} {c : Char} (hc : digitValue c = 16)
    (h : value? base s = some n) : c ∉ s :=
  not_mem_of_valueFrom?_eq_some hc (Option.ite_none_left_eq_some.mp h).2

lemma not_mem_toDigits (hlt : 1 < base) (hle : base ≤ 16) {n : Nat} {c : Char}
    (hc : digitValue c = 16) : c ∉ Nat.toDigits base n :=
  not_mem_of_valueFrom?_eq_some hc (valueFrom?_toDigits hlt hle n)

lemma head?_toDigits_ne_zero (hlt : 1 < base) (hle : base ≤ 16) {n : Nat} (hn : 0 < n) :
    (Nat.toDigits base n).head? ≠ some '0' := by
  induction n using Nat.strongRecOn with
  | ind n ih =>
    rw [Nat.toDigits_eq_if hlt]
    split
    next h =>
      intro hzero
      have hvalue := digitValue_digitChar (d := n) (by omega)
      rw [Option.some.inj hzero] at hvalue
      exact absurd hvalue.symm (Nat.ne_of_gt hn)
    next h =>
      rw [List.head?_append_of_ne_nil _ Nat.toDigits_ne_nil]
      exact ih _ (Nat.div_lt_self hn hlt) (Nat.div_pos (by omega) (by omega))

end AddressShuffle.Text.Numeral
