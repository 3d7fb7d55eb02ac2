namespace AddressShuffle.Text.Numeral

def digitValue (c : Char) : Nat :=
  if '0' ≤ c ∧ c ≤ '9' then c.toNat - 48
  else if 'a' ≤ c ∧ c ≤ 'f' then c.toNat - 87
  else if 'A' ≤ c ∧ c ≤ 'F' then c.toNat - 55
  else 16

def digit? (base : Nat) (c : Char) : Option Nat :=
  if digitValue c < min base 16 then some (digitValue c) else none

def valueFrom? (base : Nat) : Nat → List Char → Option Nat
  | n, [] => some n
  | n, c :: r => (digit? base c).bind fun d => valueFrom? base (base * n + d) r

def value? (base : Nat) (s : List Char) : Option Nat :=
  if s.isEmpty then none else valueFrom? base 0 s

theorem valueFrom?_append (base n : Nat) (s t : List Char) :
    valueFrom? base n (s ++ t) = (valueFrom? base n s).bind fun m => valueFrom? base m t := by
  induction s generalizing n with
  | nil => rfl
  | cons c r ih =>
    simp only [List.cons_append, valueFrom?]
    cases digit? base c with
    | none => rfl
    | some d => exact ih _

end AddressShuffle.Text.Numeral
