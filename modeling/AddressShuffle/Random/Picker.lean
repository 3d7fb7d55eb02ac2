namespace AddressShuffle

universe u

class Picker (γ : Type u) where
  pick : γ → (bound : Nat) → Fin (bound + 1) × γ

end AddressShuffle
