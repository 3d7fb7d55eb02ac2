import AddressShuffle.Random.Picker

/-! Choices made from a stream of 64-bit words: given words first, then those of SplitMix64. -/

namespace AddressShuffle

structure WordStream where
  given : List UInt64
  state : UInt64
  taken : Nat

namespace WordStream

def ofSeed (given : List UInt64) (seed : UInt64) : WordStream :=
  ⟨given, seed, 0⟩

def increment : UInt64 := 0x9E3779B97F4A7C15

def mix (state : UInt64) : UInt64 :=
  let z := (state ^^^ (state >>> 30)) * 0xBF58476D1CE4E5B9
  let z := (z ^^^ (z >>> 27)) * 0x94D049BB133111EB
  z ^^^ (z >>> 31)

def next (s : WordStream) : UInt64 × WordStream :=
  match s.given with
  | w :: r => (w, ⟨r, s.state, s.taken + 1⟩)
  | [] => (mix (s.state + increment), ⟨[], s.state + increment, s.taken + 1⟩)

def wideSize : Nat := UInt64.size * UInt64.size

def wide (low high : UInt64) : Nat :=
  high.toNat * UInt64.size + low.toNat

theorem wide_lt (low high : UInt64) : wide low high < wideSize := by
  have := low.toNat_lt_size
  have := high.toNat_lt_size
  simp only [wide, wideSize, UInt64.size] at *
  omega

def scale (bound : Nat) (low high : UInt64) : Fin (bound + 1) :=
  ⟨wide low high * (bound + 1) / wideSize, by
    refine Nat.div_lt_of_lt_mul ?_
    exact Nat.mul_lt_mul_of_pos_right (wide_lt low high) (Nat.succ_pos bound)⟩

/-- Scaling keeps a number when what it cuts off is below the largest product of `bound + 1` and a
power of two that 128 bits hold, so that every choice is as likely as any other. -/
def isFair (bound : Nat) (low high : UInt64) : Bool :=
  decide (wide low high * (bound + 1) % wideSize < (bound + 1) <<< (127 - (bound + 1).log2))

def draw (bound : Nat) : Nat → WordStream → Fin (bound + 1) × WordStream
  | 0, s =>
    let (low, s) := s.next
    let (high, s) := s.next
    (scale bound low high, s)
  | draws + 1, s =>
    let (low, s) := s.next
    let (high, s) := s.next
    if isFair bound low high then (scale bound low high, s) else draw bound draws s

/-- With as many choices as numbers, a number is taken as it is. Otherwise the words given and one
round of the generator's states are enough: a draw that is not fair by then never is. -/
def pick (s : WordStream) (bound : Nat) : Fin (bound + 1) × WordStream :=
  if h : wideSize ≤ bound + 1 then
    let (low, s) := s.next
    let (high, s) := s.next
    (⟨wide low high, Nat.lt_of_lt_of_le (wide_lt low high) h⟩, s)
  else draw bound (s.given.length + UInt64.size) s

instance : Picker WordStream where
  pick := pick

end WordStream

end AddressShuffle
