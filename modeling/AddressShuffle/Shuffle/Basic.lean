import AddressShuffle.Random.Picker
import AddressShuffle.Range.Basic
import Std.Data.HashMap

/-! A range in random order. Slot `n` holds the address `n` places after the first one, unless
another is stored for it. -/

namespace AddressShuffle

universe u

structure Shuffle (γ : Type u) where
  range : AddressRange
  cursor : Nat
  displaced : Std.HashMap Nat Address
  exhausted : Bool
  picker : γ

namespace Shuffle

variable {γ : Type u}

def ofRange (range : AddressRange) (picker : γ) : Shuffle γ where
  range
  cursor := range.lastOffset
  displaced := ∅
  exhausted := false
  picker

def held (range : AddressRange) (displaced : Std.HashMap Nat Address) (n : Nat) : Address :=
  displaced[n]?.getD (range.address n)

def slot (s : Shuffle γ) (n : Nat) : Address := held s.range s.displaced n

/-- The slots once `picked` was handed out: `top`, the address at the cursor, moves there, and the
cursor's slot is out of play. -/
def refill (displaced : Std.HashMap Nat Address) (cursor picked : Nat) (top : Address) :
    Std.HashMap Nat Address :=
  if picked = cursor then displaced.erase cursor
  else (displaced.erase cursor).insert picked top

/-- The next address and whether the range is exhausted with it. The last slot in play is not
picked at random, and after it there is only the unspecified address. -/
def next [Picker γ] : Shuffle γ → (Address × Bool) × Shuffle γ
  | ⟨range, cursor, displaced, exhausted, picker⟩ =>
    if exhausted then
      ((.unspecified range.family, true), ⟨range, cursor, displaced, exhausted, picker⟩)
    else if cursor = 0 then ((held range displaced 0, true), ⟨range, 0, ∅, true, picker⟩)
    else
      let (picked, picker) := Picker.pick picker cursor
      let a := held range displaced picked
      let top := held range displaced cursor
      ((a, false), ⟨range, cursor - 1, refill displaced cursor picked top, false, picker⟩)

def left (s : Shuffle γ) : Nat :=
  if s.exhausted then 0 else s.cursor + 1

def remaining? (s : Shuffle γ) : Option Nat := AddressRange.counted? s.left

@[simp] theorem slot_ofRange (range : AddressRange) (picker : γ) (n : Nat) :
    (ofRange range picker).slot n = range.address n := by
  simp [ofRange, slot, held]

@[simp] theorem left_ofRange (range : AddressRange) (picker : γ) :
    (ofRange range picker).left = range.size := rfl

theorem next_of_exhausted [Picker γ] {s : Shuffle γ} (h : s.exhausted = true) :
    s.next = ((.unspecified s.range.family, true), s) := by
  rw [next, if_pos h]

theorem next_of_cursor_eq_zero [Picker γ] {s : Shuffle γ} (h : s.exhausted = false)
    (hc : s.cursor = 0) :
    s.next = ((s.slot 0, true), { s with displaced := ∅, exhausted := true }) := by
  simp [next, h, hc, slot]

theorem next_of_cursor_ne_zero [Picker γ] {s : Shuffle γ} (h : s.exhausted = false)
    (hc : s.cursor ≠ 0) :
    s.next =
      ((s.slot (Picker.pick s.picker s.cursor).1, false),
        { s with
          cursor := s.cursor - 1
          displaced :=
            refill s.displaced s.cursor (Picker.pick s.picker s.cursor).1 (s.slot s.cursor)
          picker := (Picker.pick s.picker s.cursor).2 }) := by
  simp [next, h, hc, slot]

theorem range_next [Picker γ] (s : Shuffle γ) : s.next.2.range = s.range := by
  cases h : s.exhausted with
  | true => rw [next_of_exhausted h]
  | false =>
    by_cases hc : s.cursor = 0
    · rw [next_of_cursor_eq_zero h hc]
    · rw [next_of_cursor_ne_zero h hc]

theorem left_next [Picker γ] (s : Shuffle γ) : s.next.2.left = s.left - 1 := by
  cases h : s.exhausted with
  | true => simp [next_of_exhausted h, left, h]
  | false =>
    by_cases hc : s.cursor = 0
    · simp [next_of_cursor_eq_zero h hc, left, h, hc]
    · simp only [next_of_cursor_ne_zero h hc, left, h, Bool.false_eq_true, if_false]
      omega

end Shuffle

end AddressShuffle
