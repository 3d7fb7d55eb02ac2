import AddressShuffle.Shuffle.Addresses

/-! A source answers a value or none, and may go on after it answered none. -/

namespace AddressShuffle

universe u v

class Source (ι : Type u) (β : outParam (Type v)) where
  next : ι → Option β × ι

class FiniteSource (ι : Type u) (β : outParam (Type v)) extends Source ι β where
  size : ι → Nat
  size_lt : ∀ {s t : ι} {b : β}, next s = (some b, t) → size t < size s

namespace Source

variable {ι : Type u} {β : Type v}

/-- The first value that is not to be skipped, if it or a lack of values shows within `draws`
values. -/
def find? [Source ι β] (skip : β → Bool) : Nat → ι → Option (Option β × ι)
  | 0, _ => none
  | draws + 1, s =>
    match next s with
    | (none, s) => some (none, s)
    | (some b, s) => if skip b then find? skip draws s else some (some b, s)

theorem isSome_find? [FiniteSource ι β] (skip : β → Bool) {draws : Nat} {s : ι}
    (h : FiniteSource.size s < draws) : (find? skip draws s).isSome := by
  induction draws generalizing s with
  | zero => omega
  | succ draws ih =>
    rw [find?]
    rcases hn : next s with ⟨_ | b, t⟩
    · rfl
    · have := FiniteSource.size_lt hn
      cases hs : skip b with
      | true => simpa [hs] using ih (by omega)
      | false => simp [hs]

end Source

instance {β : Type v} : FiniteSource (List (Option β)) β where
  next
    | [] => (none, [])
    | b :: r => (b, r)
  size := List.length
  size_lt {s t b} h := by
    cases s with
    | nil => simp at h
    | cons c r =>
      rw [Prod.mk.injEq] at h
      simp [h.2]

instance {γ : Type u} [Picker γ] : FiniteSource (Shuffle γ) Address where
  next := Shuffle.next?
  size := Shuffle.left
  size_lt := Shuffle.left_of_next?_eq_some

end AddressShuffle
