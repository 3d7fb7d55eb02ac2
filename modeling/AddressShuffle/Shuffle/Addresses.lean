import AddressShuffle.Shuffle.Basic

namespace AddressShuffle.Shuffle

universe u

variable {γ : Type u} [Picker γ]

def next? (s : Shuffle γ) : Option Address × Shuffle γ :=
  if s.exhausted then (none, s)
  else
    let ((a, _), s) := s.next
    (some a, s)

def nth? : Nat → Shuffle γ → Option Address × Shuffle γ
  | 0, s => s.next?
  | n + 1, s =>
    match s.next? with
    | (none, s) => (none, s)
    | (some _, s) => nth? n s

def takeAfter (taken : Array Address) : Nat → Shuffle γ → Array Address × Shuffle γ
  | 0, s => (taken, s)
  | limit + 1, s =>
    match s.next? with
    | (none, s) => (taken, s)
    | (some a, s) => takeAfter (taken.push a) limit s

def take (limit : Nat) (s : Shuffle γ) : List Address × Shuffle γ :=
  let (taken, s) := takeAfter #[] limit s
  (taken.toList, s)

def sizeBounds (s : Shuffle γ) : Nat × Option Nat :=
  if s.left < UInt64.size then (s.left, some s.left) else (UInt64.size - 1, none)

omit [Picker γ] in
theorem left_eq_zero_iff {s : Shuffle γ} : s.left = 0 ↔ s.exhausted = true := by
  unfold left
  split <;> simp_all

theorem next?_of_exhausted {s : Shuffle γ} (h : s.exhausted = true) : s.next? = (none, s) := by
  simp [next?, h]

theorem next?_of_not_exhausted {s : Shuffle γ} (h : s.exhausted = false) :
    s.next? = (some s.next.1.1, s.next.2) := by
  simp [next?, h]

theorem left_of_next?_eq_some {s t : Shuffle γ} {a : Address} (h : s.next? = (some a, t)) :
    t.left < s.left := by
  cases he : s.exhausted with
  | true => simp [next?_of_exhausted he] at h
  | false =>
    rw [next?_of_not_exhausted he, Prod.mk.injEq] at h
    have hpos : s.left ≠ 0 := by
      rw [Ne, left_eq_zero_iff, he]
      exact Bool.false_ne_true
    have := left_next s
    rw [h.2] at this
    omega

theorem takeAfter_eq (taken : Array Address) (limit : Nat) (s : Shuffle γ) :
    takeAfter taken limit s = (taken ++ (take limit s).1, (take limit s).2) := by
  induction limit generalizing taken s with
  | zero => simp [takeAfter, take]
  | succ limit ih =>
    unfold take takeAfter
    rcases s.next? with ⟨_ | a, t⟩
    · simp
    · simp [ih]

@[simp] theorem take_zero (s : Shuffle γ) : take 0 s = ([], s) := rfl

theorem take_succ (limit : Nat) (s : Shuffle γ) :
    take (limit + 1) s =
      match s.next? with
      | (none, s) => ([], s)
      | (some a, s) => (a :: (take limit s).1, (take limit s).2) := by
  change ((takeAfter #[] (limit + 1) s).1.toList, (takeAfter #[] (limit + 1) s).2) = _
  rw [takeAfter]
  rcases s.next? with ⟨_ | a, t⟩
  · rfl
  · simp [takeAfter_eq]

end AddressShuffle.Shuffle
