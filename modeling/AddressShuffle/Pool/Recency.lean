namespace AddressShuffle

universe u v

structure RecencyTable (α : Type u) (β : Type v) where
  capacity : Nat
  entries : List (α × β)
  capacity_pos : 0 < capacity
  nodup_keys : (entries.map Prod.fst).Nodup
  length_le : entries.length ≤ capacity

namespace RecencyTable

variable {α : Type u} {β : Type v} [DecidableEq α]

omit [DecidableEq α] in
def empty (capacity : Nat) (h : 0 < capacity) : RecencyTable α β :=
  ⟨capacity, [], h, List.nodup_nil, Nat.zero_le _⟩

def size (t : RecencyTable α β) : Nat := t.entries.length

def isEmpty (t : RecencyTable α β) : Bool := t.entries.isEmpty

def keys (t : RecencyTable α β) : List α := t.entries.map Prod.fst

def get? (t : RecencyTable α β) (a : α) : Option β := t.entries.lookup a

def contains (t : RecencyTable α β) (a : α) : Bool := (t.get? a).isSome

def without (a : α) (entries : List (α × β)) : List (α × β) :=
  entries.filter fun e => e.1 ≠ a

theorem keys_without (a : α) (entries : List (α × β)) :
    (without a entries).map Prod.fst = (entries.map Prod.fst).filter (· ≠ a) := by
  simp [without, List.filter_map, Function.comp_def]

theorem length_without_lt {a : α} {b : β} {entries : List (α × β)}
    (h : entries.lookup a = some b) : (without a entries).length < entries.length := by
  induction entries with
  | nil => simp at h
  | cons e r ih =>
    by_cases he : e.1 = a
    · have := List.length_filter_le (fun e : α × β => decide (e.1 ≠ a)) r
      simp only [without, he, ne_eq, not_true_eq_false, decide_false, Bool.false_eq_true,
        not_false_eq_true, List.filter_cons_of_neg, List.length_cons] at this ⊢
      omega
    · have hr : r.lookup a = some b := by
        rw [List.lookup_cons] at h
        simpa [beq_eq_false_iff_ne.mpr (Ne.symm he)] using h
      have := ih hr
      simp only [without, ne_eq, he, not_false_eq_true, decide_true, List.filter_cons_of_pos,
        List.length_cons] at this ⊢
      omega

def refresh (t : RecencyTable α β) (a : α) (b : β) (h : (t.get? a).isSome) :
    RecencyTable α β where
  capacity := t.capacity
  entries := (a, b) :: without a t.entries
  capacity_pos := t.capacity_pos
  nodup_keys := by
    rw [List.map_cons, keys_without, List.nodup_cons]
    exact ⟨by simp, t.nodup_keys.filter _⟩
  length_le := by
    obtain ⟨v, hv⟩ := Option.isSome_iff_exists.mp h
    have := length_without_lt hv
    have := t.length_le
    simp only [List.length_cons]
    omega

def touch (t : RecencyTable α β) (a : α) : RecencyTable α β :=
  match h : t.get? a with
  | some b => t.refresh a b (by simp [h])
  | none => t

theorem not_mem_keys {t : RecencyTable α β} {a : α} (h : t.get? a = none) : a ∉ t.keys := by
  intro hmem
  obtain ⟨e, he, rfl⟩ := List.mem_map.mp hmem
  exact absurd rfl (bne_iff_ne.mp (List.lookup_eq_none_iff.mp h e he))

def extend (t : RecencyTable α β) (a : α) (b : β) (h : t.get? a = none)
    (hlt : t.entries.length < t.capacity) : RecencyTable α β where
  capacity := t.capacity
  entries := (a, b) :: t.entries
  capacity_pos := t.capacity_pos
  nodup_keys := List.nodup_cons.mpr ⟨not_mem_keys h, t.nodup_keys⟩
  length_le := hlt

def dropLast (t : RecencyTable α β) : RecencyTable α β where
  capacity := t.capacity
  entries := t.entries.dropLast
  capacity_pos := t.capacity_pos
  nodup_keys := by
    rw [List.map_dropLast]
    exact t.nodup_keys.sublist (List.dropLast_sublist _)
  length_le := Nat.le_trans (by simp) t.length_le

theorem get?_dropLast_of_none {t : RecencyTable α β} {a : α} (h : t.get? a = none) :
    t.dropLast.get? a = none :=
  List.lookup_eq_none_iff.mpr fun e he =>
    List.lookup_eq_none_iff.mp h e (List.dropLast_subset _ he)

omit [DecidableEq α] in
theorem length_dropLast_lt (t : RecencyTable α β) :
    t.dropLast.entries.length < t.dropLast.capacity := by
  have := t.capacity_pos
  have := t.length_le
  simp only [dropLast, List.length_dropLast]
  omega

/-- Gives a key a value, makes it the most recent, and answers what had to leave: the key with its
former value, or the key used least recently when a new key finds no room. -/
def push (t : RecencyTable α β) (a : α) (b : β) : Option (α × β) × RecencyTable α β :=
  match h : t.get? a with
  | some old => (some (a, old), t.refresh a b (by simp [h]))
  | none =>
    if hlt : t.entries.length < t.capacity then (none, t.extend a b h hlt)
    else
      (t.entries.getLast?,
        t.dropLast.extend a b (get?_dropLast_of_none h) t.length_dropLast_lt)

def erase (t : RecencyTable α β) (a : α) : RecencyTable α β where
  capacity := t.capacity
  entries := without a t.entries
  capacity_pos := t.capacity_pos
  nodup_keys := by
    rw [keys_without]
    exact t.nodup_keys.filter _
  length_le := Nat.le_trans (List.length_filter_le _ _) t.length_le

end RecencyTable

end AddressShuffle
