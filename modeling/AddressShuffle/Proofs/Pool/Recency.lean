import AddressShuffle.Pool.Recency
import Mathlib.Data.List.Nodup

namespace AddressShuffle.RecencyTable

universe u v

variable {α : Type u} {β : Type v} [DecidableEq α]

lemma lookup_pair_cons (a : α) (b : β) (entries : List (α × β)) (x : α) :
    ((a, b) :: entries).lookup x = if x = a then some b else entries.lookup x := by
  rw [List.lookup_cons]
  by_cases hx : x = a
  · rw [beq_iff_eq.mpr hx, if_pos hx]
  · rw [beq_eq_false_iff_ne.mpr hx, if_neg hx]

lemma lookup_without (a x : α) (entries : List (α × β)) :
    (without a entries).lookup x = if x = a then none else entries.lookup x := by
  induction entries with
  | nil => exact (ite_self none).symm
  | cons e r ih =>
    obtain ⟨k, v⟩ := e
    rw [lookup_pair_cons]
    by_cases hk : k = a
    · have hskip : without a ((k, v) :: r) = without a r := by simp [without, hk]
      rw [hskip, ih]
      split_ifs with hx hxk
      · rfl
      · exact absurd (hxk.trans hk) hx
      · rfl
    · have hkeep : without a ((k, v) :: r) = (k, v) :: without a r := by simp [without, hk]
      rw [hkeep, lookup_pair_cons, ih]
      split_ifs with hxk hx
      · exact absurd (hxk.symm.trans hx) hk
      · rfl
      · rfl
      · rfl

lemma lookup_eq_some_iff_mem {entries : List (α × β)} (hnodup : (entries.map Prod.fst).Nodup)
    {a : α} {b : β} : entries.lookup a = some b ↔ (a, b) ∈ entries := by
  induction entries with
  | nil => simp
  | cons e r ih =>
    obtain ⟨k, v⟩ := e
    rw [List.map_cons, List.nodup_cons] at hnodup
    rw [lookup_pair_cons, List.mem_cons, Prod.mk.injEq]
    by_cases hk : a = k
    · have hr : (a, b) ∉ r := fun h => hnodup.1 (List.mem_map.mpr ⟨(a, b), h, hk⟩)
      rw [if_pos hk, Option.some.injEq]
      constructor
      · intro h
        exact Or.inl ⟨hk, h.symm⟩
      · intro h
        exact (h.resolve_right hr).2.symm
    · rw [if_neg hk, ih hnodup.2]
      constructor
      · exact Or.inr
      · intro h
        exact h.resolve_left fun he => hk he.1

lemma get?_eq_some_iff {t : RecencyTable α β} {a : α} {b : β} :
    t.get? a = some b ↔ (a, b) ∈ t.entries :=
  lookup_eq_some_iff_mem t.nodup_keys

lemma contains_eq_false_iff {t : RecencyTable α β} {a : α} :
    t.contains a = false ↔ t.get? a = none := by
  rw [contains, Option.isSome_eq_false_iff, Option.isNone_iff_eq_none]

lemma get?_refresh (t : RecencyTable α β) (a : α) (b : β) (h : (t.get? a).isSome) (x : α) :
    (t.refresh a b h).get? x = if x = a then some b else t.get? x := by
  have hcons : (t.refresh a b h).get? x =
      if x = a then some b else (without a t.entries).lookup x :=
    lookup_pair_cons a b _ x
  rw [hcons, lookup_without]
  by_cases hx : x = a
  · rw [if_pos hx, if_pos hx]
  · rw [if_neg hx, if_neg hx, if_neg hx, get?]

lemma get?_extend (t : RecencyTable α β) (a : α) (b : β) (h : t.get? a = none)
    (hlt : t.entries.length < t.capacity) (x : α) :
    (t.extend a b h hlt).get? x = if x = a then some b else t.get? x :=
  lookup_pair_cons a b t.entries x

lemma get?_erase (t : RecencyTable α β) (a x : α) :
    (t.erase a).get? x = if x = a then none else t.get? x :=
  lookup_without a x t.entries

lemma get?_touch (t : RecencyTable α β) (a x : α) : (t.touch a).get? x = t.get? x := by
  unfold touch
  split
  · next b h =>
    rw [get?_refresh]
    by_cases hx : x = a
    · rw [if_pos hx, hx, h]
    · rw [if_neg hx]
  · rfl

lemma get?_dropLast {t : RecencyTable α β} {k : α} {v : β}
    (h : t.entries.getLast? = some (k, v)) (x : α) :
    t.dropLast.get? x = if x = k then none else t.get? x := by
  have hsplit : t.entries = t.dropLast.entries ++ [(k, v)] :=
    (List.dropLast_append_getLast? (k, v) h).symm
  have hk : t.dropLast.get? k = none := by
    have hnodup := t.nodup_keys
    rw [hsplit, List.map_append, List.nodup_append] at hnodup
    refine List.lookup_eq_none_iff.mpr fun e he => bne_iff_ne.mpr ?_
    exact (hnodup.2.2 e.1 (List.mem_map_of_mem he) k (by simp)).symm
  by_cases hx : x = k
  · rw [if_pos hx, hx, hk]
  · have hlast : [(k, v)].lookup x = none := by
      rw [lookup_pair_cons, if_neg hx, List.lookup_nil]
    have hget : t.get? x = (t.dropLast.get? x).or ([(k, v)].lookup x) := by
      rw [get?, hsplit, List.lookup_append]
      rfl
    rw [if_neg hx, hget, hlast, Option.or_none]

lemma push_of_present {t : RecencyTable α β} {a : α} {old : β} (h : t.get? a = some old)
    (b : β) : t.push a b = (some (a, old), t.refresh a b (by simp [h])) := by
  unfold push
  split
  · next b' h' =>
    obtain rfl : old = b' := Option.some.inj (h.symm.trans h')
    rfl
  · next h' => exact absurd (h.symm.trans h') (Option.some_ne_none old)

lemma push_of_room {t : RecencyTable α β} {a : α} (h : t.get? a = none)
    (hlt : t.entries.length < t.capacity) (b : β) :
    t.push a b = (none, t.extend a b h hlt) := by
  unfold push
  split
  · next b' h' => exact absurd (h'.symm.trans h) (Option.some_ne_none b')
  · rw [dif_pos hlt]

lemma push_of_full {t : RecencyTable α β} {a : α} (h : t.get? a = none)
    (hle : t.capacity ≤ t.entries.length) (b : β) :
    t.push a b =
      (t.entries.getLast?,
        t.dropLast.extend a b (get?_dropLast_of_none h) t.length_dropLast_lt) := by
  unfold push
  split
  · next b' h' => exact absurd (h'.symm.trans h) (Option.some_ne_none b')
  · rw [dif_neg (Nat.not_lt.mpr hle)]

lemma exists_getLast?_of_full {t : RecencyTable α β} (h : t.capacity ≤ t.entries.length) :
    ∃ k v, t.entries.getLast? = some (k, v) ∧ t.get? k = some v := by
  have hne : t.entries ≠ [] := List.ne_nil_of_length_pos (Nat.lt_of_lt_of_le t.capacity_pos h)
  refine ⟨_, _, List.getLast?_eq_some_getLast hne, ?_⟩
  exact get?_eq_some_iff.mpr (List.getLast_mem hne)

lemma exists_push_of_absent {t : RecencyTable α β} {a : α} (h : t.get? a = none) (b : β) :
    ∃ kept, t.entries = kept ++ (t.push a b).1.toList ∧
      ((t.push a b).1.isSome = true ↔ t.size = t.capacity) ∧
      (t.push a b).2.entries = (a, b) :: kept := by
  rcases Nat.lt_or_ge t.entries.length t.capacity with hlt | hle
  · have hroom : t.size ≠ t.capacity := Nat.ne_of_lt hlt
    rw [push_of_room h hlt]
    exact ⟨t.entries, (List.append_nil _).symm, by simp [hroom], rfl⟩
  · have hfull : t.size = t.capacity := Nat.le_antisymm t.length_le hle
    obtain ⟨k, v, hlast, -⟩ := exists_getLast?_of_full hle
    rw [push_of_full h hle, hlast]
    exact ⟨t.entries.dropLast, (List.dropLast_append_getLast? (k, v) hlast).symm, by simp [hfull],
      rfl⟩

lemma get?_of_push_eq_some {t : RecencyTable α β} {a k : α} {b v : β}
    (h : (t.push a b).1 = some (k, v)) : t.get? k = some v ∧ (k = a ∨ t.get? a = none) := by
  cases ha : t.get? a with
  | some old =>
    rw [push_of_present ha, Option.some.injEq, Prod.mk.injEq] at h
    obtain ⟨rfl, rfl⟩ := h
    exact ⟨ha, Or.inl rfl⟩
  | none =>
    rcases Nat.lt_or_ge t.entries.length t.capacity with hlt | hle
    · rw [push_of_room ha hlt] at h
      exact absurd h.symm (Option.some_ne_none _)
    · obtain ⟨k', v', hlast, hget⟩ := exists_getLast?_of_full hle
      rw [push_of_full ha hle, hlast, Option.some.injEq, Prod.mk.injEq] at h
      obtain ⟨rfl, rfl⟩ := h
      exact ⟨hget, Or.inr rfl⟩

lemma get?_of_push_eq_none {t : RecencyTable α β} {a : α} {b : β}
    (h : (t.push a b).1 = none) : t.get? a = none := by
  cases ha : t.get? a with
  | some old =>
    rw [push_of_present ha] at h
    exact absurd h (Option.some_ne_none _)
  | none => rfl

lemma get?_push (t : RecencyTable α β) (a : α) (b : β) (x : α) :
    (t.push a b).2.get? x =
      if x = a then some b
      else if (t.push a b).1.map Prod.fst = some x then none else t.get? x := by
  cases ha : t.get? a with
  | some old =>
    rw [push_of_present ha, get?_refresh]
    by_cases hx : x = a
    · rw [if_pos hx, if_pos hx]
    · have hne : (some (a, old)).map Prod.fst ≠ some x := fun h => hx (Option.some.inj h).symm
      rw [if_neg hx, if_neg hx, if_neg hne]
  | none =>
    rcases Nat.lt_or_ge t.entries.length t.capacity with hlt | hle
    · rw [push_of_room ha hlt, get?_extend]
      rfl
    · obtain ⟨k, v, hlast, hget⟩ := exists_getLast?_of_full hle
      rw [push_of_full ha hle, get?_extend, get?_dropLast hlast, hlast]
      simp only [Option.map_some, Option.some.injEq, eq_comm]

lemma touch_of_present {t : RecencyTable α β} {a : α} {b : β} (h : t.get? a = some b) :
    t.touch a = t.refresh a b (by simp [h]) := by
  unfold touch
  split
  · next b' h' =>
    obtain rfl : b = b' := Option.some.inj (h.symm.trans h')
    rfl
  · next h' => exact absurd (h.symm.trans h') (Option.some_ne_none b)

lemma capacity_push (t : RecencyTable α β) (a : α) (b : β) :
    (t.push a b).2.capacity = t.capacity := by
  cases h : t.get? a with
  | some old =>
    rw [push_of_present h]
    rfl
  | none =>
    rcases Nat.lt_or_ge t.entries.length t.capacity with hlt | hle
    · rw [push_of_room h hlt]
      rfl
    · rw [push_of_full h hle]
      rfl

lemma capacity_touch (t : RecencyTable α β) (a : α) : (t.touch a).capacity = t.capacity := by
  unfold touch
  split <;> rfl

lemma perm_cons_without {a : α} {b : β} {entries : List (α × β)}
    (hnodup : (entries.map Prod.fst).Nodup) (h : entries.lookup a = some b) :
    ((a, b) :: without a entries).Perm entries := by
  have hmem := (lookup_eq_some_iff_mem hnodup).mp h
  apply (List.perm_ext_iff_of_nodup ?_ (List.Nodup.of_map Prod.fst hnodup)).mpr
  · rintro ⟨x, y⟩
    simp only [List.mem_cons, without, List.mem_filter, decide_eq_true_eq, Prod.mk.injEq]
    by_cases hx : x = a
    · subst hx
      simp only [ne_eq, not_true_eq_false, and_false, or_false, true_and]
      rw [← lookup_eq_some_iff_mem hnodup, h, Option.some.injEq, eq_comm]
    · simp [hx]
  · refine List.nodup_cons.mpr ⟨by simp [without], (List.Nodup.of_map Prod.fst hnodup).filter _⟩

lemma perm_touch (t : RecencyTable α β) (a : α) : (t.touch a).entries.Perm t.entries := by
  cases h : t.get? a with
  | some b =>
    rw [touch_of_present h]
    exact perm_cons_without t.nodup_keys h
  | none =>
    have hsame : t.touch a = t := by
      unfold touch
      split
      · next b hb => exact absurd (hb.symm.trans h) (Option.some_ne_none b)
      · rfl
    rw [hsame]

end AddressShuffle.RecencyTable
