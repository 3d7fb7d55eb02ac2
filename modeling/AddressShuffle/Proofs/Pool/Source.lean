import AddressShuffle.Pool.Source
import AddressShuffle.Proofs.Shuffle.Enumeration
import Mathlib.Data.List.ReduceOption

namespace AddressShuffle.Source

universe u v

variable {ι : Type u} {β : Type v} [Source ι β]

def answers : Nat → ι → List (Option β)
  | 0, _ => []
  | n + 1, s => (next s).1 :: answers n (next s).2

def after : Nat → ι → ι
  | 0, s => s
  | n + 1, s => after n (next s).2

lemma length_answers (n : Nat) (s : ι) : (answers n s).length = n := by
  induction n generalizing s with
  | zero => rfl
  | succ n ih => simp [answers, ih]

lemma answers_add (m n : Nat) (s : ι) :
    answers (m + n) s = answers m s ++ answers n (after m s) := by
  induction m generalizing s with
  | zero => simp [answers, after]
  | succ m ih => rw [Nat.succ_add, answers, answers, after, ih, List.cons_append]

lemma mem_answers_of_le {m n : Nat} (hmn : m ≤ n) {s : ι} {y : Option β}
    (h : y ∈ answers m s) : y ∈ answers n s := by
  rw [← Nat.add_sub_of_le hmn, answers_add]
  exact List.mem_append_left _ h

lemma after_add (m n : Nat) (s : ι) : after (m + n) s = after n (after m s) := by
  induction m generalizing s with
  | zero => rw [Nat.zero_add, after]
  | succ m ih => rw [Nat.succ_add, after, after, ih]

def Yields (s : ι) (bs : List β) : Prop := answers bs.length s = bs.map some

lemma Yields.of_append {s : ι} {bs cs : List β} (h : Yields s (bs ++ cs)) : Yields s bs := by
  rw [Yields, List.length_append, answers_add, List.map_append] at h
  exact (List.append_inj h (by rw [length_answers, List.length_map])).1

lemma Yields.answers_succ {s : ι} {bs : List β} (h : Yields s bs) :
    answers (bs.length + 1) s = bs.map some ++ [(next (after bs.length s)).1] := by
  rw [answers_add, h]
  rfl

lemma Yields.answers_concat {s : ι} {bs : List β} {b : β} (h : Yields s (bs ++ [b])) :
    answers (bs.length + 1) s = bs.map some ++ [some b] := by
  rw [Yields, List.length_append, List.map_append] at h
  exact h

def values (n : Nat) (s : ι) : List β := (answers n s).reduceOption

def Distinct (s : ι) : Prop := ∀ n, (values n s).Nodup

lemma values_zero (s : ι) : values 0 s = [] := rfl

lemma values_add (m n : Nat) (s : ι) : values (m + n) s = values m s ++ values n (after m s) := by
  rw [values, answers_add, List.reduceOption_append]
  rfl

lemma reduceOption_map_some (bs : List β) : (bs.map some).reduceOption = bs := by
  rw [List.reduceOption, List.filterMap_map, Function.id_comp, List.filterMap_some]

lemma Yields.values_eq {s : ι} {bs : List β} (h : Yields s bs) : values bs.length s = bs := by
  rw [values, h, reduceOption_map_some]

lemma Distinct.after {s : ι} (h : Distinct s) (n : Nat) : Distinct (after n s) := by
  intro m
  have hnodup := h (n + m)
  rw [values_add] at hnodup
  exact hnodup.of_append_right

lemma values_sublist (n : Nat) (s : List (Option β)) : (values n s).Sublist s.reduceOption := by
  induction n generalizing s with
  | zero => exact List.nil_sublist _
  | succ n ih =>
    cases s with
    | nil => exact ih []
    | cons b s =>
      cases b with
      | none => exact ih s
      | some b => exact (ih s).cons_cons b

lemma distinct_list {s : List (Option β)} (h : s.reduceOption.Nodup) : Distinct s :=
  fun n => h.sublist (values_sublist n s)

lemma values_of_answers {n : Nat} {s : ι} {passed : List β} {found : Option β}
    (h : answers n s = passed.map some ++ [found]) : values n s = passed ++ found.toList := by
  rw [values, h, List.reduceOption_append, List.reduceOption_singleton, reduceOption_map_some]

lemma find?_succ_of_none (skip : β → Bool) (n : Nat) {s : ι} (h : (next s).1 = none) :
    find? skip (n + 1) s = some (none, (next s).2) := by
  rw [find?]
  split
  · next hn => rw [hn]
  · next hn => simp [hn] at h

lemma find?_succ_of_skip {skip : β → Bool} (n : Nat) {s : ι} {b : β}
    (h : (next s).1 = some b) (hs : skip b = true) :
    find? skip (n + 1) s = find? skip n (next s).2 := by
  rw [find?]
  split
  · next hn => simp [hn] at h
  · next hn =>
    obtain rfl : _ = b := by simpa [hn] using h
    rw [if_pos hs, hn]

lemma find?_succ_of_free {skip : β → Bool} (n : Nat) {s : ι} {b : β}
    (h : (next s).1 = some b) (hs : skip b = false) :
    find? skip (n + 1) s = some (some b, (next s).2) := by
  rw [find?]
  split
  · next hn => simp [hn] at h
  · next hn =>
    obtain rfl : _ = b := by simpa [hn] using h
    rw [hs, if_neg Bool.false_ne_true, hn]

lemma find?_mono {skip : β → Bool} {m n : Nat} {s : ι} {x : Option β × ι}
    (h : find? skip m s = some x) (hmn : m ≤ n) : find? skip n s = some x := by
  induction m generalizing n s with
  | zero => exact absurd h.symm (Option.some_ne_none x)
  | succ m ih =>
    obtain ⟨n, rfl⟩ : ∃ k, n = k + 1 := ⟨n - 1, by omega⟩
    cases hb : (next s).1 with
    | none => rwa [find?_succ_of_none skip m hb, ← find?_succ_of_none skip n hb] at h
    | some b =>
      cases hs : skip b with
      | false => rwa [find?_succ_of_free m hb hs, ← find?_succ_of_free n hb hs] at h
      | true =>
        rw [find?_succ_of_skip m hb hs] at h
        rw [find?_succ_of_skip n hb hs]
        exact ih h (by omega)

lemma exists_passed_of_find? {skip : β → Bool} {n : Nat} {s t : ι} {found : Option β}
    (h : find? skip n s = some (found, t)) (hleast : ∀ m < n, find? skip m s = none) :
    ∃ passed : List β, (∀ b ∈ passed, skip b = true) ∧ (∀ b, found = some b → skip b = false) ∧
      answers n s = passed.map some ++ [found] ∧ t = after n s := by
  induction n generalizing s with
  | zero => exact absurd h.symm (Option.some_ne_none _)
  | succ n ih =>
    have hone : ∀ x, find? skip 1 s = some x → n = 0 := by
      intro x hx
      by_contra hn
      exact Option.some_ne_none x (hx.symm.trans (hleast 1 (by omega)))
    cases hb : (next s).1 with
    | none =>
      obtain rfl := hone _ (find?_succ_of_none skip 0 hb)
      rw [find?_succ_of_none skip 0 hb] at h
      obtain ⟨rfl, rfl⟩ := Prod.mk.inj (Option.some.inj h)
      exact ⟨[], by simp, by simp, by simp [answers, hb], rfl⟩
    | some b =>
      cases hs : skip b with
      | false =>
        obtain rfl := hone _ (find?_succ_of_free 0 hb hs)
        rw [find?_succ_of_free 0 hb hs] at h
        obtain ⟨rfl, rfl⟩ := Prod.mk.inj (Option.some.inj h)
        exact ⟨[], by simp, by simp [hs], by simp [answers, hb], rfl⟩
      | true =>
        rw [find?_succ_of_skip n hb hs] at h
        have hrest : ∀ m < n, find? skip m (next s).2 = none := by
          intro m hm
          rw [← find?_succ_of_skip m hb hs]
          exact hleast (m + 1) (by omega)
        obtain ⟨passed, hpassed, hfound, hanswers, ht⟩ := ih h hrest
        refine ⟨b :: passed, List.forall_mem_cons.mpr ⟨hs, hpassed⟩, hfound, ?_, ht⟩
        rw [answers, hb, hanswers]
        rfl

lemma find?_of_answers {skip : β → Bool} {n : Nat} {s : ι} {passed : List β}
    {found : Option β} (hanswers : answers n s = passed.map some ++ [found])
    (hpassed : ∀ b ∈ passed, skip b = true) (hfound : ∀ b, found = some b → skip b = false) :
    find? skip n s = some (found, after n s) ∧ ∀ m < n, find? skip m s = none := by
  induction passed generalizing n s with
  | nil =>
    obtain rfl : n = 1 := by simpa [length_answers] using congrArg List.length hanswers
    have hnext : (next s).1 = found := by simpa [answers] using hanswers
    refine ⟨?_, fun m hm => by rw [Nat.lt_one_iff.mp hm, find?]⟩
    cases hb : found with
    | none => exact find?_succ_of_none skip 0 (hnext.trans hb)
    | some b => exact find?_succ_of_free 0 (hnext.trans hb) (hfound b hb)
  | cons c passed ih =>
    obtain ⟨n, rfl⟩ : ∃ m, n = m + 1 := by
      refine ⟨passed.length + 1, ?_⟩
      simpa [length_answers] using congrArg List.length hanswers
    rw [answers, List.map_cons, List.cons_append, List.cons.injEq] at hanswers
    obtain ⟨hc, hrest⟩ := List.forall_mem_cons.mp hpassed
    obtain ⟨hfind, hleast⟩ := ih hanswers.2 hrest
    refine ⟨?_, ?_⟩
    · rw [find?_succ_of_skip n hanswers.1 hc, hfind, after]
    · intro m hm
      cases m with
      | zero => rw [find?]
      | succ m =>
        rw [find?_succ_of_skip m hanswers.1 hc]
        exact hleast m (by omega)

lemma exists_passed_of_find?_eq_none {skip : β → Bool} {n : Nat} {s : ι}
    (h : find? skip n s = none) :
    ∃ passed : List β, (∀ b ∈ passed, skip b = true) ∧ answers n s = passed.map some := by
  induction n generalizing s with
  | zero => exact ⟨[], by simp, rfl⟩
  | succ n ih =>
    cases hb : (next s).1 with
    | none =>
      rw [find?_succ_of_none skip n hb] at h
      exact absurd h (Option.some_ne_none _)
    | some b =>
      cases hs : skip b with
      | false =>
        rw [find?_succ_of_free n hb hs] at h
        exact absurd h (Option.some_ne_none _)
      | true =>
        rw [find?_succ_of_skip n hb hs] at h
        obtain ⟨passed, hpassed, hanswers⟩ := ih h
        refine ⟨b :: passed, List.forall_mem_cons.mpr ⟨hs, hpassed⟩, ?_⟩
        rw [answers, hb, hanswers]
        rfl

lemma answers_shuffle {γ : Type u} [Picker γ] {n : Nat} {s : Shuffle γ} (hn : n ≤ s.left) :
    answers n s = (Shuffle.taken n s).map some := by
  induction n generalizing s with
  | zero => rfl
  | succ n ih =>
    have he : s.exhausted = false := Shuffle.not_exhausted_of_left_pos (by omega)
    have hnext : next s = (some s.next.1.1, s.next.2) := Shuffle.next?_of_not_exhausted he
    have hleft : n ≤ s.next.2.left := by
      rw [Shuffle.left_next]
      omega
    rw [answers, hnext, ih hleft]
    rfl

lemma values_shuffle {γ : Type u} [Picker γ] (n : Nat) (s : Shuffle γ) :
    values n s = Shuffle.taken (min n s.left) s := by
  induction n generalizing s with
  | zero =>
    rw [Nat.zero_min]
    rfl
  | succ n ih =>
    cases he : s.exhausted with
    | true =>
      have hnext : next s = (none, s) := Shuffle.next?_of_exhausted he
      have hleft : s.left = 0 := Shuffle.left_eq_zero_iff.mpr he
      rw [values, answers, hnext, List.reduceOption_cons_of_none, ← values, ih, hleft,
        Nat.min_zero, Nat.min_zero]
    | false =>
      have hnext : next s = (some s.next.1.1, s.next.2) := Shuffle.next?_of_not_exhausted he
      rw [values, answers, hnext, List.reduceOption_cons_of_some, ← values, ih,
        Shuffle.min_succ_left he, Shuffle.taken_succ]

lemma distinct_shuffle {γ : Type u} [Picker γ] (range : AddressRange) (picker : γ) :
    Distinct (Shuffle.ofRange range picker) := by
  intro n
  rw [values_shuffle]
  apply Shuffle.nodup_taken
  rw [Shuffle.left_ofRange]
  exact Nat.min_le_right _ _

end AddressShuffle.Source
