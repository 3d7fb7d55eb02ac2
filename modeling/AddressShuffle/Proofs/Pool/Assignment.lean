import AddressShuffle.Proofs.Pool.Agreement
import Mathlib.Data.List.Perm.Subperm

namespace AddressShuffle.Pool

universe u v w

variable {α : Type u} {β : Type v} {ι : Type w} [DecidableEq α] [DecidableEq β] [Hashable β]

def freed (p : Pool α β ι) (a : α) (b : β) : Option β :=
  ((p.forward.push a b).1.map Prod.snd).filter (· ≠ b)

lemma freed_eq_some_iff {p : Pool α β ι} {a : α} {b y : β} :
    p.freed a b = some y ↔ y ≠ b ∧ (p.forward.push a b).1.map Prod.snd = some y := by
  simp [freed, Option.filter_eq_some_iff, and_comm]

lemma queue_assign (p : Pool α β ι) (a : α) (b : β) :
    (p.assign a b).queue = p.queue ++ (p.freed a b).toList := by
  have hpushed : (p.assign a b).queue = (p.pushed a b).queue := by
    rw [assign_eq_give]
    rfl
  rw [hpushed, pushed, freed]
  rcases (p.forward.push a b).1 with _ | ⟨k, v⟩
  · simp
  · by_cases hv : v = b
    · simp [hv]
    · simp [hv, release, Option.filter]

lemma source_assign (p : Pool α β ι) (a : α) (b : β) : (p.assign a b).source = p.source := by
  rw [assign_eq_give]
  change (p.pushed a b).source = p.source
  rw [pushed]
  rcases (p.forward.push a b).1 with _ | ⟨k, v⟩
  · rfl
  · by_cases hv : v = b
    · simp only [if_pos hv]
    · simp only [if_neg hv]
      rfl

lemma Agrees.forward_assign {p : Pool α β ι} (h : Agrees p) (a : α) (b : β) :
    (p.assign a b).forward =
      match p.owner? b with
      | some k => if k = a then (p.forward.push a b).2 else (p.forward.push a b).2.erase k
      | none => (p.forward.push a b).2 := by
  rw [assign_eq_give, ← forward_pushed, ← h.owner?_pushed_self a b]
  rfl

lemma capacity_assign (p : Pool α β ι) (a : α) (b : β) :
    (p.assign a b).capacity = p.capacity := by
  have hpush : (p.pushed a b).capacity = p.capacity := by
    rw [capacity, forward_pushed, RecencyTable.capacity_push]
    rfl
  rw [assign_eq_give, ← hpush, give, capacity]
  cases (p.pushed a b).owner? b with
  | none => rfl
  | some k =>
    by_cases hk : k = a
    · simp only [if_pos hk]
      rfl
    · simp only [if_neg hk]
      rfl

lemma Agrees.owner?_assign {p : Pool α β ι} (h : Agrees p) (a : α) (b y : β) :
    (p.assign a b).owner? y =
      if y = b then some a else if p.freed a b = some y then none else p.owner? y := by
  simp only [assign_eq_give, owner?_give, owner?_pushed h, freed_eq_some_iff]

omit [DecidableEq α] in
lemma isLent_eq (p : Pool α β ι) (b : β) : p.isLent b = (p.owner? b).isSome :=
  Std.HashMap.contains_eq_isSome_getElem?

lemma Agrees.isLent_iff {p : Pool α β ι} (h : Agrees p) (b : β) :
    p.isLent b = true ↔ ∃ a, p.forward.get? a = some b := by
  rw [isLent_eq, Option.isSome_iff_exists]
  exact exists_congr fun a => (h a b).symm

def lent (p : Pool α β ι) : List β := p.forward.entries.map Prod.snd

omit [DecidableEq α] in
lemma length_lent (p : Pool α β ι) : p.lent.length = p.size := List.length_map _

lemma Agrees.isLent_iff_mem_lent {p : Pool α β ι} (h : Agrees p) (b : β) :
    p.isLent b = true ↔ b ∈ p.lent := by
  rw [h.isLent_iff, lent, List.mem_map]
  constructor
  · rintro ⟨a, ha⟩
    exact ⟨(a, b), RecencyTable.get?_eq_some_iff.mp ha, rfl⟩
  · rintro ⟨⟨a, _⟩, he, rfl⟩
    exact ⟨a, RecencyTable.get?_eq_some_iff.mpr he⟩

lemma Agrees.nodup_lent {p : Pool α β ι} (h : Agrees p) : p.lent.Nodup := by
  apply List.Nodup.map_on _ (List.Nodup.of_map Prod.fst p.forward.nodup_keys)
  rintro ⟨a, b⟩ ha ⟨a', b'⟩ ha' rfl
  have hb := (h a b).mp (RecencyTable.get?_eq_some_iff.mpr ha)
  have hb' := (h a' b).mp (RecencyTable.get?_eq_some_iff.mpr ha')
  rw [Option.some.inj (hb.symm.trans hb')]

lemma Agrees.length_le_size {p : Pool α β ι} (h : Agrees p) {bs : List β} (hnodup : bs.Nodup)
    (hlent : ∀ b ∈ bs, p.isLent b = true) : bs.length ≤ p.size := by
  have hsub : bs ⊆ p.lent := fun b hb => (h.isLent_iff_mem_lent b).mp (hlent b hb)
  rw [← length_lent]
  exact (List.subperm_of_subset hnodup hsub).length_le

lemma Agrees.isLent_assign_iff {p : Pool α β ι} (h : Agrees p) (a : α) (b y : β) :
    (p.assign a b).isLent y = true ↔ y = b ∨ p.freed a b ≠ some y ∧ p.isLent y = true := by
  rw [isLent_eq, h.owner?_assign, isLent_eq]
  by_cases hy : y = b
  · simp [hy]
  · by_cases hf : p.freed a b = some y
    · simp [hy, hf]
    · simp [hy, hf]

lemma Agrees.isLent_of_push {p : Pool α β ι} (h : Agrees p) {a : α} {b y : β}
    (hy : (p.forward.push a b).1.map Prod.snd = some y) : p.isLent y = true := by
  obtain ⟨⟨k, v⟩, hpush, rfl⟩ := Option.map_eq_some_iff.mp hy
  exact (h.isLent_iff v).mpr ⟨k, (RecencyTable.get?_of_push_eq_some hpush).1⟩

lemma Agrees.isLent_of_freed {p : Pool α β ι} (h : Agrees p) {a : α} {b y : β}
    (hy : p.freed a b = some y) : p.isLent y = true :=
  h.isLent_of_push (freed_eq_some_iff.mp hy).2

lemma Agrees.freed_of_free {p : Pool α β ι} (h : Agrees p) {b : β} (hb : p.isLent b = false)
    (a : α) : p.freed a b = (p.forward.push a b).1.map Prod.snd := by
  ext y
  rw [freed_eq_some_iff, and_iff_right_of_imp]
  rintro hy rfl
  exact Bool.false_ne_true (hb.symm.trans (h.isLent_of_push hy))

lemma Agrees.exists_assign_of_free {p : Pool α β ι} (h : Agrees p) {a : α} {b : β}
    (ha : p.forward.get? a = none) (hb : p.isLent b = false) :
    ∃ kept, ∃ out : Option (α × β), p.forward.entries = kept ++ out.toList ∧
      (out.isSome = true ↔ p.size = p.capacity) ∧
      (p.assign a b).forward.entries = (a, b) :: kept ∧
      (p.assign a b).queue = p.queue ++ (out.map Prod.snd).toList := by
  obtain ⟨kept, hentries, hfull, hpush⟩ := RecencyTable.exists_push_of_absent ha b
  have howner : p.owner? b = none := by
    rw [← Option.not_isSome_iff_eq_none, ← isLent_eq, hb]
    exact Bool.false_ne_true
  refine ⟨kept, (p.forward.push a b).1, hentries, hfull, ?_, ?_⟩
  · rw [h.forward_assign, howner]
    exact hpush
  · rw [queue_assign, h.freed_of_free hb]

end AddressShuffle.Pool
