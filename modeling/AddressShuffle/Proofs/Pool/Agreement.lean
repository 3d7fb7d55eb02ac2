import AddressShuffle.Proofs.Pool.Recency
import AddressShuffle.Proofs.Pool.Run
import Mathlib.Data.List.Nodup
import Mathlib.Data.Prod.Basic

/-! Which value a key holds and which key holds a value agree in every pool that calls lead to. -/

namespace AddressShuffle.Pool

universe u v w

variable {α : Type u} {β : Type v} {ι : Type w} [DecidableEq α] [DecidableEq β] [Hashable β]

def Agrees (p : Pool α β ι) : Prop :=
  ∀ a b, p.forward.get? a = some b ↔ p.owner? b = some a

lemma agrees_ofSource (source : ι) (capacity : Nat) (pos : 0 < capacity) :
    Agrees (ofSource source capacity pos : Pool α β ι) := by
  intro a b
  simp [ofSource, RecencyTable.get?, RecencyTable.empty, owner?]

/-- The pool between the two halves of an assignment: `a` holds `b` in the table, the other keys and
values agree, and nobody but the former holder of `b` knows of it. -/
structure Pending (p : Pool α β ι) (a : α) (b : β) : Prop where
  holds : p.forward.get? a = some b
  others : ∀ x y, x ≠ a → y ≠ b → (p.forward.get? x = some y ↔ p.owner? y = some x)
  unowned : ∀ y, y ≠ b → p.owner? y ≠ some a
  former : ∀ x, x ≠ a → p.forward.get? x = some b → p.owner? b = some x
  sole : ∀ x y, x ≠ a → p.owner? b = some x → p.forward.get? x = some y → y = b

lemma owner?_give (p : Pool α β ι) (a : α) (b y : β) :
    (p.give a b).owner? y = if y = b then some a else p.owner? y := by
  have h : (p.give a b).owner? y = (p.reverse.insert b a)[y]? := rfl
  rw [h, Std.HashMap.getElem?_insert, owner?]
  by_cases hy : y = b
  · rw [if_pos hy, if_pos (beq_iff_eq.mpr hy.symm)]
  · rw [if_neg hy, if_neg fun hb => hy (beq_iff_eq.mp hb).symm]

lemma get?_give (p : Pool α β ι) (a : α) (b : β) (x : α) :
    (p.give a b).forward.get? x =
      if x ≠ a ∧ p.owner? b = some x then none else p.forward.get? x := by
  rw [give]
  cases hk : p.owner? b with
  | none => simp
  | some k =>
    by_cases hka : k = a
    · have hx : ¬(x ≠ a ∧ some k = some x) := fun h => h.1 ((Option.some.inj h.2).symm.trans hka)
      simp only [if_pos hka, if_neg hx]
    · simp only [if_neg hka, RecencyTable.get?_erase]
      by_cases hx : x = k
      · rw [if_pos hx, if_pos ⟨hx ▸ hka, congrArg some hx.symm⟩]
      · rw [if_neg hx, if_neg fun h => hx (Option.some.inj h.2).symm]

lemma owner?_release {p : Pool α β ι} {k : α} {v : β} (h : p.owner? v = some k) (y : β) :
    (p.release k v).owner? y = if y = v then none else p.owner? y := by
  have hr : (p.release k v).owner? y = (p.reverse.erase v)[y]? := by
    simp only [release, if_pos h]
    rfl
  rw [hr, Std.HashMap.getElem?_erase, owner?]
  by_cases hy : y = v
  · rw [if_pos hy, if_pos (beq_iff_eq.mpr hy.symm)]
  · rw [if_neg hy, if_neg fun hb => hy (beq_iff_eq.mp hb).symm]

lemma Pending.agrees_give {p : Pool α β ι} {a : α} {b : β} (h : Pending p a b) :
    Agrees (p.give a b) := by
  intro x y
  rw [get?_give, owner?_give]
  by_cases hx : x = a
  · subst hx
    rw [if_neg fun hc => hc.1 rfl, h.holds]
    by_cases hy : y = b
    · simp [hy]
    · simp [hy, Ne.symm hy, h.unowned y hy]
  · by_cases hb : p.owner? b = some x
    · rw [if_pos ⟨hx, hb⟩]
      by_cases hy : y = b
      · simp [hy, Ne.symm hx]
      · have hne : p.owner? y ≠ some x := fun ho =>
          hy (h.sole x y hx hb ((h.others x y hx hy).mpr ho))
        simp [hy, hne]
    · rw [if_neg fun hc => hb hc.2]
      by_cases hy : y = b
      · have hne : p.forward.get? x ≠ some b := fun hg => hb (h.former x hx hg)
        simp [hy, hne, Ne.symm hx]
      · rw [if_neg hy]
        exact h.others x y hx hy

def pushed (p : Pool α β ι) (a : α) (b : β) : Pool α β ι :=
  let q := { p with forward := (p.forward.push a b).2 }
  match (p.forward.push a b).1 with
  | some (k, v) => if v = b then q else q.release k v
  | none => q

lemma assign_eq_give (p : Pool α β ι) (a : α) (b : β) :
    p.assign a b = (p.pushed a b).give a b := by
  rw [assign, pushed]
  rcases p.forward.push a b with ⟨_ | ⟨k, v⟩, forward⟩
  · rfl
  · by_cases hv : v = b
    · simp only [if_pos hv]
    · simp only [if_neg hv]

lemma forward_pushed (p : Pool α β ι) (a : α) (b : β) :
    (p.pushed a b).forward = (p.forward.push a b).2 := by
  rw [pushed]
  rcases (p.forward.push a b).1 with _ | ⟨k, v⟩
  · rfl
  · by_cases hv : v = b
    · simp only [if_pos hv]
    · simp only [if_neg hv]
      rfl

lemma get?_pushed (p : Pool α β ι) (a : α) (b : β) (x : α) :
    (p.pushed a b).forward.get? x =
      if x = a then some b
      else if (p.forward.push a b).1.map Prod.fst = some x then none else p.forward.get? x := by
  rw [forward_pushed, RecencyTable.get?_push]

lemma get?_of_get?_pushed {p : Pool α β ι} {a x : α} {b y : β} (hx : x ≠ a)
    (h : (p.pushed a b).forward.get? x = some y) : p.forward.get? x = some y := by
  rw [get?_pushed, if_neg hx] at h
  split_ifs at h
  exact h

lemma owner?_pushed {p : Pool α β ι} (h : Agrees p) (a : α) (b y : β) :
    (p.pushed a b).owner? y =
      if y ≠ b ∧ (p.forward.push a b).1.map Prod.snd = some y then none else p.owner? y := by
  rw [pushed]
  cases hd : (p.forward.push a b).1 with
  | none => simp [owner?]
  | some e =>
    obtain ⟨k, v⟩ := e
    have hk : p.owner? v = some k := (h k v).mp (RecencyTable.get?_of_push_eq_some hd).1
    by_cases hv : v = b
    · have hy : ¬(y ≠ b ∧ some v = some y) := fun hc => hc.1 ((Option.some.inj hc.2).symm.trans hv)
      simp only [if_pos hv, Option.map_some, if_neg hy, owner?]
    · have hr := owner?_release (p := { p with forward := (p.forward.push a b).2 }) hk y
      simp only [if_neg hv, Option.map_some]
      rw [hr]
      by_cases hy : y = v
      · rw [if_pos hy, if_pos ⟨hy ▸ hv, congrArg some hy.symm⟩]
      · rw [if_neg hy, if_neg fun hc => hy (Option.some.inj hc.2).symm]
        rfl

lemma Agrees.get?_pushed_iff {p : Pool α β ι} (h : Agrees p) {a x : α} {b y : β} (hx : x ≠ a)
    (hy : y ≠ b) :
    (p.pushed a b).forward.get? x = some y ↔ (p.pushed a b).owner? y = some x := by
  rw [get?_pushed, if_neg hx, owner?_pushed h]
  cases hd : (p.forward.push a b).1 with
  | none => simpa using h x y
  | some e =>
    obtain ⟨k, v⟩ := e
    have hk : p.forward.get? k = some v := (RecencyTable.get?_of_push_eq_some hd).1
    simp only [Option.map_some, Option.some.injEq]
    by_cases hkx : k = x <;> by_cases hvy : v = y
    · simp [hkx, hvy, hy]
    · -- the key that left held `v` alone
      have hne : p.owner? y ≠ some x := fun ho =>
        hvy (Option.some.inj (hk.symm.trans (hkx ▸ (h x y).mpr ho)))
      simp [hkx, hvy, hne]
    · have hne : p.forward.get? x ≠ some y := fun hg =>
        hkx (Option.some.inj (((h k v).mp hk).symm.trans (hvy ▸ (h x y).mp hg)))
      simp [hkx, hvy, hy, hne]
    · simpa [hkx, hvy] using h x y

lemma Agrees.owner?_pushed_ne {p : Pool α β ι} (h : Agrees p) {a : α} {b y : β} (hy : y ≠ b) :
    (p.pushed a b).owner? y ≠ some a := by
  intro ho
  rw [owner?_pushed h] at ho
  split_ifs at ho with hc
  have ha : p.forward.get? a = some y := (h a y).mpr ho
  cases hd : (p.forward.push a b).1 with
  | none => simp [RecencyTable.get?_of_push_eq_none hd] at ha
  | some e =>
    obtain ⟨k, v⟩ := e
    obtain ⟨hk, rfl | hnone⟩ := RecencyTable.get?_of_push_eq_some hd
    · have hvy : v = y := Option.some.inj (hk.symm.trans ha)
      apply hc
      rw [hd, hvy]
      exact ⟨hy, rfl⟩
    · simp [hnone] at ha

lemma Agrees.owner?_pushed_self {p : Pool α β ι} (h : Agrees p) (a : α) (b : β) :
    (p.pushed a b).owner? b = p.owner? b := by
  rw [owner?_pushed h, if_neg fun hc => hc.1 rfl]

lemma Agrees.pending_pushed {p : Pool α β ι} (h : Agrees p) (a : α) (b : β) :
    Pending (p.pushed a b) a b := by
  refine ⟨?_, ?_, ?_, ?_, ?_⟩
  · rw [get?_pushed, if_pos rfl]
  · intro x y hx hy
    exact h.get?_pushed_iff hx hy
  · intro y hy
    exact h.owner?_pushed_ne hy
  · intro x hx hxb
    rw [h.owner?_pushed_self]
    exact (h x b).mp (get?_of_get?_pushed hx hxb)
  · intro x y hx ho hxy
    rw [h.owner?_pushed_self] at ho
    have hxb := (h x b).mpr ho
    exact Option.some.inj ((get?_of_get?_pushed hx hxy).symm.trans hxb)

lemma Agrees.assign {p : Pool α β ι} (h : Agrees p) (a : α) (b : β) : Agrees (p.assign a b) := by
  rw [assign_eq_give]
  exact (h.pending_pushed a b).agrees_give

lemma Agrees.touch {p : Pool α β ι} (h : Agrees p) (a : α) :
    Agrees { p with forward := p.forward.touch a } := by
  intro x y
  rw [RecencyTable.get?_touch]
  exact h x y

lemma Agrees.step [Source ι β] {p q : Pool α β ι} {e : Event α β ι} (h : Step p e q)
    (hp : Agrees p) : Agrees q := by
  cases h with
  | insert a b => exact hp.assign a b
  | reset source capacity pos => exact agrees_ofSource source capacity pos
  | get hget =>
    rcases getWithin?_cases hget with ⟨b, -, -, rfl⟩ | ⟨-, b, queue, -, -, rfl⟩ |
      ⟨-, -, b, source, -, -, rfl⟩ | ⟨-, -, source, -, -, rfl⟩
    · exact hp.touch _
    · exact Agrees.assign (p := { p with queue }) hp _ b
    · exact Agrees.assign (p := { p with source, queue := [] }) hp _ b
    · exact hp

lemma agrees_of_run [Source ι β] {source : ι} {capacity : Nat} {pos : 0 < capacity}
    {es : List (Event α β ι)} {p : Pool α β ι} (h : Run (ofSource source capacity pos) es p) :
    Agrees p :=
  h.induct (agrees_ofSource source capacity pos) Agrees.step

lemma Agrees.contains_iff {p : Pool α β ι} (h : Agrees p) (a : α) :
    p.contains a = true ↔ ∃ b, p.owner? b = some a := by
  change (p.forward.get? a).isSome = true ↔ _
  rw [Option.isSome_iff_exists]
  constructor
  · rintro ⟨b, hb⟩
    exact ⟨b, (h a b).mp hb⟩
  · rintro ⟨b, hb⟩
    exact ⟨b, (h a b).mpr hb⟩

lemma Agrees.size_eq {p : Pool α β ι} (h : Agrees p) : p.size = p.reverse.size := by
  have hentries : (p.forward.entries.map Prod.swap).Nodup :=
    (List.Nodup.of_map Prod.fst p.forward.nodup_keys).map Prod.swap_injective
  have hlist : p.reverse.toList.Nodup := by
    refine p.reverse.distinct_keys_toList.imp ?_
    rintro e f hne rfl
    simp at hne
  have hperm : (p.forward.entries.map Prod.swap).Perm p.reverse.toList := by
    apply (List.perm_ext_iff_of_nodup hentries hlist).mpr
    rintro ⟨b, a⟩
    rw [Std.HashMap.mem_toList_iff_getElem?_eq_some, List.mem_map]
    constructor
    · rintro ⟨e, he, hswap⟩
      obtain rfl : e = (a, b) := Prod.swap_injective hswap
      exact (h a b).mp (RecencyTable.get?_eq_some_iff.mpr he)
    · intro hb
      exact ⟨(a, b), RecencyTable.get?_eq_some_iff.mp ((h a b).mpr hb), rfl⟩
  have hlength := hperm.length_eq
  rw [List.length_map, Std.HashMap.length_toList] at hlength
  exact hlength

theorem directions_agree [Source ι β] (source : ι) (capacity : Nat) (pos : 0 < capacity)
    {es : List (Event α β ι)} {p : Pool α β ι} (h : Run (ofSource source capacity pos) es p) :
    (∀ a b, p.forward.get? a = some b ↔ p.owner? b = some a) ∧
    (∀ a a' b, p.forward.get? a = some b → p.forward.get? a' = some b → a = a') ∧
    (∀ a, p.contains a = true ↔ ∃ b, p.owner? b = some a) ∧
    p.size = p.forward.entries.length ∧ p.size = p.reverse.size ∧ p.size ≤ p.capacity := by
  have hp := agrees_of_run h
  refine ⟨hp, ?_, hp.contains_iff, rfl, hp.size_eq, p.forward.length_le⟩
  intro a a' b ha ha'
  exact Option.some.inj (((hp a b).mp ha).symm.trans ((hp a' b).mp ha'))

theorem directions_agree_after_take_over :
    let p : Pool Nat Nat (List (Option Nat)) := ofSource [some 7, none, some 8] 1 Nat.one_pos
    let q := (p.get 0).2.insert 1 7
    (∀ a b, q.forward.get? a = some b ↔ q.owner? b = some a) ∧ q.size = q.reverse.size := by
  intro p q
  have hrun : Run p [.get 0 (p.get 0).1, .insert 1 7] q :=
    .cons (step_get p 0) (.cons (.insert 1 7) (.nil q))
  have h := directions_agree [some 7, none, some 8] 1 Nat.one_pos hrun
  exact ⟨h.1, h.2.2.2.2.1⟩

end AddressShuffle.Pool
