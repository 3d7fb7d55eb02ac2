import AddressShuffle.Proofs.Pool.LatestUse

namespace AddressShuffle.Pool

universe u v w

variable {α : Type u} {β : Type v} {ι : Type w} [DecidableEq α] [DecidableEq β] [Hashable β]

lemma Used.contains_eq_false {p : Pool α β ι} {a x : α} {b : β} {t : RecencyTable α β}
    (h : Used p a b t) (hx : x ≠ a)
    (hgone : p.forward.get? x = some b ∨ p.forward.MakesRoom a x) : t.contains x = false := by
  rw [← Bool.not_eq_true, h.contains_iff hx]
  rintro ⟨-, hheld, hstays⟩
  rcases hgone with hxb | hroom
  · exact hheld hxb
  · exact hstays hroom

lemma Agrees.insert_of_push {p : Pool α β ι} (h : Agrees p) {a k : α} {b v : β}
    (hpush : (p.forward.push a b).1 = some (k, v)) :
    (p.insert a b).queue = p.queue ++ (if v = b then [] else [v]) ∧
      (v ≠ b → (p.insert a b).owner? v = none) := by
  constructor
  · rw [Pool.insert, queue_assign, freed, hpush]
    by_cases hv : v = b
    · simp [hv]
    · simp [hv, Option.filter]
  · intro hv
    have hfreed : p.freed a b = some v := freed_eq_some_iff.mpr ⟨hv, by rw [hpush, Option.map_some]⟩
    rw [Pool.insert, h.owner?_assign, if_neg hv, if_pos hfreed]

theorem insert_keeps_other_keys [Source ι β] {source : ι} {capacity : Nat} {pos : 0 < capacity}
    {es : List (Event α β ι)} {p : Pool α β ι} (h : Run (ofSource source capacity pos) es p)
    (a : α) (b : β) :
    let q := p.insert a b
    q.forward.get? a = some b ∧ q.owner? b = some a ∧
    (∀ x, x ≠ a → p.forward.get? x = some b → q.contains x = false) ∧
    (∀ v, p.forward.get? a = some v →
      q.queue = p.queue ++ (if v = b then [] else [v]) ∧ (v ≠ b → q.owner? v = none)) ∧
    (p.contains a = false → p.size = p.capacity →
      ∃ x v, p.forward.MakesRoom a x ∧ p.forward.get? x = some v ∧ q.contains x = false ∧
        q.queue = p.queue ++ (if v = b then [] else [v]) ∧ (v ≠ b → q.owner? v = none)) ∧
    (p.contains a = false → p.size < p.capacity → q.queue = p.queue) ∧
    (∀ x y, x ≠ a → (q.forward.get? x = some y ↔
      p.forward.get? x = some y ∧ y ≠ b ∧ ¬p.forward.MakesRoom a x)) ∧
    q.forward.keys = a :: (p.forward.keys.filter fun x => decide (x ≠ a) && q.contains x) ∧
    (∀ x y, q.owner? y = some x ↔ q.forward.get? x = some y) ∧
    q.source = p.source ∧ q.capacity = p.capacity := by
  intro q
  have hp : Agrees p := agrees_of_run h
  have hq : Agrees q := hp.assign a b
  have hused : Used p a b q.forward := hp.used_assign a b
  refine ⟨hused.holds, (hq a b).mp hused.holds, ?_, ?_, ?_, ?_, hused.others, hused.keys_eq,
    fun x y => (hq x y).symm, source_assign p a b, capacity_assign p a b⟩
  · intro x hx hxb
    exact hused.contains_eq_false hx (Or.inl hxb)
  · intro v hv
    apply hp.insert_of_push (k := a)
    rw [RecencyTable.push_of_present hv]
  · intro ha hfull
    have habsent := RecencyTable.contains_eq_false_iff.mp ha
    obtain ⟨x, v, hroom, hx, hpush⟩ := RecencyTable.exists_makesRoom habsent hfull b
    have hne : x ≠ a := by
      rintro rfl
      exact Option.some_ne_none v (hx.symm.trans habsent)
    exact ⟨x, v, hroom, hx, hused.contains_eq_false hne (Or.inr hroom), hp.insert_of_push hpush⟩
  · intro ha hlt
    have habsent := RecencyTable.contains_eq_false_iff.mp ha
    have hpush : (p.forward.push a b).1 = none := by
      rw [RecencyTable.push_of_room habsent hlt]
    change (p.assign a b).queue = p.queue
    rw [queue_assign, freed, hpush]
    exact List.append_nil p.queue

theorem insert_keeps_other_keys_of_take_over :
    let p : Pool Nat Nat (List (Option Nat)) :=
      ((ofSource [some 7] 2 Nat.two_pos).insert 0 5).insert 1 6
    let q := p.insert 2 6
    q.owner? 6 = some 2 ∧ q.contains 1 = false ∧ q.contains 0 = false ∧ q.queue = [5] ∧
      q.owner? 5 = none := by
  have hentries : (((ofSource [some 7] 2 Nat.two_pos).insert 0 5).insert 1 6 :
      Pool Nat Nat (List (Option Nat))).forward.entries = [(1, 6), (0, 5)] := by cbv
  have hqueue : (((ofSource [some 7] 2 Nat.two_pos).insert 0 5).insert 1 6 :
      Pool Nat Nat (List (Option Nat))).queue = [] := by cbv
  intro p q
  have hrun : Run (ofSource [some 7] 2 Nat.two_pos) [.insert 0 5, .insert 1 6] p :=
    .cons (.insert 0 5) (.cons (.insert 1 6) (.nil p))
  have hget : ∀ x, p.forward.get? x = [(1, 6), (0, 5)].lookup x := by
    intro x
    rw [RecencyTable.get?, hentries]
  have hfull : p.size = p.capacity := by
    have hcapacity : p.capacity = 2 := (capacity_assign _ 1 6).trans (capacity_assign _ 0 5)
    rw [hcapacity]
    exact congrArg List.length hentries
  have habsent : p.contains 2 = false := by
    rw [contains, RecencyTable.contains, hget]
    rfl
  obtain ⟨-, howner, htaken, -, hroom, -⟩ := insert_keeps_other_keys hrun 2 6
  obtain ⟨x, v, hmakes, hxv, hleaves, hwaits, hfree⟩ := hroom habsent hfull
  obtain rfl : 0 = x := by
    have hlast := hmakes.last
    rw [RecencyTable.keys, hentries] at hlast
    exact Option.some.inj hlast
  obtain rfl : 5 = v := Option.some.inj ((hget 0).symm.trans hxv)
  refine ⟨howner, htaken 1 (by decide) (hget 1), hleaves, ?_, hfree (by decide)⟩
  rw [hwaits, hqueue]
  rfl

end AddressShuffle.Pool
