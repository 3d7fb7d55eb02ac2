import AddressShuffle.Proofs.Pool.LatestUse

/-! How full a table is after the least recent key had to make room. -/

namespace AddressShuffle

universe u v w

namespace RecencyTable

variable {α : Type u} {β : Type v} [DecidableEq α] {t : RecencyTable α β} {a x y : α}

omit [DecidableEq α] in
lemma length_keys (t : RecencyTable α β) : t.keys.length = t.size := List.length_map _

lemma makesRoom_of_keys {keys : List α} (hkeys : t.keys = keys) (ha : a ∉ keys)
    (hfull : keys.length = t.capacity) (hx : keys.getLast? = some x) : t.MakesRoom a x := by
  subst hkeys
  refine ⟨?_, ?_, hx⟩
  · rw [← Bool.not_eq_true, ← mem_keys_iff]
    exact ha
  · rw [← length_keys, hfull]

lemma MakesRoom.mem_keys (h : t.MakesRoom a x) : x ∈ t.keys :=
  List.mem_of_getLast? h.last

lemma MakesRoom.iff_eq (h : t.MakesRoom a x) : t.MakesRoom a y ↔ y = x := by
  constructor
  · intro hy
    exact Option.some.inj (hy.last.symm.trans h.last)
  · rintro rfl
    exact h

lemma MakesRoom.length_erase (h : t.MakesRoom a x) : (t.keys.erase x).length + 1 = t.capacity := by
  have hpos := List.length_pos_of_mem h.mem_keys
  rw [List.length_erase_of_mem h.mem_keys, Nat.sub_add_cancel hpos, length_keys, h.full]

end RecencyTable

namespace Pool

variable {α : Type u} {β : Type v} {ι : Type w} [DecidableEq α] [DecidableEq β] [Hashable β]
  {p q : Pool α β ι} {a k x : α} {b : β} {t : RecencyTable α β}

lemma Used.keys_of_makesRoom (h : Used p a b t) (hroom : p.forward.MakesRoom a x) :
    t.keys = a :: (p.forward.keys.erase x).filter fun y => p.forward.get? y ≠ some b := by
  have hnodup : p.forward.keys.Nodup := p.forward.nodup_keys
  rw [h.keys_eq, hnodup.erase_eq_filter, List.filter_filter]
  congr 1
  apply List.filter_congr
  intro y hy
  have hheld : p.contains y = true := RecencyTable.mem_keys_iff.mp hy
  have hya : y ≠ a := by
    rintro rfl
    exact Bool.false_ne_true (hroom.absent.symm.trans hheld)
  rw [Bool.eq_iff_iff]
  simp [hya, h.contains_iff hya, hheld, hroom.iff_eq]

lemma Used.size_of_sole (h : Used p a b t) (hroom : p.forward.MakesRoom a x)
    (hsole : ∀ k, p.forward.get? k = some b → k = x) : t.size = p.capacity := by
  have hkeep : ((p.forward.keys.erase x).filter fun y => p.forward.get? y ≠ some b) =
      p.forward.keys.erase x := by
    apply List.filter_eq_self.mpr
    intro y hy
    have hyx : y ≠ x := ((List.Nodup.mem_erase_iff p.forward.nodup_keys).mp hy).1
    exact decide_eq_true fun hb => hyx (hsole y hb)
  rw [← t.length_keys, h.keys_of_makesRoom hroom, hkeep, List.length_cons, hroom.length_erase]
  rfl

lemma Used.size_of_third (h : Used p a b t) (hp : Agrees p) (hroom : p.forward.MakesRoom a x)
    (hk : p.forward.get? k = some b) (hkx : k ≠ x) : t.size + 1 = p.capacity := by
  have hnodup : (p.forward.keys.erase x).Nodup := p.forward.nodup_keys.erase x
  have hmem : k ∈ p.forward.keys.erase x := by
    apply (List.mem_erase_of_ne hkx).mpr
    rw [RecencyTable.mem_keys_iff, RecencyTable.contains, hk, Option.isSome_some]
  have hholder : ∀ y, p.forward.get? y = some b ↔ y = k := by
    intro y
    rw [hp y b, (hp k b).mp hk, Option.some_inj, eq_comm]
  have hdrop : ((p.forward.keys.erase x).filter fun y => p.forward.get? y ≠ some b) =
      (p.forward.keys.erase x).erase k := by
    rw [hnodup.erase_eq_filter]
    apply List.filter_congr
    intro y _
    simp only [ne_eq, hholder y, bne, decide_not, beq_eq_decide]
  have hpos := List.length_pos_of_mem hmem
  rw [← t.length_keys, h.keys_of_makesRoom hroom, hdrop, List.length_cons,
    List.length_erase_of_mem hmem, Nat.sub_add_cancel hpos, hroom.length_erase]
  rfl

lemma Reply.eq_of_held [Source ι β] {n : Nat} {known : Bool}
    (h : Reply p a n (some (known, b)) q) (hp : Agrees p) (hk : p.forward.get? k = some b) :
    k = a := by
  have hfree : p.isLent b = false → k = a := by
    intro hb
    exact absurd (hb.symm.trans ((hp.isLent_iff b).mpr ⟨k, hk⟩)) Bool.false_ne_true
  cases h with
  | held ha => exact Option.some.inj (((hp k b).mp hk).symm.trans ((hp a b).mp ha))
  | queued _ _ _ hb => exact hfree hb
  | fresh _ _ _ _ hb => exact hfree hb

lemma Reply.full_of_lost [Source ι β] {n : Nat} {answer : Option (Bool × β)}
    (h : Reply p a n answer q) (hp : Agrees p) (hx : p.contains x = true)
    (hlost : q.contains x = false) : p.forward.MakesRoom a x ∧ q.size = q.capacity := by
  rcases answer with _ | ⟨known, b⟩
  · have hforward := h.forward_of_none
    rw [contains, hforward] at hlost
    exact absurd (hlost.symm.trans hx) Bool.false_ne_true
  · have hused := h.used hp
    have hxa : x ≠ a := by
      rintro rfl
      rw [contains, RecencyTable.contains, hused.holds] at hlost
      exact Bool.false_ne_true hlost.symm
    have hroom : p.forward.MakesRoom a x := by
      by_contra hroom
      have hheld : p.forward.get? x ≠ some b := fun hb => hxa (h.eq_of_held hp hb)
      exact Bool.false_ne_true (hlost.symm.trans ((hused.contains_iff hxa).mpr ⟨hx, hheld, hroom⟩))
    refine ⟨hroom, ?_⟩
    rw [h.capacity_eq]
    apply hused.size_of_sole hroom
    intro k hk
    obtain rfl := h.eq_of_held hp hk
    rw [RecencyTable.contains_eq_false_iff.mp hroom.absent] at hk
    exact absurd hk.symm (Option.some_ne_none b)

theorem full_after_making_room_iff [Source ι β] {source : ι} {capacity : Nat} {pos : 0 < capacity}
    {es : List (Event α β ι)} (h : Run (ofSource source capacity pos) es p) (a : α) :
    (∀ answer q x, Step p (.get a answer) q → p.contains x = true → q.contains x = false →
      p.forward.MakesRoom a x ∧ q.size = q.capacity) ∧
    ∀ b,
      (∀ x, x ≠ a → ((p.insert a b).contains x = true ↔
        p.contains x = true ∧ p.forward.get? x ≠ some b ∧ ¬p.forward.MakesRoom a x)) ∧
      ∀ x, p.forward.MakesRoom a x →
        ((p.insert a b).size = (p.insert a b).capacity ↔
          ∀ k, p.forward.get? k = some b → k = x) ∧
        ∀ k, k ≠ x → p.forward.get? k = some b →
          (p.insert a b).size + 1 = (p.insert a b).capacity := by
  have hp : Agrees p := agrees_of_run h
  constructor
  · intro answer q x hstep hx hlost
    cases hstep with
    | get hget =>
      obtain ⟨n, -, hrequest⟩ := exists_request hget
      exact hrequest.reply.full_of_lost hp hx hlost
  · intro b
    have hused : Used p a b (p.insert a b).forward := hp.used_assign a b
    have hcapacity : (p.insert a b).capacity = p.capacity := capacity_assign p a b
    refine ⟨fun x hx => hused.contains_iff hx, ?_⟩
    intro x hroom
    have hthird : ∀ k, k ≠ x → p.forward.get? k = some b →
        (p.insert a b).size + 1 = (p.insert a b).capacity := by
      intro k hkx hk
      rw [hcapacity]
      exact hused.size_of_third hp hroom hk hkx
    refine ⟨⟨?_, ?_⟩, hthird⟩
    · intro hfull k hk
      by_contra hkx
      have := hthird k hkx hk
      omega
    · intro hsole
      rw [hcapacity]
      exact hused.size_of_sole hroom hsole

theorem room_left_by_take_over :
    let p : Pool Nat Nat (List (Option Nat)) :=
      ((ofSource [] 2 Nat.two_pos).insert 0 5).insert 1 6
    Run (ofSource [] 2 Nat.two_pos) [.insert 0 5, .insert 1 6] p ∧
      p.forward.MakesRoom 2 0 ∧ p.forward.entries = [(1, 6), (0, 5)] ∧
      (p.insert 2 6).forward.entries = [(2, 6)] ∧ (p.insert 2 6).capacity = 2 := by
  have hentries : (((ofSource [] 2 Nat.two_pos).insert 0 5).insert 1 6 :
      Pool Nat Nat (List (Option Nat))).forward.entries = [(1, 6), (0, 5)] := by cbv
  have htaken : ((((ofSource [] 2 Nat.two_pos).insert 0 5).insert 1 6).insert 2 6 :
      Pool Nat Nat (List (Option Nat))).forward.entries = [(2, 6)] := by cbv
  intro p
  have hcapacity : p.capacity = 2 := (capacity_assign _ 1 6).trans (capacity_assign _ 0 5)
  have hroom : p.forward.MakesRoom 2 0 :=
    RecencyTable.makesRoom_of_keys (congrArg (List.map Prod.fst) hentries) (by decide)
      hcapacity.symm rfl
  exact ⟨.cons (.insert 0 5) (.cons (.insert 1 6) (.nil p)), hroom, hentries, htaken,
    (capacity_assign p 2 6).trans hcapacity⟩

theorem full_after_making_room_iff_of_two_values :
    let p : Pool Nat Nat (List (Option Nat)) :=
      ((ofSource [] 2 Nat.two_pos).insert 0 5).insert 1 6
    (p.insert 2 5).size = (p.insert 2 5).capacity ∧
      (p.insert 2 6).size + 1 = (p.insert 2 6).capacity := by
  have hentries : (((ofSource [] 2 Nat.two_pos).insert 0 5).insert 1 6 :
      Pool Nat Nat (List (Option Nat))).forward.entries = [(1, 6), (0, 5)] := by cbv
  intro p
  have hcapacity : p.capacity = 2 := (capacity_assign _ 1 6).trans (capacity_assign _ 0 5)
  have hroom : p.forward.MakesRoom 2 0 :=
    RecencyTable.makesRoom_of_keys (congrArg (List.map Prod.fst) hentries) (by decide)
      hcapacity.symm rfl
  have hrun : Run (ofSource [] 2 Nat.two_pos) [.insert 0 5, .insert 1 6] p :=
    .cons (.insert 0 5) (.cons (.insert 1 6) (.nil p))
  have hheld : ∀ k c, p.forward.get? k = some c ↔ k = 1 ∧ c = 6 ∨ k = 0 ∧ c = 5 := by
    intro k c
    rw [RecencyTable.get?_eq_some_iff, hentries]
    simp
  obtain ⟨-, hinsert⟩ := full_after_making_room_iff hrun 2
  constructor
  · apply ((hinsert 5).2 0 hroom).1.mpr
    simp [hheld]
  · exact ((hinsert 6).2 0 hroom).2 1 (by decide) ((hheld 1 6).mpr (by decide))

end Pool

end AddressShuffle
