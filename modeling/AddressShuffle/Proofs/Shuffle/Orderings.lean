import AddressShuffle.Proofs.Shuffle.Enumeration
import Mathlib.Algebra.BigOperators.Fin
import Mathlib.Data.Nat.Factorial.BigOperators
import Mathlib.Probability.Distributions.Uniform

/-! Every order of addresses of a range comes from one sequence of choices. -/

namespace AddressShuffle.Shuffle

open Picker

universe u

variable {γ : Type u}

lemma next_script {s : Shuffle γ} (h : s.exhausted = false) (hc : s.cursor ≠ 0) {c : Nat}
    (hle : c ≤ s.cursor) (cs : List Nat) :
    (s.withPicker (Script.mk (c :: cs))).next =
      ((s.slot c, false), (s.deal c).withPicker (Script.mk cs)) := by
  rw [next_withPicker h hc, Script.pick_cons hle]

lemma countdown_take_of_cursor_ne_zero {s : Shuffle γ} (h : s.exhausted = false)
    (hc : s.cursor ≠ 0) (picked k : Nat) :
    (countdown (s.left - 1)).take (k + 1) =
      s.cursor :: (countdown ((s.deal picked).left - 1)).take k := by
  rw [left_deal h hc, left_of_not_exhausted h]
  cases hn : s.cursor with
  | zero => exact absurd hn hc
  | succ n => rfl

lemma eq_singleton_of_last {s : Shuffle γ} (h : s.exhausted = false) (hc : s.cursor = 0)
    {a : Address} {order : List Address} (hnodup : (a :: order).Nodup)
    (hmem : ∀ b ∈ a :: order, b ∈ s.inPlay) : order = [] ∧ a = s.slot 0 := by
  have hlast : ∀ b ∈ a :: order, b = s.slot 0 := by
    intro b hb
    have hplay := hmem b hb
    rw [inPlay_of_not_exhausted h, hc] at hplay
    exact List.mem_singleton.mp hplay
  refine ⟨List.eq_nil_iff_forall_not_mem.mpr ?_, hlast a List.mem_cons_self⟩
  intro b hb
  have heq : b = a :=
    (hlast b (List.mem_cons_of_mem a hb)).trans (hlast a List.mem_cons_self).symm
  exact (List.nodup_cons.mp hnodup).1 (heq ▸ hb)

lemma existsUnique_script (order : List Address) (s : Shuffle γ) (hs : s.inPlay.Nodup)
    (hnodup : order.Nodup) (hmem : ∀ a ∈ order, a ∈ s.inPlay) :
    ∃! cs : List Nat,
      List.Forall₂ (· ≤ ·) cs ((countdown (s.left - 1)).take order.length) ∧
      taken order.length (s.withPicker (Script.mk cs)) = order := by
  induction order generalizing s with
  | nil =>
    refine ⟨[], ⟨.nil, rfl⟩, ?_⟩
    rintro cs ⟨hcs, -⟩
    exact List.forall₂_nil_right_iff.mp hcs
  | cons a order ih =>
    obtain ⟨he, r, hle, hra⟩ := exists_slot_of_mem_inPlay (hmem a List.mem_cons_self)
    by_cases hc : s.cursor = 0
    · obtain ⟨rfl, rfl⟩ := eq_singleton_of_last he hc hnodup hmem
      have hleft : s.left - 1 = 0 := by
        rw [left_of_not_exhausted he]
        omega
      rw [hleft]
      refine ⟨[], ⟨.nil, ?_⟩, ?_⟩
      · exact congrArg (fun e => [e.1.1])
          (next_of_cursor_eq_zero (s := s.withPicker (Script.mk [])) he hc)
      · rintro cs ⟨hcs, -⟩
        exact List.forall₂_nil_right_iff.mp hcs
    · -- `a` sits in slot `r` alone, so the first choice is `r`; the others stay in play
      have hplay : ∀ b ∈ order, b ∈ (s.deal r).inPlay := by
        intro b hb
        apply mem_inPlay_deal he hc hle (hmem b (List.mem_cons_of_mem a hb))
        rw [hra]
        intro hba
        exact (List.nodup_cons.mp hnodup).1 (hba ▸ hb)
      obtain ⟨cs, ⟨hcs, htaken⟩, hunique⟩ :=
        ih (s.deal r) (nodup_inPlay_deal he hc hle hs) hnodup.of_cons hplay
      rw [List.length_cons, countdown_take_of_cursor_ne_zero he hc r]
      refine ⟨r :: cs, ⟨.cons hle hcs, ?_⟩, ?_⟩
      · rw [taken_succ, next_script he hc hle, hra, htaken]
      · rintro ds ⟨hds, hdealt⟩
        obtain ⟨d, ds, hd, hrest, rfl⟩ := List.forall₂_cons_right_iff.mp hds
        rw [taken_succ, next_script he hc hd, List.cons.injEq] at hdealt
        obtain rfl : d = r := slot_injective he hs hd hle (hdealt.1.trans hra.symm)
        exact congrArg _ (hunique ds ⟨hrest, hdealt.2⟩)

lemma card_picks {n k : Nat} (hk : k ≤ n + 1) :
    Fintype.card (Picks k n) = (n + 1).descFactorial k := by
  have hprod : Fintype.card (Picks k n) = (n + 1).descFactorial (min k n) := by
    rw [Nat.descFactorial_eq_prod_range, ← Fin.prod_univ_eq_prod_range, Fintype.card_pi]
    apply Finset.prod_congr rfl
    intro i _
    rw [Fintype.card_fin]
    omega
  rw [hprod]
  rcases Nat.lt_or_ge n k with h | h
  · obtain rfl : k = n + 1 := by omega
    rw [Nat.min_eq_right (by omega), Nat.descFactorial_succ, Nat.add_sub_cancel_left, one_mul]
  · rw [Nat.min_eq_left h]

lemma existsUnique_picks (range : AddressRange) {order : List Address}
    (hnodup : order.Nodup) (hmem : ∀ a ∈ order, range.contains a = true) :
    ∃! picks : Picks order.length range.lastOffset,
      taken order.length (ofRange range (Script.ofPicks picks)) = order := by
  let s := ofRange range (Script.mk [])
  have hplay : s.inPlay = range.addresses := inPlay_ofRange range _
  have hin : ∀ a ∈ order, a ∈ s.inPlay := by
    intro a ha
    rw [hplay]
    exact AddressRange.mem_addresses.mpr (hmem a ha)
  obtain ⟨cs, ⟨hcs, htaken⟩, hunique⟩ :=
    existsUnique_script order s (hplay ▸ range.nodup_addresses) hnodup hin
  obtain ⟨picks, hpicks⟩ := Script.exists_ofPicks_eq hcs
  refine ⟨picks, ?_, ?_⟩
  · change taken order.length (ofRange range (Script.ofPicks picks)) = order
    rw [hpicks]
    exact htaken
  · intro other hother
    have hlist := hunique (Script.ofPicks other).choices ⟨Script.forall₂_ofPicks other, hother⟩
    exact Script.ofPicks_injective ((congrArg Script.mk hlist).trans hpicks.symm)

lemma length_le_size {range : AddressRange} {order : List Address} (hnodup : order.Nodup)
    (hmem : ∀ a ∈ order, range.contains a = true) : order.length ≤ range.size := by
  rw [← AddressRange.length_addresses]
  exact (hnodup.subperm fun a ha => AddressRange.mem_addresses.mpr (hmem a ha)).length_le

lemma uniform_taken (range : AddressRange) {order : List Address}
    (hnodup : order.Nodup) (hmem : ∀ a ∈ order, range.contains a = true) :
    (PMF.uniformOfFintype (Picks order.length range.lastOffset)).map
      (fun picks => taken order.length (ofRange range (Script.ofPicks picks))) order =
      ((range.size.descFactorial order.length : Nat) : ENNReal)⁻¹ := by
  obtain ⟨picks, htaken, hunique⟩ := existsUnique_picks range hnodup hmem
  rw [PMF.map_apply, tsum_eq_single picks]
  · rw [if_pos htaken.symm, PMF.uniformOfFintype_apply,
      card_picks (length_le_size hnodup hmem)]
    rfl
  · intro other hother
    exact if_neg fun h => hother (hunique other h.symm)

lemma taken_eq_taken_script [Picker γ] (k : Nat) (range : AddressRange) (picker : γ) :
    taken k (ofRange range picker) =
      taken k (ofRange range
        (Script.mk (choices ((countdown range.lastOffset).take k) picker))) := by
  have h := answers_withPicker k (ofRange range picker)
    (Script.mk (choices ((countdown range.lastOffset).take k) picker))
    (Script.choices_script (forall₂_choices _ picker))
  exact congrArg (List.map Prod.fst) h.symm

theorem existsUnique_picks_taken_eq (range : AddressRange) (order : List Address)
    (hnodup : order.Nodup) (hmem : ∀ a ∈ order, range.contains a = true) :
    (∃! picks : Picks order.length range.lastOffset,
      taken order.length (ofRange range (Script.ofPicks picks)) = order) ∧
    (∀ {γ : Type u} [Picker γ] (picker : γ),
      taken order.length (ofRange range picker) =
        taken order.length (ofRange range
          (Script.mk (choices ((countdown range.lastOffset).take order.length) picker)))) ∧
    (PMF.uniformOfFintype (Picks order.length range.lastOffset)).map
      (fun picks => taken order.length (ofRange range (Script.ofPicks picks))) order =
      ((range.size.descFactorial order.length : Nat) : ENNReal)⁻¹ :=
  ⟨existsUnique_picks range hnodup hmem,
    fun picker => taken_eq_taken_script order.length range picker,
    uniform_taken range hnodup hmem⟩

theorem existsUnique_picks_taken_eq_of_quad :
    let range := AddressRange.ofNetwork ⟨.unspecified .v4, 30, by decide⟩
    let order := [range.address 2, range.address 0, range.address 3, range.address 1]
    ∃! picks : Picks 4 3, taken 4 (ofRange range (Script.ofPicks picks)) = order := by
  intro range order
  exact (existsUnique_picks_taken_eq.{0} range order (by decide) (by decide)).1

end AddressShuffle.Shuffle
