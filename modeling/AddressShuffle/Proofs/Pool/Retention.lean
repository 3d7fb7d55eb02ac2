import AddressShuffle.Proofs.Pool.History
import Mathlib.Data.Finset.Card
import Mathlib.Data.Finset.Option

/-! A key keeps its value while fewer other keys are used than the table has room for. -/

namespace AddressShuffle

universe u v w

namespace RecencyTable

variable {α : Type u} {β : Type v} [DecidableEq α]

/-- `a` holds `b`, and only keys of `recent` were used after `a`. -/
def HoldsBehind (t : RecencyTable α β) (recent : Finset α) (a : α) (b : β) : Prop :=
  ∃ front back, t.entries = front ++ (a, b) :: back ∧ ∀ e ∈ front, e.1 ∈ recent

variable {t : RecencyTable α β} {recent : Finset α} {a x : α} {b y : β}

omit [DecidableEq α] in
lemma HoldsBehind.mono {recent' : Finset α} (h : t.HoldsBehind recent a b)
    (hsub : recent ⊆ recent') : t.HoldsBehind recent' a b := by
  obtain ⟨front, back, hentries, hfront⟩ := h
  exact ⟨front, back, hentries, fun e he => hsub (hfront e he)⟩

lemma HoldsBehind.get? (h : t.HoldsBehind recent a b) : t.get? a = some b := by
  obtain ⟨front, back, hentries, -⟩ := h
  rw [get?_eq_some_iff, hentries]
  simp

lemma length_le_card {front back : List (α × β)} (hentries : t.entries = front ++ back)
    (hfront : ∀ e ∈ front, e.1 ∈ recent) : front.length ≤ recent.card := by
  have hnodup : (front.map Prod.fst).Nodup := by
    have h := t.nodup_keys
    rw [hentries, List.map_append] at h
    exact h.of_append_left
  have hsub : (front.map Prod.fst).toFinset ⊆ recent := by
    intro k hk
    obtain ⟨e, he, rfl⟩ := List.mem_map.mp (List.mem_toFinset.mp hk)
    exact hfront e he
  calc
    front.length = (front.map Prod.fst).length := (List.length_map _).symm
    _ = (front.map Prod.fst).toFinset.card := (List.toFinset_card_of_nodup hnodup).symm
    _ ≤ recent.card := Finset.card_le_card hsub

lemma HoldsBehind.erase (h : t.HoldsBehind recent a b) (hx : x ≠ a) :
    (t.erase x).HoldsBehind recent a b := by
  obtain ⟨front, back, hentries, hfront⟩ := h
  refine ⟨without x front, without x back, ?_, ?_⟩
  · simp [RecencyTable.erase, hentries, without, Ne.symm hx]
  · exact fun e he => hfront e (List.mem_of_mem_filter he)

lemma HoldsBehind.cons {t' : RecencyTable α β} (h : t.HoldsBehind recent a b)
    (hentries : t'.entries = (x, y) :: t.entries) : t'.HoldsBehind (recent ∪ {x}) a b := by
  obtain ⟨front, back, ht, hfront⟩ := h
  refine ⟨(x, y) :: front, back, ?_, ?_⟩
  · rw [hentries, ht, List.cons_append]
  · intro e he
    rcases List.mem_cons.mp he with rfl | he
    · exact Finset.mem_union_right _ (Finset.mem_singleton_self _)
    · exact Finset.mem_union_left _ (hfront e he)

lemma HoldsBehind.refresh (h : t.HoldsBehind recent a b) (hx : x ≠ a)
    (hpresent : (t.get? x).isSome) : (t.refresh x y hpresent).HoldsBehind (recent ∪ {x}) a b :=
  (h.erase hx).cons rfl

lemma HoldsBehind.dropLast (h : t.HoldsBehind recent a b)
    (hcard : recent.card + 1 < t.entries.length) : t.dropLast.HoldsBehind recent a b := by
  obtain ⟨front, back, hentries, hfront⟩ := h
  have hlength := length_le_card hentries hfront
  have hback : back ≠ [] := by
    rintro rfl
    rw [hentries, List.length_append, List.length_singleton] at hcard
    omega
  refine ⟨front, back.dropLast, ?_, hfront⟩
  change t.entries.dropLast = front ++ (a, b) :: back.dropLast
  rw [hentries, List.dropLast_append_of_ne_nil (List.cons_ne_nil _ _),
    List.dropLast_cons_of_ne_nil hback]

lemma HoldsBehind.erase_absent (h : t.HoldsBehind recent a b) (hx : t.get? x = none) :
    t.HoldsBehind (recent.erase x) a b := by
  obtain ⟨front, back, hentries, hfront⟩ := h
  refine ⟨front, back, hentries, ?_⟩
  intro e he
  refine Finset.mem_erase.mpr ⟨?_, hfront e he⟩
  rintro rfl
  apply not_mem_keys hx
  rw [keys, hentries, List.map_append]
  exact List.mem_append_left _ (List.mem_map_of_mem he)

lemma HoldsBehind.push (h : t.HoldsBehind recent a b) (hx : x ≠ a)
    (hcard : (recent ∪ {x}).card < t.capacity) :
    (t.push x y).2.HoldsBehind (recent ∪ {x}) a b := by
  cases hget : t.get? x with
  | some old =>
    rw [push_of_present hget]
    exact h.refresh hx (by simp [hget])
  | none =>
    rcases Nat.lt_or_ge t.entries.length t.capacity with hlt | hle
    · rw [push_of_room hget hlt]
      exact h.cons rfl
    · have hrecent : recent ∪ {x} = recent.erase x ∪ {x} := by
        ext k
        by_cases hk : k = x <;> simp [hk]
      have habsent := h.erase_absent hget
      rw [hrecent, Finset.union_singleton,
        Finset.card_insert_of_notMem (Finset.notMem_erase x recent)] at hcard
      rw [push_of_full hget hle, hrecent]
      exact (habsent.dropLast (by omega)).cons rfl

lemma holdsBehind_push_self (t : RecencyTable α β) (a : α) (b : β) :
    (t.push a b).2.HoldsBehind ∅ a b := by
  cases hget : t.get? a with
  | some old =>
    rw [push_of_present hget]
    exact ⟨[], _, rfl, by simp⟩
  | none =>
    rcases Nat.lt_or_ge t.entries.length t.capacity with hlt | hle
    · rw [push_of_room hget hlt]
      exact ⟨[], _, rfl, by simp⟩
    · rw [push_of_full hget hle]
      exact ⟨[], _, rfl, by simp⟩

end RecencyTable

namespace Pool

variable {α : Type u} {β : Type v} {ι : Type w} [DecidableEq α] [DecidableEq β] [Hashable β]

lemma Agrees.holdsBehind_assign {p : Pool α β ι} (h : Agrees p) {recent : Finset α} {a x : α}
    {b y : β} (hb : p.forward.HoldsBehind recent a b) (hx : x ≠ a) (hy : y ≠ b)
    (hcard : (recent ∪ {x}).card < p.capacity) :
    (p.assign x y).forward.HoldsBehind (recent ∪ {x}) a b := by
  have hpush := hb.push (y := y) hx hcard
  rw [h.forward_assign]
  cases hk : p.owner? y with
  | none => exact hpush
  | some k =>
    have hka : k ≠ a := by
      rintro rfl
      exact hy (Option.some.inj (((h k y).mpr hk).symm.trans hb.get?))
    by_cases hkx : k = x
    · simpa only [if_pos hkx] using hpush
    · simpa only [if_neg hkx] using hpush.erase hka

lemma Agrees.holdsBehind_assign_self {p : Pool α β ι} (h : Agrees p) (a : α) (b : β) :
    (p.assign a b).forward.HoldsBehind ∅ a b := by
  have hpush := RecencyTable.holdsBehind_push_self p.forward a b
  rw [h.forward_assign]
  cases hk : p.owner? b with
  | none => exact hpush
  | some k =>
    by_cases hka : k = a
    · simpa only [if_pos hka] using hpush
    · simpa only [if_neg hka] using hpush.erase hka

lemma Reply.holdsBehind [Source ι β] {p q : Pool α β ι} {recent : Finset α} {a x : α} {b : β}
    {n : Nat} {answer : Option (Bool × β)} (h : Reply p x n answer q) (hp : Agrees p)
    (hb : p.forward.HoldsBehind recent a b) (hx : x ≠ a)
    (hcard : (recent ∪ {x}).card < p.capacity) :
    q.forward.HoldsBehind (recent ∪ {x}) a b := by
  have hlent : p.isLent b = true := (hp.isLent_iff b).mpr ⟨a, hb.get?⟩
  have hfree : ∀ c, p.isLent c = false → c ≠ b := by
    rintro c hc rfl
    exact Bool.false_ne_true (hc.symm.trans hlent)
  cases h with
  | held hget =>
    rw [RecencyTable.touch_of_present hget]
    exact hb.refresh hx (by simp [hget])
  | @queued passed c queue hget hsplit hpassed hc =>
    exact Agrees.holdsBehind_assign (p := { p with queue }) hp hb hx (hfree c hc) hcard
  | @fresh n c passed hget hqueue hanswers hpassed hc =>
    let s := Source.after n p.source
    exact Agrees.holdsBehind_assign (p := { p with source := s, queue := [] }) hp hb hx
      (hfree c hc) hcard
  | dry => exact hb.mono Finset.subset_union_left

lemma Reply.holdsBehind_of_answer [Source ι β] {p q : Pool α β ι} {a : α} {b : β} {n : Nat}
    {known : Bool} (h : Reply p a n (some (known, b)) q) (hp : Agrees p) :
    q.forward.HoldsBehind ∅ a b := by
  cases h with
  | held hget =>
    rw [RecencyTable.touch_of_present hget]
    exact ⟨[], _, rfl, by simp⟩
  | @queued passed b queue =>
    exact Agrees.holdsBehind_assign_self (p := { p with queue }) hp a b
  | @fresh n b passed =>
    let s := Source.after n p.source
    exact Agrees.holdsBehind_assign_self (p := { p with source := s, queue := [] }) hp a b

def Event.key? : Event α β ι → Option α
  | .get a _ => some a
  | .insert a _ => some a
  | .reset .. => none

/-- The call gives `a` no value but `b`, and `b` to no key but `a`. -/
def Event.Spares (a : α) (b : β) : Event α β ι → Prop
  | .get .. => True
  | .insert x y => x = a ↔ y = b
  | .reset .. => False

lemma holdsBehind_step [Source ι β] {p q : Pool α β ι} {e : Event α β ι} {recent : Finset α}
    {a : α} {b : β} (hp : Agrees p) (hb : p.forward.HoldsBehind recent a b) (hstep : Step p e q)
    (he : e.Spares a b) (hcard : (recent ∪ e.key?.toFinset.erase a).card < p.capacity) :
    q.forward.HoldsBehind (recent ∪ e.key?.toFinset.erase a) a b ∧ q.capacity = p.capacity := by
  cases hstep with
  | reset => exact he.elim
  | insert x y =>
    refine ⟨?_, capacity_assign p x y⟩
    by_cases hx : x = a
    · obtain rfl := he.mp hx
      subst hx
      exact (hp.holdsBehind_assign_self x y).mono (Finset.empty_subset _)
    · have hkey : (some x).toFinset.erase a = {x} := by simp [Ne.symm hx]
      simp only [Event.key?, hkey] at hcard ⊢
      exact hp.holdsBehind_assign hb hx (fun hy => hx (he.mpr hy)) hcard
  | @get q x answer draws hget =>
    obtain ⟨n, -, hrequest⟩ := exists_request hget
    refine ⟨?_, hrequest.reply.capacity_eq⟩
    by_cases hx : x = a
    · subst hx
      rw [getWithin?_of_get? hb.get?, Option.some.injEq, Prod.mk.injEq] at hget
      obtain ⟨rfl, -⟩ := hget
      exact (hrequest.reply.holdsBehind_of_answer hp).mono (Finset.empty_subset _)
    · have hkey : (some x).toFinset.erase a = {x} := by simp [Ne.symm hx]
      simp only [Event.key?, hkey] at hcard ⊢
      exact hrequest.reply.holdsBehind hp hb hx hcard

lemma Run.holdsBehind [Source ι β] {p q : Pool α β ι} {es : List (Event α β ι)}
    {recent : Finset α} {a : α} {b : β} (h : Run p es q) (hp : Agrees p)
    (hb : p.forward.HoldsBehind recent a b) (hes : ∀ e ∈ es, e.Spares a b)
    (hcard : (recent ∪ (es.filterMap Event.key?).toFinset.erase a).card < p.capacity) :
    q.forward.HoldsBehind (recent ∪ (es.filterMap Event.key?).toFinset.erase a) a b := by
  induction h generalizing recent with
  | nil p => exact hb.mono Finset.subset_union_left
  | @cons p q r e es hstep _ ih =>
    have hnamed : recent ∪ ((e :: es).filterMap Event.key?).toFinset.erase a =
        recent ∪ e.key?.toFinset.erase a ∪ (es.filterMap Event.key?).toFinset.erase a := by
      rw [Finset.union_assoc, ← Finset.erase_union_distrib]
      cases hkey : e.key? <;> simp [hkey]
    rw [hnamed] at hcard ⊢
    obtain ⟨he, hes⟩ := List.forall_mem_cons.mp hes
    have hless := (Finset.card_le_card Finset.subset_union_left).trans_lt hcard
    obtain ⟨hq, hcapacity⟩ := holdsBehind_step hp hb hstep he hless
    exact ih (Agrees.step hstep hp) hq hes (hcapacity.symm ▸ hcard)

def Event.Settles (a : α) (b : β) : Event α β ι → Prop
  | .get x (some (_, y)) => x = a ∧ y = b
  | .insert x y => x = a ∧ y = b
  | _ => False

lemma holdsBehind_of_settles [Source ι β] {p q : Pool α β ι} {e : Event α β ι} {a : α} {b : β}
    (h : Step p e q) (hp : Agrees p) (he : e.Settles a b) : q.forward.HoldsBehind ∅ a b := by
  cases h with
  | reset => exact he.elim
  | insert x y =>
    obtain ⟨rfl, rfl⟩ := he
    exact hp.holdsBehind_assign_self x y
  | @get q x answer draws hget =>
    obtain ⟨n, -, hrequest⟩ := exists_request hget
    rcases answer with _ | ⟨known, y⟩
    · exact he.elim
    · obtain ⟨rfl, rfl⟩ := he
      exact hrequest.reply.holdsBehind_of_answer hp

theorem recent_assignment_kept [Source ι β] {source : ι} {capacity : Nat} {pos : 0 < capacity}
    {es es' : List (Event α β ι)} {e : Event α β ι} {p q r : Pool α β ι} {a : α} {b : β}
    (hreached : Run (ofSource source capacity pos) es p) (hstep : Step p e q)
    (he : e.Settles a b) (hrun : Run q es' r) (hes' : ∀ e ∈ es', e.Spares a b)
    (hcard : ((es'.filterMap Event.key?).toFinset.erase a).card < q.capacity) :
    (∃ r', ∀ draws, r.getWithin? draws a = some (some (true, b), r')) ∧ r.owner? b = some a := by
  have hp := agrees_of_run hreached
  have hq := Agrees.step hstep hp
  have hstart := holdsBehind_of_settles hstep hp he
  have hend := hrun.holdsBehind hq hstart hes' (by rwa [Finset.empty_union])
  have hr : Agrees r := hrun.induct hq Agrees.step
  exact ⟨⟨_, getWithin?_of_get? hend.get?⟩, (hr a b).mp hend.get?⟩

theorem recent_assignment_kept_of_reserved :
    let p : Pool Nat Nat (List (Option Nat)) := ofSource [some 5, some 8] 2 Nat.two_pos
    let r := ((p.insert 0 5).get 1).2
    (∃ r', ∀ draws, r.getWithin? draws 0 = some (some (true, 5), r')) ∧ r.owner? 5 = some 0 := by
  intro p r
  let q := p.insert 0 5
  have hrun : Run q [.get 1 (q.get 1).1] r := .cons (step_get q 1) (.nil r)
  have hcapacity : q.capacity = 2 := capacity_assign p 0 5
  refine recent_assignment_kept (.nil p) (.insert 0 5) ⟨rfl, rfl⟩ hrun ?_ ?_
  · exact List.forall_mem_singleton.mpr trivial
  · rw [hcapacity]
    decide

end Pool

end AddressShuffle
