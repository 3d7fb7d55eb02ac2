import AddressShuffle.Proofs.Pool.History

/-! Without insertions the keys, the queue and the source share out the values of the source, and at
most one value waits. -/

namespace AddressShuffle.Pool

universe u v w

variable {α : Type u} {β : Type v} {ι : Type w} [DecidableEq α] [DecidableEq β] [Hashable β]

/-- The values `drawn` from the source so far are those of the keys and at most one that waits,
which a full table has no room for. -/
structure Balanced (p : Pool α β ι) (drawn : List β) : Prop where
  perm : (p.lent ++ p.queue).Perm drawn
  queue_le : p.queue.length ≤ 1
  full : p.queue ≠ [] → p.size = p.capacity

omit [DecidableEq α] in
lemma balanced_ofSource (source : ι) (capacity : Nat) (pos : 0 < capacity) :
    Balanced (ofSource source capacity pos : Pool α β ι) [] :=
  ⟨List.Perm.refl _, Nat.zero_le 1, fun h => absurd rfl h⟩

lemma Balanced.not_isLent {p : Pool α β ι} {drawn : List β} (h : Balanced p drawn)
    (hp : Agrees p) {fresh : List β} (hnodup : (drawn ++ fresh).Nodup) {b : β}
    (hb : b ∈ p.queue ++ fresh) : p.isLent b = false := by
  rw [← Bool.not_eq_true, hp.isLent_iff_mem_lent]
  intro hlent
  have hperm : (p.lent ++ (p.queue ++ fresh)).Perm (drawn ++ fresh) := by
    rw [← List.append_assoc]
    exact h.perm.append_right fresh
  exact (List.disjoint_of_nodup_append (hperm.nodup_iff.mpr hnodup)) hlent hb

omit [DecidableEq α] in
lemma eq_nil_of_lent {p : Pool α β ι} {bs : List β} (hfree : ∀ b ∈ bs, p.isLent b = false)
    (hlent : ∀ b ∈ bs, p.isLent b = true) : bs = [] := by
  apply List.eq_nil_iff_forall_not_mem.mpr
  intro b hb
  exact Bool.false_ne_true ((hfree b hb).symm.trans (hlent b hb))

lemma Balanced.eq_nil_of_all_lent {p : Pool α β ι} {drawn : List β} (h : Balanced p drawn)
    (hp : Agrees p) {passed fresh : List β} (hnodup : (drawn ++ (passed ++ fresh)).Nodup)
    (hqueue : ∀ c ∈ p.queue, p.isLent c = true) (hpassed : ∀ c ∈ passed, p.isLent c = true) :
    p.queue = [] ∧ passed = [] := by
  constructor
  · apply eq_nil_of_lent _ hqueue
    intro c hc
    exact h.not_isLent hp hnodup (by simp [hc])
  · apply eq_nil_of_lent _ hpassed
    intro c hc
    exact h.not_isLent hp hnodup (by simp [hc])

lemma Agrees.balanced_assign {p : Pool α β ι} (h : Agrees p) {a : α} {b : β} {drawn : List β}
    (ha : p.forward.get? a = none) (hb : p.isLent b = false) (hqueue : p.queue = [])
    (hperm : (b :: p.lent).Perm drawn) : Balanced (p.assign a b) drawn := by
  obtain ⟨kept, out, hentries, hfull, hforward, hwaits⟩ := h.exists_assign_of_free ha hb
  rw [hqueue, List.nil_append] at hwaits
  refine ⟨?_, ?_, ?_⟩
  · have hsplit : p.lent = kept.map Prod.snd ++ (out.map Prod.snd).toList := by
      rw [lent, hentries, List.map_append]
      cases out <;> rfl
    rw [lent, hforward, hwaits, List.map_cons, List.cons_append, ← hsplit]
    exact hperm
  · rw [hwaits]
    cases out <;> simp
  · intro hne
    cases out with
    | none => exact absurd hwaits hne
    | some e =>
      have hsize : (p.assign a b).size = p.size := by
        rw [size, size, RecencyTable.size, RecencyTable.size, hforward, hentries]
        simp
      rw [hsize, capacity_assign]
      exact hfull.mp rfl

lemma Reply.balanced [Source ι β] {p q : Pool α β ι} {a : α} {n : Nat}
    {answer : Option (Bool × β)} (h : Reply p a n answer q) (hp : Agrees p) {drawn : List β}
    (hbalanced : Balanced p drawn) (hnodup : (drawn ++ Source.values n p.source).Nodup) :
    Balanced q (drawn ++ Source.values n p.source) := by
  cases h with
  | @held b ha =>
    have hperm := p.forward.perm_touch a
    rw [Source.values_zero, List.append_nil]
    refine ⟨((hperm.map Prod.snd).append_right p.queue).trans hbalanced.perm,
      hbalanced.queue_le, ?_⟩
    intro hne
    exact hperm.length_eq.trans
      ((hbalanced.full hne).trans (RecencyTable.capacity_touch p.forward a).symm)
  | @queued passed b queue ha hsplit hpassed hb =>
    have hlength := hbalanced.queue_le
    rw [hsplit, List.length_append, List.length_cons] at hlength
    obtain rfl : passed = [] := List.eq_nil_of_length_eq_zero (by omega)
    obtain rfl : queue = [] := List.eq_nil_of_length_eq_zero (by omega)
    have hperm := hbalanced.perm
    rw [hsplit, List.nil_append] at hperm
    rw [Source.values_zero, List.append_nil]
    exact Agrees.balanced_assign (p := { p with queue := [] }) hp ha hb rfl
      ((List.perm_append_singleton b p.lent).symm.trans hperm)
  | @fresh n b passed ha hqueue hanswers hpassed hb =>
    have hvalues : Source.values n p.source = passed ++ [b] := Source.values_of_answers hanswers
    rw [hvalues] at hnodup ⊢
    obtain ⟨hempty, rfl⟩ := hbalanced.eq_nil_of_all_lent hp hnodup hqueue hpassed
    have hperm := hbalanced.perm.append_right [b]
    rw [hempty, List.append_nil] at hperm
    exact Agrees.balanced_assign
      (p := { p with source := Source.after n p.source, queue := [] }) hp ha hb rfl
      ((List.perm_append_singleton b p.lent).symm.trans hperm)
  | @dry n passed ha hqueue hanswers hpassed =>
    have hvalues : Source.values n p.source = passed ++ [] := Source.values_of_answers hanswers
    rw [hvalues] at hnodup ⊢
    obtain ⟨hempty, rfl⟩ := hbalanced.eq_nil_of_all_lent hp hnodup hqueue hpassed
    have hperm := hbalanced.perm
    rw [hempty] at hperm
    rw [List.append_nil, List.append_nil]
    exact ⟨hperm, Nat.zero_le 1, fun hne => absurd rfl hne⟩

lemma Balanced.exists_request [Source ι β] {p : Pool α β ι} {drawn : List β}
    (h : Balanced p drawn) (hp : Agrees p) (hnodup : (drawn ++ Source.values 1 p.source).Nodup)
    (a : α) : ∃ n ≤ 1, ∃ answer q, Request p a n answer q := by
  -- neither the value that waits nor the next of the source has a key
  have hfree := fun c => h.not_isLent hp hnodup (b := c)
  cases ha : p.forward.get? a with
  | some b => exact ⟨0, Nat.zero_le 1, _, _, (Reply.held ha).request⟩
  | none =>
    cases hqueue : p.queue with
    | cons b queue =>
      have hb := hfree b (by simp [hqueue])
      have hsplit : p.queue = [] ++ b :: queue := hqueue
      exact ⟨0, Nat.zero_le 1, _, _, (Reply.queued ha hsplit (by simp) hb).request⟩
    | nil =>
      have hlent : ∀ c ∈ p.queue, p.isLent c = true := by simp [hqueue]
      cases hnext : (Source.next p.source).1 with
      | none =>
        have hanswers : Source.answers 1 p.source = [].map some ++ [none] := by
          rw [Source.answers, hnext]
          rfl
        exact ⟨1, le_rfl, _, _, (Reply.dry ha hlent hanswers (by simp)).request⟩
      | some b =>
        have hanswers : Source.answers 1 p.source = [].map some ++ [some b] := by
          rw [Source.answers, hnext]
          rfl
        have hb := hfree b (by simp [Source.values_of_answers hanswers])
        exact ⟨1, le_rfl, _, _, (Reply.fresh ha hlent hanswers (by simp) hb).request⟩

section

variable [Source ι β] {source : ι} {capacity : Nat} {pos : 0 < capacity}
  {es : List (Event α β ι)} {heard : List (Option β)} {p : Pool α β ι}

lemma History.balanced (h : History source capacity pos es heard p)
    (hgets : ∀ e ∈ es, e.IsGet) (hdistinct : Source.Distinct source) :
    Balanced p heard.reduceOption := by
  induction h with
  | start => exact balanced_ofSource source capacity pos
  | @get es heard p a n answer q h hget ih =>
    have hnodup := hdistinct (heard.length + n)
    rw [h.values_add] at hnodup
    rw [List.reduceOption_append]
    exact hget.reply.balanced h.agrees (ih fun e he => hgets e (List.mem_append_left _ he)) hnodup
  | insert a b => exact (hgets (.insert a b) (by simp)).elim

end

theorem requests_partition_source [Source ι β] {source : ι} {capacity : Nat} {pos : 0 < capacity}
    {es : List (Event α β ι)} {heard : List (Option β)} {p : Pool α β ι}
    (h : History source capacity pos es heard p) (hgets : ∀ e ∈ es, e.IsGet)
    (hdistinct : Source.Distinct source) :
    (∀ n, (p.lent ++ p.queue ++ Source.values n p.source).Perm
        (Source.values (heard.length + n) source) ∧
      (p.lent ++ p.queue ++ Source.values n p.source).Nodup) ∧
    p.queue.length ≤ 1 ∧ (p.queue ≠ [] → p.size = capacity) ∧
    heard.reduceOption.length = p.size + p.queue.length ∧
    heard.reduceOption.length ≤ capacity + 1 ∧
    ∀ a, ∃ n ≤ 1, ∃ answer q, Request p a n answer q := by
  have hbalanced := h.balanced hgets hdistinct
  have hdrawn : heard.reduceOption.length = p.size + p.queue.length := by
    rw [← hbalanced.perm.length_eq, List.length_append, length_lent]
  have hperm : ∀ n, (p.lent ++ p.queue ++ Source.values n p.source).Perm
      (Source.values (heard.length + n) source) := by
    intro n
    rw [h.values_add]
    exact hbalanced.perm.append_right _
  refine ⟨fun n => ⟨hperm n, (hperm n).nodup_iff.mpr (hdistinct _)⟩, hbalanced.queue_le, ?_, hdrawn,
    ?_, ?_⟩
  · intro hne
    exact (hbalanced.full hne).trans h.capacity_eq
  · have hsize : p.size ≤ capacity := h.capacity_eq ▸ p.forward.length_le
    have hqueue := hbalanced.queue_le
    omega
  · have hnodup := hdistinct (heard.length + 1)
    rw [h.values_add] at hnodup
    exact hbalanced.exists_request h.agrees hnodup

theorem requests_partition_source_of_turns :
    let range := AddressRange.ofNetwork ⟨.unspecified .v4, 30, by decide⟩
    let p₀ : Pool Nat Address (Shuffle Script) :=
      ofSource (Shuffle.ofRange range ⟨[1, 2, 0]⟩) 1 Nat.one_pos
    let p := (((p₀.get 0).2.get 1).2.get 0).2
    p.queue.length ≤ 1 ∧ ∃ heard : List (Option Address),
      History p₀.source 1 Nat.one_pos
        [.get 0 (p₀.get 0).1, .get 1 ((p₀.get 0).2.get 1).1,
          .get 0 (((p₀.get 0).2.get 1).2.get 0).1] heard p ∧
      heard.reduceOption.length ≤ 2 := by
  intro range p₀ p
  have hrun : Run p₀ [.get 0 (p₀.get 0).1, .get 1 ((p₀.get 0).2.get 1).1,
      .get 0 (((p₀.get 0).2.get 1).2.get 0).1] p :=
    .cons (step_get p₀ 0) (.cons (step_get _ 1) (.cons (step_get _ 0) (.nil p)))
  obtain ⟨heard, h⟩ := History.start.append hrun (by simp [Event.IsCall])
  obtain ⟨-, hqueue, -, -, hdrawn, -⟩ :=
    requests_partition_source h (by simp [Event.IsGet]) (Source.distinct_shuffle range _)
  exact ⟨hqueue, heard, h, hdrawn⟩

end AddressShuffle.Pool
