import AddressShuffle.Proofs.Pool.Conservation
import Mathlib.Data.List.Dedup

/-! A value given to a key while it waits keeps its place in the queue, and so stands there twice
when it loses that key. -/

namespace AddressShuffle.Pool

universe u v w

variable {α : Type u} {β : Type v} {ι : Type w} [DecidableEq α] [DecidableEq β] [Hashable β]
  {p q : Pool α β ι} {a : α} {b y : β}

def places (p : Pool α β ι) (y : β) : Nat := (p.lent ++ p.queue).count y

def spare (p : Pool α β ι) (y : β) : Nat := p.places y - 1

lemma Agrees.count_lent (h : Agrees p) (y : β) :
    p.lent.count y = if p.isLent y then 1 else 0 := by
  rw [h.nodup_lent.count]
  simp only [h.isLent_iff_mem_lent]

lemma Agrees.places_eq (h : Agrees p) (y : β) :
    p.places y = (if p.isLent y then 1 else 0) + p.queue.count y := by
  rw [places, List.count_append, h.count_lent]

lemma Agrees.keeps_iff_places_pos (h : Agrees p) (y : β) : p.Keeps y ↔ 0 < p.places y := by
  rw [Keeps, h.isLent_iff_mem_lent, places, List.count_pos_iff, List.mem_append]

lemma Agrees.places_assign (h : Agrees p) (a : α) (b y : β) :
    (p.assign a b).places y = p.places y + if y = b ∧ p.isLent b = false then 1 else 0 := by
  have hlent := h.isLent_assign_iff a b y
  rw [(h.assign a b).places_eq, h.places_eq, queue_assign, List.count_append]
  by_cases hf : p.freed a b = some y
  · have hy : y ≠ b := (freed_eq_some_iff.mp hf).1
    have hleft : ¬(p.assign a b).isLent y = true := by simp [hlent, hy, hf]
    rw [if_neg hleft, if_pos (h.isLent_of_freed hf), if_neg fun hc => hy hc.1, hf]
    simp [Nat.add_comm]
  · have hnot : (p.freed a b).toList.count y = 0 := by
      rw [List.count_eq_zero, Option.mem_toList]
      exact hf
    rw [hnot]
    by_cases hy : y = b
    · rw [if_pos (hlent.mpr (Or.inl hy)), hy]
      cases p.isLent b with
      | true => simp
      | false => simp [Nat.add_comm]
    · have hsame : (p.assign a b).isLent y = p.isLent y := by
        rw [Bool.eq_iff_iff, hlent]
        simp [hy, hf]
      have hother : ¬(y = b ∧ p.isLent b = false) := fun hc => hy hc.1
      rw [hsame, if_neg hother, Nat.add_zero, Nat.add_zero]

lemma Waits.places_eq (h : p.Waits b) (hp : Agrees p) : p.places b = p.queue.count b := by
  rw [hp.places_eq, h.not_lent, if_neg Bool.false_ne_true, Nat.zero_add]

lemma Agrees.spare_skip (h : Agrees p) {passed queue : List β} (source : ι)
    (hsplit : p.queue = passed ++ queue) (hpassed : ∀ c ∈ passed, p.isLent c = true) (y : β) :
    spare { p with source, queue } y + passed.count y = p.spare y := by
  have hr : Agrees { p with source, queue } := h
  have hplaces : places { p with source, queue } y =
      (if p.isLent y then 1 else 0) + queue.count y := hr.places_eq y
  rw [spare, spare, hplaces, h.places_eq, hsplit, List.count_append]
  -- what is passed over has a place with its key, so that every copy of it was one to spare
  by_cases hy : y ∈ passed
  · rw [if_pos (hpassed y hy)]
    omega
  · rw [List.count_eq_zero.mpr hy]
    omega

lemma Agrees.spare_assign_of_not_keeps (h : Agrees p) (hb : ¬p.Keeps b) (a : α) (y : β) :
    (p.assign a b).spare y = p.spare y := by
  have hnone : p.places b = 0 := by
    rw [h.keeps_iff_places_pos] at hb
    omega
  rw [spare, spare, h.places_assign]
  split_ifs with hy
  · rw [hy.1, hnone]
  · rfl

lemma Agrees.spare_assign_of_queue (h : Agrees p) {queue : List β} (hb : p.isLent b = false)
    (a : α) (y : β) :
    (Pool.assign { p with queue } a b).spare y = spare { p with queue := b :: queue } y := by
  have hr : Agrees { p with queue } := h
  have hs : Agrees { p with queue := b :: queue } := h
  have hfree : isLent { p with queue } b = false := hb
  rw [spare, spare, hr.places_assign, hr.places_eq, hs.places_eq, Nat.add_assoc]
  congr 3
  by_cases hy : y = b
  · rw [hy, if_pos ⟨rfl, hfree⟩, List.count_cons_self]
  · have hother : ¬(y = b ∧ isLent { p with queue } b = false) := fun hc => hy hc.1
    rw [if_neg hother, List.count_cons_of_ne (Ne.symm hy), Nat.add_zero]

lemma Agrees.spare_insert_of_not_waits (h : Agrees p) (hb : ¬p.Waits b) (a : α) (y : β) :
    (p.insert a b).spare y = p.spare y := by
  cases hlent : p.isLent b with
  | true =>
    rw [Pool.insert, spare, h.places_assign, hlent, if_neg (by simp)]
    rfl
  | false =>
    apply h.spare_assign_of_not_keeps
    rintro (hc | hc)
    · exact Bool.false_ne_true (hlent.symm.trans hc)
    · exact hb ⟨hc, hlent⟩

lemma Agrees.spare_insert_of_waits (h : Agrees p) (hb : p.Waits b) (a : α) (y : β) :
    (p.insert a b).spare y = p.spare y + [b].count y := by
  have hpos : 0 < p.places b := (h.keeps_iff_places_pos b).mp (Or.inr hb.mem_queue)
  rw [Pool.insert, spare, spare, h.places_assign]
  by_cases hy : y = b
  · subst hy
    rw [if_pos ⟨rfl, hb.not_lent⟩, List.count_singleton_self]
    omega
  · rw [if_neg fun hc => hy hc.1, List.count_singleton, if_neg (by simpa using Ne.symm hy)]
    omega

def dropped (p : Pool α β ι) (a : α) : List β :=
  if p.contains a then [] else p.queue.takeWhile p.isLent

lemma dropped_of_absent (ha : p.forward.get? a = none) :
    p.dropped a = p.queue.takeWhile p.isLent := by
  rw [dropped, contains, RecencyTable.contains, ha]
  rfl

lemma dropped_of_all_lent (ha : p.forward.get? a = none)
    (hqueue : ∀ c ∈ p.queue, p.isLent c = true) : p.dropped a = p.queue := by
  rw [dropped_of_absent ha, List.takeWhile_eq_self_iff.mpr hqueue]

lemma Reply.spare_add [Source ι β] {n : Nat} {answer : Option (Bool × β)}
    (h : Reply p a n answer q) (hp : Agrees p) (y : β) :
    q.spare y + (p.dropped a).count y = p.spare y := by
  cases h with
  | @held b ha =>
    have hnone : p.dropped a = [] := by
      rw [dropped, contains, RecencyTable.contains, ha]
      rfl
    rw [hnone, spare, (hp.touch a).places_eq, spare, hp.places_eq]
    rfl
  | @queued passed b queue ha hsplit hpassed hfree =>
    have hdropped : p.dropped a = passed := by
      rw [dropped_of_absent ha, hsplit, List.takeWhile_append_of_pos hpassed,
        List.takeWhile_cons_of_neg (by simp [hfree]), List.append_nil]
    rw [hdropped, hp.spare_assign_of_queue hfree]
    exact hp.spare_skip p.source hsplit hpassed y
  | @fresh n b passed ha hqueue hanswers hpassed hfree =>
    let s := Source.after n p.source
    have hr : Agrees { p with source := s, queue := [] } := hp
    rw [dropped_of_all_lent ha hqueue, hr.spare_assign_of_not_keeps]
    · exact hp.spare_skip s (List.append_nil p.queue).symm hqueue y
    · rintro (hc | hc)
      · exact Bool.false_ne_true (hfree.symm.trans hc)
      · exact List.not_mem_nil hc
  | @dry n passed ha hqueue hanswers hpassed =>
    rw [dropped_of_all_lent ha hqueue]
    exact hp.spare_skip _ (List.append_nil p.queue).symm hqueue y

/-- A run since a pool was made: the calls, the answers of the source, the values that insertions
took from those that waited, and the values that requests took off the queue although they had a
key. -/
inductive Tally [Source ι β] (source : ι) (capacity : Nat) (pos : 0 < capacity) :
    List (Event α β ι) → List (Option β) → List β → List β → Pool α β ι → Prop
  | start : Tally source capacity pos [] [] [] [] (ofSource source capacity pos)
  | get {es heard retaken passed p a n answer q} :
      Tally source capacity pos es heard retaken passed p → Request p a n answer q →
      Tally source capacity pos (es ++ [.get a answer]) (heard ++ Source.answers n p.source)
        retaken (passed ++ p.dropped a) q
  | insert {es heard retaken passed p} (a b) :
      Tally source capacity pos es heard retaken passed p → ¬p.Waits b →
      Tally source capacity pos (es ++ [.insert a b]) heard retaken passed (p.insert a b)
  | retake {es heard retaken passed p} (a b) :
      Tally source capacity pos es heard retaken passed p → p.Waits b →
      Tally source capacity pos (es ++ [.insert a b]) heard (retaken ++ [b]) passed (p.insert a b)

def Event.inserted? : Event α β ι → Option β
  | .insert _ b => some b
  | _ => none

def suppliedValues (es : List (Event α β ι)) (heard : List (Option β)) : List β :=
  (heard.reduceOption ++ es.filterMap Event.inserted?).dedup

omit [DecidableEq α] [Hashable β] in
lemma mem_suppliedValues_iff {es : List (Event α β ι)} {heard : List (Option β)} :
    b ∈ suppliedValues es heard ↔ some b ∈ heard ∨ ∃ a, Event.insert a b ∈ es := by
  rw [suppliedValues, List.mem_dedup, List.mem_append, List.reduceOption_mem_iff,
    List.mem_filterMap]
  refine or_congr Iff.rfl ⟨?_, ?_⟩
  · rintro ⟨_ | ⟨a, c⟩ | _, he, hb⟩
    · cases hb
    · cases hb
      exact ⟨a, he⟩
    · cases hb
  · rintro ⟨a, ha⟩
    exact ⟨_, ha, rfl⟩

section

variable [Source ι β] {source : ι} {capacity : Nat} {pos : 0 < capacity}
  {es : List (Event α β ι)} {heard : List (Option β)} {retaken passed : List β}

lemma Tally.history (h : Tally source capacity pos es heard retaken passed p) :
    History source capacity pos es heard p := by
  induction h with
  | start => exact .start
  | get _ hget ih => exact ih.get hget
  | insert a b _ _ ih => exact ih.insert a b
  | retake a b _ _ ih => exact ih.insert a b

lemma History.exists_tally (h : History source capacity pos es heard p) :
    ∃ retaken passed, Tally source capacity pos es heard retaken passed p := by
  induction h with
  | start => exact ⟨[], [], .start⟩
  | get _ hget ih =>
    obtain ⟨retaken, passed, ht⟩ := ih
    exact ⟨_, _, ht.get hget⟩
  | @insert es heard p a b _ ih =>
    obtain ⟨retaken, passed, ht⟩ := ih
    by_cases hb : p.Waits b
    · exact ⟨_, _, ht.retake a b hb⟩
    · exact ⟨_, _, ht.insert a b hb⟩

lemma Tally.spare_add (h : Tally source capacity pos es heard retaken passed p) (y : β) :
    p.spare y + passed.count y = retaken.count y := by
  induction h with
  | start => rfl
  | get ht hget ih =>
    have hstep := hget.reply.spare_add ht.history.agrees y
    rw [List.count_append]
    omega
  | insert a b ht hb ih => rwa [ht.history.agrees.spare_insert_of_not_waits hb]
  | retake a b ht hb ih =>
    rw [ht.history.agrees.spare_insert_of_waits hb, List.count_append]
    omega

lemma History.mem_suppliedValues_iff (h : History source capacity pos es heard p) (y : β) :
    y ∈ suppliedValues es heard ↔ 0 < p.places y := by
  rw [← h.agrees.keeps_iff_places_pos, h.keeps_iff, Pool.mem_suppliedValues_iff]

lemma Tally.count_eq (h : Tally source capacity pos es heard retaken passed p) (y : β) :
    p.lent.count y + p.queue.count y + passed.count y =
      (suppliedValues es heard).count y + retaken.count y := by
  have hspare := h.spare_add y
  have hmem := h.history.mem_suppliedValues_iff y
  have hnodup : (suppliedValues es heard).Nodup := List.nodup_dedup _
  rw [spare] at hspare
  rw [← List.count_append, ← places, hnodup.count]
  split_ifs with hy
  · have hpos := hmem.mp hy
    omega
  · rw [hmem] at hy
    omega

lemma Tally.perm (h : Tally source capacity pos es heard retaken passed p) :
    (p.lent ++ p.queue ++ passed).Perm (suppliedValues es heard ++ retaken) := by
  rw [List.perm_iff_count]
  intro y
  rw [List.count_append, List.count_append, List.count_append]
  exact h.count_eq y

lemma Tally.nodup_queue_iff (h : Tally source capacity pos es heard retaken passed p) :
    p.queue.Nodup ↔ ∀ b, retaken.count b ≤ passed.count b + p.lent.count b := by
  rw [List.nodup_iff_count_le_one]
  apply forall_congr'
  intro y
  have hspare := h.spare_add y
  rw [spare, places, List.count_append] at hspare
  -- a value has one key at most, and so all its other places are in the queue
  have hlent := List.nodup_iff_count_le_one.mp h.history.agrees.nodup_lent y
  omega

lemma Tally.passed_subperm (h : Tally source capacity pos es heard retaken passed p) :
    passed.Subperm retaken := by
  rw [List.subperm_iff_count]
  intro y
  have hspare := h.spare_add y
  omega

omit [Source ι β] in
lemma Waits.retake (h : p.Waits b) (hp : Agrees p) (a : α) {c : β} (hc : c ≠ b) :
    ((p.insert a b).insert a c).Waits b ∧
      ((p.insert a b).insert a c).queue.count b = p.queue.count b + 1 := by
  have hr : Agrees (p.insert a b) := hp.assign a b
  have hheld : (p.insert a b).forward.get? a = some b := by
    rw [hr a b, Pool.insert, hp.owner?_assign, if_pos rfl]
  have hfreed : (p.insert a b).freed a c = some b := by
    rw [freed_eq_some_iff, RecencyTable.push_of_present hheld]
    exact ⟨Ne.symm hc, rfl⟩
  have hwaits : ((p.insert a b).insert a c).Waits b := by
    refine ⟨?_, ?_⟩
    · rw [Pool.insert, queue_assign, hfreed]
      exact List.mem_append_right _ List.mem_cons_self
    · rw [← Bool.not_eq_true, Pool.insert, hr.isLent_assign_iff]
      rintro (hb | ⟨hb, -⟩)
      · exact hc hb.symm
      · exact hb hfreed
  refine ⟨hwaits, ?_⟩
  have hsecond : ((p.insert a b).insert a c).places b = (p.insert a b).places b := by
    rw [Pool.insert, hr.places_assign, if_neg fun hb => hc hb.1.symm, Nat.add_zero]
  have hfirst : (p.insert a b).places b = p.places b + 1 := by
    rw [Pool.insert, hp.places_assign, if_pos ⟨rfl, h.not_lent⟩]
  rw [← hwaits.places_eq (hr.assign a c), hsecond, hfirst, h.places_eq hp]

lemma History.exists_retakes (h : History source capacity pos es heard p) (hb : p.Waits b)
    (a : α) {c : β} (hc : c ≠ b) (n : Nat) :
    ∃ es' q, (∀ e ∈ es', e = .insert a b ∨ e = .insert a c) ∧
      History source capacity pos (es ++ es') heard q ∧ q.Waits b ∧
      q.queue.count b = p.queue.count b + n := by
  induction n with
  | zero => exact ⟨[], p, List.forall_mem_nil _, by rwa [List.append_nil], hb, rfl⟩
  | succ n ih =>
    obtain ⟨es', q, hes', hq, hwaits, hcount⟩ := ih
    obtain ⟨hnext, hone⟩ := hwaits.retake hq.agrees a hc
    refine ⟨es' ++ [.insert a b] ++ [.insert a c], (q.insert a b).insert a c, ?_, ?_, hnext, ?_⟩
    · intro e he
      rw [List.append_assoc, List.mem_append] at he
      rcases he with he | he
      · exact hes' e he
      · simpa using he
    · rw [← List.append_assoc, ← List.append_assoc]
      exact (hq.insert a b).insert a c
    · rw [hone, hcount, Nat.add_assoc]

end

theorem queue_repeats_what_is_retaken [Source ι β] {source : ι} {capacity : Nat}
    {pos : 0 < capacity} {es : List (Event α β ι)} {heard : List (Option β)} {p : Pool α β ι}
    (h : History source capacity pos es heard p) :
    (∃ retaken passed, Tally source capacity pos es heard retaken passed p) ∧
    (∀ retaken passed, Tally source capacity pos es heard retaken passed p →
      (p.lent ++ p.queue ++ passed).Perm (suppliedValues es heard ++ retaken) ∧
      (p.queue.Nodup ↔ ∀ b, retaken.count b ≤ passed.count b + p.lent.count b) ∧
      (retaken = [] → p.queue.Nodup ∧ (∀ b ∈ p.queue, p.isLent b = false) ∧
        p.queue.length + p.size = (suppliedValues es heard).length)) ∧
    ∀ b, p.Waits b → ∀ a c, c ≠ b → ∀ n, ∃ es' q,
      (∀ e ∈ es', e = .insert a b ∨ e = .insert a c) ∧
      History source capacity pos (es ++ es') heard q ∧ q.queue.count b = p.queue.count b + n := by
  refine ⟨h.exists_tally, ?_, ?_⟩
  · intro retaken passed ht
    refine ⟨ht.perm, ht.nodup_queue_iff, ?_⟩
    rintro rfl
    obtain rfl : passed = [] := List.subperm_nil.mp ht.passed_subperm
    have hperm := ht.perm
    rw [List.append_nil, List.append_nil] at hperm
    have hnodup : (p.lent ++ p.queue).Nodup := hperm.nodup_iff.mpr (List.nodup_dedup _)
    refine ⟨hnodup.of_append_right, ?_, ?_⟩
    · intro b hb
      rw [← Bool.not_eq_true, h.agrees.isLent_iff_mem_lent]
      exact fun hlent => List.disjoint_of_nodup_append hnodup hlent hb
    · rw [← hperm.length_eq, List.length_append, length_lent, Nat.add_comm]
  · intro b hb a c hc n
    obtain ⟨es', q, hes', hq, -, hcount⟩ := h.exists_retakes hb a hc n
    exact ⟨es', q, hes', hq, hcount⟩

theorem queue_repeats_what_is_retaken_of_eviction :
    let p : Pool Nat Nat (List (Option Nat)) := ofSource [some 7, some 8] 1 Nat.one_pos
    let q := (assign { p with source := [some 8] } 0 7).insert 1 9
    q.queue.Nodup ∧ q.queue.length + q.size = 2 ∧ q.Waits 7 ∧
      ∀ n, ∃ es r, (∀ e ∈ es, e = .insert 0 7 ∨ e = .insert 0 5) ∧
        Run p ([.get 0 (some (false, 7)), .insert 1 9] ++ es) r ∧ r.queue.count 7 = 1 + n := by
  have hqueue : (((assign (ofSource [some 8] 1 Nat.one_pos) 0 7).insert 1 9 :
      Pool Nat Nat (List (Option Nat))).queue) = [7] := by cbv
  have hentries : (((assign (ofSource [some 8] 1 Nat.one_pos) 0 7).insert 1 9 :
      Pool Nat Nat (List (Option Nat))).forward.entries) = [(1, 9)] := by cbv
  intro p q
  have hfree : p.isLent 7 = false := by simp [p, isLent, ofSource]
  have hanswers : Source.answers 1 p.source = [].map some ++ [some 7] := rfl
  have hget : Request p 0 1 (some (false, 7)) (assign { p with source := [some 8] } 0 7) :=
    (Reply.fresh rfl (List.forall_mem_nil _) hanswers (List.forall_mem_nil _) hfree).request
  have hnine : ¬(assign { p with source := [some 8] } 0 7).Waits 9 :=
    fun h => List.not_mem_nil h.mem_queue
  have htally := (Tally.start.get hget).insert 1 9 hnine
  have hq : q.queue = [7] := hqueue
  have hwaits : q.Waits 7 := by
    refine ⟨hq ▸ List.mem_singleton_self 7, ?_⟩
    rw [← Bool.not_eq_true, htally.history.agrees.isLent_iff_mem_lent, lent,
      show q.forward.entries = _ from hentries]
    decide
  obtain ⟨-, hrepeats, hmore⟩ := queue_repeats_what_is_retaken htally.history
  obtain ⟨-, -, hnone⟩ := hrepeats _ _ htally
  obtain ⟨hnodup, -, hlength⟩ := hnone rfl
  refine ⟨hnodup, hlength, hwaits, ?_⟩
  intro n
  obtain ⟨es, r, hes, hhistory, hcount⟩ := hmore 7 hwaits 0 5 (by decide) n
  refine ⟨es, r, hes, hhistory.run, ?_⟩
  rw [hcount, show q.queue = [7] from hq, List.count_singleton_self]

theorem queue_longer_than_values :
    let p : Pool Nat Nat (List (Option Nat)) :=
      ((((((ofSource [] 2 Nat.two_pos).insert 0 5).insert 0 6).insert 1 5).insert 1 6).insert 0
        5).insert 0 6
    let es : List (Event Nat Nat (List (Option Nat))) :=
      [.insert 0 5, .insert 0 6, .insert 1 5, .insert 1 6, .insert 0 5, .insert 0 6]
    Source.Distinct ([] : List (Option Nat)) ∧ History [] 2 Nat.two_pos es [] p ∧
      p.queue = [5, 5, 5] ∧ suppliedValues es [] = [5, 6] ∧ ¬p.queue.Nodup ∧
      (suppliedValues es []).length < p.queue.length := by
  have hqueue : (((((((ofSource [] 2 Nat.two_pos).insert 0 5).insert 0 6).insert 1 5).insert 1
      6).insert 0 5).insert 0 6 : Pool Nat Nat (List (Option Nat))).queue = [5, 5, 5] := by cbv
  intro p es
  have hvalues : suppliedValues es [] = [5, 6] := by decide
  have hrun : History [] 2 Nat.two_pos es [] p :=
    (((((History.start.insert 0 5).insert 0 6).insert 1 5).insert 1 6).insert 0 5).insert 0 6
  refine ⟨Source.distinct_list List.nodup_nil, hrun, hqueue, hvalues, ?_, ?_⟩
  · rw [show p.queue = _ from hqueue]
    decide
  · rw [hvalues, show p.queue = _ from hqueue]
    decide

end AddressShuffle.Pool
