import AddressShuffle.Proofs.Pool.History

/-! The values that are lent and those that wait are those that came from the source or were
inserted. -/

namespace AddressShuffle.Pool

universe u v w

variable {α : Type u} {β : Type v} {ι : Type w} [DecidableEq α] [DecidableEq β] [Hashable β]

def Keeps (p : Pool α β ι) (b : β) : Prop :=
  p.isLent b = true ∨ b ∈ p.queue

lemma Agrees.keeps_assign_iff {p : Pool α β ι} (h : Agrees p) (a : α) (b y : β) :
    (p.assign a b).Keeps y ↔ y = b ∨ p.Keeps y := by
  rw [Keeps, Keeps, h.isLent_assign_iff, queue_assign, List.mem_append, Option.mem_toList]
  constructor
  · rintro ((hy | ⟨-, hy⟩) | hy | hy)
    · exact Or.inl hy
    · exact Or.inr (Or.inl hy)
    · exact Or.inr (Or.inr hy)
    · exact Or.inr (Or.inl (h.isLent_of_freed hy))
  · rintro (hy | hy | hy)
    · exact Or.inl (Or.inl hy)
    · by_cases hf : p.freed a b = some y
      · exact Or.inr (Or.inr hf)
      · exact Or.inl (Or.inr ⟨hf, hy⟩)
    · exact Or.inr (Or.inl hy)

omit [DecidableEq α] in
lemma keeps_skip_iff {p : Pool α β ι} {passed queue : List β} (source : ι)
    (hsplit : p.queue = passed ++ queue) (hpassed : ∀ c ∈ passed, p.isLent c = true) (y : β) :
    Keeps { p with source, queue } y ↔ p.Keeps y := by
  rw [Keeps, Keeps, hsplit, List.mem_append]
  constructor
  · rintro (hy | hy)
    · exact Or.inl hy
    · exact Or.inr (Or.inr hy)
  · rintro (hy | hy | hy)
    · exact Or.inl hy
    · exact Or.inl (hpassed y hy)
    · exact Or.inr hy

lemma Reply.keeps_iff [Source ι β] {p q : Pool α β ι} {a : α} {n : Nat}
    {answer : Option (Bool × β)} (h : Reply p a n answer q) (hp : Agrees p) (y : β) :
    q.Keeps y ↔ p.Keeps y ∨ some y ∈ Source.answers n p.source := by
  cases h with
  | held ha => simp [Keeps, isLent, Source.answers]
  | @queued passed b queue ha hsplit hpassed hfree =>
    have hassign := Agrees.keeps_assign_iff (p := { p with queue }) hp a b y
    have hskip := keeps_skip_iff p.source hsplit hpassed y
    rw [hassign, ← hskip, Source.answers, Keeps, Keeps, List.mem_cons]
    constructor
    · rintro (hy | hy | hy)
      · exact Or.inl (Or.inr (Or.inl hy))
      · exact Or.inl (Or.inl hy)
      · exact Or.inl (Or.inr (Or.inr hy))
    · rintro ((hy | hy | hy) | hy)
      · exact Or.inr (Or.inl hy)
      · exact Or.inl hy
      · exact Or.inr (Or.inr hy)
      · exact absurd hy List.not_mem_nil
  | @fresh n b passed ha hqueue hanswers hpassed hfree =>
    let s := Source.after n p.source
    have hassign := Agrees.keeps_assign_iff (p := { p with source := s, queue := [] }) hp a b y
    have hskip := keeps_skip_iff s (List.append_nil p.queue).symm hqueue y
    rw [hassign, hskip, hanswers, List.mem_append, List.mem_singleton, Option.some.injEq]
    constructor
    · rintro (hy | hy)
      · exact Or.inr (Or.inr hy)
      · exact Or.inl hy
    · rintro (hy | hy | hy)
      · exact Or.inr hy
      · exact Or.inr (Or.inl (hpassed y (by simpa using hy)))
      · exact Or.inl hy
  | @dry n passed ha hqueue hanswers hpassed =>
    rw [keeps_skip_iff _ (List.append_nil p.queue).symm hqueue, hanswers]
    constructor
    · exact Or.inl
    · rintro (hy | hy)
      · exact hy
      · exact Or.inl (hpassed y (by simpa using hy))

lemma History.keeps_iff [Source ι β] {source : ι} {capacity : Nat} {pos : 0 < capacity}
    {es : List (Event α β ι)} {heard : List (Option β)} {p : Pool α β ι}
    (h : History source capacity pos es heard p) (b : β) :
    p.Keeps b ↔ some b ∈ heard ∨ ∃ a, Event.insert a b ∈ es := by
  induction h with
  | start => simp [Keeps, isLent, ofSource]
  | get hh hget ih =>
    rw [hget.reply.keeps_iff hh.agrees, ih]
    simp only [List.mem_append, List.mem_singleton, reduceCtorEq, or_false]
    exact or_right_comm
  | insert a c hh ih =>
    rw [Pool.insert, hh.agrees.keeps_assign_iff, ih]
    constructor
    · rintro (rfl | hb | ⟨k, hk⟩)
      · exact Or.inr ⟨a, by simp⟩
      · exact Or.inl hb
      · exact Or.inr ⟨k, List.mem_append_left _ hk⟩
    · rintro (hb | ⟨k, hk⟩)
      · exact Or.inr (Or.inl hb)
      · rcases List.mem_append.mp hk with hk | hk
        · exact Or.inr (Or.inr ⟨k, hk⟩)
        · rw [List.mem_singleton, Event.insert.injEq] at hk
          exact Or.inl hk.2

lemma Keeps.step [Source ι β] {p q : Pool α β ι} {e : Event α β ι} {b : β} (h : p.Keeps b)
    (hp : Agrees p) (hstep : Step p e q) (he : e.IsCall) : q.Keeps b := by
  cases hstep with
  | reset => exact he.elim
  | insert a c => exact (hp.keeps_assign_iff a c b).mpr (Or.inr h)
  | get hget =>
    obtain ⟨n, -, hrequest⟩ := exists_request hget
    exact (hrequest.reply.keeps_iff hp b).mpr (Or.inl h)

lemma Reply.isLent_of_answer [Source ι β] {p q : Pool α β ι} {a : α} {n : Nat} {known : Bool}
    {b : β} (h : Reply p a n (some (known, b)) q) (hp : Agrees p) : q.isLent b = true := by
  cases h with
  | held ha => exact (hp.isLent_iff b).mpr ⟨a, ha⟩
  | @queued passed b queue =>
    exact (Agrees.isLent_assign_iff (p := { p with queue }) hp a b b).mpr (Or.inl rfl)
  | @fresh n b passed =>
    let s := Source.after n p.source
    exact (Agrees.isLent_assign_iff (p := { p with source := s, queue := [] }) hp a b b).mpr
      (Or.inl rfl)

def Event.isFresh : Event α β ι → Bool
  | .get _ (some (false, _)) => true
  | _ => false

def Event.Gives (b : β) : Event α β ι → Prop
  | .get _ (some (false, c)) => c = b
  | .insert _ c => c = b
  | _ => False

structure Waits (p : Pool α β ι) (b : β) : Prop where
  mem_queue : b ∈ p.queue
  not_lent : p.isLent b = false

lemma Waits.assign {p : Pool α β ι} {b c : β} (h : p.Waits b) (hp : Agrees p) (hne : c ≠ b)
    (a : α) :
    (p.assign a c).Waits b ∧ (p.assign a c).queue.idxOf b = p.queue.idxOf b := by
  rw [queue_assign]
  refine ⟨⟨?_, ?_⟩, List.idxOf_append_of_mem h.mem_queue⟩
  · rw [queue_assign]
    exact List.mem_append_left _ h.mem_queue
  · rw [← Bool.not_eq_true, hp.isLent_assign_iff]
    rintro (hb | ⟨-, hb⟩)
    · exact hne hb.symm
    · exact Bool.false_ne_true (h.not_lent.symm.trans hb)

lemma Waits.step [Source ι β] {p q : Pool α β ι} {e : Event α β ι} {b : β} (h : p.Waits b)
    (hp : Agrees p) (hstep : Step p e q) (he : e.IsCall) :
    e.Gives b ∨ q.Waits b ∧ q.queue.idxOf b + [e].countP Event.isFresh ≤ p.queue.idxOf b := by
  have hlent : ¬∀ c ∈ p.queue, p.isLent c = true := fun hall =>
    Bool.false_ne_true (h.not_lent.symm.trans (hall b h.mem_queue))
  cases hstep with
  | reset => exact he.elim
  | insert a c =>
    by_cases hc : c = b
    · exact Or.inl hc
    · obtain ⟨hwaits, hidx⟩ := h.assign hp hc a
      exact Or.inr ⟨hwaits, hidx.le⟩
  | get hget =>
    obtain ⟨n, -, hrequest⟩ := exists_request hget
    cases hrequest.reply with
    | held ha => exact Or.inr ⟨⟨h.mem_queue, h.not_lent⟩, Nat.le_refl _⟩
    | fresh ha hqueue => exact absurd hqueue hlent
    | dry ha hqueue => exact absurd hqueue hlent
    | @queued passed c queue ha hsplit hpassed hfree =>
      by_cases hc : c = b
      · exact Or.inl hc
      · have hnot : b ∉ passed := fun hb => Bool.false_ne_true (h.not_lent.symm.trans (hpassed b hb))
        have hmem : b ∈ queue := by
          have hb := h.mem_queue
          rw [hsplit, List.mem_append, List.mem_cons] at hb
          exact (hb.resolve_left hnot).resolve_left (Ne.symm hc)
        have hwaits : Waits { p with queue } b := ⟨hmem, h.not_lent⟩
        obtain ⟨hq, hidx⟩ := hwaits.assign hp hc _
        refine Or.inr ⟨hq, ?_⟩
        rw [hidx, hsplit, List.idxOf_append_of_notMem hnot, List.idxOf_cons_ne _ hc]
        simp only [List.countP_singleton, Event.isFresh, if_true]
        omega

lemma Waits.run [Source ι β] {p q : Pool α β ι} {es : List (Event α β ι)} {b : β}
    (h : p.Waits b) (hp : Agrees p) (hrun : Run p es q) (hes : ∀ e ∈ es, e.IsCall) :
    (∃ e ∈ es, e.Gives b) ∨
      q.Waits b ∧ q.queue.idxOf b + es.countP Event.isFresh ≤ p.queue.idxOf b := by
  induction hrun with
  | nil p => exact Or.inr ⟨h, Nat.le_refl _⟩
  | @cons p q r e es hstep _ ih =>
    obtain ⟨he, hes⟩ := List.forall_mem_cons.mp hes
    rcases h.step hp hstep he with hgives | ⟨hq, hle⟩
    · exact Or.inl ⟨e, List.mem_cons_self, hgives⟩
    · rcases ih hq (Agrees.step hstep hp) hes with ⟨e', he', hgives⟩ | ⟨hr, hle'⟩
      · exact Or.inl ⟨e', List.mem_cons_of_mem e he', hgives⟩
      · refine Or.inr ⟨hr, ?_⟩
        have hcount : (e :: es).countP Event.isFresh =
            [e].countP Event.isFresh + es.countP Event.isFresh := by
          rw [← List.countP_append, List.singleton_append]
        omega

lemma Waits.exists_request [Source ι β] {p : Pool α β ι} {b : β} (h : p.Waits b) {a : α}
    (ha : p.forward.get? a = none) : ∃ c q, Request p a 0 (some (false, c)) q := by
  cases hqueue : p.queue.dropWhile p.isLent with
  | nil =>
    have hb := List.dropWhile_eq_nil_iff.mp hqueue b h.mem_queue
    exact absurd (h.not_lent.symm.trans hb) Bool.false_ne_true
  | cons c queue =>
    refine ⟨c, Pool.assign { p with queue } a c, getWithin?_of_dropWhile ha hqueue 0, ?_⟩
    exact fun m hm => absurd hm (Nat.not_lt_zero m)

theorem values_neither_lost_nor_invented [Source ι β] {source : ι} {capacity : Nat}
    {pos : 0 < capacity} {es : List (Event α β ι)} {heard : List (Option β)} {p : Pool α β ι}
    (h : History source capacity pos es heard p) :
    (∀ b, (∃ a, p.forward.get? a = some b) ∨ b ∈ p.queue ↔
      some b ∈ heard ∨ ∃ a, Event.insert a b ∈ es) ∧
    (∀ a n known b q, Request p a n (some (known, b)) q →
      some b ∈ heard ++ Source.answers n p.source ∨ ∃ k, Event.insert k b ∈ es) ∧
    ∀ e q b, Step p e q → e.IsCall →
      (∃ a, p.forward.get? a = some b) → (∀ a, q.forward.get? a ≠ some b) →
      q.Waits b ∧ ∀ es' r, Run q es' r → (∀ e ∈ es', e.IsCall) →
        (∃ e ∈ es', e.Gives b) ∨
        r.queue.idxOf b + es'.countP Event.isFresh ≤ q.queue.idxOf b ∧
          ∀ a, r.forward.get? a = none → ∃ c r', Request r a 0 (some (false, c)) r' := by
  have hp := h.agrees
  refine ⟨?_, ?_, ?_⟩
  · intro b
    rw [← hp.isLent_iff b]
    exact h.keeps_iff b
  · intro a n known b q hget
    have hb : q.Keeps b := Or.inl (hget.reply.isLent_of_answer hp)
    have hin := (h.get hget).keeps_iff b
    rcases hin.mp hb with hheard | ⟨k, hk⟩
    · exact Or.inl hheard
    · exact Or.inr ⟨k, by simpa using hk⟩
  · intro e q b hstep he hheld hlost
    have hq : Agrees q := Agrees.step hstep hp
    have hkeeps : q.Keeps b := Keeps.step (Or.inl ((hp.isLent_iff b).mpr hheld)) hp hstep he
    have hnot : ¬q.isLent b = true := by
      rw [hq.isLent_iff]
      rintro ⟨a, ha⟩
      exact hlost a ha
    have hwaits : q.Waits b := ⟨hkeeps.resolve_left hnot, Bool.eq_false_iff.mpr hnot⟩
    refine ⟨hwaits, ?_⟩
    intro es' r hrun hes'
    rcases hwaits.run hq hrun hes' with hgives | ⟨hr, hle⟩
    · exact Or.inl hgives
    · exact Or.inr ⟨hle, fun a ha => hr.exists_request ha⟩

theorem values_neither_lost_nor_invented_of_eviction :
    let p : Pool Nat Nat (List (Option Nat)) := ofSource [some 7, none, some 8] 1 Nat.one_pos
    let q := assign { p with source := [none, some 8] } 0 7
    ∀ b, (∃ a, (q.insert 1 9).forward.get? a = some b) ∨ b ∈ (q.insert 1 9).queue ↔
      b = 7 ∨ b = 9 := by
  intro p q b
  have hget : Request p 0 1 (some (false, 7)) q := by
    refine ⟨?_, ?_⟩
    · simp [getWithin?, p, q, ofSource, RecencyTable.empty, RecencyTable.get?, Source.find?,
        Source.next, isLent]
    · intro m hm
      obtain rfl := Nat.lt_one_iff.mp hm
      rfl
  have h := values_neither_lost_nor_invented ((History.start.get hget).insert 1 9)
  simpa [Source.answers, Source.next, p, ofSource] using h.1 b

end AddressShuffle.Pool
