import AddressShuffle.Proofs.Pool.Conservation
import AddressShuffle.Proofs.Shuffle.Enumeration
import Mathlib.Data.Finset.Card

namespace AddressShuffle.Pool

universe u v w x

variable {α : Type u} {β : Type v} {ι : Type w} [DecidableEq α] [DecidableEq β] [Hashable β]

lemma Agrees.card_le_capacity {p : Pool α β ι} (h : Agrees p) {bs : List β}
    (hlent : ∀ b ∈ bs, p.isLent b = true) : bs.toFinset.card ≤ p.capacity := by
  have hdedup : bs.dedup.length ≤ p.size :=
    h.length_le_size bs.nodup_dedup fun b hb => hlent b (List.mem_dedup.mp hb)
  rw [List.card_toFinset]
  exact hdedup.trans p.forward.length_le

lemma Request.forward_eq_of_none [Source ι β] {p q : Pool α β ι} {a : α} {n : Nat}
    (h : Request p a n none q) : p.forward.get? a = none ∧ q.forward = p.forward ∧ q.queue = [] := by
  cases h.reply with
  | dry ha => exact ⟨ha, rfl, rfl⟩

section

variable [Source ι β] {source : ι} {capacity : Nat} {pos : 0 < capacity}
  {es : List (Event α β ι)} {heard : List (Option β)} {p : Pool α β ι}

lemma History.isLent_of_request_eq_none (h : History source capacity pos es heard p) {a : α}
    {n : Nat} {q : Pool α β ι} (hget : Request p a n none q) {b : β}
    (hb : some b ∈ heard ++ Source.answers n p.source ∨ ∃ k, Event.insert k b ∈ es) :
    q.isLent b = true := by
  have hin : q.Keeps b := by
    rw [(h.get hget).keeps_iff b]
    rcases hb with hheard | ⟨k, hk⟩
    · exact Or.inl hheard
    · exact Or.inr ⟨k, List.mem_append_left _ hk⟩
  have hempty : b ∉ q.queue := by
    rw [hget.forward_eq_of_none.2.2]
    exact List.not_mem_nil
  exact hin.resolve_right hempty

lemma History.none_mem_answers (h : History source capacity pos es heard p) {a : α} {n : Nat}
    {q : Pool α β ι} (hget : Request p a n none q) :
    0 < n ∧ none ∈ Source.answers (heard.length + n) source := by
  cases hget.reply with
  | @dry n passed ha hqueue hanswers =>
    have hlength := congrArg List.length hanswers
    rw [Source.length_answers, List.length_append, List.length_singleton] at hlength
    rw [Source.answers_add, ← h.source_eq.2, hanswers]
    exact ⟨by omega, by simp⟩

lemma History.isLent_of_getWithin?_eq_none (h : History source capacity pos es heard p) {a : α}
    {n : Nat} (hnone : p.getWithin? n a = none) {b : β}
    (hb : some b ∈ Source.answers (heard.length + n) source) : p.isLent b = true := by
  obtain ⟨-, hqueue, hfind⟩ := of_getWithin?_eq_none hnone
  obtain ⟨passed, hpassed, hanswers⟩ := Source.exists_passed_of_find?_eq_none hfind
  obtain ⟨hheard, hsource⟩ := h.source_eq
  rw [Source.answers_add, ← hheard, ← hsource, hanswers, List.mem_append] at hb
  rcases hb with hb | hb
  · rcases (h.keeps_iff b).mpr (Or.inl hb) with hlent | hmem
    · exact hlent
    · exact hqueue b hmem
  · exact hpassed b (by simpa using hb)

lemma History.exists_request_of_supply (h : History source capacity pos es heard p) {n : Nat}
    {bs : List β} (hbs : Source.answers n source = bs.map some)
    (hcard : capacity < bs.toFinset.card) (a : α) :
    ∃ m known b q, Request p a m (some (known, b)) q := by
  cases hget : p.getWithin? (n - heard.length) a with
  | none =>
    -- the table would have to hold more keys than it has room for
    have hlent : ∀ b ∈ bs, p.isLent b = true := by
      intro b hb
      have hmem : some b ∈ Source.answers n source := by
        rw [hbs]
        exact List.mem_map_of_mem hb
      exact h.isLent_of_getWithin?_eq_none hget (Source.mem_answers_of_le (by omega) hmem)
    have hle := h.agrees.card_le_capacity hlent
    rw [h.capacity_eq] at hle
    omega
  | some x =>
    obtain ⟨answer, q⟩ := x
    obtain ⟨m, hm, hrequest⟩ := exists_request hget
    rcases answer with _ | ⟨known, b⟩
    · obtain ⟨hpos, hnone⟩ := h.none_mem_answers hrequest
      have hmem := Source.mem_answers_of_le (by omega : heard.length + m ≤ n) hnone
      rw [hbs] at hmem
      simp at hmem
    · exact ⟨m, known, b, q, hrequest⟩

end

lemma Request.get_fst [FiniteSource ι β] {p q : Pool α β ι} {a : α} {n : Nat}
    {answer : Option (Bool × β)} (h : Request p a n answer q) : (p.get a).1 = answer := by
  have hget : p.getWithin? (FiniteSource.size p.source + 1) a = some (p.get a) :=
    (Option.some_get (p.isSome_getWithin? a)).symm
  obtain ⟨m, -, hrequest⟩ := exists_request hget
  exact (hrequest.unique h).1

lemma exists_get_eq_some_of_shuffle {γ : Type x} [Picker γ] {range : AddressRange} {picker : γ}
    {capacity : Nat} {pos : 0 < capacity} {es : List (Event α Address (Shuffle γ))}
    {heard : List (Option Address)} {p : Pool α Address (Shuffle γ)}
    (hcard : capacity < range.size)
    (h : History (Shuffle.ofRange range picker) capacity pos es heard p) (a : α) :
    ∃ known b, (p.get a).1 = some (known, b) := by
  have hanswers := Source.answers_shuffle (n := range.size) (s := Shuffle.ofRange range picker)
    (Shuffle.left_ofRange range picker).ge
  have hsize : (Shuffle.taken range.size (Shuffle.ofRange range picker)).toFinset.card =
      range.size := by
    rw [List.toFinset_card_of_nodup (Shuffle.nodup_taken (Nat.le_refl _) picker),
      Shuffle.length_taken]
  obtain ⟨m, known, b, q, hrequest⟩ :=
    h.exists_request_of_supply hanswers (hsize.symm ▸ hcard) a
  exact ⟨known, b, hrequest.get_fst⟩

theorem answers_none_only_when_all_lent [Source ι β] {source : ι} {capacity : Nat}
    {pos : 0 < capacity} {es : List (Event α β ι)} {heard : List (Option β)} {p : Pool α β ι}
    (h : History source capacity pos es heard p) :
    (∀ a n q, Request p a n none q →
      p.forward.get? a = none ∧ q.forward.get? a = none ∧
      ∀ b, (some b ∈ heard ++ Source.answers n p.source ∨ ∃ k, Event.insert k b ∈ es) →
        ∃ k, q.forward.get? k = some b) ∧
    (∀ n (bs : List β), Source.answers n source = bs.map some → capacity < bs.toFinset.card →
      ∀ a, (∃ m known b q, Request p a m (some (known, b)) q) ∧ ∀ m q, ¬Request p a m none q) ∧
    ∀ {γ : Type x} [Picker γ] (range : AddressRange) (picker : γ)
      (es' : List (Event α Address (Shuffle γ))) (heard' : List (Option Address))
      (r : Pool α Address (Shuffle γ)), capacity < range.size →
      History (Shuffle.ofRange range picker) capacity pos es' heard' r →
      ∀ a, ∃ known b, (r.get a).1 = some (known, b) := by
  refine ⟨?_, ?_, ?_⟩
  · intro a n q hget
    obtain ⟨ha, hforward, -⟩ := hget.forward_eq_of_none
    refine ⟨ha, by rw [hforward, ha], ?_⟩
    intro b hb
    have hq : Agrees q := (h.get hget).agrees
    exact (hq.isLent_iff b).mp (h.isLent_of_request_eq_none hget hb)
  · intro n bs hbs hcard a
    obtain ⟨m, known, b, q, hrequest⟩ := h.exists_request_of_supply hbs hcard a
    refine ⟨⟨m, known, b, q, hrequest⟩, ?_⟩
    intro m' q' hnone
    exact Option.some_ne_none _ (hrequest.unique hnone).1
  · intro γ _ range picker es' heard' r hcard hr a
    exact exists_get_eq_some_of_shuffle hcard hr a

theorem answers_none_only_when_all_lent_of_reserved :
    let p : Pool Nat Nat (List (Option Nat)) := ofSource [some 7] 2 Nat.two_pos
    let q := p.insert 0 7
    Request q 1 2 none { q with source := [], queue := [] } ∧ ∃ k, q.forward.get? k = some 7 := by
  intro p q
  have hp : Agrees p := agrees_ofSource _ 2 Nat.two_pos
  have howner : p.owner? 7 = none := by simp [p, ofSource, owner?]
  have hforward : q.forward = (p.forward.push 0 7).2 := by
    rw [show q.forward = _ from hp.forward_assign 0 7, howner]
  have hlent : q.isLent 7 = true := (hp.isLent_assign_iff 0 7 7).mpr (Or.inl rfl)
  have habsent : q.forward.get? 1 = none := by
    rw [hforward]
    rfl
  have hqueue : q.queue = [] := rfl
  have hsource : q.source = [some 7] := rfl
  have hget : Request q 1 2 none { q with source := [], queue := [] } := by
    refine ⟨?_, ?_⟩
    · simp [getWithin?, habsent, hqueue, hsource, Source.find?, Source.next, hlent]
    · intro m hm
      obtain rfl | rfl : m = 0 ∨ m = 1 := by omega
      · simp [getWithin?, habsent, hqueue, Source.find?]
      · simp [getWithin?, habsent, hqueue, hsource, Source.find?, Source.next, hlent]
  have h := answers_none_only_when_all_lent.{0, 0, 0, 0} (History.start.insert (p := p) 0 7)
  exact ⟨hget, (h.1 1 2 _ hget).2.2 7 (Or.inr ⟨0, List.mem_singleton.mpr rfl⟩)⟩

end AddressShuffle.Pool
