import AddressShuffle.Proofs.Pool.History

namespace AddressShuffle.Pool

universe u v w

variable {α : Type u} {β : Type v} {ι : Type w} [DecidableEq α] [DecidableEq β] [Hashable β]

lemma reply_of_first_free [Source ι β] {p : Pool α β ι} {a : α} {b : β}
    {bs passed rest : List β} (ha : p.forward.get? a = none) (hbs : Source.Yields p.source bs)
    (hsplit : p.queue ++ bs = passed ++ b :: rest) (hpassed : ∀ c ∈ passed, p.isLent c = true)
    (hb : p.isLent b = false) :
    let n := passed.length + 1 - p.queue.length
    Reply p a n (some (false, b)) (assign
      { p with source := Source.after n p.source, queue := p.queue.drop (passed.length + 1) } a b) := by
  intro n
  have hfresh : ∀ later, passed = p.queue ++ later → bs = later ++ b :: rest →
      Reply p a n (some (false, b)) (assign
        { p with source := Source.after n p.source, queue := p.queue.drop (passed.length + 1) }
        a b) := by
    rintro later rfl rfl
    have hn : n = later.length + 1 := by
      simp only [n, List.length_append]
      omega
    have hdrop : p.queue.drop ((p.queue ++ later).length + 1) = [] := by
      apply List.drop_eq_nil_of_le
      rw [List.length_append]
      omega
    obtain ⟨hqueue, hlater⟩ := List.forall_mem_append.mp hpassed
    have hyields : Source.Yields p.source (later ++ [b]) := by
      rw [List.append_cons] at hbs
      exact hbs.of_append
    rw [hn, hdrop]
    exact .fresh ha hqueue hyields.answers_concat hlater hb
  -- the value found lies behind the queue or is the first behind it, or it waits in the queue
  rcases List.append_eq_append_iff.mp hsplit with
    ⟨later, hlater, hbs'⟩ | ⟨_ | ⟨c, queue⟩, hqueue, hrest⟩
  · exact hfresh later hlater hbs'
  · exact hfresh [] (by simpa using hqueue.symm) hrest.symm
  · obtain ⟨rfl, -⟩ := List.cons.inj hrest
    have hn : n = 0 := by
      simp only [n, hqueue, List.length_append, List.length_cons]
      omega
    have hdrop : p.queue.drop (passed.length + 1) = queue := by
      rw [hqueue, List.append_cons, List.drop_left' (by simp)]
    rw [hn, hdrop]
    exact .queued ha hqueue hpassed hb

lemma Agrees.forall_isLent {p : Pool α β ι} (h : Agrees p) {bs : List β}
    (hbs : ∀ c ∈ bs, ∃ k, p.forward.get? k = some c) : ∀ c ∈ bs, p.isLent c = true :=
  fun c hc => (h.isLent_iff c).mpr (hbs c hc)

theorem request_takes_first_free [Source ι β] {source : ι} {capacity : Nat} {pos : 0 < capacity}
    {es : List (Event α β ι)} {p : Pool α β ι} (h : Run (ofSource source capacity pos) es p)
    (a : α) :
    (∀ b, p.forward.get? a = some b →
      Request p a 0 (some (true, b)) { p with forward := p.forward.touch a } ∧
      (p.forward.touch a).capacity = p.forward.capacity ∧
      (p.forward.touch a).entries = (a, b) :: p.forward.entries.filter fun e => e.1 ≠ a) ∧
    (p.forward.get? a = none →
      (∀ bs passed b rest, Source.Yields p.source bs → p.queue ++ bs = passed ++ b :: rest →
        (∀ c ∈ passed, ∃ k, p.forward.get? k = some c) → (∀ k, p.forward.get? k ≠ some b) →
        ∃ q kept, ∃ out : Option (α × β),
          Request p a (passed.length + 1 - p.queue.length) (some (false, b)) q ∧
          q.source = Source.after (passed.length + 1 - p.queue.length) p.source ∧
          p.forward.entries = kept ++ out.toList ∧ (out.isSome = true ↔ p.size = p.capacity) ∧
          q.forward.entries = (a, b) :: kept ∧ q.capacity = p.capacity ∧
          q.queue = p.queue.drop (passed.length + 1) ++ (out.map Prod.snd).toList ∧
          ∀ x y, q.owner? y = some x ↔ q.forward.get? x = some y) ∧
      (∀ bs, Source.Yields p.source bs →
        (Source.next (Source.after bs.length p.source)).1 = none →
        (∀ c ∈ p.queue ++ bs, ∃ k, p.forward.get? k = some c) →
        Request p a (bs.length + 1) none
          { p with source := Source.after (bs.length + 1) p.source, queue := [] }) ∧
      ((∀ draws, p.getWithin? draws a = none) → ∀ n, ∃ bs : List β, bs.length = n ∧
        Source.Yields p.source bs ∧ ∀ c ∈ p.queue ++ bs, ∃ k, p.forward.get? k = some c)) := by
  have hp : Agrees p := agrees_of_run h
  refine ⟨?_, fun ha => ⟨?_, ?_, ?_⟩⟩
  · intro b hb
    refine ⟨(Reply.held hb).request, p.forward.capacity_touch a, ?_⟩
    rw [RecencyTable.touch_of_present hb]
    rfl
  · intro bs passed b rest hbs hsplit hpassed hfree
    have hb : p.isLent b = false := by
      rw [← Bool.not_eq_true, hp.isLent_iff]
      rintro ⟨k, hk⟩
      exact hfree k hk
    have hreply := reply_of_first_free ha hbs hsplit (hp.forall_isLent hpassed) hb
    let n := passed.length + 1 - p.queue.length
    let p' : Pool α β ι :=
      { p with source := Source.after n p.source, queue := p.queue.drop (passed.length + 1) }
    have hp' : Agrees p' := hp
    obtain ⟨kept, out, hentries, hfull, hforward, hqueue⟩ := hp'.exists_assign_of_free ha hb
    refine ⟨p'.assign a b, kept, out, hreply.request, source_assign p' a b, hentries, hfull,
      hforward, capacity_assign p' a b, hqueue, ?_⟩
    exact fun x y => (hp'.assign a b x y).symm
  · intro bs hbs hnone hlent
    obtain ⟨hqueue, hpassed⟩ := List.forall_mem_append.mp (hp.forall_isLent hlent)
    have hanswers := hbs.answers_succ
    rw [hnone] at hanswers
    exact (Reply.dry ha hqueue hanswers hpassed).request
  · intro hnever n
    obtain ⟨-, hqueue, hfind⟩ := of_getWithin?_eq_none (hnever n)
    obtain ⟨bs, hbs, hanswers⟩ := Source.exists_passed_of_find?_eq_none hfind
    have hlength : bs.length = n := by
      rw [← List.length_map some, ← hanswers, Source.length_answers]
    refine ⟨bs, hlength, by rw [Source.Yields, hlength, hanswers], ?_⟩
    intro c hc
    rw [← hp.isLent_iff]
    rcases List.mem_append.mp hc with hc | hc
    · exact hqueue c hc
    · exact hbs c hc

theorem request_takes_first_free_of_reserved :
    let p : Pool Nat Nat (List (Option Nat)) := (ofSource [some 5, some 7] 1 Nat.one_pos).insert 0 5
    ∃ q, Request p 1 2 (some (false, 7)) q ∧ q.source = [] ∧ q.forward.entries = [(1, 7)] ∧
      q.queue = [5] := by
  intro p
  have hrun : Run (ofSource [some 5, some 7] 1 Nat.one_pos) [.insert 0 5] p :=
    .cons (.insert 0 5) (.nil p)
  have hentries : p.forward.entries = [(0, 5)] := by cbv
  have hfull : p.size = p.capacity := by cbv
  have habsent : p.forward.get? 1 = none := by
    rw [RecencyTable.get?, hentries]
    rfl
  have hheld : ∀ k c, p.forward.get? k = some c ↔ k = 0 ∧ c = 5 := by
    intro k c
    rw [RecencyTable.get?_eq_some_iff, hentries]
    simp
  obtain ⟨q, kept, out, hrequest, hsource, hsplit, hout, hforward, -, hqueue, -⟩ :=
    ((request_takes_first_free hrun 1).2 habsent).1 [5, 7] [5] 7 [] rfl rfl (by simp [hheld])
      (by simp [hheld])
  obtain ⟨e, rfl⟩ := Option.isSome_iff_exists.mp (hout.mpr hfull)
  have hlast : [] ++ [(0, 5)] = kept ++ [e] := hentries.symm.trans hsplit
  obtain ⟨rfl, he⟩ := List.append_inj' hlast rfl
  obtain rfl := List.singleton_inj.mp he
  exact ⟨q, hrequest, hsource, hforward, hqueue⟩

end AddressShuffle.Pool
