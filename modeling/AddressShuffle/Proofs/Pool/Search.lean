import AddressShuffle.Proofs.Pool.History
import Mathlib.Data.List.Nodup

/-! The search of a request for a value without a key, round by round. -/

namespace AddressShuffle.Pool

universe u v w x

variable {α : Type u} {β : Type v} {ι : Type w} [DecidableEq β] [Hashable β]

/-- The search takes the values `popped` off the queue, asks the source `asked` times and leaves
the pool `q`. -/
inductive Search [Source ι β] : Pool α β ι → List β → Nat → Option β → Pool α β ι → Prop
  | popFree {p b queue} : p.queue = b :: queue → p.isLent b = false →
      Search p [b] 0 (some b) { p with queue }
  | popLent {p b queue popped asked found q} : p.queue = b :: queue → p.isLent b = true →
      Search { p with queue } popped asked found q → Search p (b :: popped) asked found q
  | askNone {p source} : p.queue = [] → Source.next p.source = (none, source) →
      Search p [] 1 none { p with source }
  | askFree {p b source} : p.queue = [] → Source.next p.source = (some b, source) →
      p.isLent b = false → Search p [] 1 (some b) { p with source }
  | askLent {p b source popped asked found q} : p.queue = [] →
      Source.next p.source = (some b, source) → p.isLent b = true →
      Search { p with source } popped asked found q → Search p popped (asked + 1) found q

section

variable [Source ι β] {p q r : Pool α β ι} {popped popped' : List β} {asked asked' n : Nat}
  {found found' : Option β} {a : α} {answer : Option (Bool × β)} {e : Event α β ι}

omit [Source ι β] in
lemma false_of_queue {b : β} {queue : List β} (hwaits : p.queue = b :: queue)
    (hempty : p.queue = []) : False :=
  List.cons_ne_nil b queue (hwaits.symm.trans hempty)

omit [Source ι β] in
lemma false_of_isLent {b : β} (hlent : p.isLent b = true) (hfree : p.isLent b = false) : False :=
  Bool.false_ne_true (hfree.symm.trans hlent)

lemma false_of_next {b : β} {source source' : ι}
    (hyields : Source.next p.source = (some b, source))
    (hends : Source.next p.source = (none, source')) : False :=
  Option.some_ne_none b (Prod.mk.inj (hyields.symm.trans hends)).1

-- the queue, the answer of the source and whether its value is lent admit one round each
lemma Search.unique (h : Search p popped asked found q)
    (h' : Search p popped' asked' found' r) :
    popped = popped' ∧ asked = asked' ∧ found = found' ∧ q = r := by
  induction h generalizing popped' asked' found' r with
  | popFree hqueue hfree =>
    cases h' with
    | popFree hqueue' hfree' =>
      obtain ⟨rfl, rfl⟩ := List.cons.inj (hqueue.symm.trans hqueue')
      exact ⟨rfl, rfl, rfl, rfl⟩
    | popLent hqueue' hlent' =>
      obtain ⟨rfl, rfl⟩ := List.cons.inj (hqueue.symm.trans hqueue')
      exact (false_of_isLent hlent' hfree).elim
    | askNone hempty | askFree hempty | askLent hempty =>
      exact (false_of_queue hqueue hempty).elim
  | popLent hqueue hlent _ ih =>
    cases h' with
    | popFree hqueue' hfree' =>
      obtain ⟨rfl, rfl⟩ := List.cons.inj (hqueue.symm.trans hqueue')
      exact (false_of_isLent hlent hfree').elim
    | popLent hqueue' hlent' hrest' =>
      obtain ⟨rfl, rfl⟩ := List.cons.inj (hqueue.symm.trans hqueue')
      obtain ⟨rfl, rfl, rfl, rfl⟩ := ih hrest'
      exact ⟨rfl, rfl, rfl, rfl⟩
    | askNone hempty | askFree hempty | askLent hempty =>
      exact (false_of_queue hqueue hempty).elim
  | askNone hempty hends =>
    cases h' with
    | popFree hqueue | popLent hqueue => exact (false_of_queue hqueue hempty).elim
    | askNone _ hends' =>
      obtain ⟨-, rfl⟩ := Prod.mk.inj (hends.symm.trans hends')
      exact ⟨rfl, rfl, rfl, rfl⟩
    | askFree _ hyields | askLent _ hyields => exact (false_of_next hyields hends).elim
  | askFree hempty hyields hfree =>
    cases h' with
    | popFree hqueue | popLent hqueue => exact (false_of_queue hqueue hempty).elim
    | askNone _ hends => exact (false_of_next hyields hends).elim
    | askFree _ hyields' =>
      obtain ⟨hfound, rfl⟩ := Prod.mk.inj (hyields.symm.trans hyields')
      exact ⟨rfl, rfl, hfound, rfl⟩
    | askLent _ hyields' hlent' =>
      obtain ⟨⟨⟩, -⟩ := Prod.mk.inj (hyields.symm.trans hyields')
      exact (false_of_isLent hlent' hfree).elim
  | askLent hempty hyields hlent _ ih =>
    cases h' with
    | popFree hqueue | popLent hqueue => exact (false_of_queue hqueue hempty).elim
    | askNone _ hends => exact (false_of_next hyields hends).elim
    | askFree _ hyields' hfree' =>
      obtain ⟨⟨⟩, -⟩ := Prod.mk.inj (hyields.symm.trans hyields')
      exact (false_of_isLent hlent hfree').elim
    | askLent _ hyields' _ hrest' =>
      obtain ⟨-, rfl⟩ := Prod.mk.inj (hyields.symm.trans hyields')
      obtain ⟨rfl, rfl, rfl, rfl⟩ := ih hrest'
      exact ⟨rfl, rfl, rfl, rfl⟩

lemma Search.queue_eq (h : Search p popped asked found q) : p.queue = popped ++ q.queue := by
  induction h with
  | popFree hqueue => exact hqueue
  | popLent hqueue _ _ ih => exact hqueue.trans (congrArg _ ih)
  | askNone => rfl
  | askFree => rfl
  | askLent _ _ _ _ ih => exact ih

lemma Search.source_eq (h : Search p popped asked found q) :
    q.source = Source.after asked p.source := by
  induction h with
  | popFree => rfl
  | popLent _ _ _ ih => exact ih
  | askNone _ hnext => rw [Source.after, hnext, Source.after]
  | askFree _ hnext => rw [Source.after, hnext, Source.after]
  | askLent _ hnext _ _ ih => rw [ih, Source.after, hnext]

lemma Search.pass_queue {passed queue : List β} (hqueue : p.queue = passed ++ queue)
    (hpassed : ∀ c ∈ passed, p.isLent c = true)
    (h : Search { p with queue } popped asked found q) :
    Search p (passed ++ popped) asked found q := by
  induction passed generalizing p with
  | nil =>
    obtain rfl : p.queue = queue := hqueue
    exact h
  | cons c passed ih =>
    obtain ⟨hc, hrest⟩ := List.forall_mem_cons.mp hpassed
    exact .popLent hqueue hc (ih (p := { p with queue := passed ++ queue }) rfl hrest h)

lemma search_of_answers {passed : List β} (hqueue : p.queue = [])
    (hanswers : Source.answers n p.source = passed.map some ++ [found])
    (hpassed : ∀ c ∈ passed, p.isLent c = true)
    (hfound : ∀ b, found = some b → p.isLent b = false) :
    Search p [] n found { p with source := Source.after n p.source } := by
  obtain ⟨n, rfl⟩ : ∃ m, n = m + 1 := by
    refine ⟨passed.length, ?_⟩
    simpa [Source.length_answers] using congrArg List.length hanswers
  induction passed generalizing p n with
  | nil =>
    obtain ⟨hnext, hrest⟩ := List.cons.inj hanswers
    obtain rfl : n = 0 := by simpa [Source.length_answers] using congrArg List.length hrest
    cases found with
    | none => exact .askNone hqueue (Prod.ext hnext rfl)
    | some b => exact .askFree hqueue (Prod.ext hnext rfl) (hfound b rfl)
  | cons c passed ih =>
    obtain ⟨hnext, hrest⟩ := List.cons.inj hanswers
    obtain ⟨hc, hpassed⟩ := List.forall_mem_cons.mp hpassed
    cases n with
    | zero => simp [Source.answers] at hrest
    | succ n =>
      exact .askLent hqueue (Prod.ext hnext rfl) hc
        (ih (p := { p with source := (Source.next p.source).2 }) hqueue hpassed hfound n hrest)

variable [DecidableEq α]

lemma Reply.exists_search (h : Reply p a n answer q) (ha : p.forward.get? a = none) :
    ∃ popped found r, Search p popped n found r ∧ answer = found.map (Prod.mk false) ∧
      q = found.elim r (r.assign a) := by
  cases h with
  | held hb => exact absurd (ha.symm.trans hb) (Option.some_ne_none _).symm
  | @queued passed b queue _ hqueue hpassed hb =>
    exact ⟨_, some b, _, .pass_queue hqueue hpassed (.popFree rfl hb), rfl, rfl⟩
  | @fresh n b passed _ hqueue hanswers hpassed hb =>
    have hfound : ∀ c, some b = some c → p.isLent c = false := by
      rintro c ⟨⟩
      exact hb
    exact ⟨_, some b, _, .pass_queue (List.append_nil _).symm hqueue
      (search_of_answers rfl hanswers hpassed hfound), rfl, rfl⟩
  | @dry n passed _ hqueue hanswers hpassed =>
    exact ⟨_, none, _, .pass_queue (List.append_nil _).symm hqueue
      (search_of_answers rfl hanswers hpassed nofun), rfl, rfl⟩

lemma Agrees.exists_request_of_distinct (h : Agrees p) (hdistinct : Source.Distinct p.source)
    (a : α) : ∃ n ≤ p.size + 1, ∃ answer q, Request p a n answer q := by
  cases hget : p.getWithin? (p.size + 1) a with
  | some x =>
    obtain ⟨n, hn, hrequest⟩ := exists_request hget
    exact ⟨n, hn, _, _, hrequest⟩
  | none =>
    -- one value more would be lent than keys are held
    obtain ⟨-, -, hfind⟩ := of_getWithin?_eq_none hget
    obtain ⟨passed, hpassed, hanswers⟩ := Source.exists_passed_of_find?_eq_none hfind
    have hlength : passed.length = p.size + 1 := by
      rw [← List.length_map some, ← hanswers, Source.length_answers]
    have hyields : Source.Yields p.source passed := by rw [Source.Yields, hlength, hanswers]
    have hnodup : passed.Nodup := hyields.values_eq ▸ hdistinct passed.length
    have hle := h.length_le_size hnodup hpassed
    omega

lemma Search.request (h : Search p popped asked found r) (hp : Agrees p)
    (hdistinct : Source.Distinct p.source) (ha : p.forward.get? a = none) :
    asked ≤ p.size + 1 ∧
      Request p a asked (found.map (Prod.mk false)) (found.elim r (r.assign a)) := by
  obtain ⟨n, hn, answer, q, hrequest⟩ := hp.exists_request_of_distinct hdistinct a
  obtain ⟨popped', found', r', hsearch, rfl, rfl⟩ := hrequest.reply.exists_search ha
  obtain ⟨-, rfl, rfl, rfl⟩ := h.unique hsearch
  exact ⟨hn, hrequest⟩

lemma Step.distinct (h : Step p e q) (hp : Source.Distinct p.source)
    (he : ∀ s capacity pos, e = .reset s capacity pos → Source.Distinct s) :
    Source.Distinct q.source := by
  cases h with
  | get hget =>
    obtain ⟨n, -, hrequest⟩ := exists_request hget
    rw [hrequest.reply.source_eq]
    exact hp.after n
  | insert a b =>
    rw [Pool.insert, source_assign]
    exact hp
  | reset source capacity pos => exact he source capacity pos rfl

lemma Run.distinct {es : List (Event α β ι)} (h : Run p es q) (hp : Source.Distinct p.source)
    (hes : ∀ s capacity pos, Event.reset s capacity pos ∈ es → Source.Distinct s) :
    Source.Distinct q.source := by
  induction h with
  | nil => exact hp
  | cons hstep _ ih =>
    apply ih
    · exact hstep.distinct hp fun s capacity pos he => hes s capacity pos (he ▸ List.mem_cons_self)
    · exact fun s capacity pos he => hes s capacity pos (List.mem_cons_of_mem _ he)

end

theorem search_ends_within_size [DecidableEq α] [Source ι β] {source : ι} {capacity : Nat}
    {pos : 0 < capacity} {es : List (Event α β ι)} {p : Pool α β ι}
    (h : Run (ofSource source capacity pos) es p) :
    (Source.Distinct p.source → ∀ a,
      (∀ b, p.forward.get? a = some b →
        Request p a 0 (some (true, b)) { p with forward := p.forward.touch a }) ∧
      (p.forward.get? a = none → (∃ popped asked found r, Search p popped asked found r) ∧
        ∀ popped asked found r, Search p popped asked found r →
          p.queue = popped ++ r.queue ∧ asked ≤ p.size + 1 ∧
          r.source = Source.after asked p.source ∧
          Request p a asked (found.map (Prod.mk false)) (found.elim r (r.assign a)))) ∧
    (Source.Distinct source →
      (∀ s capacity pos, Event.reset s capacity pos ∈ es → Source.Distinct s) →
      Source.Distinct p.source) ∧
    ∀ {γ : Type x} [Picker γ] (range : AddressRange) (picker : γ),
      Source.Distinct (Shuffle.ofRange range picker) := by
  have hp : Agrees p := agrees_of_run h
  refine ⟨fun hdistinct a => ⟨fun b hb => (Reply.held hb).request, fun ha => ⟨?_, ?_⟩⟩,
    h.distinct, Source.distinct_shuffle⟩
  · obtain ⟨n, -, answer, q, hrequest⟩ := hp.exists_request_of_distinct hdistinct a
    obtain ⟨popped, found, r, hsearch, -⟩ := hrequest.reply.exists_search ha
    exact ⟨popped, n, found, r, hsearch⟩
  · intro popped asked found r hsearch
    obtain ⟨hle, hrequest⟩ := hsearch.request hp hdistinct ha
    exact ⟨hsearch.queue_eq, hle, hsearch.source_eq, hrequest⟩

theorem search_ends_within_size_of_stale :
    let p : Pool Nat Nat (List (Option Nat)) :=
      (((ofSource [some 9, some 5, some 7] 2 Nat.two_pos).insert 0 5).insert 0 9).insert 1 5
    let r : Pool Nat Nat (List (Option Nat)) :=
      { p with source := Source.after 3 p.source, queue := [] }
    p.queue = [5] ∧ p.size = 2 ∧ Search p [5] 3 (some 7) r ∧
      Request p 2 3 (some (false, 7)) (r.assign 2 7) := by
  have hentries :
      ((((ofSource [some 9, some 5, some 7] 2 Nat.two_pos).insert 0 5).insert 0 9).insert 1 5 :
        Pool Nat Nat (List (Option Nat))).forward.entries = [(1, 5), (0, 9)] := by cbv
  have hwaits :
      ((((ofSource [some 9, some 5, some 7] 2 Nat.two_pos).insert 0 5).insert 0 9).insert 1 5 :
        Pool Nat Nat (List (Option Nat))).queue = [5] := by cbv
  intro p r
  have hrun : Run (ofSource [some 9, some 5, some 7] 2 Nat.two_pos)
      [.insert 0 5, .insert 0 9, .insert 1 5] p :=
    .cons (.insert 0 5) (.cons (.insert 0 9) (.cons (.insert 1 5) (.nil p)))
  have hqueue : p.queue = [5] ++ [] := hwaits
  have hsource : p.source = [some 9, some 5, some 7] :=
    (source_assign _ 1 5).trans ((source_assign _ 0 9).trans (source_assign _ 0 5))
  have hp : Agrees p := agrees_of_run hrun
  have hlent : ∀ b, p.isLent b = true ↔ b ∈ [5, 9] := by
    intro b
    rw [hp.isLent_iff_mem_lent, lent, hentries, List.map_cons, List.map_singleton]
  have hfree : p.isLent 7 = false := by
    rw [← Bool.not_eq_true, hlent]
    decide
  have habsent : p.forward.get? 2 = none := by
    rw [RecencyTable.get?, hentries]
    rfl
  have hanswers : Source.answers 3 p.source = [9, 5].map some ++ [some 7] := by
    rw [hsource]
    rfl
  have hsearch : Search p ([5] ++ []) 3 (some 7) r := by
    apply Search.pass_queue hqueue
    · exact List.forall_mem_singleton.mpr ((hlent 5).mpr (by decide))
    · apply search_of_answers (p := { p with queue := [] }) rfl hanswers
      · exact fun c hc => (hlent c).mpr (List.mem_reverse.mpr hc)
      · rintro c ⟨⟩
        exact hfree
  have hdistinct : Source.Distinct p.source := hsource ▸ Source.distinct_list (by decide)
  have hends := ((search_ends_within_size.{0, 0, 0, 0} hrun).1 hdistinct 2).2 habsent
  exact ⟨hqueue, congrArg List.length hentries, hsearch, (hends.2 _ _ _ _ hsearch).2.2.2⟩

end AddressShuffle.Pool
