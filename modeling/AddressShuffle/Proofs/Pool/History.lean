import AddressShuffle.Proofs.Pool.Assignment
import AddressShuffle.Proofs.Pool.Source
import Mathlib.Data.List.TakeWhile

namespace AddressShuffle.Pool

universe u v w

variable {α : Type u} {β : Type v} {ι : Type w} [DecidableEq α] [DecidableEq β] [Hashable β]

lemma getWithin?_of_get? [Source ι β] {p : Pool α β ι} {a : α} {b : β}
    (h : p.forward.get? a = some b) (draws : Nat) :
    p.getWithin? draws a = some (some (true, b), { p with forward := p.forward.touch a }) := by
  unfold getWithin?
  rw [h]

lemma getWithin?_mono [Source ι β] {p : Pool α β ι} {a : α} {m n : Nat}
    {x : Option (Bool × β) × Pool α β ι} (h : p.getWithin? m a = some x) (hmn : m ≤ n) :
    p.getWithin? n a = some x := by
  unfold getWithin? at h ⊢
  split at h
  · exact h
  · split at h
    · exact h
    · split at h
      · next hfind => simpa only [Source.find?_mono hfind hmn] using h
      · next hfind => simpa only [Source.find?_mono hfind hmn] using h
      · exact absurd h.symm (Option.some_ne_none x)

lemma of_getWithin?_eq_none [Source ι β] {p : Pool α β ι} {a : α} {n : Nat}
    (h : p.getWithin? n a = none) :
    p.forward.get? a = none ∧ (∀ c ∈ p.queue, p.isLent c = true) ∧
      Source.find? p.isLent n p.source = none := by
  unfold getWithin? at h
  split at h
  · exact absurd h (Option.some_ne_none _)
  · next ha =>
    split at h
    · exact absurd h (Option.some_ne_none _)
    · next hqueue =>
      refine ⟨ha, List.dropWhile_eq_nil_iff.mp hqueue, ?_⟩
      split at h
      · exact absurd h (Option.some_ne_none _)
      · exact absurd h (Option.some_ne_none _)
      · next hfind => exact hfind

lemma getWithin?_of_dropWhile [Source ι β] {p : Pool α β ι} {a : α} {b : β} {queue : List β}
    (ha : p.forward.get? a = none) (hqueue : p.queue.dropWhile p.isLent = b :: queue) (n : Nat) :
    p.getWithin? n a = some (some (false, b), assign { p with queue } a b) := by
  unfold getWithin?
  rw [ha, hqueue]

lemma getWithin?_of_all_lent [Source ι β] {p : Pool α β ι} {a : α}
    (ha : p.forward.get? a = none) (hqueue : ∀ c ∈ p.queue, p.isLent c = true) (n : Nat) :
    p.getWithin? n a =
      match Source.find? p.isLent n p.source with
      | some (some b, source) => some (some (false, b), assign { p with source, queue := [] } a b)
      | some (none, source) => some (none, { p with source, queue := [] })
      | none => none := by
  have hdrop : p.queue.dropWhile p.isLent = [] := List.dropWhile_eq_nil_iff.mpr hqueue
  rcases hfind : Source.find? p.isLent n p.source with _ | ⟨_ | b, source⟩
  · simp only [getWithin?, ha, hdrop, hfind]
  · simp only [getWithin?, ha, hdrop, hfind]
  · simp only [getWithin?, ha, hdrop, hfind]

/-- A request for `a` that asks the source `n` times: it ends within `n` values and within no
fewer. -/
structure Request [Source ι β] (p : Pool α β ι) (a : α) (n : Nat) (answer : Option (Bool × β))
    (q : Pool α β ι) : Prop where
  ends : p.getWithin? n a = some (answer, q)
  least : ∀ m < n, p.getWithin? m a = none

lemma exists_request [Source ι β] {p q : Pool α β ι} {a : α} {draws : Nat}
    {answer : Option (Bool × β)} (h : p.getWithin? draws a = some (answer, q)) :
    ∃ n ≤ draws, Request p a n answer q := by
  classical
  have hex : ∃ n, (p.getWithin? n a).isSome := ⟨draws, by rw [h]; rfl⟩
  have hle : Nat.find hex ≤ draws := Nat.find_min' hex (by rw [h]; rfl)
  refine ⟨Nat.find hex, hle, ?_, ?_⟩
  · obtain ⟨x, hx⟩ := Option.isSome_iff_exists.mp (Nat.find_spec hex)
    rw [hx, ← h, getWithin?_mono hx hle]
  · intro m hm
    exact Option.not_isSome_iff_eq_none.mp (Nat.find_min hex hm)

lemma Request.unique [Source ι β] {p q q' : Pool α β ι} {a : α} {n n' : Nat}
    {answer answer' : Option (Bool × β)} (h : Request p a n answer q)
    (h' : Request p a n' answer' q') : answer = answer' ∧ q = q' := by
  rcases Nat.le_total n n' with hle | hle
  · exact Prod.mk.inj (Option.some.inj ((getWithin?_mono h.ends hle).symm.trans h'.ends))
  · exact Prod.mk.inj (Option.some.inj (h.ends.symm.trans (getWithin?_mono h'.ends hle)))

/-- The ways to answer a request for `a` with so many answers of the source. Whatever is passed
over on the way has a key. -/
inductive Reply [Source ι β] (p : Pool α β ι) (a : α) :
    Nat → Option (Bool × β) → Pool α β ι → Prop
  | held {b} : p.forward.get? a = some b →
      Reply p a 0 (some (true, b)) { p with forward := p.forward.touch a }
  | queued {passed : List β} {b queue} : p.forward.get? a = none → p.queue = passed ++ b :: queue →
      (∀ c ∈ passed, p.isLent c = true) → p.isLent b = false →
      Reply p a 0 (some (false, b)) (assign { p with queue } a b)
  | fresh {n b} {passed : List β} : p.forward.get? a = none → (∀ c ∈ p.queue, p.isLent c = true) →
      Source.answers n p.source = passed.map some ++ [some b] →
      (∀ c ∈ passed, p.isLent c = true) → p.isLent b = false →
      Reply p a n (some (false, b))
        (assign { p with source := Source.after n p.source, queue := [] } a b)
  | dry {n} {passed : List β} : p.forward.get? a = none → (∀ c ∈ p.queue, p.isLent c = true) →
      Source.answers n p.source = passed.map some ++ [none] →
      (∀ c ∈ passed, p.isLent c = true) →
      Reply p a n none { p with source := Source.after n p.source, queue := [] }

lemma Request.eq_zero [Source ι β] {p q : Pool α β ι} {a : α} {n : Nat}
    {answer : Option (Bool × β)} (h : Request p a n answer q)
    {x : Option (Bool × β) × Pool α β ι} (hx : p.getWithin? 0 a = some x) : n = 0 := by
  by_contra hn
  exact Option.some_ne_none x (hx.symm.trans (h.least 0 (Nat.pos_of_ne_zero hn)))

lemma Request.reply [Source ι β] {p q : Pool α β ι} {a : α} {n : Nat}
    {answer : Option (Bool × β)} (h : Request p a n answer q) : Reply p a n answer q := by
  rcases getWithin?_cases h.ends with ⟨b, ha, rfl, rfl⟩ | ⟨ha, b, queue, hqueue, rfl, rfl⟩ |
    ⟨ha, hqueue, b, source, hfind, rfl, rfl⟩ | ⟨ha, hqueue, source, hfind, rfl, rfl⟩
  · obtain rfl := h.eq_zero (getWithin?_of_get? ha 0)
    exact .held ha
  · obtain rfl := h.eq_zero (getWithin?_of_dropWhile ha hqueue 0)
    have hsplit : p.queue = p.queue.takeWhile p.isLent ++ b :: queue := by
      rw [← hqueue, List.takeWhile_append_dropWhile]
    have hfree := List.head_dropWhile_not p.isLent (l := p.queue) (by simp [hqueue])
    simp only [hqueue, List.head_cons] at hfree
    exact .queued ha hsplit (fun c hc => List.mem_takeWhile_imp hc) hfree
  · obtain ⟨passed, hpassed, hfree, hanswers, rfl⟩ :=
      Source.exists_passed_of_find? hfind fun m hm => (of_getWithin?_eq_none (h.least m hm)).2.2
    exact .fresh ha (List.dropWhile_eq_nil_iff.mp hqueue) hanswers hpassed (hfree b rfl)
  · obtain ⟨passed, hpassed, -, hanswers, rfl⟩ :=
      Source.exists_passed_of_find? hfind fun m hm => (of_getWithin?_eq_none (h.least m hm)).2.2
    exact .dry ha (List.dropWhile_eq_nil_iff.mp hqueue) hanswers hpassed

lemma Reply.request [Source ι β] {p q : Pool α β ι} {a : α} {n : Nat}
    {answer : Option (Bool × β)} (h : Reply p a n answer q) : Request p a n answer q := by
  cases h with
  | held ha => exact ⟨getWithin?_of_get? ha 0, fun m hm => absurd hm (Nat.not_lt_zero m)⟩
  | @queued passed b queue ha hsplit hpassed hfree =>
    have hqueue : p.queue.dropWhile p.isLent = b :: queue := by
      rw [hsplit, List.dropWhile_append_of_pos hpassed,
        List.dropWhile_cons_of_neg (by simp [hfree])]
    exact ⟨getWithin?_of_dropWhile ha hqueue 0, fun m hm => absurd hm (Nat.not_lt_zero m)⟩
  | @fresh n b passed ha hqueue hanswers hpassed hfree =>
    have hfound : ∀ c, some b = some c → p.isLent c = false := by
      rintro c ⟨⟩
      exact hfree
    obtain ⟨hfind, hleast⟩ := Source.find?_of_answers hanswers hpassed hfound
    refine ⟨?_, ?_⟩
    · rw [getWithin?_of_all_lent ha hqueue, hfind]
    · intro m hm
      rw [getWithin?_of_all_lent ha hqueue, hleast m hm]
  | @dry n passed ha hqueue hanswers hpassed =>
    obtain ⟨hfind, hleast⟩ := Source.find?_of_answers hanswers hpassed (fun c hc => nomatch hc)
    refine ⟨?_, ?_⟩
    · rw [getWithin?_of_all_lent ha hqueue, hfind]
    · intro m hm
      rw [getWithin?_of_all_lent ha hqueue, hleast m hm]

lemma Reply.capacity_eq [Source ι β] {p q : Pool α β ι} {a : α} {n : Nat}
    {answer : Option (Bool × β)} (h : Reply p a n answer q) : q.capacity = p.capacity := by
  cases h with
  | held => exact RecencyTable.capacity_touch _ _
  | queued => exact capacity_assign _ _ _
  | fresh => exact capacity_assign _ _ _
  | dry => rfl

lemma Reply.source_eq [Source ι β] {p q : Pool α β ι} {a : α} {n : Nat}
    {answer : Option (Bool × β)} (h : Reply p a n answer q) :
    q.source = Source.after n p.source := by
  cases h with
  | held => rfl
  | queued => exact source_assign _ _ _
  | fresh => exact source_assign _ _ _
  | dry => rfl

/-- The calls since a pool was made, and the answers of its source to them. A reset pool is one
just made. -/
inductive History [Source ι β] (source : ι) (capacity : Nat) (pos : 0 < capacity) :
    List (Event α β ι) → List (Option β) → Pool α β ι → Prop
  | start : History source capacity pos [] [] (ofSource source capacity pos)
  | get {es heard p a n answer q} : History source capacity pos es heard p →
      Request p a n answer q →
      History source capacity pos (es ++ [.get a answer]) (heard ++ Source.answers n p.source) q
  | insert {es heard p} (a b) : History source capacity pos es heard p →
      History source capacity pos (es ++ [.insert a b]) heard (p.insert a b)

def Event.IsCall : Event α β ι → Prop
  | .get .. => True
  | .insert .. => True
  | .reset .. => False

def Event.IsGet : Event α β ι → Prop
  | .get .. => True
  | _ => False

lemma Run.concat [Source ι β] {p q r : Pool α β ι} {es : List (Event α β ι)}
    {e : Event α β ι} (h : Run p es q) (hstep : Step q e r) : Run p (es ++ [e]) r := by
  induction h with
  | nil => exact .cons hstep (.nil r)
  | cons hs _ ih => exact .cons hs (ih hstep)

section

variable [Source ι β] {source : ι} {capacity : Nat} {pos : 0 < capacity}
  {es : List (Event α β ι)} {heard : List (Option β)} {p : Pool α β ι}

lemma History.run (h : History source capacity pos es heard p) :
    Run (ofSource source capacity pos) es p := by
  induction h with
  | start => exact .nil _
  | get _ hget ih => exact ih.concat (.get hget.ends)
  | insert a b _ ih => exact ih.concat (.insert a b)

lemma History.agrees (h : History source capacity pos es heard p) : Agrees p :=
  agrees_of_run h.run

lemma History.append {q : Pool α β ι} {es' : List (Event α β ι)}
    (h : History source capacity pos es heard p) (hrun : Run p es' q)
    (hcalls : ∀ e ∈ es', e.IsCall) :
    ∃ heard', History source capacity pos (es ++ es') (heard ++ heard') q := by
  induction hrun generalizing es heard with
  | nil p => exact ⟨[], by simpa using h⟩
  | @cons p q r e es' hstep _ ih =>
    obtain ⟨he, hes'⟩ := List.forall_mem_cons.mp hcalls
    cases hstep with
    | get hget =>
      obtain ⟨n, -, hrequest⟩ := exists_request hget
      obtain ⟨heard', h'⟩ := ih (h.get hrequest) hes'
      exact ⟨_, by simpa only [List.append_assoc, List.singleton_append] using h'⟩
    | insert a b =>
      obtain ⟨heard', h'⟩ := ih (h.insert a b) hes'
      exact ⟨heard', by simpa only [List.append_assoc, List.singleton_append] using h'⟩
    | reset => exact he.elim

lemma History.source_eq (h : History source capacity pos es heard p) :
    heard = Source.answers heard.length source ∧
      p.source = Source.after heard.length source := by
  induction h with
  | start => exact ⟨rfl, rfl⟩
  | insert a b _ ih => exact ⟨ih.1, (source_assign _ a b).trans ih.2⟩
  | @get es heard p a n answer q _ hget ih =>
    rw [List.length_append, Source.length_answers, Source.answers_add, Source.after_add,
      hget.reply.source_eq, ← ih.2, ← ih.1]
    exact ⟨rfl, rfl⟩

lemma History.values_add (h : History source capacity pos es heard p) (n : Nat) :
    Source.values (heard.length + n) source =
      heard.reduceOption ++ Source.values n p.source := by
  rw [Source.values_add, Source.values, ← h.source_eq.1, ← h.source_eq.2]

lemma History.capacity_eq (h : History source capacity pos es heard p) :
    p.capacity = capacity := by
  induction h with
  | start => rfl
  | insert a b _ ih => exact (capacity_assign _ a b).trans ih
  | get _ hget ih => exact hget.reply.capacity_eq.trans ih

end

end AddressShuffle.Pool
