import AddressShuffle.Proofs.Pool.History
import Mathlib.Data.List.Dedup

/-! The key that makes room for another is the one whose latest use is the oldest. -/

namespace AddressShuffle

universe u v w

namespace RecencyTable

variable {α : Type u} {β : Type v} [DecidableEq α] {t : RecencyTable α β} {a x : α} {b : β}

lemma mem_keys_iff : x ∈ t.keys ↔ t.contains x = true := by
  rw [contains, Option.isSome_iff_exists, keys, List.mem_map]
  constructor
  · rintro ⟨⟨k, v⟩, he, rfl⟩
    exact ⟨v, get?_eq_some_iff.mpr he⟩
  · rintro ⟨v, hv⟩
    exact ⟨(x, v), get?_eq_some_iff.mp hv, rfl⟩

/-- `x` has to leave for `a`: the table is full and does not hold `a`. -/
structure MakesRoom (t : RecencyTable α β) (a x : α) : Prop where
  absent : t.contains a = false
  full : t.size = t.capacity
  last : t.keys.getLast? = some x

lemma fst_push_eq_iff (hx : x ≠ a) :
    (t.push a b).1.map Prod.fst = some x ↔ t.MakesRoom a x := by
  cases ha : t.get? a with
  | some old =>
    have hcontains : t.contains a = true := by rw [contains, ha, Option.isSome_some]
    rw [push_of_present ha]
    constructor
    · intro h
      exact absurd (Option.some.inj h).symm hx
    · intro h
      exact absurd (h.absent.symm.trans hcontains) Bool.false_ne_true
  | none =>
    have habsent : t.contains a = false := contains_eq_false_iff.mpr ha
    rcases Nat.lt_or_ge t.entries.length t.capacity with hlt | hle
    · rw [push_of_room ha hlt]
      constructor
      · intro h
        exact absurd h.symm (Option.some_ne_none x)
      · intro h
        exact absurd h.full (Nat.ne_of_lt hlt)
    · rw [push_of_full ha hle, ← List.getLast?_map]
      exact ⟨fun h => ⟨habsent, Nat.le_antisymm t.length_le hle, h⟩, fun h => h.last⟩

lemma exists_makesRoom (ha : t.get? a = none) (hfull : t.size = t.capacity) (b : β) :
    ∃ x v, t.MakesRoom a x ∧ t.get? x = some v ∧ (t.push a b).1 = some (x, v) := by
  obtain ⟨kept, hentries, hleaves, -⟩ := exists_push_of_absent ha b
  obtain ⟨⟨x, v⟩, hpush⟩ := Option.isSome_iff_exists.mp (hleaves.mpr hfull)
  refine ⟨x, v, ⟨contains_eq_false_iff.mpr ha, hfull, ?_⟩, (get?_of_push_eq_some hpush).1, hpush⟩
  rw [hpush] at hentries
  rw [keys, hentries, List.map_append]
  exact List.getLast?_concat

lemma exists_keys_push (t : RecencyTable α β) (a : α) (b : β) :
    ∃ l, (t.push a b).2.keys = a :: l ∧ l.Sublist t.keys := by
  cases ha : t.get? a with
  | some old =>
    rw [push_of_present ha]
    refine ⟨t.keys.filter (· ≠ a), ?_, List.filter_sublist⟩
    exact congrArg (a :: ·) (keys_without a t.entries)
  | none =>
    rcases Nat.lt_or_ge t.entries.length t.capacity with hlt | hle
    · rw [push_of_room ha hlt]
      exact ⟨t.keys, rfl, List.Sublist.refl _⟩
    · rw [push_of_full ha hle]
      exact ⟨t.entries.dropLast.map Prod.fst, rfl, (List.dropLast_sublist _).map _⟩

lemma exists_keys_erase {k : α} {l : List α} (hk : k ≠ a) (hl : t.keys = a :: l) :
    ∃ l', (t.erase k).keys = a :: l' ∧ l'.Sublist l := by
  refine ⟨l.filter (· ≠ k), ?_, List.filter_sublist⟩
  have hkeys : (t.erase k).keys = t.keys.filter (· ≠ k) := keys_without k t.entries
  rw [hkeys, hl, List.filter_cons_of_pos (by simp [Ne.symm hk])]

end RecencyTable

namespace Pool

variable {α : Type u} {β : Type v} {ι : Type w} [DecidableEq α] [DecidableEq β] [Hashable β]

/-- `t` is the table of `p` once `a` was used and holds `b`. Another key has left when it held `b`
or had to make room. -/
structure Used (p : Pool α β ι) (a : α) (b : β) (t : RecencyTable α β) : Prop where
  holds : t.get? a = some b
  order : ∃ l, t.keys = a :: l ∧ l.Sublist p.forward.keys
  others : ∀ x y, x ≠ a → (t.get? x = some y ↔
    p.forward.get? x = some y ∧ y ≠ b ∧ ¬p.forward.MakesRoom a x)

lemma Used.contains_iff {p : Pool α β ι} {a x : α} {b : β} {t : RecencyTable α β}
    (h : Used p a b t) (hx : x ≠ a) :
    t.contains x = true ↔
      p.contains x = true ∧ p.forward.get? x ≠ some b ∧ ¬p.forward.MakesRoom a x := by
  rw [RecencyTable.contains, contains, RecencyTable.contains, Option.isSome_iff_exists]
  simp only [h.others x _ hx]
  cases p.forward.get? x with
  | none => simp
  | some v => simp

lemma Agrees.get?_assign {p : Pool α β ι} (h : Agrees p) (a : α) (b : β) (x : α) :
    (p.assign a b).forward.get? x =
      if x = a then some b
      else if p.owner? b = some x then none
      else if (p.forward.push a b).1.map Prod.fst = some x then none else p.forward.get? x := by
  rw [assign_eq_give, get?_give, h.owner?_pushed_self, get?_pushed]
  by_cases hx : x = a
  · rw [if_neg fun hc => hc.1 hx, if_pos hx, if_pos hx]
  · rw [if_neg hx, if_neg hx]
    by_cases hk : p.owner? b = some x
    · rw [if_pos ⟨hx, hk⟩, if_pos hk]
    · rw [if_neg fun hc => hk hc.2, if_neg hk]

lemma Agrees.used_assign {p : Pool α β ι} (h : Agrees p) (a : α) (b : β) :
    Used p a b (p.assign a b).forward := by
  refine ⟨?_, ?_, ?_⟩
  · rw [h.get?_assign, if_pos rfl]
  · obtain ⟨l, hl, hsub⟩ := p.forward.exists_keys_push a b
    rw [h.forward_assign]
    cases hk : p.owner? b with
    | none => exact ⟨l, hl, hsub⟩
    | some k =>
      by_cases hka : k = a
      · simpa only [if_pos hka] using ⟨l, hl, hsub⟩
      · obtain ⟨l', hl', hsub'⟩ := RecencyTable.exists_keys_erase hka hl
        simpa only [if_neg hka] using ⟨l', hl', hsub'.trans hsub⟩
  · intro x y hx
    rw [h.get?_assign, if_neg hx, ← RecencyTable.fst_push_eq_iff (b := b) hx]
    by_cases hk : p.owner? b = some x
    · have hb := (h x b).mpr hk
      rw [if_pos hk]
      constructor
      · intro hnone
        exact absurd hnone.symm (Option.some_ne_none y)
      · rintro ⟨hy, hyb, -⟩
        exact absurd (Option.some.inj (hy.symm.trans hb)) hyb
    · have hyb : p.forward.get? x = some y → y ≠ b := by
        rintro hy rfl
        exact hk ((h x y).mp hy)
      rw [if_neg hk]
      by_cases hroom : (p.forward.push a b).1.map Prod.fst = some x
      · simp [hroom]
      · simpa [hroom] using hyb

lemma Agrees.used_touch {p : Pool α β ι} (h : Agrees p) {a : α} {b : β}
    (ha : p.forward.get? a = some b) : Used p a b (p.forward.touch a) := by
  have htouch : p.forward.touch a = (p.forward.push a b).2 := by
    rw [RecencyTable.push_of_present ha, RecencyTable.touch_of_present ha]
  refine ⟨by rw [RecencyTable.get?_touch, ha], htouch ▸ p.forward.exists_keys_push a b, ?_⟩
  intro x y hx
  have hyb : p.forward.get? x = some y → y ≠ b := by
    rintro hy rfl
    exact hx (Option.some.inj (((h x y).mp hy).symm.trans ((h a y).mp ha)))
  have hroom : ¬p.forward.MakesRoom a x := by
    intro hroom
    simpa [RecencyTable.contains, ha] using hroom.absent
  rw [RecencyTable.get?_touch]
  exact ⟨fun hy => ⟨hy, hyb hy, hroom⟩, And.left⟩

lemma Reply.used [Source ι β] {p q : Pool α β ι} {a : α} {n : Nat} {known : Bool} {b : β}
    (h : Reply p a n (some (known, b)) q) (hp : Agrees p) : Used p a b q.forward := by
  cases h with
  | held ha => exact hp.used_touch ha
  | @queued passed b queue =>
    have hused := Agrees.used_assign (p := { p with queue }) hp a b
    exact ⟨hused.holds, hused.order, hused.others⟩
  | @fresh n b passed =>
    let s := Source.after n p.source
    have hused := Agrees.used_assign (p := { p with source := s, queue := [] }) hp a b
    exact ⟨hused.holds, hused.order, hused.others⟩

lemma Reply.forward_of_none [Source ι β] {p q : Pool α β ι} {a : α} {n : Nat}
    (h : Reply p a n none q) : q.forward = p.forward := by
  cases h with
  | dry => rfl

inductive Call (α : Type u) (β : Type v) where
  | get (a : α) (answer : Option (Bool × β))
  | insert (a : α) (b : β)
  | contains (a : α) (answer : Bool)
  | owner (b : β) (answer : Option α)

def Call.used? : Call α β → Option α
  | .get a (some _) => some a
  | .insert a _ => some a
  | _ => none

inductive Performs [Source ι β] : Pool α β ι → Call α β → Pool α β ι → Prop
  | get {p q a answer draws} : p.getWithin? draws a = some (answer, q) →
      Performs p (.get a answer) q
  | insert {p} (a b) : Performs p (.insert a b) (p.insert a b)
  | contains {p} (a) : Performs p (.contains a (p.contains a)) p
  | owner {p} (b) : Performs p (.owner b (p.owner? b)) p

lemma performs_get [FiniteSource ι β] (p : Pool α β ι) (a : α) :
    Performs p (.get a (p.get a).1) (p.get a).2 :=
  .get (Option.some_get (p.isSome_getWithin? a)).symm

inductive Calls [Source ι β] (source : ι) (capacity : Nat) (pos : 0 < capacity) :
    List (Call α β) → Pool α β ι → Prop
  | start : Calls source capacity pos [] (ofSource source capacity pos)
  | call {cs p c q} : Calls source capacity pos cs p → Performs p c q →
      Calls source capacity pos (cs ++ [c]) q

def latestUses (cs : List (Call α β)) : List α := (cs.filterMap Call.used?).dedup

lemma Performs.agrees [Source ι β] {p q : Pool α β ι} {c : Call α β} (h : Performs p c q)
    (hp : Agrees p) : Agrees q := by
  cases h with
  | get hget => exact Agrees.step (.get hget) hp
  | insert a b => exact hp.assign a b
  | contains => exact hp
  | owner => exact hp

lemma Performs.forward_or_used [Source ι β] {p q : Pool α β ι} {c : Call α β}
    (h : Performs p c q) (hp : Agrees p) :
    (c.used? = none ∧ q.forward = p.forward) ∨
      ∃ a b, c.used? = some a ∧ Used p a b q.forward := by
  cases h with
  | contains => exact Or.inl ⟨rfl, rfl⟩
  | owner => exact Or.inl ⟨rfl, rfl⟩
  | insert a b => exact Or.inr ⟨a, b, rfl, hp.used_assign a b⟩
  | @get _ a answer _ hget =>
    obtain ⟨n, -, hrequest⟩ := exists_request hget
    rcases answer with _ | ⟨known, b⟩
    · exact Or.inl ⟨rfl, hrequest.reply.forward_of_none⟩
    · exact Or.inr ⟨a, b, rfl, hrequest.reply.used hp⟩

lemma Calls.agrees [Source ι β] {source : ι} {capacity : Nat} {pos : 0 < capacity}
    {cs : List (Call α β)} {p : Pool α β ι} (h : Calls source capacity pos cs p) : Agrees p := by
  induction h with
  | start => exact agrees_ofSource source capacity pos
  | call _ hc ih => exact hc.agrees ih

omit [DecidableEq β] [Hashable β] in
lemma latestUses_concat_of_none {c : Call α β} (h : c.used? = none) (cs : List (Call α β)) :
    latestUses (cs ++ [c]) = latestUses cs := by
  simp [latestUses, List.filterMap_append, h]

lemma dedup_concat (l : List α) (a : α) :
    (l ++ [a]).dedup = l.dedup.filter (· ≠ a) ++ [a] := by
  induction l with
  | nil => simp
  | cons x l ih =>
    rw [List.cons_append]
    by_cases hx : x ∈ l
    · rw [List.dedup_cons_of_mem (List.mem_append_left _ hx), ih, List.dedup_cons_of_mem hx]
    · rw [List.dedup_cons_of_notMem hx]
      by_cases hxa : x = a
      · rw [List.dedup_cons_of_mem (by simp [hxa]), ih, List.filter_cons_of_neg (by simp [hxa])]
      · rw [List.dedup_cons_of_notMem (by simp [hx, hxa]), ih,
          List.filter_cons_of_pos (by simp [hxa]), List.cons_append]

omit [DecidableEq β] [Hashable β] in
lemma latestUses_concat_of_some {c : Call α β} {a : α} (h : c.used? = some a)
    (cs : List (Call α β)) :
    latestUses (cs ++ [c]) = (latestUses cs).filter (· ≠ a) ++ [a] := by
  rw [latestUses, latestUses, ← dedup_concat]
  simp [List.filterMap_append, h]

omit [DecidableEq α] in
lemma eq_filter_of_sublist {l l' : List α} {f : α → Bool} (hsub : l.Sublist l')
    (hnodup : l'.Nodup) (hmem : ∀ x ∈ l', x ∈ l ↔ f x = true) : l = l'.filter f := by
  have hfilter : l.filter f = l :=
    List.filter_eq_self.mpr fun x hx => (hmem x (hsub.subset hx)).mp hx
  have hperm : l.Perm (l'.filter f) := by
    apply (List.perm_ext_iff_of_nodup (hnodup.sublist hsub) (hnodup.filter f)).mpr
    intro x
    rw [List.mem_filter]
    constructor
    · intro hx
      exact ⟨hsub.subset hx, (hmem x (hsub.subset hx)).mp hx⟩
    · rintro ⟨hx, hf⟩
      exact (hmem x hx).mpr hf
  have hfiltered := hsub.filter f
  rw [hfilter] at hfiltered
  exact hfiltered.eq_of_length hperm.length_eq

lemma Used.keys_eq {p : Pool α β ι} {a : α} {b : β} {t : RecencyTable α β} (h : Used p a b t) :
    t.keys = a :: p.forward.keys.filter fun x => decide (x ≠ a) && t.contains x := by
  obtain ⟨l, hl, hsub⟩ := h.order
  have hnodup : (a :: l).Nodup := hl ▸ t.nodup_keys
  -- Behind `a` the table kept its order, so only the keys that left are missing there.
  rw [hl]
  congr 1
  apply eq_filter_of_sublist hsub p.forward.nodup_keys
  intro x _
  rw [Bool.and_eq_true, decide_eq_true_eq, ← RecencyTable.mem_keys_iff, hl, List.mem_cons]
  constructor
  · intro hx
    refine ⟨?_, Or.inr hx⟩
    rintro rfl
    exact (List.nodup_cons.mp hnodup).1 hx
  · rintro ⟨hx, hmem⟩
    exact hmem.resolve_left hx

lemma Used.keys_reverse {p : Pool α β ι} {a : α} {b : β} {t : RecencyTable α β}
    (h : Used p a b t) {uses : List α} (hp : p.forward.keys.reverse = uses.filter p.contains) :
    t.keys.reverse = (uses.filter (· ≠ a) ++ [a]).filter t.contains := by
  have hcontains : t.contains a = true := by rw [RecencyTable.contains, h.holds, Option.isSome_some]
  have hbefore : ∀ x, x ≠ a → t.contains x = true → p.contains x = true := by
    intro x hx ht
    exact ((h.contains_iff hx).mp ht).1
  rw [h.keys_eq, List.reverse_cons, ← List.filter_reverse, hp, List.filter_filter,
    List.filter_append, List.filter_filter, List.filter_cons_of_pos hcontains, List.filter_nil]
  congr 1
  apply List.filter_congr
  intro x _
  by_cases hx : x = a
  · simp [hx]
  · cases ht : t.contains x with
    | false => simp
    | true => simp [hx, hbefore x hx ht]

lemma Calls.keys_reverse [Source ι β] {source : ι} {capacity : Nat} {pos : 0 < capacity}
    {cs : List (Call α β)} {p : Pool α β ι} (h : Calls source capacity pos cs p) :
    p.forward.keys.reverse = (latestUses cs).filter p.contains := by
  induction h with
  | start => rfl
  | @call cs p c q hcalls hc ih =>
    rcases hc.forward_or_used hcalls.agrees with ⟨hnone, hforward⟩ | ⟨a, b, hsome, hused⟩
    · have hcontains : q.contains = p.contains := by
        funext x
        rw [contains, contains, hforward]
      rw [latestUses_concat_of_none hnone, hforward, hcontains, ih]
    · rw [latestUses_concat_of_some hsome]
      exact hused.keys_reverse ih

theorem eviction_follows_latest_use [Source ι β] {source : ι} {capacity : Nat}
    {pos : 0 < capacity} {cs : List (Call α β)} {p : Pool α β ι}
    (h : Calls source capacity pos cs p) :
    p.forward.keys.reverse = (latestUses cs).filter p.contains ∧
    ∀ c q, Performs p c q →
      (c.used? = none → q.forward = p.forward) ∧
      ∀ a, c.used? = some a → ∃ b, q.forward.get? a = some b ∧
        ∀ x y, x ≠ a → (q.forward.get? x = some y ↔ p.forward.get? x = some y ∧ y ≠ b ∧
          ¬(p.contains a = false ∧ p.size = p.capacity ∧
            ((latestUses cs).filter p.contains).head? = some x)) := by
  have hkeys := h.keys_reverse
  have hroom : ∀ a x, p.forward.MakesRoom a x ↔ p.contains a = false ∧ p.size = p.capacity ∧
      ((latestUses cs).filter p.contains).head? = some x := by
    intro a x
    rw [← hkeys, List.head?_reverse]
    exact ⟨fun hm => ⟨hm.absent, hm.full, hm.last⟩, fun ⟨ha, hfull, hx⟩ => ⟨ha, hfull, hx⟩⟩
  refine ⟨hkeys, ?_⟩
  intro c q hc
  rcases hc.forward_or_used h.agrees with ⟨hnone, hforward⟩ | ⟨a, b, hsome, hused⟩
  · refine ⟨fun _ => hforward, ?_⟩
    intro a ha
    exact absurd (ha.symm.trans hnone) (Option.some_ne_none a)
  · constructor
    · intro hnone
      exact absurd (hsome.symm.trans hnone) (Option.some_ne_none a)
    · intro a' ha'
      obtain rfl : a = a' := Option.some.inj (hsome.symm.trans ha')
      refine ⟨b, hused.holds, ?_⟩
      intro x y hx
      rw [hused.others x y hx, hroom]

theorem eviction_follows_latest_use_of_request :
    let p : Pool Nat Nat (List (Option Nat)) :=
      ((ofSource [some 7] 2 Nat.two_pos).insert 0 10).insert 1 11
    let q := (p.get 0).2
    q.forward.keys.reverse = [1, 0] ∧ q.contains 2 = false ∧ q.size = q.capacity ∧
      ∀ y, (q.insert 2 12).forward.get? 1 ≠ some y := by
  intro p q
  let o : Pool Nat Nat (List (Option Nat)) := ofSource [some 7] 2 Nat.two_pos
  have ho : Agrees o := agrees_ofSource _ _ _
  have hempty : ∀ b, o.owner? b = none := fun b => Std.HashMap.getElem?_empty
  have hlater : (o.assign 0 10).owner? 11 = none := by
    rw [ho.owner?_assign, hempty, if_neg (by decide), ite_self]
  have hforward : p.forward = ((o.forward.push 0 10).2.push 1 11).2 := by
    have h := (ho.assign 0 10).forward_assign 1 11
    rw [hlater, ho.forward_assign, hempty] at h
    exact h
  have hget : p.get 0 = (some (true, 10), { p with forward := p.forward.touch 0 }) := by
    have hheld : p.forward.get? 0 = some 10 := by
      rw [hforward]
      rfl
    apply Option.some.inj
    rw [← getWithin?_of_get? hheld, get, Option.some_get]
  have hq : q.forward = ((o.forward.push 0 10).2.push 1 11).2.touch 0 := by
    dsimp only [q]
    rw [hget, hforward]
  have hheld : q.contains 0 = true ∧ q.contains 1 = true ∧ q.contains 2 = false := by
    simp only [contains, hq]
    decide
  have hfull : q.size = q.capacity := by
    rw [size, capacity, hq]
    rfl
  have hanswer : (p.get 0).1 = some (true, 10) := congrArg Prod.fst hget
  have hrequest := performs_get p 0
  rw [hanswer] at hrequest
  have hstart : Calls [some 7] 2 Nat.two_pos ([] : List (Call Nat Nat)) o := .start
  have hcalls :=
    (((hstart.call (.insert 0 10)).call (.insert 1 11)).call hrequest).call (.contains 1)
  have h := eviction_follows_latest_use hcalls
  have hkeys : q.forward.keys.reverse = [1, 0] := by
    rw [hq]
    rfl
  refine ⟨hkeys, hheld.2.2, hfull, ?_⟩
  intro y hy
  obtain ⟨b, -, hothers⟩ := (h.2 _ _ (.insert 2 12)).2 2 rfl
  refine ((hothers 1 y (by decide)).mp hy).2.2 ⟨hheld.2.2, hfull, ?_⟩
  rw [← h.1]
  exact congrArg List.head? hkeys

end Pool

end AddressShuffle
