import AddressShuffle.Proofs.Toml.Line

namespace AddressShuffle.Toml

namespace Table

variable {key other : String} {v w : Value} {t u : Table}

def keys (t : Table) : List String := t.map Prod.fst

def pairs (t : Table) : List (List String × Value) := t.map fun e => ([e.1], e.2)

lemma get?_cons (e : String × Value) (t : Table) (key : String) :
    get? (e :: t) key = if e.1 = key then some e.2 else t.get? key := by
  obtain ⟨k, x⟩ := e
  by_cases h : k = key
  · rw [if_pos h, h, get?, List.lookup_cons_self]
  · have hne : (key == k) = false := beq_false_of_ne (Ne.symm h)
    rw [if_neg h, get?, List.lookup_cons, hne]
    rfl

lemma get?_eq_none (h : key ∉ t.keys) : t.get? key = none := by
  induction t with
  | nil => rfl
  | cons e t ih =>
    obtain ⟨hne, ht⟩ := List.ne_and_not_mem_of_not_mem_cons h
    rw [get?_cons, if_neg (Ne.symm hne), ih ht]

@[simp] lemma get?_put : (t.put key v).get? key = some v := by
  induction t with
  | nil => rw [put, get?_cons, if_pos rfl]
  | cons e t ih =>
    rw [put]
    split
    next => rw [get?_cons, if_pos rfl]
    next h => rw [get?_cons, if_neg h, ih]

lemma get?_put_of_ne (h : key ≠ other) : (t.put key v).get? other = t.get? other := by
  induction t with
  | nil => rw [put, get?_cons, if_neg h]
  | cons e t ih =>
    rw [put]
    split
    next he => rw [get?_cons, get?_cons, if_neg h, if_neg (he ▸ h)]
    next => rw [get?_cons, get?_cons, ih]

@[simp] lemma put_put : (t.put key v).put key w = t.put key w := by
  induction t with
  | nil => rw [put, put, put, if_pos rfl]
  | cons e t ih =>
    by_cases h : e.1 = key
    · simp only [put, if_pos h, if_true]
    · simp only [put, if_neg h, ih]

lemma put_of_not_mem (h : key ∉ t.keys) : t.put key v = t ++ [(key, v)] := by
  induction t with
  | nil => rfl
  | cons e t ih =>
    obtain ⟨hne, ht⟩ := List.ne_and_not_mem_of_not_mem_cons h
    rw [put, if_neg (Ne.symm hne), ih ht]
    rfl

lemma assign_of_not_mem (h : key ∉ t.keys) : assign v [key] t = some (t ++ [(key, v)]) := by
  rw [assign, get?_eq_none h, put_of_not_mem h]
  rfl

lemma fill_append_pairs (h : (t ++ u).keys.Nodup) : fill u.pairs t = some (t ++ u) := by
  induction u generalizing t with
  | nil => rw [List.append_nil]; rfl
  | cons e u ih =>
    have hnew : e.1 ∉ t.keys := by
      rw [keys, List.map_append] at h
      exact fun hmem => (List.nodup_append.mp h).2.2 e.1 hmem e.1 List.mem_cons_self rfl
    have hrest : fill (pairs u) (t ++ [e]) = some (t ++ [e] ++ u) := by
      apply ih
      rwa [List.append_assoc, List.singleton_append]
    have hstep : fill (pairs (e :: u)) t = (assign e.2 [e.1] t).bind (fill (pairs u)) := rfl
    rw [hstep, assign_of_not_mem hnew, Option.bind_some, hrest, List.append_assoc]
    rfl

lemma fill_pairs (h : t.keys.Nodup) : fill t.pairs [] = some t :=
  fill_append_pairs h

end Table

namespace Statement

variable {key : String} {t : Table} {ts : List Table}

def ofPairs (t : Table) : List Statement := t.pairs.map fun p => .pair p.1 p.2

def ofElement (key : String) (t : Table) : List Statement := .element [key] :: ofPairs t

lemma sections_ofPairs_append (t : Table) (sts : List Statement) :
    sections (ofPairs t ++ sts) = (t.pairs ++ (sections sts).1, (sections sts).2) := by
  induction t with
  | nil => rfl
  | cons e t ih =>
    have hstep : sections (ofPairs (e :: t) ++ sts) =
        (([e.1], e.2) :: (sections (ofPairs t ++ sts)).1, (sections (ofPairs t ++ sts)).2) := rfl
    rw [hstep, ih]
    rfl

lemma sections_flatMap_ofElement (key : String) (ts : List Table) :
    sections (ts.flatMap (ofElement key)) = ([], ts.map fun t => ⟨true, [key], t.pairs⟩) := by
  induction ts with
  | nil => rfl
  | cons t ts ih =>
    have hstep : sections ((t :: ts).flatMap (ofElement key)) =
        ([], ⟨true, [key], (sections (ofPairs t ++ ts.flatMap (ofElement key))).1⟩ ::
          (sections (ofPairs t ++ ts.flatMap (ofElement key))).2) := rfl
    rw [hstep, sections_ofPairs_append, ih, List.append_nil]
    rfl

end Statement

namespace Table

variable {key : String} {root : Table} {us ts : List Table}

lemma ofChars?_of_head {s : List Char} (h : s.head? ≠ some '\ufeff') :
    ofChars? s = (Statement.ofChars? s).bind ofStatements? := by
  unfold ofChars?
  dsimp only
  split
  next => exact absurd rfl h
  next => rfl

lemma foldlM_addTo (h : ∀ t ∈ ts, t.keys.Nodup) :
    (ts.map fun t => ⟨true, [key], t.pairs⟩).foldlM Section.addTo (root.put key (.tables us)) =
      some (root.put key (.tables (us ++ ts))) := by
  induction ts generalizing us with
  | nil => rw [List.append_nil]; rfl
  | cons t ts ih =>
    obtain ⟨ht, hts⟩ := List.forall_mem_cons.mp h
    have hadd : Section.addTo (root.put key (.tables us)) ⟨true, [key], t.pairs⟩ =
        some (root.put key (.tables (us ++ [t]))) := by
      simp [Section.addTo, change, extended, fill_pairs ht]
    rw [List.map_cons, List.foldlM_cons, hadd]
    exact (ih hts).trans (by rw [List.append_assoc, List.singleton_append])

lemma ofStatements?_eq (hroot : root.keys.Nodup) (hkey : key ∉ root.keys) (hts : ts ≠ [])
    (h : ∀ t ∈ ts, t.keys.Nodup) :
    ofStatements? (Statement.ofPairs root ++ ts.flatMap (Statement.ofElement key)) =
      some (root.put key (.tables ts)) := by
  obtain ⟨t, ts, rfl⟩ := List.exists_cons_of_ne_nil hts
  obtain ⟨ht, hrest⟩ := List.forall_mem_cons.mp h
  have hfirst : Section.addTo root ⟨true, [key], t.pairs⟩ = some (root.put key (.tables [t])) := by
    simp [Section.addTo, change, extended, get?_eq_none hkey, fill_pairs ht]
  rw [ofStatements?, Statement.sections_ofPairs_append, Statement.sections_flatMap_ofElement,
    List.append_nil, fill_pairs hroot, Option.bind_some, List.map_cons, List.foldlM_cons, hfirst]
  exact foldlM_addTo hrest

end Table

end AddressShuffle.Toml
