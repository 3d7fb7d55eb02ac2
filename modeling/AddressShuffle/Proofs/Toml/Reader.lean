import AddressShuffle.Proofs.Text.Accept
import AddressShuffle.Toml.Reader

namespace AddressShuffle.Toml.Reader

open Text

variable {α β : Type} {p : Reader α} {accept : Char → Bool} {s r : List Char}

@[simp] lemma read_map (f : α → β) (p : Reader α) (s : List Char) :
    (p.map f).read s = (p.read s).map fun x => (f x.1, x.2) := by
  cases h : p.read s <;> simp [map, filterMap, h]

@[simp] lemma read_filterMap (f : α → Option β) (p : Reader α) (s : List Char) :
    (p.filterMap f).read s = (p.read s).bind fun x => (f x.1).map fun b => (b, x.2) :=
  rfl

@[simp] lemma read_orElse (p q : Reader α) (s : List Char) :
    (p <|> q).read s = (p.read s).or (q.read s) :=
  rfl

@[simp] lemma read_bind (p : Reader α) (q : α → Reader β) (s : List Char) :
    (p.bind q).read s = (p.read s).bind fun x => (q x.1).read x.2 :=
  rfl

@[simp] lemma read_right (p : Reader α) (q : Reader β) (s : List Char) :
    (p.right q).read s = (p.read s).bind fun x => q.read x.2 :=
  rfl

@[simp] lemma read_left (p : Reader α) (q : Reader β) (s : List Char) :
    (p.left q).read s = (p.read s).bind fun x => (q.read x.2).map fun y => (x.1, y.2) := by
  simp [left]

@[simp] lemma read_after (g : Gap) (p : Reader α) (s : List Char) :
    (p.after g).read s = p.read (g.skip s) :=
  rfl

@[simp] lemma read_before (g : Gap) (p : Reader α) (s : List Char) :
    (p.before g).read s = (p.read s).map fun x => (x.1, g.skip x.2) :=
  rfl

@[simp] lemma read_upTo (e : Ending) (p : Reader α) (s : List Char) :
    (p.upTo e).read s = (p.read s).bind fun x => (e.close x.2).map fun r => (x.1, r) :=
  rfl

@[simp] lemma read_char (c d : Char) (r : List Char) :
    (char c).read (d :: r) = if d = c then some ((), r) else none :=
  rfl

lemma read_span (hs : s ≠ []) (hin : ∀ c ∈ s, accept c = true)
    (hout : ∀ c ∈ r.head?, accept c = false) : (span accept).read (s ++ r) = some (s, r) := by
  simp only [span, takeWhile_append_of_head hin hout, dropWhile_append_of_head hin hout]
  exact if_neg (mt List.isEmpty_iff.mp hs)

lemma read_separated {a : α} {sep : Char} (h : p.read s = some (a, r))
    (hsep : r.head? ≠ some sep) : (separated sep p).read s = some ([a], r) := by
  change readSeparated sep p s = some ([a], r)
  rw [readSeparated]
  split
  next b c t hread =>
    obtain ⟨rfl, rfl⟩ := Prod.mk.inj (Option.some.inj (h.symm.trans hread))
    exact if_neg fun hc => hsep (congrArg some hc)
  next b hread =>
    obtain ⟨rfl, rfl⟩ := Prod.mk.inj (Option.some.inj (h.symm.trans hread))
    rfl
  next hread => cases h.symm.trans hread

end AddressShuffle.Toml.Reader
