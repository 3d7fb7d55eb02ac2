/-! Readers take a value off the front of a text and leave a shorter rest. -/

namespace AddressShuffle.Toml

structure Gap where
  skip : List Char → List Char
  length_skip_le : ∀ s : List Char, (skip s).length ≤ s.length

structure Reader (α : Type) where
  read : List Char → Option (α × List Char)
  length_lt : ∀ {s r : List Char} {a : α}, read s = some (a, r) → r.length < s.length

structure Ending where
  close : List Char → Option (List Char)
  length_le : ∀ {s r : List Char}, close s = some r → r.length ≤ s.length

namespace Reader

variable {α β : Type}

def char (c : Char) : Reader Unit where
  read
    | [] => none
    | d :: r => if d = c then some ((), r) else none
  length_lt {s r a} h := by
    cases s with
    | nil => simp at h
    | cons d t =>
      obtain ⟨_, ht⟩ := Option.ite_none_right_eq_some.mp h
      cases ht
      exact Nat.lt_succ_self _

def span (accept : Char → Bool) : Reader (List Char) where
  read s :=
    if (s.takeWhile accept).isEmpty then none else some (s.takeWhile accept, s.dropWhile accept)
  length_lt {s r a} h := by
    obtain ⟨hne, hr⟩ := Option.ite_none_left_eq_some.mp h
    cases hr
    have hs := congrArg List.length (List.takeWhile_append_dropWhile (p := accept) (l := s))
    have hpos := List.length_pos_iff.mpr (mt List.isEmpty_iff.mpr hne)
    rw [List.length_append] at hs
    omega

def filterMap (f : α → Option β) (p : Reader α) : Reader β where
  read s := (p.read s).bind fun x => (f x.1).map fun b => (b, x.2)
  length_lt h := by
    obtain ⟨x, hx, hb⟩ := Option.bind_eq_some_iff.mp h
    obtain ⟨b, _, he⟩ := Option.map_eq_some_iff.mp hb
    cases he
    exact p.length_lt hx

def map (f : α → β) (p : Reader α) : Reader β :=
  p.filterMap fun a => some (f a)

def orElse (p q : Reader α) : Reader α where
  read s := (p.read s).or (q.read s)
  length_lt h := by
    rcases Option.or_eq_some_iff.mp h with hp | ⟨_, hq⟩
    · exact p.length_lt hp
    · exact q.length_lt hq

instance : OrElse (Reader α) where
  orElse p q := p.orElse (q ())

def bind (p : Reader α) (q : α → Reader β) : Reader β where
  read s := (p.read s).bind fun x => (q x.1).read x.2
  length_lt h := by
    obtain ⟨x, hx, hb⟩ := Option.bind_eq_some_iff.mp h
    exact Nat.lt_trans ((q x.1).length_lt hb) (p.length_lt hx)

def right (p : Reader α) (q : Reader β) : Reader β :=
  p.bind fun _ => q

def left (p : Reader α) (q : Reader β) : Reader α :=
  p.bind fun a => q.map fun _ => a

def after (g : Gap) (p : Reader α) : Reader α where
  read s := p.read (g.skip s)
  length_lt h := Nat.lt_of_lt_of_le (p.length_lt h) (g.length_skip_le _)

def before (g : Gap) (p : Reader α) : Reader α where
  read s := (p.read s).map fun x => (x.1, g.skip x.2)
  length_lt h := by
    obtain ⟨x, hx, he⟩ := Option.map_eq_some_iff.mp h
    cases he
    exact Nat.lt_of_le_of_lt (g.length_skip_le _) (p.length_lt hx)

def upTo (e : Ending) (p : Reader α) : Reader α where
  read s := (p.read s).bind fun x => (e.close x.2).map fun r => (x.1, r)
  length_lt h := by
    obtain ⟨x, hx, hb⟩ := Option.bind_eq_some_iff.mp h
    obtain ⟨r, hr, he⟩ := Option.map_eq_some_iff.mp hb
    cases he
    exact Nat.lt_of_le_of_lt (e.length_le hr) (p.length_lt hx)

def readSeparated (sep : Char) (p : Reader α) (s : List Char) : Option (List α × List Char) :=
  match h : p.read s with
  | some (a, c :: r) =>
    have := p.length_lt h
    if c = sep then
      match readSeparated sep p r with
      | some (as, t) => some (a :: as, t)
      | none => some ([a], c :: r)
    else some ([a], c :: r)
  | some (a, []) => some ([a], [])
  | none => none
termination_by s.length
decreasing_by
  simp only [List.length_cons] at this
  omega

theorem length_readSeparated_lt (sep : Char) (p : Reader α) {s r : List Char} {as : List α}
    (h : readSeparated sep p s = some (as, r)) : r.length < s.length := by
  fun_induction readSeparated sep p s generalizing as r with
  | case1 s a t bs u hu hs hlt ih =>
    cases h
    have := ih hu
    simp only [List.length_cons] at hlt
    omega
  | case2 s a t hu hs hlt ih =>
    cases h
    exact hlt
  | case3 s a c t hs hlt hc =>
    cases h
    exact hlt
  | case4 s a hs =>
    cases h
    exact p.length_lt hs
  | case5 => simp at h

def separated (sep : Char) (p : Reader α) : Reader (List α) where
  read := readSeparated sep p
  length_lt := length_readSeparated_lt sep p

end Reader

end AddressShuffle.Toml
