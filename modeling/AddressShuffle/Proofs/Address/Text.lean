import AddressShuffle.Address.Text
import AddressShuffle.Proofs.Text.Numeral
import Mathlib.Data.List.Induction
import Mathlib.Tactic.Ring

namespace AddressShuffle

lemma Groups.value_append {b : Nat} (gs hs : List (Fin b)) :
    value (gs ++ hs) = value gs * b ^ hs.length + value hs := by
  induction hs using List.reverseRecOn with
  | nil => simp
  | append_singleton hs h ih =>
    rw [← List.append_assoc, value_concat, ih, value_concat, List.length_append,
      List.length_singleton, Nat.pow_succ]
    ring

namespace Address

open Text

lemma mapM_map_eq_some {α β : Type} {f : β → Option α} {g : α → β} (h : ∀ a, f (g a) = some a)
    (as : List α) : (as.map g).mapM f = some as := by
  have hfg : f ∘ g = fun a => pure (id a) := funext h
  rw [List.mapM_map, hfg, List.mapM_pure, List.map_id]
  rfl

lemma exists_eq_some_of_mapM_eq_some {α β : Type} {f : α → Option β} {as : List α} {bs : List β}
    (h : as.mapM f = some bs) : ∀ a ∈ as, ∃ b, f a = some b := by
  induction as generalizing bs with
  | nil => exact fun _ => nofun
  | cons a as ih =>
    rw [List.mapM_cons] at h
    obtain ⟨b, hb, h⟩ := Option.bind_eq_some_iff.mp h
    obtain ⟨cs, hcs, -⟩ := Option.bind_eq_some_iff.mp h
    exact List.forall_mem_cons.mpr ⟨⟨b, hb⟩, ih hcs⟩

lemma not_mem_intercalate {c x : Char} (hcx : c ≠ x) {words : List (List Char)}
    (h : ∀ w ∈ words, c ∉ w) : c ∉ [x].intercalate words := by
  induction words with
  | nil => simp
  | cons w words ih =>
    obtain ⟨hw, hwords⟩ := List.forall_mem_cons.mp h
    cases words with
    | nil => rwa [List.intercalate_singleton]
    | cons v words =>
      rw [List.intercalate_cons_cons]
      simp [hw, hcx, ih hwords]

section Octets

lemma length_octets (count n : Nat) : (octets count n).length = count :=
  Groups.length_ofNat _ _ _

lemma value_octets {count n : Nat} : Groups.value (octets count n) = n % 256 ^ count :=
  Groups.value_ofNat _ _ _

lemma octet?_toDigits (g : Fin 256) : octet? (Nat.toDigits 10 g.val) = some g := by
  have hlength : (Nat.toDigits 10 g.val).length ≤ 3 :=
    (Nat.length_toDigits_le_iff (by decide) (by decide)).mpr (by omega)
  have hzero :
      ¬(1 < (Nat.toDigits 10 g.val).length ∧ (Nat.toDigits 10 g.val).head? = some '0') := by
    rintro ⟨hmore, hhead⟩
    rcases Nat.eq_zero_or_pos g.val with h | h
    · rw [h] at hmore
      exact absurd hmore (by decide)
    · exact Numeral.head?_toDigits_ne_zero (by decide) (by decide) h hhead
  rw [octet?, if_neg (not_or.mpr ⟨Nat.not_lt.mpr hlength, hzero⟩),
    Numeral.value?_toDigits (by decide) (by decide)]
  exact dif_pos g.isLt

lemma octets?_dotted (n : Nat) : octets? (dotted n) = some ⟨octets 4 n, length_octets 4 n⟩ := by
  have hsplit : (dotted n).splitOn '.' = (octets 4 n).map fun g => Nat.toDigits 10 g.val := by
    apply List.splitOn_intercalate
    · intro w hw
      obtain ⟨g, -, rfl⟩ := List.mem_map.mp hw
      exact Numeral.not_mem_toDigits (by decide) (by decide) (by decide)
    · simp [octets, Groups.ofNat]
  rw [octets?, hsplit, mapM_map_eq_some octet?_toDigits, Option.bind_some,
    dif_pos (length_octets 4 n)]

lemma not_mem_of_octet?_eq_some {c : Char} (hc : Numeral.digitValue c = 16) {s : List Char}
    {g : Fin 256} (h : octet? s = some g) : c ∉ s := by
  obtain ⟨n, hn, -⟩ := Option.bind_eq_some_iff.mp (Option.ite_none_left_eq_some.mp h).2
  exact Numeral.not_mem_of_value?_eq_some hc hn

lemma octets?_eq_none_of_colon_mem {s : List Char} (h : ':' ∈ s) : octets? s = none := by
  by_contra hsome
  obtain ⟨gs, hgs⟩ := Option.ne_none_iff_exists'.mp hsome
  obtain ⟨bs, hbs, -⟩ := Option.bind_eq_some_iff.mp hgs
  have hs : ['.'].intercalate (s.splitOn '.') = s := List.intercalate_splitOn '.'
  rw [← hs] at h
  refine not_mem_intercalate (by decide) (fun w hw => ?_) h
  obtain ⟨g, hg⟩ := exists_eq_some_of_mapM_eq_some hbs w hw
  exact not_mem_of_octet?_eq_some (by decide) hg

lemma octets?_eq_none_of_dot_not_mem {s : List Char} (h : '.' ∉ s) : octets? s = none := by
  rw [octets?, List.splitOn_eq_singleton h]
  cases hs : octet? s <;> simp [hs]

lemma not_mem_dotted {c : Char} (hc : Numeral.digitValue c = 16) (hdot : c ≠ '.') (n : Nat) :
    c ∉ dotted n := by
  apply not_mem_intercalate hdot
  intro w hw
  obtain ⟨g, -, rfl⟩ := List.mem_map.mp hw
  exact Numeral.not_mem_toDigits (by decide) (by decide) hc

end Octets

section Hextets

lemma length_hextets (count n : Nat) : (hextets count n).length = count :=
  Groups.length_ofNat _ _ _

lemma value_hextets {count n : Nat} : Groups.value (hextets count n) = n % 65536 ^ count :=
  Groups.value_ofNat _ _ _

lemma length_hextetsOfOctets (gs : List (Fin 256)) : (hextetsOfOctets gs).length = 2 :=
  length_hextets 2 _

lemma value_hextetsOfOctets (n : Nat) :
    Groups.value (hextetsOfOctets (octets 4 n)) = n % Family.v4.size := by
  rw [hextetsOfOctets, value_hextets, value_octets]
  exact Nat.mod_mod _ _

lemma hextet?_toDigits (g : Fin 65536) : hextet? (Nat.toDigits 16 g.val) = some g := by
  have hlength : (Nat.toDigits 16 g.val).length ≤ 4 :=
    (Nat.length_toDigits_le_iff (by decide) (by decide)).mpr (by omega)
  rw [hextet?, if_neg (by omega), Numeral.value?_toDigits (by decide) (by decide)]
  exact dif_pos g.isLt

lemma colon_not_mem_toDigits (n : Nat) : ':' ∉ Nat.toDigits 16 n :=
  Numeral.not_mem_toDigits (by decide) (by decide) (by decide)

lemma hextets?_map_toDigits : (gs : List (Fin 65536)) →
    hextets? (gs.map fun g => Nat.toDigits 16 g.val) = some gs
  | [] => rfl
  | [g] => by
    have hnone : octets? (Nat.toDigits 16 g.val) = none :=
      octets?_eq_none_of_dot_not_mem (Numeral.not_mem_toDigits (by decide) (by decide) (by decide))
    simp [hextets?, hnone, hextet?_toDigits]
  | g :: h :: gs => by
    have ih := hextets?_map_toDigits (h :: gs)
    simp only [List.map_cons] at ih ⊢
    simp [hextets?, hextet?_toDigits, ih]

lemma coloned_cons_cons (g h : Fin 65536) (gs : List (Fin 65536)) :
    coloned (g :: h :: gs) = Nat.toDigits 16 g.val ++ ':' :: coloned (h :: gs) := by
  simp [coloned, List.intercalate_cons_cons]

lemma exists_coloned_eq_cons (g : Fin 65536) (gs : List (Fin 65536)) :
    ∃ c s, coloned (g :: gs) = c :: s ∧ c ≠ ':' := by
  obtain ⟨c, s, hcs⟩ := List.exists_cons_of_ne_nil (Nat.toDigits_ne_nil (n := g.val) (b := 16))
  have hc : c ≠ ':' := by
    rintro rfl
    exact colon_not_mem_toDigits g.val (hcs ▸ List.mem_cons_self)
  cases gs with
  | nil => exact ⟨c, s, by simp [coloned, hcs], hc⟩
  | cons h gs => exact ⟨c, s ++ ':' :: coloned (h :: gs), by simp [coloned_cons_cons, hcs], hc⟩

lemma not_mem_coloned {c : Char} (hc : Numeral.digitValue c = 16) (hcolon : c ≠ ':')
    (gs : List (Fin 65536)) : c ∉ coloned gs := by
  apply not_mem_intercalate hcolon
  intro w hw
  obtain ⟨g, -, rfl⟩ := List.mem_map.mp hw
  exact Numeral.not_mem_toDigits (by decide) (by decide) hc

lemma splitOn_coloned {gs : List (Fin 65536)} (h : gs ≠ []) :
    (coloned gs).splitOn ':' = gs.map fun g => Nat.toDigits 16 g.val := by
  apply List.splitOn_intercalate
  · intro w hw
    obtain ⟨g, -, rfl⟩ := List.mem_map.mp hw
    exact colon_not_mem_toDigits g.val
  · simpa using h

lemma side?_coloned {groups? : List (List Char) → Option (List (Fin 65536))}
    {gs : List (Fin 65536)}
    (h : groups? (gs.map fun g => Nat.toDigits 16 g.val) = some gs) :
    side? groups? (coloned gs) = some gs := by
  cases gs with
  | nil => rfl
  | cons g gs =>
    obtain ⟨c, s, hcs, -⟩ := exists_coloned_eq_cons g gs
    rw [side?, if_neg (by simp [hcs]), splitOn_coloned (List.cons_ne_nil _ _), h]

end Hextets

section Colons

lemma cutColons_cons_of_ne {c : Char} (hc : c ≠ ':') (r : List Char) :
    cutColons (c :: r) = (cutColons r).map fun p => (c :: p.1, p.2) := by
  rw [cutColons]
  rintro r' rfl
  exact absurd rfl hc

lemma cutColons_append_of_not_mem {w : List Char} (hw : ':' ∉ w) (r : List Char) :
    cutColons (w ++ r) = (cutColons r).map fun p => (w ++ p.1, p.2) := by
  induction w with
  | nil => cases h : cutColons r <;> simp [h]
  | cons c w ih =>
    simp only [List.mem_cons, not_or] at hw
    obtain ⟨hc, hw⟩ := hw
    rw [List.cons_append, cutColons_cons_of_ne (Ne.symm hc), ih hw, Option.map_map]
    rfl

lemma cutColons_coloned_append (gs : List (Fin 65536)) (r : List Char) :
    cutColons (coloned gs ++ r) = (cutColons r).map fun p => (coloned gs ++ p.1, p.2) := by
  induction gs with
  | nil => cases h : cutColons r <;> simp [coloned, h]
  | cons g gs ih =>
    cases gs with
    | nil => simpa [coloned] using cutColons_append_of_not_mem (colon_not_mem_toDigits g.val) r
    | cons h gs =>
      obtain ⟨c, s, hcs, hc⟩ := exists_coloned_eq_cons h gs
      have hcolon : cutColons (':' :: (coloned (h :: gs) ++ r)) =
          (cutColons (coloned (h :: gs) ++ r)).map fun p => (':' :: p.1, p.2) := by
        rw [hcs, List.cons_append, cutColons]
        rintro r' - heq
        exact absurd (List.cons.inj heq).1 hc
      rw [coloned_cons_cons, List.append_assoc, List.cons_append,
        cutColons_append_of_not_mem (colon_not_mem_toDigits g.val), hcolon, ih]
      simp [Option.map_map, Function.comp_def]

end Colons

section Compression

variable {gs : List (Fin 65536)} {k : Nat}

lemma replicate_append_drop (h : k ≤ zeroRun gs) : List.replicate k 0 ++ gs.drop k = gs := by
  induction gs generalizing k with
  | nil =>
    have hk : k = 0 := by simpa [zeroRun] using h
    rw [hk]
    rfl
  | cons g gs ih =>
    cases k with
    | zero => rfl
    | succ k =>
      by_cases hg : g = 0
      · have hk : k ≤ zeroRun gs := by simpa [zeroRun, hg] using h
        simp [List.replicate_succ, hg, ih hk]
      · simp [zeroRun, hg] at h

lemma zeroRun_le_length (gs : List (Fin 65536)) : zeroRun gs ≤ gs.length :=
  (List.takeWhile_prefix _).length_le

-- What is replaced by two colons need not be the longest run for the text to be read back.
lemma longestZeroRun_le (gs : List (Fin 65536)) :
    (longestZeroRun gs).2 ≤ zeroRun (gs.drop (longestZeroRun gs).1) := by
  rw [longestZeroRun]
  refine List.foldlRecOn (motive := fun best : Nat × Nat => best.2 ≤ zeroRun (gs.drop best.1)) _ _
    (Nat.zero_le _) ?_
  intro best hbest i _
  split
  · exact Nat.le_refl _
  · exact hbest

lemma v6OfChars?_coloned (h : gs.length = 8) :
    v6OfChars? (coloned gs) = some (ofHextets gs h) := by
  have hcut : cutColons (coloned gs) = none := by
    simpa [cutColons] using cutColons_coloned_append gs []
  have hne : gs ≠ [] := List.ne_nil_of_length_eq_add_one h
  rw [v6OfChars?, hcut]
  dsimp only
  rw [splitOn_coloned hne, hextets?_map_toDigits, Option.bind_some, dif_pos h]

lemma v6OfChars?_compressed (h : gs.length = 8) :
    v6OfChars? (compressed gs) = some (ofHextets gs h) := by
  have hrun := longestZeroRun_le gs
  rw [compressed]
  generalize longestZeroRun gs = best at hrun
  obtain ⟨start, count⟩ := best
  dsimp only at hrun ⊢
  split
  next hcount =>
    have hle := zeroRun_le_length (gs.drop start)
    rw [List.length_drop] at hle
    have hcut :
        cutColons (coloned (gs.take start) ++ "::".toList ++ coloned (gs.drop (start + count))) =
          some (coloned (gs.take start), coloned (gs.drop (start + count))) := by
      rw [List.append_assoc, cutColons_coloned_append]
      simp [cutColons]
    have hlengths : (gs.take start).length + (gs.drop (start + count)).length = 8 - count := by
      rw [List.length_take, List.length_drop]
      omega
    have hgs : gs.take start ++ List.replicate count 0 ++ gs.drop (start + count) = gs := by
      rw [List.append_assoc, ← List.drop_drop, replicate_append_drop hrun, List.take_append_drop]
    rw [v6OfChars?, hcut]
    -- The groups left of the two colons are read one by one, and of those right of them the last
    -- could have been an IPv4 address.
    simp only [side?_coloned (mapM_map_eq_some hextet?_toDigits _),
      side?_coloned (hextets?_map_toDigits _), Option.bind_some]
    rw [dif_pos (by omega), Option.some_inj]
    have hcount' : 8 - ((gs.take start).length + (gs.drop (start + count)).length) = count := by
      omega
    simp only [hcount', hgs]
  next => exact v6OfChars?_coloned h

lemma colon_mem_compressed (h : gs.length = 8) : ':' ∈ compressed gs := by
  rw [compressed]
  split
  split
  · simp
  · obtain ⟨g, gs, rfl⟩ := List.exists_cons_of_length_eq_add_one h
    obtain ⟨g', gs, rfl⟩ := List.exists_cons_of_length_eq_add_one (Nat.succ.inj h)
    simp [coloned_cons_cons]

end Compression

lemma v4OfChars?_dotted {n : Nat} (hn : n < Family.v4.size) :
    v4OfChars? (dotted n) = some ⟨.v4, n, hn⟩ := by
  have hvalue : Groups.value (octets 4 n) = n := value_octets.trans (Nat.mod_eq_of_lt hn)
  rw [v4OfChars?, octets?_dotted, Option.map_some, Option.some_inj]
  exact Address.ext rfl hvalue

lemma v4OfChars?_eq_none {s : List Char} (h : ':' ∈ s) : v4OfChars? s = none := by
  rw [v4OfChars?, octets?_eq_none_of_colon_mem h, Option.map_none]

lemma v6OfChars?_mapped {n : Nat} (h : n / Family.v4.size = 0xffff) (hn : n < Family.v6.size) :
    v6OfChars? ("::ffff:".toList ++ dotted n) = some ⟨.v6, n, hn⟩ := by
  have hcut : cutColons ("::ffff:".toList ++ dotted n) =
      some ([], "ffff:".toList ++ dotted n) := rfl
  have hffff : ':' ∉ ['f', 'f', 'f', 'f'] := by decide
  have hsplit : ("ffff:".toList ++ dotted n).splitOn ':' = [['f', 'f', 'f', 'f'], dotted n] := by
    have hrest := List.splitOn_append_cons_self_of_not_mem hffff (dotted n)
    rwa [List.splitOn_eq_singleton (not_mem_dotted (by decide) (by decide) n)] at hrest
  have htail : side? hextets? ("ffff:".toList ++ dotted n) =
      some (0xffff :: hextetsOfOctets (octets 4 n)) := by
    have hread : hextet? ['f', 'f', 'f', 'f'] = some 0xffff := by decide
    rw [side?, if_neg (by simp), hsplit]
    simp [hextets?, octets?_dotted, hread]
  have hvalue : Groups.value ([0, 0, 0, 0, 0, 0xffff] ++ hextetsOfOctets (octets 4 n)) = n := by
    have hhigh : Groups.value ([0, 0, 0, 0, 0, 0xffff] : List (Fin 65536)) =
        n / Family.v4.size := by
      rw [h]
      decide
    rw [Groups.value_append, hhigh, value_hextetsOfOctets, length_hextetsOfOctets]
    exact Nat.div_add_mod' n Family.v4.size
  have hhead : side? (·.mapM hextet?) [] = some [] := rfl
  rw [v6OfChars?, hcut]
  simp only [hhead, htail, Option.bind_some]
  rw [dif_pos (by simp [length_hextetsOfOctets]), Option.some_inj]
  exact Address.ext rfl hvalue

lemma not_mem_chars {c : Char} (hc : Numeral.digitValue c = 16) (hdot : c ≠ '.')
    (hcolon : c ≠ ':') (a : Address) : c ∉ a.chars := by
  have hf : c ≠ 'f' := by
    rintro rfl
    exact absurd hc (by decide)
  obtain ⟨f, n, hn⟩ := a
  cases f with
  | v4 => exact not_mem_dotted hc hdot n
  | v6 =>
    rw [chars]
    dsimp only
    split
    · simp [hcolon, hf, not_mem_dotted hc hdot n]
    · rw [compressed]
      dsimp only
      split
      · simp [hcolon, not_mem_coloned hc hcolon]
      · exact not_mem_coloned hc hcolon _

lemma v4OfChars?_chars {a : Address} (h : a.family = .v4) : v4OfChars? a.chars = some a := by
  obtain ⟨f, n, hn⟩ := a
  cases h
  exact v4OfChars?_dotted hn

lemma v4OfChars?_chars_of_v6 {a : Address} (h : a.family = .v6) :
    v4OfChars? a.chars = none := by
  obtain ⟨f, n, hn⟩ := a
  cases h
  apply v4OfChars?_eq_none
  rw [chars]
  dsimp only
  split
  · simp
  · exact colon_mem_compressed (length_hextets 8 n)

lemma v6OfChars?_chars {a : Address} (h : a.family = .v6) : v6OfChars? a.chars = some a := by
  obtain ⟨f, n, hn⟩ := a
  cases h
  rw [chars]
  dsimp only
  split
  next hmapped => exact v6OfChars?_mapped hmapped hn
  next =>
    have hvalue : Groups.value (hextets 8 n) = n := value_hextets.trans (Nat.mod_eq_of_lt hn)
    rw [v6OfChars?_compressed (length_hextets 8 n)]
    exact congrArg some (Address.ext rfl hvalue)

lemma ofChars?_chars (a : Address) : ofChars? a.chars = some a := by
  rw [ofChars?]
  cases hf : a.family with
  | v4 =>
    rw [v4OfChars?_chars hf]
    rfl
  | v6 =>
    rw [v4OfChars?_chars_of_v6 hf, v6OfChars?_chars hf]
    rfl

lemma ofString?_toString (a : Address) : ofString? (toString a) = some a := by
  rw [ofString?, toList_toString, ofChars?_chars]

lemma toString_injective : Function.Injective (toString : Address → String) := by
  intro a b h
  exact Option.some.inj (by rw [← ofString?_toString a, h, ofString?_toString b])

end Address

end AddressShuffle
