import AddressShuffle.Proofs.Text.Numeral
import AddressShuffle.Toml.Quoted

namespace AddressShuffle.Toml.Quoted

open Text

def shortEscapes : List (Char × Char) :=
  [('b', '\x08'), ('t', '\t'), ('n', '\n'), ('f', '\x0c'), ('r', '\r'), ('"', '"'), ('\\', '\\')]

/-- What may be written for a character. Quotes, backslashes and control characters are escaped. -/
inductive Spelling : Char → List Char → Prop
  | plain {c} : c ≠ '"' → c ≠ '\\' → 0x20 ≤ c.toNat → c.toNat ≠ 0x7F → Spelling c [c]
  | short {c letter} : (letter, c) ∈ shortEscapes → Spelling c ['\\', letter]
  | four {c digits} : digits.length = 4 → Numeral.value? 16 digits = some c.toNat →
      Spelling c ('\\' :: 'u' :: digits)
  | eight {c digits} : digits.length = 8 → Numeral.value? 16 digits = some c.toNat →
      Spelling c ('\\' :: 'U' :: digits)

inductive Spelled : List Char → List Char → Prop
  | nil : Spelled [] []
  | cons {c w s body} : Spelling c w → Spelled s body → Spelled (c :: s) (w ++ body)

variable {c : Char} {w s body r t digits : List Char}

lemma exists_spelling (c : Char) : ∃ w, Spelling c w := by
  have hcontrol : ∀ n, n < 128 →
      Numeral.value? 16 ['0', '0', (n / 16).digitChar, (n % 16).digitChar] = some n := by decide
  rcases eq_or_ne c '"' with rfl | hquote
  · exact ⟨_, .short (by decide : ('"', '"') ∈ shortEscapes)⟩
  · rcases eq_or_ne c '\\' with rfl | hslash
    · exact ⟨_, .short (by decide : ('\\', '\\') ∈ shortEscapes)⟩
    · by_cases hplain : 0x20 ≤ c.toNat ∧ c.toNat ≠ 0x7F
      · exact ⟨_, .plain hquote hslash hplain.1 hplain.2⟩
      · exact ⟨_, .four rfl (hcontrol c.toNat (by omega))⟩

lemma exists_spelled (s : List Char) : ∃ body, Spelled s body := by
  induction s with
  | nil => exact ⟨[], .nil⟩
  | cons c s ih =>
    obtain ⟨w, hw⟩ := exists_spelling c
    obtain ⟨body, hbody⟩ := ih
    exact ⟨w ++ body, .cons hw hbody⟩

lemma spelled_self (h : ∀ c ∈ s, c ≠ '"' ∧ c ≠ '\\' ∧ 0x20 ≤ c.toNat ∧ c.toNat ≠ 0x7F) :
    Spelled s s := by
  induction s with
  | nil => exact .nil
  | cons c s ih =>
    obtain ⟨⟨hquote, hslash, hlow, hdelete⟩, hs⟩ := List.forall_mem_cons.mp h
    exact .cons (.plain hquote hslash hlow hdelete) (ih hs)

lemma escape?_short {letter : Char} (h : (letter, c) ∈ shortEscapes) (r : List Char) :
    escape? (letter :: r) = some (c, r) := by
  simp only [shortEscapes, List.mem_cons, List.not_mem_nil, or_false, Prod.mk.injEq] at h
  rcases h with ⟨rfl, rfl⟩ | ⟨rfl, rfl⟩ | ⟨rfl, rfl⟩ | ⟨rfl, rfl⟩ | ⟨rfl, rfl⟩ | ⟨rfl, rfl⟩ |
    ⟨rfl, rfl⟩ <;> rfl

lemma ofCode?_eq_some (h : Numeral.value? 16 digits = some c.toNat) :
    ofCode? digits = some c := by
  have hvalid : c.toNat.isValidChar := c.valid
  rw [ofCode?, h, Option.bind_some, if_pos hvalid, Char.ofNat_toNat]

lemma ofCode?_take_append {n : Nat} (hlength : digits.length = n)
    (h : Numeral.value? 16 digits = some c.toNat) (r : List Char) :
    (if (digits ++ r).length < n then none
      else (ofCode? ((digits ++ r).take n)).map fun c => (c, (digits ++ r).drop n)) =
      some (c, r) := by
  have hle : ¬(digits ++ r).length < n := by
    rw [List.length_append]
    omega
  rw [if_neg hle, List.take_left' hlength, List.drop_left' hlength, ofCode?_eq_some h]
  rfl

lemma readBasic_escape (h : escape? t = some (c, r)) :
    readBasic ('\\' :: t) = (readBasic r).map (cons c) := by
  rw [readBasic]
  split
  next d u hu =>
    obtain ⟨rfl, rfl⟩ := Prod.mk.inj (Option.some.inj (h.symm.trans hu))
    rfl
  next hnone => cases h.symm.trans hnone

lemma readBasic_plain (hquote : c ≠ '"') (hslash : c ≠ '\\') (hplain : isPlain c = true)
    (r : List Char) : readBasic (c :: r) = (readBasic r).map (cons c) := by
  rw [readBasic]
  · exact if_pos hplain
  · exact hquote
  · exact hslash

lemma readBasic_spelling (h : Spelling c w) (r : List Char) :
    readBasic (w ++ r) = (readBasic r).map (cons c) := by
  cases h with
  | plain hquote hslash hlow hdelete =>
    apply readBasic_plain hquote hslash
    simp [isPlain, isCommentChar, hlow, hdelete]
  | short hletter => exact readBasic_escape (escape?_short hletter r)
  | four hlength hdigits => exact readBasic_escape (ofCode?_take_append hlength hdigits r)
  | eight hlength hdigits => exact readBasic_escape (ofCode?_take_append hlength hdigits r)

lemma readBasic_spelled (h : Spelled s body) (r : List Char) :
    readBasic (body ++ '"' :: r) = some (s, r) := by
  induction h with
  | nil => rw [List.nil_append, readBasic]
  | cons hw _ ih => rw [List.append_assoc, readBasic_spelling hw, ih, Option.map_some, cons]

lemma head?_spelling_append (h : Spelling c w) (r : List Char) :
    (w ++ r).head? ≠ some '"' := by
  cases h with
  | plain hquote => exact fun he => hquote (Option.some.inj he)
  | short => exact nofun
  | four => exact nofun
  | eight => exact nofun

lemma read_spelled (h : Spelled s body) (hr : r.head? ≠ some '"') :
    read ('"' :: (body ++ '"' :: r)) = some (s, r) := by
  have hthree : ∀ u, body ++ '"' :: r ≠ '"' :: '"' :: u := by
    intro u hu
    cases h with
    | nil => exact hr (by rw [(List.cons.inj hu).2]; rfl)
    | cons hw =>
      rw [List.append_assoc] at hu
      exact head?_spelling_append hw _ (by rw [hu]; rfl)
  rw [read]
  · exact readBasic_spelled h r
  · exact fun u hu => hthree u (List.cons.inj hu).2
  · exact nofun

lemma read_of_head (hdouble : s.head? ≠ some '"') (hsingle : s.head? ≠ some '\'') :
    read s = none := by
  unfold read readLine
  grind

end AddressShuffle.Toml.Quoted
