import AddressShuffle.Proofs.Toml.Quoted
import AddressShuffle.Proofs.Toml.Reader
import AddressShuffle.Toml.Entry
import Mathlib.Algebra.Group.Nat.Defs

namespace AddressShuffle.Toml

open Text Reader

variable {s r t : List Char} {n : Nat}

-- Other kinds of words have a letter, a sign, a point or a colon in them.
section Digits

variable (hs : ∀ c ∈ s, c.isDigit = true)

include hs

lemma not_mem_of_forall_isDigit {c : Char} (hc : c.isDigit = false) : c ∉ s :=
  fun hmem => Bool.false_ne_true (hc.symm.trans (hs c hmem))

lemma Moment.isDate_of_forall_isDigit : isDate s = false := by
  rw [isDate, List.splitOn_eq_singleton (not_mem_of_forall_isDigit hs (by decide))]

lemma Moment.isMoment_of_forall_isDigit : isMoment s = false := by
  have htime : isTime s = false := by
    rw [isTime, List.splitOn_eq_singleton (not_mem_of_forall_isDigit hs (by decide))]
  rw [isMoment, isDate_of_forall_isDigit hs, htime, Bool.false_or, Bool.false_or]
  split
  next r hr =>
    have hmem : 'T' ∈ s := List.mem_of_mem_drop (hr ▸ List.mem_cons_self)
    exact absurd hmem (not_mem_of_forall_isDigit hs (by decide))
  next r hr =>
    have hmem : 't' ∈ s := List.mem_of_mem_drop (hr ▸ List.mem_cons_self)
    exact absurd hmem (not_mem_of_forall_isDigit hs (by decide))
  next => rfl

lemma Number.unsigned_of_forall_isDigit : unsigned s = (false, s) := by
  unfold unsigned
  split
  next => exact absurd List.mem_cons_self (not_mem_of_forall_isDigit hs (by decide))
  next => exact absurd List.mem_cons_self (not_mem_of_forall_isDigit hs (by decide))
  next => rfl

lemma Number.isFloat_of_forall_isDigit : isFloat s = false := by
  have hmark : ∀ c ∈ s, (!isExponentMark c) = true := by
    intro c hc
    simp only [isExponentMark, Bool.not_eq_true', Bool.or_eq_false_iff, decide_eq_false_iff_not]
    constructor <;> rintro rfl <;> exact not_mem_of_forall_isDigit hs (by decide) hc
  have hwhole : s.takeWhile (fun c => !isExponentMark c) = s := List.takeWhile_eq_self_iff.mpr hmark
  have hpower : s.dropWhile (fun c => !isExponentMark c) = [] := List.dropWhile_eq_nil_iff.mpr hmark
  have hspecial : ¬(s = "inf".toList ∨ s = "nan".toList) := by
    rintro (rfl | rfl)
    · exact not_mem_of_forall_isDigit hs (by decide : 'i'.isDigit = false) (by decide)
    · exact not_mem_of_forall_isDigit hs (by decide : 'n'.isDigit = false) (by decide)
  simp only [isFloat, unsigned_of_forall_isDigit hs, hwhole, hpower, if_neg hspecial, significand?,
    List.splitOn_eq_singleton (not_mem_of_forall_isDigit hs (by decide : '.'.isDigit = false))]
  cases wholeDigits? s <;> rfl

lemma Number.digits?_of_forall_isDigit (hne : s ≠ []) : digits? 10 s = some s := by
  have hall : s.all (fun c => (Numeral.digit? 10 c).isSome) = true :=
    List.all_eq_true.mpr fun c hc => Numeral.isSome_digit?_of_isDigit (hs c hc)
  rw [digits?, List.splitOn_eq_singleton (not_mem_of_forall_isDigit hs (by decide))]
  simp only [List.all_cons, List.all_nil, hall, List.isEmpty_eq_false_iff.mpr hne, Bool.not_false,
    Bool.and_true, if_true, List.flatten_singleton]

lemma Number.integer?_of_forall_isDigit (hvalue : Numeral.value? 10 s = some n)
    (hzero : s.length = 1 ∨ s.head? ≠ some '0') (hn : n ≤ 2 ^ 63 - 1) :
    integer? s = some n := by
  have hne : s ≠ [] := by
    rintro rfl
    simp [Numeral.value?] at hvalue
  have hwhole : wholeDigits? s = some s := by
    rw [wholeDigits?, digits?_of_forall_isDigit hs hne, Option.filter_some, if_pos]
    simpa using hzero
  have hdecimal : decimal? s = some (n : Int) := by
    simp [decimal?, unsigned_of_forall_isDigit hs, hwhole, hvalue]
  have hbounds : Int64.minValue.toInt ≤ (n : Int) ∧ (n : Int) ≤ Int64.maxValue.toInt := by
    have hmin : Int64.minValue.toInt = -2 ^ 63 := by decide
    have hmax : Int64.maxValue.toInt = 2 ^ 63 - 1 := by decide
    omega
  have hletter : ∀ c, c.isDigit = false → ∀ r, s ≠ '0' :: c :: r := by
    rintro c hc r rfl
    exact not_mem_of_forall_isDigit hs hc (List.mem_cons_of_mem _ List.mem_cons_self)
  rw [integer?]
  · rw [hdecimal]
    exact if_pos (decide_eq_true hbounds)
  · exact hletter 'x' (by decide)
  · exact hletter 'o' (by decide)
  · exact hletter 'b' (by decide)

lemma Value.ofWord?_of_forall_isDigit (hvalue : Numeral.value? 10 s = some n)
    (hzero : s.length = 1 ∨ s.head? ≠ some '0') (hn : n ≤ 2 ^ 63 - 1) :
    ofWord? s = some (.integer n) := by
  have htrue : s ≠ "true".toList := by
    rintro rfl
    exact not_mem_of_forall_isDigit hs (by decide : 't'.isDigit = false) (by decide)
  have hfalse : s ≠ "false".toList := by
    rintro rfl
    exact not_mem_of_forall_isDigit hs (by decide : 'f'.isDigit = false) (by decide)
  rw [ofWord?, if_neg htrue, if_neg hfalse, Moment.isMoment_of_forall_isDigit hs,
    Number.isFloat_of_forall_isDigit hs, Number.integer?_of_forall_isDigit hs hvalue hzero hn]
  rfl

end Digits

lemma isSpace_of_accept {accept : Char → Bool} {c : Char} (h : accept c = true)
    (hblank : accept ' ' = false) (htab : accept '\t' = false) : isSpace c = false := by
  simp only [isSpace, Bool.or_eq_false_iff, decide_eq_false_iff_not]
  exact ⟨ne_of_accept h hblank, ne_of_accept h htab⟩

lemma head?_of_lineEnd? (h : lineEnd? r = some t) : ∀ c ∈ r.head?, c = '\n' ∨ c = '\r' := by
  unfold lineEnd? newline? at h
  grind

lemma accept_of_lineEnd? {accept : Char → Bool} (h : lineEnd? r = some t)
    (hfeed : accept '\n' = false) (hreturn : accept '\r' = false) :
    ∀ c ∈ r.head?, accept c = false := by
  intro c hc
  rcases head?_of_lineEnd? h c hc with rfl | rfl
  · exact hfeed
  · exact hreturn

structure Value.ReadFrom (v : Value) (s : List Char) : Prop where
  head : ∀ c ∈ s.head?, isSpace c = false
  read : ∀ {r t}, lineEnd? r = some t → (value depthLimit).read (s ++ r) = some (v, r)

lemma read_value {x : Value × List Char} (h : scalar.read s = some x) :
    (value depthLimit).read s = some x := by
  change (scalar.read s).or _ = some x
  rw [h, Option.some_or]

lemma Value.readFrom_word {v : Value} (hne : s ≠ []) (hs : ∀ c ∈ s, isWordChar c = true)
    (hdate : Moment.isDate s = false) (hv : ofWord? s = some v) : v.ReadFrom s := by
  constructor
  · intro c hc
    exact isSpace_of_accept (hs c (List.mem_of_mem_head? hc)) (by decide) (by decide)
  · intro r t hr
    have hhead : ∀ d, isWordChar d = false → (s ++ r).head? ≠ some d := by
      intro d hd he
      rw [List.head?_append_of_ne_nil _ hne] at he
      exact ne_of_accept (hs d (List.mem_of_mem_head? he)) hd rfl
    have hstring : Quoted.string.read (s ++ r) = none :=
      Quoted.read_of_head (hhead '"' (by decide)) (hhead '\'' (by decide))
    have hspan : (span isWordChar).read (s ++ r) = some (s, r) :=
      read_span hne hs (accept_of_lineEnd? hr (by decide) (by decide))
    apply read_value
    simp [scalar, spacedMoment, hstring, hspan, ofCheck, hdate, hv]

lemma Value.readFrom_natural (hn : n ≤ 2 ^ 63 - 1) :
    (Value.integer n).ReadFrom (Nat.toDigits 10 n) := by
  have hdigits : ∀ c ∈ Nat.toDigits 10 n, c.isDigit = true := fun c hc =>
    Nat.isDigit_of_mem_toDigits (by decide) (by decide) hc
  apply readFrom_word Nat.toDigits_ne_nil
  · intro c hc
    simp [isWordChar, isBareKeyChar, Char.isAlphanum, hdigits c hc]
  · exact Moment.isDate_of_forall_isDigit hdigits
  · apply ofWord?_of_forall_isDigit hdigits (Numeral.value?_toDigits (by decide) (by decide) n) _ hn
    rcases Nat.eq_zero_or_pos n with rfl | hpos
    · exact Or.inl rfl
    · exact Or.inr (Numeral.head?_toDigits_ne_zero (by decide) (by decide) hpos)

lemma Value.readFrom_boolean (b : Bool) :
    (Value.boolean b).ReadFrom (if b then "true".toList else "false".toList) := by
  cases b <;> exact readFrom_word (by decide) (List.all_eq_true.mp (by decide)) (by decide) rfl

lemma Value.readFrom_string {text : String} {body : List Char}
    (h : Quoted.Spelled text.toList body) :
    (Value.string text).ReadFrom ('"' :: (body ++ ['"'])) := by
  constructor
  · rintro c ⟨⟩
    rfl
  · intro r t hr
    have hquote : r.head? ≠ some '"' := by
      intro he
      rcases head?_of_lineEnd? hr '"' he with he | he <;> exact absurd he (by decide)
    have hread : Quoted.string.read ('"' :: (body ++ '"' :: r)) = some (text.toList, r) :=
      Quoted.read_spelled h hquote
    apply read_value
    simp [scalar, hread]

end AddressShuffle.Toml
