import AddressShuffle.Proofs.Address.Text
import AddressShuffle.Proofs.Config.Ranges
import AddressShuffle.Proofs.Text.Blank

namespace AddressShuffle.AddressRange

open Text

lemma isBlank_of_mem_chars {a : Address} {c : Char} (hc : c ∈ a.chars) : isBlank c = false := by
  rw [← Bool.not_eq_true]
  intro hblank
  have hdot : c ≠ '.' := ne_of_accept hblank (by decide)
  have hcolon : c ≠ ':' := ne_of_accept hblank (by decide)
  exact Address.not_mem_chars (digitValue_of_isBlank hblank) hdot hcolon a hc

lemma boundOfChars_chars {w w' : List Char} (hw : ∀ c ∈ w, isBlank c = true)
    (hw' : ∀ c ∈ w', isBlank c = true) (a : Address) :
    boundOfChars (w ++ a.chars ++ w') = .ok a := by
  rw [boundOfChars, trim_append_append hw (fun c hc => isBlank_of_mem_chars hc) hw',
    Address.ofChars?_chars]

lemma forall_ne_hyphen {s : List Char} (h : '-' ∉ s) : ∀ c ∈ s, decide (c ≠ '-') = true := by
  intro c hc
  apply decide_eq_true
  rintro rfl
  exact h hc

lemma ofChars_hyphen {left right : List Char} (h : '-' ∉ left) :
    ofChars (left ++ '-' :: right) =
      (boundOfChars left).bind fun first => (boundOfChars right).bind fun last =>
        ofBounds first last := by
  have hpos := forall_ne_hyphen h
  have htake : (left ++ '-' :: right).takeWhile (· ≠ '-') = left := by
    rw [List.takeWhile_append_of_pos hpos, List.takeWhile_cons_of_neg (by simp), List.append_nil]
  have hdrop : (left ++ '-' :: right).dropWhile (· ≠ '-') = '-' :: right := by
    rw [List.dropWhile_append_of_pos hpos, List.dropWhile_cons_of_neg (by simp)]
  rw [ofChars, htake, hdrop]
  rfl

lemma hyphen_not_mem {w : List Char} (hw : ∀ c ∈ w, isBlank c = true) : '-' ∉ w := by
  intro h
  exact absurd (hw '-' h) (by decide)

lemma ofString_bounds {w₁ w₂ w₃ w₄ : String} (h₁ : ∀ c ∈ w₁.toList, isBlank c = true)
    (h₂ : ∀ c ∈ w₂.toList, isBlank c = true) (h₃ : ∀ c ∈ w₃.toList, isBlank c = true)
    (h₄ : ∀ c ∈ w₄.toList, isBlank c = true) (a b : Address) :
    ofString (w₁ ++ toString a ++ w₂ ++ "-" ++ w₃ ++ toString b ++ w₄) = ofBounds a b := by
  have hchars : (w₁ ++ toString a ++ w₂ ++ "-" ++ w₃ ++ toString b ++ w₄).toList =
      (w₁.toList ++ a.chars ++ w₂.toList) ++ '-' :: (w₃.toList ++ b.chars ++ w₄.toList) := by
    simp [String.toList_append]
  have hleft : '-' ∉ w₁.toList ++ a.chars ++ w₂.toList := by
    have ha : '-' ∉ a.chars := Address.not_mem_chars (by decide) (by decide) (by decide) a
    simp [hyphen_not_mem h₁, ha, hyphen_not_mem h₂]
  rw [ofString, hchars, ofChars_hyphen hleft, boundOfChars_chars h₁ h₂, boundOfChars_chars h₃ h₄]
  rfl

lemma ofBounds_self (r : AddressRange) : ofBounds r.first r.last = .ok r := by
  rw [ofBounds, dif_pos r.family_eq, dif_pos r.bits_le]

lemma ofString_toString (r : AddressRange) : ofString (toString r) = .ok r := by
  have hblank : ∀ c ∈ "".toList, isBlank c = true := nofun
  have hchars : toString r =
      "" ++ toString r.first ++ "" ++ "-" ++ "" ++ toString r.last ++ "" := by
    rw [← String.toList_inj]
    simp [String.toList_append, toString, chars]
  rw [hchars, ofString_bounds hblank hblank hblank hblank, ofBounds_self]

lemma ranges_of_bounds (limit : Nat) {before : List Entry} {ranges : List AddressRange}
    (hbefore : List.Forall₂ (fun e r => e.range = .ok r) before ranges) (after : List Entry)
    (a b : Address) (hostsOnly : Bool) :
    Config.ranges ⟨limit, before ++ { first := some a, last := some b, hostsOnly } :: after⟩ =
      ((ofBounds a b).mapError fun e => .entry before.length (.invalid e)).bind fun r =>
        (Config.rangesFrom (before.length + 1) after).map (ranges ++ r :: ·) := by
  have hindex : 0 + before.length = before.length := Nat.zero_add _
  have hrange : Entry.range { first := some a, last := some b, hostsOnly } =
      (ofBounds a b).mapError .invalid := rfl
  rw [Config.ranges, Config.rangesFrom_append hbefore, hindex, Config.rangesFrom_cons, hrange]
  cases ofBounds a b with
  | error e => rfl
  | ok r => cases Config.rangesFrom (before.length + 1) after <;> rfl

theorem bounds_in_every_form_agree (a b : Address) :
    (∀ w₁ w₂ w₃ w₄ : String, (∀ w ∈ [w₁, w₂, w₃, w₄], ∀ c ∈ w.toList, isBlank c = true) →
      ofString (w₁ ++ toString a ++ w₂ ++ "-" ++ w₃ ++ toString b ++ w₄) = ofBounds a b) ∧
    (∀ (limit : Nat) (before after : List Entry) (ranges : List AddressRange) (hostsOnly : Bool),
      List.Forall₂ (fun e r => e.range = .ok r) before ranges →
      Config.ranges ⟨limit, before ++ { first := some a, last := some b, hostsOnly } :: after⟩ =
        ((ofBounds a b).mapError fun e => .entry before.length (.invalid e)).bind fun r =>
          (Config.rangesFrom (before.length + 1) after).map (ranges ++ r :: ·)) ∧
    (a.family ≠ b.family → ofBounds a b = .error (.mixedFamilies a b)) ∧
    (a.family = b.family → b.bits < a.bits → ofBounds a b = .error (.wrongOrder a b)) ∧
    (∀ (hf : a.family = b.family) (hb : a.bits ≤ b.bits), ofBounds a b = .ok ⟨a, b, hf, hb⟩) ∧
    ∀ r : AddressRange, ofString (toString r) = .ok r := by
  refine ⟨?_, ?_, ?_, ?_, ?_, ofString_toString⟩
  · intro w₁ w₂ w₃ w₄ hw
    exact ofString_bounds (hw w₁ (by simp)) (hw w₂ (by simp)) (hw w₃ (by simp)) (hw w₄ (by simp)) a b
  · intro limit before after ranges hostsOnly hbefore
    exact ranges_of_bounds limit hbefore after a b hostsOnly
  · intro hf
    rw [ofBounds, dif_neg hf]
  · intro hf hb
    rw [ofBounds, dif_pos hf, dif_neg (Nat.not_le.mpr hb)]
  · intro hf hb
    rw [ofBounds, dif_pos hf, dif_pos hb]

theorem bounds_in_every_form_agree_of_wrong_order :
    let a : Address := ⟨.v6, 0x20010db8000000000000000000000000, by decide⟩
    let b : Address := ⟨.v6, 0xffffc0000201, by decide⟩
    let entries : List Entry :=
      [{ first := some b, last := some b }] ++ [{ first := some a, last := some b }]
    ofString ("\t" ++ toString a ++ "\u00a0 " ++ "-" ++ "\u3000" ++ toString b ++ "\n") =
        .error (.wrongOrder a b) ∧
      Config.ranges ⟨3, entries⟩ = .error (.entry 1 (.invalid (.wrongOrder a b))) := by
  intro a b entries
  obtain ⟨htext, hentry, -, horder, -⟩ := bounds_in_every_form_agree a b
  have hwrong : ofBounds a b = .error (.wrongOrder a b) := horder rfl (by decide)
  have hfirst : Entry.range { first := some b, last := some b } = .ok ⟨b, b, rfl, le_rfl⟩ := rfl
  have hblank : (["\t", "\u00a0 ", "\u3000", "\n"].all fun w => w.toList.all isBlank) = true := by
    decide
  simp only [List.all_eq_true] at hblank
  constructor
  · rw [htext "\t" "\u00a0 " "\u3000" "\n" hblank, hwrong]
  · rw [hentry 3 [{ first := some b, last := some b }] [] _ false (.cons hfirst .nil), hwrong]
    rfl

end AddressShuffle.AddressRange
