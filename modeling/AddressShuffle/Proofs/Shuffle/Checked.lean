import AddressShuffle.Proofs.Range.Bounds
import AddressShuffle.Proofs.Shuffle.Displacement

/-! The checked arithmetic has an answer in the states that calls lead to. -/

namespace AddressShuffle.Shuffle

universe u

variable {γ : Type u}

def ofRangeChecked? (range : AddressRange) (picker : γ) : Option (Shuffle γ) :=
  range.bounds.lastOffset?.map fun cursor => ⟨range, cursor, ∅, false, picker⟩

def slotChecked? (s : Shuffle γ) (n : Nat) : Option Address :=
  match s.displaced[n]? with
  | some a => some a
  | none => s.range.bounds.address? n

def nextChecked? [Picker γ] (s : Shuffle γ) : Option ((Address × Bool) × Shuffle γ) :=
  if s.exhausted then some ((.unspecified s.range.bounds.first.family, true), s)
  else if s.cursor = 0 then
    (s.slotChecked? 0).map fun a => ((a, true), { s with displaced := ∅, exhausted := true })
  else
    let (picked, picker) := Picker.pick s.picker s.cursor
    (s.slotChecked? s.cursor).bind fun top =>
      (s.slotChecked? picked).bind fun a =>
        (difference? s.cursor 1).map fun cursor =>
          ((a, false),
            { s with cursor, displaced := refill s.displaced s.cursor picked top, picker })

def itemChecked? [Picker γ] (s : Shuffle γ) : Option (Option Address × Shuffle γ) :=
  if s.exhausted then some (none, s)
  else s.nextChecked?.map fun ((a, _), s) => (some a, s)

/-- The states that calls lead to, as they are or as a sequence that ends with the range. -/
inductive Reached [Picker γ] (range : AddressRange) : Shuffle γ → Prop where
  | start (picker : γ) : Reached range (ofRange range picker)
  | next {s : Shuffle γ} (h : Reached range s) : Reached range s.next.2
  | item {s : Shuffle γ} (h : Reached range s) : Reached range s.next?.2

lemma ofRangeChecked?_eq (range : AddressRange) (picker : γ) :
    ofRangeChecked? range picker = some (ofRange range picker) := by
  simp [ofRangeChecked?, ofRange]

lemma Tidy.slotChecked?_eq {s : Shuffle γ} (h : s.Tidy) {n : Nat} (hn : n ≤ s.cursor) :
    s.slotChecked? n = some (s.slot n) := by
  rw [slotChecked?, slot, held]
  cases s.displaced[n]? with
  | some a => rfl
  | none => exact Bounds.address?_bounds (Nat.le_trans hn h.cursor_le)

variable [Picker γ]

lemma Tidy.nextChecked?_eq {s : Shuffle γ} (h : s.Tidy) : s.nextChecked? = some s.next := by
  cases he : s.exhausted with
  | true =>
    rw [next_of_exhausted he]
    simp [nextChecked?, he, AddressRange.family]
  | false =>
    by_cases hc : s.cursor = 0
    · rw [next_of_cursor_eq_zero he hc]
      simp [nextChecked?, he, hc, h.slotChecked?_eq (Nat.zero_le _)]
    · have hpicked := Nat.le_of_lt_succ (Picker.pick s.picker s.cursor).1.isLt
      have hlower : difference? s.cursor 1 = some (s.cursor - 1) :=
        difference?_of_le (Nat.one_le_iff_ne_zero.mpr hc)
      rw [next_of_cursor_ne_zero he hc]
      simp [nextChecked?, he, hc, h.slotChecked?_eq hpicked, h.slotChecked?_eq le_rfl, hlower]

lemma Tidy.itemChecked?_eq {s : Shuffle γ} (h : s.Tidy) : s.itemChecked? = some s.next? := by
  rw [itemChecked?, h.nextChecked?_eq, Shuffle.next?]
  cases s.exhausted <;> rfl

lemma Reached.tidy {range : AddressRange} {s : Shuffle γ} (h : Reached range s) :
    s.Tidy ∧ s.range = range := by
  induction h with
  | start picker => exact ⟨tidy_ofRange range picker, rfl⟩
  | @next s _ ih => exact ⟨ih.1.next, (range_next s).trans ih.2⟩
  | @item s _ ih =>
    cases he : s.exhausted with
    | true =>
      rw [next?_of_exhausted he]
      exact ih
    | false =>
      rw [next?_of_not_exhausted he]
      exact ⟨ih.1.next, (range_next s).trans ih.2⟩

open AddressRange in
theorem arithmetic_in_bounds :
    (∀ first last, Bounds.ofBounds first last = (ofBounds first last).map bounds) ∧
    (∀ n, Bounds.ofNetwork n = (ofNetwork n).bounds) ∧
    (∀ n, Bounds.usableHosts? n = some (usableHosts n).bounds) ∧
    (∀ text, Bounds.ofString text = (ofString text).map bounds) ∧
    (∀ c, Bounds.ranges? c = some (c.ranges.map (·.map bounds))) ∧
    ∀ b : Bounds, b.Obtained →
      b.first.family = b.last.family ∧ b.first.bits ≤ b.last.bits ∧
      ∃ r : AddressRange, r.bounds = b ∧ b.lastOffset? = some r.lastOffset ∧
        (∀ n, b.offset? n = some (r.offset? n)) ∧
        (∀ picker : γ, ofRangeChecked? r picker = some (ofRange r picker)) ∧
        ∀ s : Shuffle γ, Reached r s →
          s.cursor ≤ r.lastOffset ∧ (∀ n ≤ s.cursor, s.slotChecked? n = some (s.slot n)) ∧
          s.nextChecked? = some s.next ∧ s.itemChecked? = some s.next? := by
  refine ⟨Bounds.ofBounds_eq, Bounds.ofNetwork_eq, Bounds.usableHosts?_eq, Bounds.ofString_eq,
    Bounds.ranges?_eq, ?_⟩
  intro b hb
  obtain ⟨r, rfl⟩ := hb.exists_bounds_eq
  refine ⟨r.family_eq, r.bits_le, r, rfl, Bounds.lastOffset?_bounds r, Bounds.offset?_bounds r,
    ofRangeChecked?_eq r, ?_⟩
  intro s hs
  obtain ⟨htidy, rfl⟩ := hs.tidy
  exact ⟨htidy.cursor_le, fun n hn => htidy.slotChecked?_eq hn, htidy.nextChecked?_eq,
    htidy.itemChecked?_eq⟩

omit [Picker γ] in
theorem arithmetic_in_bounds_of_widest_hosts :
    let r := AddressRange.usableHosts ⟨.unspecified .v4, 0, by decide⟩
    let s := (ofRange r (Script.mk [0, 0])).next.2
    r.bounds.Obtained ∧ r.lastOffset = 4294967293 ∧ Reached r s ∧
      s.nextChecked?.map Prod.fst = some (r.last, false) := by
  intro r s
  have hobtained : r.bounds.Obtained := .hosts (Bounds.usableHosts?_eq _)
  have hreached : Reached r s := .next (.start _)
  obtain ⟨-, -, q, hq, -, -, -, hstates⟩ :=
    (@arithmetic_in_bounds Script _).2.2.2.2.2 r.bounds hobtained
  obtain rfl : q = r := AddressRange.ext (congrArg Bounds.first hq) (congrArg Bounds.last hq)
  have hchecked : s.nextChecked? = some s.next := (hstates s hreached).2.2.1
  have hs : s = ((ofRange r (Script.mk [0, 0])).deal 0).withPicker (Script.mk [0]) :=
    congrArg Prod.snd (next_eq_deal rfl (by decide))
  have hslot : s.slot 0 = r.last := by
    have hdealt := slot_deal (ofRange r (Script.mk [0, 0])) 0 (show 0 < r.lastOffset by decide)
    rw [if_pos rfl, slot_ofRange] at hdealt
    rw [hs]
    exact hdealt.trans r.address_lastOffset
  have hnext : s.next.1 = (s.slot 0, false) := by
    rw [next_eq_deal (by rw [hs]; rfl) (by rw [hs]; decide)]
    rfl
  exact ⟨hobtained, by decide, hreached, by rw [hchecked, Option.map_some, hnext, hslot]⟩

end AddressShuffle.Shuffle
