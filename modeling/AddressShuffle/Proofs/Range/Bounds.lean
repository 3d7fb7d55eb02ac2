import AddressShuffle.Proofs.Config.Ranges
import AddressShuffle.Proofs.Network.Mask

/-! The arithmetic of ranges in 128 bits, without an answer where a difference is negative, a sum is
too wide, an address is cut short or an assertion fails. -/

namespace AddressShuffle

open Text

def difference? (m n : Nat) : Option Nat :=
  if n ≤ m then some (m - n) else none

lemma difference?_of_le {m n : Nat} (h : n ≤ m) : difference? m n = some (m - n) :=
  if_pos h

def Address.ofBits? (f : Family) (bits : Nat) : Option Address :=
  if h : bits < f.size then some ⟨f, bits, h⟩ else none

lemma Address.ofBits?_bits (a : Address) : ofBits? a.family a.bits = some a :=
  dif_pos a.bits_lt

structure Bounds where
  first : Address
  last : Address
  deriving DecidableEq

def AddressRange.bounds (r : AddressRange) : Bounds := ⟨r.first, r.last⟩

@[simp] lemma AddressRange.first_bounds (r : AddressRange) : r.bounds.first = r.first := rfl

namespace Bounds

def lastOffset? (b : Bounds) : Option Nat :=
  difference? b.last.bits b.first.bits

def address? (b : Bounds) (n : Nat) : Option Address := do
  if n ≤ (← b.lastOffset?) then
    Address.ofBits? b.first.family (← AddressRange.counted? (b.first.bits + n))
  else none

def offset? (b : Bounds) (n : Nat) : Option (Option Address) := do
  if (← b.lastOffset?) < n then some none else (b.address? n).map some

def trimmed? (b : Bounds) (n : Nat) : Option Bounds := do
  let last ← b.lastOffset?
  if min (2 * n) (Family.v6.size - 1) ≤ last then
    return ⟨← b.address? n, ← b.address? (← difference? last n)⟩
  else none

def ofBounds (first last : Address) : Except RangeError Bounds :=
  if first.family ≠ last.family then .error (.mixedFamilies first last)
  else if last.bits < first.bits then .error (.wrongOrder first last)
  else .ok ⟨first, last⟩

def ofNetwork (n : Network) : Bounds where
  first := .ofWord n.address.family (n.address.word &&& n.mask)
  last := .ofWord n.address.family (n.address.word &&& n.mask ||| ~~~n.mask)

def usableHosts? (n : Network) : Option Bounds :=
  if n.address.family = .v4 ∧ n.length < 31 then (ofNetwork n).trimmed? 1 else some (ofNetwork n)

def ofChars (s : List Char) : Except RangeError Bounds :=
  match s.dropWhile (· ≠ '-') with
  | _ :: right => do
    let first ← AddressRange.boundOfChars (s.takeWhile (· ≠ '-'))
    let last ← AddressRange.boundOfChars right
    ofBounds first last
  | [] => (AddressRange.networkOfChars (trim s)).map ofNetwork

def ofString (s : String) : Except RangeError Bounds :=
  ofChars s.toList

def networkRange? (hostsOnly : Bool) (text : String) : Option (Except RangeError Bounds) :=
  match AddressRange.networkOfChars text.toList with
  | .error cause => some (.error cause)
  | .ok n => (if hostsOnly then usableHosts? n else some (ofNetwork n)).map .ok

def range? (e : Entry) : Option (Except EntryError Bounds) :=
  match e.first, e.last, e.network with
  | some first, some last, none => some ((ofBounds first last).mapError .invalid)
  | none, none, some text => (networkRange? e.hostsOnly text).map (·.mapError .invalid)
  | _, _, _ => some (.error .incomplete)

def rangesFrom? (index : Nat) : List Entry → Option (Except ConfigError (List Bounds))
  | [] => some (.ok [])
  | e :: entries => do
    match ← range? e with
    | .error cause => return .error (.entry index cause)
    | .ok b => return (← rangesFrom? (index + 1) entries).map (b :: ·)

def ranges? (c : Config) : Option (Except ConfigError (List Bounds)) :=
  rangesFrom? 0 c.entries

/-- Every way to come by the bounds of a range. -/
inductive Obtained : Bounds → Prop where
  | bounds {first last : Address} {b : Bounds} (h : ofBounds first last = .ok b) : Obtained b
  | network (n : Network) : Obtained (ofNetwork n)
  | hosts {n : Network} {b : Bounds} (h : usableHosts? n = some b) : Obtained b
  | text {s : String} {b : Bounds} (h : ofString s = .ok b) : Obtained b
  | config {c : Config} {bs : List Bounds} {b : Bounds} (h : ranges? c = some (.ok bs))
      (hb : b ∈ bs) : Obtained b

open AddressRange

@[simp] lemma lastOffset?_bounds (r : AddressRange) :
    r.bounds.lastOffset? = some r.lastOffset :=
  difference?_of_le r.bits_le

lemma address?_bounds {r : AddressRange} {n : Nat} (h : n ≤ r.lastOffset) :
    r.bounds.address? n = some (r.address n) := by
  have hlt : r.first.bits + n < Family.v6.size :=
    Nat.lt_of_lt_of_le (bits_first_add_lt h) r.first.family.size_le
  have hsum : counted? (r.first.bits + n) = some (r.address n).bits := by
    rw [bits_address h]
    exact if_pos hlt
  have hbits : Address.ofBits? r.first.family (r.address n).bits = some (r.address n) :=
    Address.ofBits?_bits _
  simp [address?, h, hsum, hbits]

lemma offset?_bounds (r : AddressRange) (n : Nat) :
    r.bounds.offset? n = some (r.offset? n) := by
  rw [AddressRange.offset?]
  split_ifs with h
  · simp [offset?, address?_bounds h, Nat.not_lt.mpr h]
  · simp [offset?, Nat.not_le.mp h]

lemma trimmed?_bounds {r : AddressRange} {n : Nat} (h : 2 * n ≤ r.lastOffset) :
    r.bounds.trimmed? n = some (r.trimmed n h).bounds := by
  have hle : n ≤ r.lastOffset := by omega
  have hassert : min (2 * n) (Family.v6.size - 1) ≤ r.lastOffset :=
    Nat.le_trans (Nat.min_le_left _ _) h
  have hupper := address?_bounds (Nat.sub_le r.lastOffset n)
  have htrimmed : (r.trimmed n h).bounds = ⟨r.address n, r.address (r.lastOffset - n)⟩ := rfl
  simp only [trimmed?, lastOffset?_bounds, Option.bind_eq_bind, Option.bind_some, if_pos hassert,
    address?_bounds hle, difference?_of_le hle, hupper, htrimmed]
  rfl

lemma ofBounds_eq (first last : Address) :
    ofBounds first last = (AddressRange.ofBounds first last).map bounds := by
  rw [ofBounds, AddressRange.ofBounds]
  by_cases hf : first.family = last.family
  · rw [if_neg (not_not_intro hf), dif_pos hf]
    by_cases hb : first.bits ≤ last.bits
    · rw [if_neg (Nat.not_lt.mpr hb), dif_pos hb]
      rfl
    · rw [if_pos (Nat.not_le.mp hb), dif_neg hb]
      rfl
  · rw [if_pos hf, dif_neg hf]
    rfl

lemma ofNetwork_eq (n : Network) : ofNetwork n = (AddressRange.ofNetwork n).bounds := by
  rw [ofNetwork, ← n.lowest_eq_ofWord, ← n.highest_eq_ofWord]
  rfl

lemma usableHosts?_eq (n : Network) :
    usableHosts? n = some (AddressRange.usableHosts n).bounds := by
  rw [usableHosts?, AddressRange.usableHosts, ofNetwork_eq]
  split_ifs with h
  · exact trimmed?_bounds _
  · rfl

lemma ofChars_eq (s : List Char) : ofChars s = (AddressRange.ofChars s).map bounds := by
  rw [ofChars, AddressRange.ofChars]
  cases s.dropWhile (· ≠ '-') with
  | nil =>
    cases networkOfChars (trim s) with
    | error cause => rfl
    | ok n => exact congrArg Except.ok (ofNetwork_eq n)
  | cons hyphen right =>
    dsimp only
    cases boundOfChars (s.takeWhile (· ≠ '-')) with
    | error cause => rfl
    | ok first =>
      cases boundOfChars right with
      | error cause => rfl
      | ok last => exact ofBounds_eq first last

lemma ofString_eq (s : String) : ofString s = (AddressRange.ofString s).map bounds :=
  ofChars_eq s.toList

lemma networkRange?_eq (hostsOnly : Bool) (text : String) :
    networkRange? hostsOnly text = some ((Entry.networkRange hostsOnly text).map bounds) := by
  rw [networkRange?, Entry.networkRange]
  cases networkOfChars text.toList with
  | error cause => rfl
  | ok n =>
    cases hostsOnly with
    | false => exact congrArg (fun b => some (Except.ok b)) (ofNetwork_eq n)
    | true => exact congrArg (Option.map Except.ok) (usableHosts?_eq n)

lemma mapError_map {α β ε ε' : Type} (x : Except ε α) (f : α → β) (g : ε → ε') :
    (x.map f).mapError g = (x.mapError g).map f := by
  cases x <;> rfl

lemma range?_eq (e : Entry) : range? e = some (e.range.map bounds) := by
  obtain ⟨first, last, network, hostsOnly⟩ := e
  cases first <;> cases last <;> cases network <;>
    simp [range?, Entry.range, ofBounds_eq, networkRange?_eq, mapError_map]
  all_goals rfl

lemma rangesFrom?_eq (index : Nat) (entries : List Entry) :
    rangesFrom? index entries = some ((Config.rangesFrom index entries).map (·.map bounds)) := by
  induction entries generalizing index with
  | nil => rfl
  | cons e entries ih =>
    rw [rangesFrom?, range?_eq, Config.rangesFrom]
    cases e.range with
    | error cause => rfl
    | ok r =>
      simp only [Except.map, Option.bind_eq_bind, Option.bind_some, ih]
      cases Config.rangesFrom (index + 1) entries <;> rfl

lemma ranges?_eq (c : Config) : ranges? c = some (c.ranges.map (·.map bounds)) :=
  rangesFrom?_eq 0 c.entries

lemma exists_of_map_eq_ok {α β ε : Type} {x : Except ε α} {f : α → β} {b : β}
    (h : x.map f = .ok b) : ∃ a, x = .ok a ∧ f a = b := by
  cases x with
  | error e => nomatch h
  | ok a => exact ⟨a, rfl, Except.ok.inj h⟩

lemma Obtained.exists_bounds_eq {b : Bounds} (h : b.Obtained) :
    ∃ r : AddressRange, r.bounds = b := by
  cases h with
  | @bounds first last _ h =>
    rw [ofBounds_eq] at h
    obtain ⟨r, -, hr⟩ := exists_of_map_eq_ok h
    exact ⟨r, hr⟩
  | network n => exact ⟨.ofNetwork n, (ofNetwork_eq n).symm⟩
  | @hosts n _ h =>
    rw [usableHosts?_eq] at h
    exact ⟨.usableHosts n, Option.some.inj h⟩
  | @text s _ h =>
    rw [ofString_eq] at h
    obtain ⟨r, -, hr⟩ := exists_of_map_eq_ok h
    exact ⟨r, hr⟩
  | @config c bs _ h hb =>
    rw [ranges?_eq] at h
    obtain ⟨ranges, -, rfl⟩ := exists_of_map_eq_ok (Option.some.inj h)
    obtain ⟨r, -, hr⟩ := List.mem_map.mp hb
    exact ⟨r, hr⟩

end Bounds

end AddressShuffle
