import AddressShuffle.Proofs.Config.Ranges
import AddressShuffle.Proofs.Range.Hosts
import AddressShuffle.Proofs.Range.Identity

/-! An entry either denotes a range or has one fault, and the first fault is that of the whole
configuration. -/

namespace AddressShuffle

namespace Entry

inductive Good : Entry → Prop
  | bounds {e first last} : e.first = some first → e.last = some last → e.network = none →
      first.family = last.family → first.bits ≤ last.bits → Good e
  | network {e text n} : e.first = none → e.last = none → e.network = some text →
      Network.ofString? text = some n → Good e

inductive Denotes : Entry → AddressRange → Prop
  | bounds {e first last} (hf hb) : e.first = some first → e.last = some last → e.network = none →
      Denotes e ⟨first, last, hf, hb⟩
  | whole {e text n r} : e.first = none → e.last = none → e.network = some text →
      Network.ofString? text = some n → e.hostsOnly = false →
      (∀ a, r.contains a = true ↔ n.IsMember a) → Denotes e r
  | hosts {e text n r} : e.first = none → e.last = none → e.network = some text →
      Network.ofString? text = some n → e.hostsOnly = true →
      (∀ a, r.contains a = true ↔ n.IsHost a) → Denotes e r

inductive Fault : Entry → EntryError → Prop
  | incomplete {e} : ¬(e.first.isSome ∧ e.last.isSome ∧ e.network = none) →
      ¬(e.first = none ∧ e.last = none ∧ e.network.isSome) → Fault e .incomplete
  | mixed {e first last} : e.first = some first → e.last = some last → e.network = none →
      first.family ≠ last.family → Fault e (.invalid (.mixedFamilies first last))
  | order {e first last} : e.first = some first → e.last = some last → e.network = none →
      first.family = last.family → last.bits < first.bits →
      Fault e (.invalid (.wrongOrder first last))
  | unreadable {e text} : e.first = none → e.last = none → e.network = some text →
      Network.ofString? text = none → Fault e (.invalid (.invalidNetwork text))

variable {e : Entry} {r : AddressRange} {cause : EntryError} {first last : Address} {text : String}

lemma range_eq_ofBounds (hfirst : e.first = some first) (hlast : e.last = some last)
    (hnetwork : e.network = none) :
    e.range = (AddressRange.ofBounds first last).mapError .invalid := by
  rw [range, hfirst, hlast, hnetwork]

lemma range_eq_networkRange (hfirst : e.first = none) (hlast : e.last = none)
    (hnetwork : e.network = some text) :
    e.range = (networkRange e.hostsOnly text).mapError .invalid := by
  rw [range, hfirst, hlast, hnetwork]

lemma range_eq_incomplete (hbounds : ¬(e.first.isSome ∧ e.last.isSome ∧ e.network = none))
    (hnetwork : ¬(e.first = none ∧ e.last = none ∧ e.network.isSome)) :
    e.range = .error .incomplete := by
  obtain ⟨first, last, network, hostsOnly⟩ := e
  cases first <;> cases last <;> cases network <;> simp_all [range]

lemma networkRange_of_network {n : Network} (h : Network.ofString? text = some n)
    (hostsOnly : Bool) :
    networkRange hostsOnly text =
      .ok ((if hostsOnly then AddressRange.usableHosts else AddressRange.ofNetwork) n) := by
  rw [networkRange, AddressRange.networkOfChars, ← Network.ofString?, h]
  rfl

lemma networkRange_of_none (h : Network.ofString? text = none) (hostsOnly : Bool) :
    networkRange hostsOnly text = .error (.invalidNetwork text) := by
  rw [networkRange, AddressRange.networkOfChars, ← Network.ofString?, h, String.ofList_toList]
  rfl

lemma Denotes.range_eq (h : e.Denotes r) : e.range = .ok r := by
  cases h with
  | bounds hf hb hfirst hlast hnetwork =>
    rw [range_eq_ofBounds hfirst hlast hnetwork, AddressRange.ofBounds, dif_pos hf, dif_pos hb]
    rfl
  | whole hfirst hlast hnetwork hn hhosts hmembers =>
    rw [range_eq_networkRange hfirst hlast hnetwork, networkRange_of_network hn, hhosts,
      AddressRange.eq_of_contains_iff hmembers fun _ => AddressRange.contains_ofNetwork_iff]
    rfl
  | hosts hfirst hlast hnetwork hn hhosts hmembers =>
    rw [range_eq_networkRange hfirst hlast hnetwork, networkRange_of_network hn, hhosts,
      AddressRange.eq_of_contains_iff hmembers fun _ => AddressRange.contains_usableHosts_iff]
    rfl

lemma Fault.range_eq (h : e.Fault cause) : e.range = .error cause := by
  cases h with
  | incomplete hbounds hnetwork => exact range_eq_incomplete hbounds hnetwork
  | mixed hfirst hlast hnetwork hf =>
    rw [range_eq_ofBounds hfirst hlast hnetwork, AddressRange.ofBounds, dif_neg hf]
    rfl
  | order hfirst hlast hnetwork hf hb =>
    rw [range_eq_ofBounds hfirst hlast hnetwork, AddressRange.ofBounds, dif_pos hf,
      dif_neg (Nat.not_le.mpr hb)]
    rfl
  | unreadable hfirst hlast hnetwork htext =>
    rw [range_eq_networkRange hfirst hlast hnetwork, networkRange_of_none htext]
    rfl

lemma exists_denotes_of_network {n : Network} (hfirst : e.first = none) (hlast : e.last = none)
    (hnetwork : e.network = some text) (hn : Network.ofString? text = some n) :
    ∃ r, e.Denotes r := by
  cases hhosts : e.hostsOnly with
  | false =>
    exact ⟨.ofNetwork n, .whole hfirst hlast hnetwork hn hhosts
      fun _ => AddressRange.contains_ofNetwork_iff⟩
  | true =>
    exact ⟨.usableHosts n, .hosts hfirst hlast hnetwork hn hhosts
      fun _ => AddressRange.contains_usableHosts_iff⟩

lemma denotes_or_fault (e : Entry) : (∃ r, e.Denotes r) ∨ ∃ cause, e.Fault cause := by
  by_cases hbounds : e.first.isSome ∧ e.last.isSome ∧ e.network = none
  · obtain ⟨hfirst, hlast, hnetwork⟩ := hbounds
    obtain ⟨first, hfirst⟩ := Option.isSome_iff_exists.mp hfirst
    obtain ⟨last, hlast⟩ := Option.isSome_iff_exists.mp hlast
    by_cases hf : first.family = last.family
    · rcases Nat.lt_or_ge last.bits first.bits with hb | hb
      · exact Or.inr ⟨_, .order hfirst hlast hnetwork hf hb⟩
      · exact Or.inl ⟨_, .bounds hf hb hfirst hlast hnetwork⟩
    · exact Or.inr ⟨_, .mixed hfirst hlast hnetwork hf⟩
  · by_cases hnetwork : e.first = none ∧ e.last = none ∧ e.network.isSome
    · obtain ⟨hfirst, hlast, hnetwork⟩ := hnetwork
      obtain ⟨text, hnetwork⟩ := Option.isSome_iff_exists.mp hnetwork
      cases htext : Network.ofString? text with
      | none => exact Or.inr ⟨_, .unreadable hfirst hlast hnetwork htext⟩
      | some n => exact Or.inl (exists_denotes_of_network hfirst hlast hnetwork htext)
    · exact Or.inr ⟨_, .incomplete hbounds hnetwork⟩

lemma range_eq_ok_iff : e.range = .ok r ↔ e.Denotes r := by
  refine ⟨?_, Denotes.range_eq⟩
  intro h
  rcases e.denotes_or_fault with ⟨s, hs⟩ | ⟨cause, hcause⟩
  · obtain rfl : r = s := Except.ok.inj (h.symm.trans hs.range_eq)
    exact hs
  · cases h.symm.trans hcause.range_eq

lemma range_eq_error_iff : e.range = .error cause ↔ e.Fault cause := by
  refine ⟨?_, Fault.range_eq⟩
  intro h
  rcases e.denotes_or_fault with ⟨s, hs⟩ | ⟨other, hother⟩
  · cases h.symm.trans hs.range_eq
  · obtain rfl : cause = other := Except.error.inj (h.symm.trans hother.range_eq)
    exact hother

lemma good_iff : e.Good ↔ ∃ r, e.Denotes r := by
  constructor
  · intro h
    cases h with
    | bounds hfirst hlast hnetwork hf hb => exact ⟨_, .bounds hf hb hfirst hlast hnetwork⟩
    | network hfirst hlast hnetwork hn =>
      exact exists_denotes_of_network hfirst hlast hnetwork hn
  · rintro ⟨r, h⟩
    cases h with
    | bounds hf hb hfirst hlast hnetwork => exact .bounds hfirst hlast hnetwork hf hb
    | whole hfirst hlast hnetwork hn => exact .network hfirst hlast hnetwork hn
    | hosts hfirst hlast hnetwork hn => exact .network hfirst hlast hnetwork hn

lemma not_good_iff : ¬e.Good ↔ ∃ cause, e.Fault cause := by
  rw [good_iff]
  refine ⟨e.denotes_or_fault.resolve_left, ?_⟩
  rintro ⟨cause, hcause⟩ ⟨r, hr⟩
  cases hcause.range_eq.symm.trans hr.range_eq

end Entry

namespace Config

variable {before after : List Entry} {e : Entry} {cause : EntryError} {index : Nat}

lemma exists_forall₂_of_good (h : ∀ x ∈ before, x.Good) :
    ∃ ranges, List.Forall₂ (fun e r => e.range = .ok r) before ranges := by
  induction before with
  | nil => exact ⟨[], .nil⟩
  | cons e entries ih =>
    obtain ⟨he, hentries⟩ := List.forall_mem_cons.mp h
    obtain ⟨r, hr⟩ := Entry.good_iff.mp he
    obtain ⟨ranges, hranges⟩ := ih hentries
    exact ⟨r :: ranges, .cons hr.range_eq hranges⟩

lemma rangesFrom_of_fault (hbefore : ∀ x ∈ before, x.Good) (he : e.Fault cause)
    (after : List Entry) :
    rangesFrom index (before ++ e :: after) = .error (.entry (index + before.length) cause) := by
  obtain ⟨ranges, hranges⟩ := exists_forall₂_of_good hbefore
  rw [rangesFrom_append hranges, rangesFrom_cons, he.range_eq]
  rfl

lemma exists_fault_of_rangesFrom {entries : List Entry} {error : ConfigError}
    (h : rangesFrom index entries = .error error) :
    ∃ before e after cause, entries = before ++ e :: after ∧ (∀ x ∈ before, x.Good) ∧
      e.Fault cause ∧ error = .entry (index + before.length) cause := by
  induction entries generalizing index with
  | nil => cases h
  | cons e entries ih =>
    rw [rangesFrom] at h
    cases he : e.range with
    | error cause =>
      rw [he] at h
      obtain rfl := Except.error.inj h
      exact ⟨[], e, entries, cause, rfl, List.forall_mem_nil _, Entry.range_eq_error_iff.mp he, rfl⟩
    | ok r =>
      rw [he] at h
      cases hrest : rangesFrom (index + 1) entries with
      | ok ranges => simp [hrest, Except.map] at h
      | error error' =>
        obtain rfl : error' = error := by simpa [hrest, Except.map] using h
        obtain ⟨before, x, after, cause, rfl, hbefore, hx, rfl⟩ := ih hrest
        have hgood : e.Good := Entry.good_iff.mpr ⟨r, Entry.range_eq_ok_iff.mp he⟩
        have hindex : index + 1 + before.length = index + (e :: before).length := by
          rw [List.length_cons]
          omega
        exact ⟨e :: before, x, after, cause, rfl, List.forall_mem_cons.mpr ⟨hgood, hbefore⟩, hx,
          congrArg (ConfigError.entry · cause) hindex⟩

lemma ranges_eq_ok_iff_denotes {c : Config} {ranges : List AddressRange} :
    c.ranges = .ok ranges ↔ List.Forall₂ Entry.Denotes c.entries ranges := by
  rw [ranges_eq_ok_iff]
  simp only [Entry.range_eq_ok_iff]

lemma exists_ranges_eq_error {c : Config} (he : e ∈ c.entries) (hbad : ¬e.Good) :
    ∃ cause, c.ranges = .error cause := by
  cases h : c.ranges with
  | error cause => exact ⟨cause, rfl⟩
  | ok ranges =>
    obtain ⟨i, hi, rfl⟩ := List.getElem_of_mem he
    have hall := ranges_eq_ok_iff_denotes.mp h
    exact absurd (Entry.good_iff.mpr ⟨_, hall.get hi (hall.length_eq ▸ hi)⟩) hbad

lemma exists_ranges_eq_ok_iff {c : Config} :
    (∃ ranges, c.ranges = .ok ranges) ↔ ∀ e ∈ c.entries, e.Good := by
  constructor
  · rintro ⟨ranges, h⟩ e he
    by_contra hbad
    obtain ⟨cause, hcause⟩ := exists_ranges_eq_error he hbad
    cases h.symm.trans hcause
  · intro h
    obtain ⟨ranges, hranges⟩ := exists_forall₂_of_good h
    exact ⟨ranges, ranges_eq_ok_iff.mpr hranges⟩

theorem ranges_all_or_first_fault (c : Config) :
    ((∃ ranges, c.ranges = .ok ranges) ↔ ∀ e ∈ c.entries, e.Good) ∧
    (∀ ranges, c.ranges = .ok ranges ↔ List.Forall₂ Entry.Denotes c.entries ranges) ∧
    (∀ error, c.ranges = .error error ↔ ∃ before e after cause, c.entries = before ++ e :: after ∧
      (∀ x ∈ before, x.Good) ∧ e.Fault cause ∧ error = .entry before.length cause) ∧
    (∀ e : Entry, ¬e.Good ↔ ∃ cause, e.Fault cause) ∧
    ∀ before e after, c.entries = before ++ e :: after → (∀ x ∈ before, x.Good) → ¬e.Good →
      ∀ limit after', Config.ranges ⟨limit, before ++ e :: after'⟩ = c.ranges := by
  refine ⟨exists_ranges_eq_ok_iff, fun ranges => ranges_eq_ok_iff_denotes, ?_,
    fun e => Entry.not_good_iff, ?_⟩
  · intro error
    constructor
    · intro h
      obtain ⟨before, e, after, cause, hentries, hbefore, he, rfl⟩ := exists_fault_of_rangesFrom h
      exact ⟨before, e, after, cause, hentries, hbefore, he, by rw [Nat.zero_add]⟩
    · rintro ⟨before, e, after, cause, hentries, hbefore, he, rfl⟩
      rw [ranges, hentries, rangesFrom_of_fault hbefore he, Nat.zero_add]
  · intro before e after hentries hbefore he limit after'
    obtain ⟨cause, hcause⟩ := Entry.not_good_iff.mp he
    rw [ranges, ranges, hentries, rangesFrom_of_fault hbefore hcause,
      rangesFrom_of_fault hbefore hcause]

theorem ranges_all_or_first_fault_of_two :
    let hosts : Entry := { network := some "10.0.0.0/30", hostsOnly := true }
    let half : Entry := { first := some (.unspecified .v4), network := some "10.0.0.0/30" }
    let unreadable : Entry := { network := some "10.0.0.0/33" }
    let pair : AddressRange :=
      ⟨⟨.v4, 0x0a000001, by decide⟩, ⟨.v4, 0x0a000002, by decide⟩, rfl, by decide⟩
    Config.ranges ⟨256, [hosts]⟩ = .ok [pair] ∧
      Config.ranges ⟨256, [hosts, half, unreadable]⟩ = .error (.entry 1 .incomplete) ∧
      Config.ranges ⟨0, [hosts, half]⟩ = Config.ranges ⟨256, [hosts, half, unreadable]⟩ := by
  intro hosts half unreadable pair
  have hread : Network.ofString? "10.0.0.0/30" =
      some ⟨⟨.v4, 0x0a000000, by decide⟩, 30, by decide⟩ := by decide
  have hpair : AddressRange.usableHosts ⟨⟨.v4, 0x0a000000, by decide⟩, 30, by decide⟩ = pair := by
    decide
  have hdenotes : hosts.Denotes pair :=
    .hosts rfl rfl rfl hread rfl fun _ => hpair ▸ AddressRange.contains_usableHosts_iff
  have hgood : ∀ x ∈ [hosts], x.Good := List.forall_mem_singleton.mpr (.network rfl rfl rfl hread)
  have hfault : half.Fault .incomplete := .incomplete (by decide) (by decide)
  obtain ⟨-, hranges, -⟩ := ranges_all_or_first_fault ⟨256, [hosts]⟩
  obtain ⟨-, -, herror, hnot, hafter⟩ := ranges_all_or_first_fault ⟨256, [hosts, half, unreadable]⟩
  exact ⟨(hranges _).mpr (.cons hdenotes .nil),
    (herror _).mpr ⟨[hosts], half, [unreadable], _, rfl, hgood, hfault, rfl⟩,
    hafter [hosts] half [unreadable] rfl hgood ((hnot half).mpr ⟨_, hfault⟩) 0 []⟩

end Config

end AddressShuffle
