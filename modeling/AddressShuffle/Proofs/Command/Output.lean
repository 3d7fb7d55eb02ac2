import AddressShuffle.Command
import AddressShuffle.Proofs.Address.Text
import AddressShuffle.Proofs.Config.Faults
import AddressShuffle.Proofs.Shuffle.Addresses
import Mathlib.Data.List.Count

namespace AddressShuffle.Command

universe u

variable {γ : Type u} [Picker γ]

/-- Lines with addresses of a range, none twice, and with all of them if not more are there than
asked for. -/
structure Sample (limit : Nat) (range : AddressRange) (lines : List String) : Prop where
  length_eq : lines.length = min limit range.size
  nodup : lines.Nodup
  contains : ∀ line ∈ lines, ∃ a, Address.ofString? line = some a ∧ toString a = line ∧
    range.contains a = true
  complete : range.size ≤ limit → ∀ a, range.contains a = true → lines.count (toString a) = 1

lemma sample_take (limit : Nat) (range : AddressRange) (picker : γ) :
    Sample limit range (((Shuffle.ofRange range picker).take limit).1.map toString) := by
  have hle : min limit range.size ≤ range.size := Nat.min_le_right _ _
  rw [Shuffle.take_eq_taken, Shuffle.left_ofRange]
  refine ⟨?_, (Shuffle.nodup_taken hle picker).map Address.toString_injective, ?_, ?_⟩
  · rw [List.length_map, Shuffle.length_taken]
  · intro line hline
    obtain ⟨a, ha, rfl⟩ := List.mem_map.mp hline
    exact ⟨a, Address.ofString?_toString a, rfl, Shuffle.contains_of_mem_taken hle ha⟩
  · intro hsize a ha
    rw [List.count_map_of_injective _ _ Address.toString_injective, Nat.min_eq_right hsize]
    exact List.count_eq_one_of_mem (Shuffle.nodup_taken (Nat.le_refl _) picker)
      (Shuffle.mem_taken_size ha picker)

lemma forall₂_sample_groups (picker : Nat → γ) (limit : Nat) (ranges : List AddressRange) :
    List.Forall₂ (Sample limit) ranges
      ((groups picker limit ranges).map (List.map toString)) := by
  rw [groups]
  generalize 0 = n
  induction ranges generalizing n with
  | nil => exact .nil
  | cons range ranges ih =>
    rw [List.zipIdx_cons, List.map_cons, List.map_cons]
    exact .cons (sample_take limit range _) (ih (n + 1))

lemma run_of_ranges_eq_ok (picker : Nat → γ) {c : Config} {ranges : List AddressRange}
    (h : c.ranges = .ok ranges) :
    run picker (.ok c) = ⟨(groups picker c.limit ranges).flatten.map toString, none⟩ := by
  simp [run, h, bind, Except.bind, pure, Except.pure]

lemma run_of_ranges_eq_error (picker : Nat → γ) {c : Config} {cause : ConfigError}
    (h : c.ranges = .error cause) : run picker (.ok c) = ⟨[], some (errorRecord cause)⟩ := by
  simp [run, h, bind, Except.bind]

theorem run_prints_all_or_nothing (picker : Nat → γ) (c : Config) :
    ((∃ e ∈ c.entries, ¬e.Good) →
      (run picker (.ok c)).lines = [] ∧ (run picker (.ok c)).exitCode = 1) ∧
    ((∀ e ∈ c.entries, e.Good) →
      (run picker (.ok c)).exitCode = 0 ∧
      ∃ (ranges : List AddressRange) (samples : List (List String)),
        List.Forall₂ Entry.Denotes c.entries ranges ∧
        List.Forall₂ (Sample c.limit) ranges samples ∧
        (run picker (.ok c)).lines = samples.flatten) := by
  constructor
  · rintro ⟨e, he, hbad⟩
    obtain ⟨cause, hcause⟩ := Config.exists_ranges_eq_error he hbad
    rw [run_of_ranges_eq_error picker hcause]
    exact ⟨rfl, rfl⟩
  · intro hgood
    obtain ⟨ranges, hranges⟩ := Config.exists_ranges_eq_ok_iff.mpr hgood
    rw [run_of_ranges_eq_ok picker hranges]
    refine ⟨rfl, ranges, (groups picker c.limit ranges).map (List.map toString),
      Config.ranges_eq_ok_iff_denotes.mp hranges, forall₂_sample_groups picker c.limit ranges, ?_⟩
    exact List.map_flatten

theorem run_prints_all_or_nothing_of_late_fault :
    let quad : Entry := { first := some (.unspecified .v4), last := some ⟨.v4, 3, by decide⟩ }
    let faulty := run (fun _ => Script.mk [1, 2]) (.ok ⟨3, [quad, {}]⟩)
    let sound := run (fun _ => Script.mk [1, 2]) (.ok ⟨3, [quad]⟩)
    faulty.lines = [] ∧ faulty.exitCode = 1 ∧
      sound.exitCode = 0 ∧ sound.lines.length = 3 ∧ sound.lines.Nodup := by
  intro quad faulty sound
  have hbad : ¬Entry.Good {} := nofun
  have hgood : quad.Good := .bounds rfl rfl rfl rfl (by decide)
  have hfaulty := (run_prints_all_or_nothing (fun _ => Script.mk [1, 2]) ⟨3, [quad, {}]⟩).1
    ⟨{}, by simp, hbad⟩
  obtain ⟨hexit, _, _, ⟨⟩ | ⟨hdenotes, ⟨⟩⟩, ⟨⟩ | ⟨hsample, ⟨⟩⟩, hlines⟩ :=
    (run_prints_all_or_nothing (fun _ => Script.mk [1, 2]) ⟨3, [quad]⟩).2
      (List.forall_mem_singleton.mpr hgood)
  have hrange := hdenotes.range_eq
  cases hrange
  rw [List.flatten_singleton] at hlines
  refine ⟨hfaulty.1, hfaulty.2, hexit, ?_, ?_⟩
  · exact hlines ▸ hsample.length_eq
  · exact hlines ▸ hsample.nodup

end AddressShuffle.Command
