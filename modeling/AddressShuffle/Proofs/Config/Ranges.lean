import AddressShuffle.Config.Basic
import Mathlib.Data.List.Forall2

namespace AddressShuffle.Config

lemma rangesFrom_eq_ok_iff {index : Nat} {entries : List Entry} {ranges : List AddressRange} :
    rangesFrom index entries = .ok ranges ↔
      List.Forall₂ (fun e r => e.range = .ok r) entries ranges := by
  induction entries generalizing index ranges with
  | nil => simp [rangesFrom, eq_comm]
  | cons e entries ih =>
    rw [rangesFrom, List.forall₂_cons_left_iff]
    cases he : e.range with
    | error cause => simp
    | ok range =>
      constructor
      · intro h
        cases hrest : rangesFrom (index + 1) entries with
        | error cause => simp [hrest, Except.map] at h
        | ok rest =>
          obtain rfl : range :: rest = ranges := by simpa [hrest, Except.map] using h
          exact ⟨range, rest, rfl, ih.mp hrest, rfl⟩
      · rintro ⟨r, rest, hr, hrest, rfl⟩
        obtain rfl := Except.ok.inj hr
        simp only [ih.mpr hrest]
        rfl

lemma ranges_eq_ok_iff {c : Config} {ranges : List AddressRange} :
    c.ranges = .ok ranges ↔ List.Forall₂ (fun e r => e.range = .ok r) c.entries ranges :=
  rangesFrom_eq_ok_iff

lemma rangesFrom_cons (index : Nat) (e : Entry) (entries : List Entry) :
    rangesFrom index (e :: entries) =
      (e.range.mapError (.entry index)).bind fun r =>
        (rangesFrom (index + 1) entries).map (r :: ·) := by
  rw [rangesFrom]
  cases e.range <;> rfl

lemma rangesFrom_append {index : Nat} {entries : List Entry} {ranges : List AddressRange}
    (h : List.Forall₂ (fun e r => e.range = .ok r) entries ranges) (rest : List Entry) :
    rangesFrom index (entries ++ rest) =
      (rangesFrom (index + entries.length) rest).map (ranges ++ ·) := by
  induction h generalizing index with
  | nil => cases hrest : rangesFrom index rest <;> simp [hrest, Except.map]
  | @cons e r entries ranges he _ ih =>
    have hindex : index + (e :: entries).length = index + 1 + entries.length := by
      rw [List.length_cons]
      omega
    rw [List.cons_append, rangesFrom_cons, he, hindex, ih]
    cases rangesFrom (index + 1 + entries.length) rest <;> rfl

end AddressShuffle.Config
