import AddressShuffle.Random.Picker
import Mathlib.Data.List.Forall2
import Mathlib.Data.List.OfFn

namespace AddressShuffle

universe u

structure Script where
  choices : List Nat

instance : Picker Script where
  pick s bound := (Fin.ofNat (bound + 1) (s.choices.headD 0), ⟨s.choices.tail⟩)

abbrev Picks (k n : Nat) : Type := (i : Fin (min k n)) → Fin (n - i + 1)

def Script.ofPicks {k n : Nat} (picks : Picks k n) : Script :=
  ⟨List.ofFn fun i => (picks i : Nat)⟩

structure Recorded (γ : Type u) where
  picker : γ
  bounds : List Nat

instance {γ : Type u} [Picker γ] : Picker (Recorded γ) where
  pick r bound :=
    ((Picker.pick r.picker bound).1, ⟨(Picker.pick r.picker bound).2, r.bounds ++ [bound]⟩)

namespace Picker

variable {γ : Type u} [Picker γ]

def choices : List Nat → γ → List Nat
  | [], _ => []
  | bound :: bounds, picker => (pick picker bound).1 :: choices bounds (pick picker bound).2

def afterBounds : List Nat → γ → γ
  | [], picker => picker
  | bound :: bounds, picker => afterBounds bounds (pick picker bound).2

def countdown : Nat → List Nat
  | 0 => []
  | n + 1 => (n + 1) :: countdown n

lemma length_countdown (n : Nat) : (countdown n).length = n := by
  induction n with
  | zero => rfl
  | succ n ih => simp [countdown, ih]

lemma getElem_countdown {n i : Nat} (h : i < (countdown n).length) :
    (countdown n)[i] = n - i := by
  induction n generalizing i with
  | zero => simp [countdown] at h
  | succ n ih =>
    cases i with
    | zero => rfl
    | succ i =>
      simp only [countdown, List.getElem_cons_succ, ih]
      omega

lemma forall₂_choices (bounds : List Nat) (picker : γ) :
    List.Forall₂ (· ≤ ·) (choices bounds picker) bounds := by
  induction bounds generalizing picker with
  | nil => exact .nil
  | cons bound bounds ih => exact .cons (Nat.le_of_lt_succ (Fin.isLt _)) (ih _)

lemma bounds_afterBounds (bounds : List Nat) (picker : Recorded γ) :
    (afterBounds bounds picker).bounds = picker.bounds ++ bounds := by
  induction bounds generalizing picker with
  | nil => simp [afterBounds]
  | cons bound bounds ih =>
    rw [afterBounds, ih]
    exact List.append_assoc _ [bound] bounds

lemma choices_recorded (bounds : List Nat) (picker : γ) (asked : List Nat) :
    choices bounds (Recorded.mk picker asked) = choices bounds picker := by
  induction bounds generalizing picker asked with
  | nil => rfl
  | cons bound bounds ih => exact congrArg _ (ih _ _)

end Picker

namespace Script

lemma pick_cons {c bound : Nat} (h : c ≤ bound) (cs : List Nat) :
    Picker.pick (Script.mk (c :: cs)) bound = (⟨c, Nat.lt_succ_of_le h⟩, ⟨cs⟩) :=
  Prod.ext (Fin.ext (Nat.mod_eq_of_lt (Nat.lt_succ_of_le h))) rfl

lemma choices_script {cs bounds : List Nat} (h : List.Forall₂ (· ≤ ·) cs bounds) :
    Picker.choices bounds (Script.mk cs) = cs := by
  induction h with
  | nil => rfl
  | cons hc _ ih => rw [Picker.choices, pick_cons hc, ih]

lemma forall₂_ofPicks {k n : Nat} (picks : Picks k n) :
    List.Forall₂ (· ≤ ·) (ofPicks picks).choices ((Picker.countdown n).take k) := by
  rw [List.forall₂_iff_get]
  constructor
  · simp [ofPicks, Picker.length_countdown]
  · intro i _ _
    simpa [ofPicks, Picker.getElem_countdown] using Nat.le_of_lt_succ (Fin.isLt _)

lemma exists_ofPicks_eq {cs : List Nat} {k n : Nat}
    (h : List.Forall₂ (· ≤ ·) cs ((Picker.countdown n).take k)) :
    ∃ picks : Picks k n, ofPicks picks = Script.mk cs := by
  obtain ⟨hlen, hle⟩ := List.forall₂_iff_get.mp h
  have hmin : min k n = cs.length := by
    rw [hlen, List.length_take, Picker.length_countdown]
  have hpick (i : Fin (min k n)) : cs.get (i.cast hmin) < n - i + 1 := by
    have hi := hle i (i.cast hmin).isLt (hlen ▸ (i.cast hmin).isLt)
    simp only [List.get_eq_getElem, List.getElem_take, Picker.getElem_countdown] at hi
    exact Nat.lt_succ_of_le hi
  refine ⟨fun i => ⟨cs.get (i.cast hmin), hpick i⟩, ?_⟩
  rw [ofPicks, Script.mk.injEq]
  apply List.ext_getElem
  · rw [List.length_ofFn, hmin]
  · intro i _ _
    rw [List.getElem_ofFn]
    rfl

lemma ofPicks_injective {k n : Nat} {p q : Picks k n} (h : ofPicks p = ofPicks q) : p = q := by
  funext i
  exact Fin.ext (congrFun (List.ofFn_injective (congrArg Script.choices h)) i)

end Script

end AddressShuffle
