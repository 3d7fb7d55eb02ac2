import AddressShuffle.Log
import AddressShuffle.Range.Text
import AddressShuffle.Shuffle.Basic

namespace AddressShuffle

universe u

variable {γ : Type u}

def Log.countText : Option Nat → String
  | some n => s!"Some({n})"
  | none => "None"

namespace Shuffle

open Log

def startRecord (range : AddressRange) : Record :=
  ⟨.debug, s!"New permutation over {range} ({countText range.count?} addresses)"⟩

def endRecord (range : AddressRange) : Record :=
  ⟨.debug, s!"Permutation over {range} exhausted"⟩

def pickRecord (picked : Nat) (a : Address) (after : Shuffle γ) : Record :=
  ⟨.trace, s!"slot {picked} -> {a}, cursor {after.cursor} ({after.displaced.size} overrides)"⟩

def nextRecords [Picker γ] (s : Shuffle γ) : List Record :=
  if s.exhausted then []
  else if s.cursor = 0 then [endRecord s.range]
  else [pickRecord (Picker.pick s.picker s.cursor).1.val s.next.1.1 s.next.2]

end Shuffle

end AddressShuffle
