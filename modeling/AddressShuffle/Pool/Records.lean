import AddressShuffle.Pool.Basic
import AddressShuffle.Shuffle.Records

namespace AddressShuffle

universe u v w

class Reporting (ι : Type u) where
  nextRecords : ι → List Log.Record

instance {β : Type v} : Reporting (List (Option β)) where
  nextRecords _ := []

instance {γ : Type u} [Picker γ] : Reporting (Shuffle γ) where
  nextRecords := Shuffle.nextRecords

namespace Pool

variable {α : Type u} {β : Type v} {ι : Type w} [DecidableEq α] [DecidableEq β] [Hashable β]

def skipRecord : Log.Record := ⟨.trace, "skipping reserved value"⟩

def findRecords [Source ι β] [Reporting ι] (skip : β → Bool) : Nat → ι → List Log.Record
  | 0, _ => []
  | draws + 1, s =>
    Reporting.nextRecords s ++
      match Source.next s with
      | (none, _) => []
      | (some b, s) => if skip b then skipRecord :: findRecords skip draws s else []

def getRecords [FiniteSource ι β] [Reporting ι] (p : Pool α β ι) (a : α) : List Log.Record :=
  if p.contains a then []
  else
    (p.queue.takeWhile p.isLent).map (fun _ => skipRecord) ++
      if (p.queue.dropWhile p.isLent).isEmpty then
        findRecords p.isLent (FiniteSource.size p.source + 1) p.source
      else []

end Pool

end AddressShuffle
