import AddressShuffle.Pool.Recency
import AddressShuffle.Pool.Source
import Std.Data.HashMap

/-! Values lent to keys, one each, for as long as the key is among the most recently used. -/

namespace AddressShuffle

universe u v w

structure Pool (α : Type u) (β : Type v) (ι : Type w) [BEq β] [Hashable β] where
  source : ι
  /-- Values without a key, the one that waits longest first; some may have a key again. -/
  queue : List β
  forward : RecencyTable α β
  reverse : Std.HashMap β α

namespace Pool

variable {α : Type u} {β : Type v} {ι : Type w} [DecidableEq α] [DecidableEq β] [Hashable β]

omit [DecidableEq α] in
def ofSource (source : ι) (capacity : Nat) (h : 0 < capacity) : Pool α β ι where
  source
  queue := []
  forward := .empty capacity h
  reverse := ∅

def size (p : Pool α β ι) : Nat := p.forward.size

def isEmpty (p : Pool α β ι) : Bool := p.forward.isEmpty

def capacity (p : Pool α β ι) : Nat := p.forward.capacity

def contains (p : Pool α β ι) (a : α) : Bool := p.forward.contains a

def owner? (p : Pool α β ι) (b : β) : Option α := p.reverse[b]?

def isLent (p : Pool α β ι) (b : β) : Bool := p.reverse.contains b

def release (p : Pool α β ι) (a : α) (b : β) : Pool α β ι :=
  { p with
    queue := p.queue ++ [b]
    reverse := if p.owner? b = some a then p.reverse.erase b else p.reverse }

def give (p : Pool α β ι) (a : α) (b : β) : Pool α β ι :=
  { p with
    forward :=
      match p.owner? b with
      | some k => if k = a then p.forward else p.forward.erase k
      | none => p.forward
    reverse := p.reverse.insert b a }

/-- Lends `b` to `a`. A pair that has to leave the table for it gives its value back, unless the
value is `b` itself. -/
def assign (p : Pool α β ι) (a : α) (b : β) : Pool α β ι :=
  let (displaced, forward) := p.forward.push a b
  let p := { p with forward }
  match displaced with
  | some (k, v) => if v = b then p.give a b else (p.release k v).give a b
  | none => p.give a b

/-- The value of `a`, and whether `a` held it already. Otherwise `a` is lent the first value of the
queue that no key holds, or else the first such value of the source; values passed over are
forgotten. Without such a value the answer is none. All this as far as it shows within `draws`
values of the source. -/
def getWithin? [Source ι β] (draws : Nat) (p : Pool α β ι) (a : α) :
    Option (Option (Bool × β) × Pool α β ι) :=
  match p.forward.get? a with
  | some b => some (some (true, b), { p with forward := p.forward.touch a })
  | none =>
    match p.queue.dropWhile p.isLent with
    | b :: queue => some (some (false, b), { p with queue }.assign a b)
    | [] =>
      match Source.find? p.isLent draws p.source with
      | some (some b, source) => some (some (false, b), { p with source, queue := [] }.assign a b)
      | some (none, source) => some (none, { p with source, queue := [] })
      | none => none

theorem isSome_getWithin? [FiniteSource ι β] (p : Pool α β ι) (a : α) :
    (p.getWithin? (FiniteSource.size p.source + 1) a).isSome := by
  unfold getWithin?
  split
  · rfl
  · split
    · rfl
    · obtain ⟨⟨b, s⟩, h⟩ := Option.isSome_iff_exists.mp
        (Source.isSome_find? p.isLent (Nat.lt_succ_self (FiniteSource.size p.source)))
      rw [h]
      cases b <;> rfl

def get [FiniteSource ι β] (p : Pool α β ι) (a : α) : Option (Bool × β) × Pool α β ι :=
  (p.getWithin? (FiniteSource.size p.source + 1) a).get (p.isSome_getWithin? a)

def insert (p : Pool α β ι) (a : α) (b : β) : Pool α β ι := p.assign a b

omit [DecidableEq α] in
def reset (_ : Pool α β ι) (source : ι) (capacity : Nat) (h : 0 < capacity) : Pool α β ι :=
  ofSource source capacity h

end Pool

end AddressShuffle
