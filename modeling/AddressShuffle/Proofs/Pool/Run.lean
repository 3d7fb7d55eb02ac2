import AddressShuffle.Pool.Basic
import Mathlib.Tactic.Lemma

/-! A request for a value is a step only when it ends, which it may fail to do when the source never
runs out of values that are lent. -/

namespace AddressShuffle.Pool

universe u v w

inductive Event (α : Type u) (β : Type v) (ι : Type w) where
  | get (a : α) (answer : Option (Bool × β))
  | insert (a : α) (b : β)
  | reset (source : ι) (capacity : Nat) (pos : 0 < capacity)

variable {α : Type u} {β : Type v} {ι : Type w} [DecidableEq α] [DecidableEq β] [Hashable β]

lemma getWithin?_cases [Source ι β] {draws : Nat} {p q : Pool α β ι} {a : α}
    {answer : Option (Bool × β)} (h : p.getWithin? draws a = some (answer, q)) :
    (∃ b, p.forward.get? a = some b ∧ answer = some (true, b) ∧
      q = { p with forward := p.forward.touch a }) ∨
    (p.forward.get? a = none ∧ ∃ b queue, p.queue.dropWhile p.isLent = b :: queue ∧
      answer = some (false, b) ∧ q = { p with queue }.assign a b) ∨
    (p.forward.get? a = none ∧ p.queue.dropWhile p.isLent = [] ∧
      ∃ b source, Source.find? p.isLent draws p.source = some (some b, source) ∧
        answer = some (false, b) ∧ q = { p with source, queue := [] }.assign a b) ∨
    (p.forward.get? a = none ∧ p.queue.dropWhile p.isLent = [] ∧
      ∃ source, Source.find? p.isLent draws p.source = some (none, source) ∧
        answer = none ∧ q = { p with source, queue := [] }) := by
  unfold getWithin? at h
  split at h
  · next b hb =>
    obtain ⟨rfl, rfl⟩ := Prod.mk.inj (Option.some.inj h)
    exact Or.inl ⟨b, hb, rfl, rfl⟩
  · next ha =>
    split at h
    · next b queue hqueue =>
      obtain ⟨rfl, rfl⟩ := Prod.mk.inj (Option.some.inj h)
      exact Or.inr (Or.inl ⟨ha, b, queue, hqueue, rfl, rfl⟩)
    · next hqueue =>
      split at h
      · next b source hfind =>
        obtain ⟨rfl, rfl⟩ := Prod.mk.inj (Option.some.inj h)
        exact Or.inr (Or.inr (Or.inl ⟨ha, hqueue, b, source, hfind, rfl, rfl⟩))
      · next source hfind =>
        obtain ⟨rfl, rfl⟩ := Prod.mk.inj (Option.some.inj h)
        exact Or.inr (Or.inr (Or.inr ⟨ha, hqueue, source, hfind, rfl, rfl⟩))
      · exact absurd h.symm (Option.some_ne_none _)

inductive Step [Source ι β] : Pool α β ι → Event α β ι → Pool α β ι → Prop
  | get {p q a answer draws} : p.getWithin? draws a = some (answer, q) → Step p (.get a answer) q
  | insert {p} (a b) : Step p (.insert a b) (p.insert a b)
  | reset {p} (source capacity pos) :
      Step p (.reset source capacity pos) (p.reset source capacity pos)

inductive Run [Source ι β] : Pool α β ι → List (Event α β ι) → Pool α β ι → Prop
  | nil (p) : Run p [] p
  | cons {p q r e es} : Step p e q → Run q es r → Run p (e :: es) r

lemma step_get [FiniteSource ι β] (p : Pool α β ι) (a : α) :
    Step p (.get a (p.get a).1) (p.get a).2 :=
  .get (Option.some_get (p.isSome_getWithin? a)).symm

lemma Run.induct [Source ι β] {motive : Pool α β ι → Prop} {p q : Pool α β ι}
    {es : List (Event α β ι)} (h : Run p es q) (hp : motive p)
    (hstep : ∀ {p q e}, Step p e q → motive p → motive q) : motive q := by
  induction h with
  | nil => exact hp
  | cons hs _ ih => exact ih (hstep hs hp)

end AddressShuffle.Pool
