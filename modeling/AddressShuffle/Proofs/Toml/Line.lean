import AddressShuffle.Proofs.Toml.Value
import AddressShuffle.Toml.Document
import Mathlib.Data.List.Forall2

/-! Documents with one statement in each line. -/

namespace AddressShuffle.Toml

open Reader Text

variable {key : String} {text line r t : List Char} {v : Value}

structure IsBareKey (key : String) : Prop where
  ne : key.toList ≠ []
  chars : ∀ c ∈ key.toList, isBareKeyChar c = true

def pairLine (key : String) (text : List Char) : List Char :=
  key.toList ++ ' ' :: '=' :: ' ' :: text

def elementLine (key : String) : List Char :=
  '[' :: '[' :: (key.toList ++ [']', ']'])

/-- What is written for a statement, in a line of its own that is not passed over as a gap. -/
structure Statement.ReadFrom (st : Statement) (line : List Char) : Prop where
  ne : line ≠ []
  skip : ∀ r, Gap.lines.skip (line ++ r) = line ++ r
  read : ∀ {r t}, lineEnd? r = some t → Statement.line.read (line ++ r) = some (st, t)

lemma IsBareKey.head (h : IsBareKey key) (r : List Char) :
    ∃ c u, key.toList ++ r = c :: u ∧ isBareKeyChar c = true := by
  cases hkey : key.toList with
  | nil => exact absurd hkey h.ne
  | cons c u => exact ⟨c, u ++ r, rfl, h.chars c (hkey ▸ List.mem_cons_self)⟩

lemma skip_spaces_of_head (h : ∀ c ∈ text.head?, isSpace c = false) :
    Gap.spaces.skip text = text :=
  dropWhile_append_of_head (List.forall_mem_nil _) h

lemma isSpace_of_isBareKeyChar {c : Char} (h : isBareKeyChar c = true) : isSpace c = false :=
  isSpace_of_accept h (by decide) (by decide)

lemma skip_lines_cons {c : Char} (hspace : isSpace c = false) (hcomment : c ≠ '#')
    (hfeed : c ≠ '\n') (hreturn : c ≠ '\r') (r : List Char) :
    Gap.lines.skip (c :: r) = c :: r := by
  change Gap.skipLines false (c :: r) = c :: r
  rw [Gap.skipLines]
  · rw [hspace, if_neg Bool.false_ne_true, if_neg hcomment]
  · exact hfeed
  · exact fun _ hc => absurd hc hreturn

lemma read_dottedKey (hkey : IsBareKey key) (hr : ∀ c ∈ r.head?, isBareKeyChar c = false)
    (hdot : (Gap.spaces.skip r).head? ≠ some '.') :
    dottedKey.read (key.toList ++ r) = some ([key], Gap.spaces.skip r) := by
  have hskip : Gap.spaces.skip (key.toList ++ r) = key.toList ++ r := by
    apply skip_spaces_of_head
    obtain ⟨c, u, he, hc⟩ := hkey.head r
    rw [he]
    rintro d ⟨⟩
    exact isSpace_of_isBareKeyChar hc
  have hpart : ((simpleKey.after .spaces).before .spaces).read (key.toList ++ r) =
      some (key, Gap.spaces.skip r) := by
    simp [simpleKey, hskip, read_span hkey.ne hkey.chars hr]
  simp [dottedKey, read_separated hpart hdot, depthLimit]

lemma isSpace_of_lineEnd? (h : lineEnd? r = some t) : ∀ c ∈ r.head?, isSpace c = false :=
  accept_of_lineEnd? h rfl rfl

lemma close_line (h : lineEnd? r = some t) : Ending.line.close r = some t := by
  have hspace : r.dropWhile isSpace = r := skip_spaces_of_head (isSpace_of_lineEnd? h)
  have hcomment : dropComment r = r := by
    unfold dropComment
    split
    next => exact absurd (head?_of_lineEnd? h '#' rfl) (by decide)
    next => rfl
  change lineEnd? (dropComment (r.dropWhile isSpace)) = some t
  rw [hspace, hcomment, h]

namespace Statement

lemma readFrom_pairLine (hkey : IsBareKey key) (hv : v.ReadFrom text) :
    (Statement.pair [key] v).ReadFrom (pairLine key text) := by
  have hline : ∀ r, pairLine key text ++ r = key.toList ++ ' ' :: '=' :: ' ' :: (text ++ r) := by
    intro r
    simp [pairLine]
  refine ⟨by simp [pairLine], ?_, ?_⟩
  · intro r
    obtain ⟨c, u, he, hc⟩ := hkey.head (' ' :: '=' :: ' ' :: (text ++ r))
    rw [hline, he]
    exact skip_lines_cons (isSpace_of_isBareKeyChar hc) (ne_of_accept hc (by decide))
      (ne_of_accept hc (by decide)) (ne_of_accept hc (by decide)) u
  · intro r t hr
    have hdotted : dottedKey.read (key.toList ++ ' ' :: '=' :: ' ' :: (text ++ r)) =
        some ([key], '=' :: ' ' :: (text ++ r)) := by
      apply read_dottedKey hkey
      · rintro c ⟨⟩
        rfl
      · exact nofun
    have hspaces : Gap.spaces.skip (' ' :: (text ++ r)) = text ++ r := by
      -- without a text the end of the line comes next, which is no space either
      change Gap.spaces.skip (text ++ r) = text ++ r
      apply skip_spaces_of_head
      intro c hc
      rw [List.head?_append] at hc
      rcases Option.or_eq_some_iff.mp hc with hc | ⟨-, hc⟩
      · exact hv.head c hc
      · exact isSpace_of_lineEnd? hr c hc
    have hheader : header.read (key.toList ++ ' ' :: '=' :: ' ' :: (text ++ r)) = none := by
      obtain ⟨c, u, he, hc⟩ := hkey.head (' ' :: '=' :: ' ' :: (text ++ r))
      simp [header, he, ne_of_accept hc (by decide : isBareKeyChar '[' = false)]
    rw [hline]
    simp [Statement.line, reader, hheader, Toml.pair, hdotted, hspaces, hv.read hr, close_line hr]

lemma readFrom_elementLine (hkey : IsBareKey key) :
    (Statement.element [key]).ReadFrom (elementLine key) := by
  refine ⟨by simp [elementLine], ?_, ?_⟩
  · exact fun r => skip_lines_cons (by decide) (by decide) (by decide) (by decide) _
  · intro r t hr
    have hdotted : dottedKey.read (key.toList ++ ']' :: ']' :: r) =
        some ([key], ']' :: ']' :: r) := by
      apply read_dottedKey hkey
      · rintro c ⟨⟩
        rfl
      · exact nofun
    have hheader : header.read (elementLine key ++ r) = some (.element [key], r) := by
      simp [header, elementLine, hdotted]
    simp [Statement.line, reader, hheader, close_line hr]

lemma ofChars?_of_skip {s : List Char} (h : Gap.lines.skip s = []) : ofChars? s = some [] := by
  rw [ofChars?]
  split
  next => rfl
  next c u hu => cases h.symm.trans hu

lemma ofChars?_line {st : Statement} (h : st.ReadFrom line) (hr : lineEnd? r = some t) :
    ofChars? (line ++ r) = (ofChars? t).map (st :: ·) := by
  rw [ofChars?]
  split
  next hu => exact absurd (List.append_eq_nil_iff.mp ((h.skip r).symm.trans hu)).1 h.ne
  next c u hu =>
    have hread : Statement.line.read (c :: u) = some (st, t) := by
      rw [← hu, h.skip]
      exact h.read hr
    split
    next st' t' hst =>
      obtain ⟨rfl, rfl⟩ := Prod.mk.inj (Option.some.inj (hread.symm.trans hst))
      rfl
    next hnone => cases hread.symm.trans hnone

lemma ofChars?_lines {sts : List Statement} {lines : List (List Char)} {ending : List Char}
    (h : List.Forall₂ ReadFrom sts lines) (hending : ending = [] ∨ ending = ['\n']) :
    ofChars? (['\n'].intercalate lines ++ ending) = some sts := by
  induction h with
  | nil =>
    apply ofChars?_of_skip
    rcases hending with rfl | rfl <;> rfl
  | @cons st line sts lines hst hlines ih =>
    cases hlines with
    | nil =>
      have hend : lineEnd? ending = some [] := by rcases hending with rfl | rfl <;> rfl
      rw [List.intercalate_singleton, ofChars?_line hst hend, ofChars?_of_skip rfl]
      rfl
    | @cons st' line' sts lines hst' hlines =>
      rw [List.intercalate_cons_cons, List.append_assoc, List.append_assoc, List.singleton_append,
        ofChars?_line hst rfl, ih]
      rfl

end Statement

end AddressShuffle.Toml
