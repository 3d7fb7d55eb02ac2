import AddressShuffle.Toml.Reader

namespace AddressShuffle.Toml

def isSpace (c : Char) : Bool := c = ' ' || c = '\t'

def isCommentChar (c : Char) : Bool :=
  c = '\t' || (decide (0x20 ≤ c.toNat) && c.toNat != 0x7F)

theorem length_dropWhile_le {α : Type} (p : α → Bool) (s : List α) :
    (s.dropWhile p).length ≤ s.length :=
  (List.dropWhile_sublist p).length_le

def newline? : List Char → Option (List Char)
  | '\n' :: r => some r
  | '\r' :: '\n' :: r => some r
  | _ => none

theorem length_newline?_lt {s r : List Char} (h : newline? s = some r) :
    r.length < s.length := by
  unfold newline? at h
  split at h <;> cases h <;> simp only [List.length_cons] <;> omega

namespace Gap

def spaces : Gap where
  skip := List.dropWhile isSpace
  length_skip_le := length_dropWhile_le isSpace

def skipLines : (inComment : Bool) → List Char → List Char
  | _, [] => []
  | _, '\n' :: r => skipLines false r
  | _, '\r' :: '\n' :: r => skipLines false r
  | true, c :: r => if isCommentChar c then skipLines true r else c :: r
  | false, c :: r =>
    if isSpace c then skipLines false r else if c = '#' then skipLines true r else c :: r

theorem length_skipLines_le (inComment : Bool) (s : List Char) :
    (skipLines inComment s).length ≤ s.length := by
  fun_induction skipLines inComment s <;> grind

def lines : Gap where
  skip := skipLines false
  length_skip_le := length_skipLines_le false

def skipWhite : List Char → List Char
  | [] => []
  | '\n' :: r => skipWhite r
  | '\r' :: '\n' :: r => skipWhite r
  | c :: r => if isSpace c then skipWhite r else c :: r

theorem length_skipWhite_le (s : List Char) : (skipWhite s).length ≤ s.length := by
  fun_induction skipWhite s <;> grind

end Gap

def dropComment : List Char → List Char
  | '#' :: r => r.dropWhile isCommentChar
  | s => s

theorem length_dropComment_le (s : List Char) : (dropComment s).length ≤ s.length := by
  unfold dropComment
  split
  · exact Nat.le_succ_of_le (length_dropWhile_le _ _)
  · exact Nat.le_refl _

def lineEnd? (s : List Char) : Option (List Char) :=
  if s.isEmpty then some [] else newline? s

def Ending.line : Ending where
  close s := lineEnd? (dropComment (s.dropWhile isSpace))
  length_le {s r} h := by
    have h₁ := length_dropWhile_le isSpace s
    have h₂ := length_dropComment_le (s.dropWhile isSpace)
    unfold lineEnd? at h
    split at h
    · cases h
      exact Nat.zero_le _
    · have := length_newline?_lt h
      omega

end AddressShuffle.Toml
