import AddressShuffle.Text.Numeral
import AddressShuffle.Toml.Layout

namespace AddressShuffle.Toml.Quoted

open Text

def isPlain (c : Char) : Bool := isCommentChar c

def ofCode? (digits : List Char) : Option Char :=
  (Numeral.value? 16 digits).bind fun n => if n.isValidChar then some (Char.ofNat n) else none

def escape? : List Char → Option (Char × List Char)
  | 'b' :: r => some ('\x08', r)
  | 't' :: r => some ('\t', r)
  | 'n' :: r => some ('\n', r)
  | 'f' :: r => some ('\x0c', r)
  | 'r' :: r => some ('\r', r)
  | '"' :: r => some ('"', r)
  | '\\' :: r => some ('\\', r)
  | 'u' :: r => if r.length < 4 then none else (ofCode? (r.take 4)).map fun c => (c, r.drop 4)
  | 'U' :: r => if r.length < 8 then none else (ofCode? (r.take 8)).map fun c => (c, r.drop 8)
  | _ => none

theorem length_escape?_lt {s r : List Char} {c : Char} (h : escape? s = some (c, r)) :
    r.length < s.length := by
  unfold escape? at h
  split at h <;> first
    | (cases h; exact Nat.lt_succ_self _)
    | (obtain ⟨_, h⟩ := Option.ite_none_left_eq_some.mp h
       obtain ⟨_, _, he⟩ := Option.map_eq_some_iff.mp h
       cases he
       simp only [List.length_drop, List.length_cons]
       omega)
    | simp at h

def cons (c : Char) (x : List Char × List Char) : List Char × List Char := (c :: x.1, x.2)

def readBasic (s : List Char) : Option (List Char × List Char) :=
  match s with
  | [] => none
  | '"' :: r => some ([], r)
  | '\\' :: r =>
    match h : escape? r with
    | some (c, t) =>
      have := length_escape?_lt h
      (readBasic t).map (cons c)
    | none => none
  | c :: r => if isPlain c then (readBasic r).map (cons c) else none
termination_by s.length
decreasing_by all_goals simp only [List.length_cons]; omega

def readLiteral : List Char → Option (List Char × List Char)
  | [] => none
  | '\'' :: r => some ([], r)
  | c :: r => if isPlain c then (readLiteral r).map (cons c) else none

/-- Where a string of several lines ends: three quotes, before which two more may belong to the
string. -/
def closing? (quote : Char) (s : List Char) : Option (List Char × List Char) :=
  let run := (s.takeWhile (· = quote)).length
  if run < 3 then none
  else some (List.replicate (min (run - 3) 2) quote, s.drop (min run 5))

theorem length_closing?_lt {quote : Char} {s : List Char} {x : List Char × List Char}
    (h : closing? quote s = some x) : x.2.length < s.length := by
  obtain ⟨hrun, he⟩ := Option.ite_none_left_eq_some.mp h
  cases he
  have := (List.takeWhile_sublist (fun c => decide (c = quote)) (l := s)).length_le
  simp only [List.length_drop]
  omega

def continuation? (s : List Char) : Option (List Char) :=
  (newline? (s.dropWhile isSpace)).map Gap.skipWhite

theorem length_continuation?_lt {s r : List Char} (h : continuation? s = some r) :
    r.length < s.length := by
  obtain ⟨t, ht, he⟩ := Option.map_eq_some_iff.mp h
  cases he
  have := length_newline?_lt ht
  have := Gap.length_skipWhite_le t
  have := length_dropWhile_le isSpace s
  omega

def readBasicLines (s : List Char) : Option (List Char × List Char) :=
  match closing? '"' s with
  | some x => some x
  | none =>
    match s with
    | [] => none
    | '\\' :: r =>
      match hc : continuation? r with
      | some t =>
        have := length_continuation?_lt hc
        readBasicLines t
      | none =>
        match he : escape? r with
        | some (c, t) =>
          have := length_escape?_lt he
          (readBasicLines t).map (cons c)
        | none => none
    | '\n' :: r => (readBasicLines r).map (cons '\n')
    | '\r' :: '\n' :: r => (readBasicLines r).map (cons '\n')
    | c :: r => if isPlain c then (readBasicLines r).map (cons c) else none
termination_by s.length
decreasing_by all_goals simp only [List.length_cons]; omega

def readLiteralLines (s : List Char) : Option (List Char × List Char) :=
  match closing? '\'' s with
  | some x => some x
  | none =>
    match s with
    | [] => none
    | '\n' :: r => (readLiteralLines r).map (cons '\n')
    | '\r' :: '\n' :: r => (readLiteralLines r).map (cons '\n')
    | c :: r => if isPlain c then (readLiteralLines r).map (cons c) else none

def dropNewline (s : List Char) : List Char := (newline? s).getD s

def readLine : List Char → Option (List Char × List Char)
  | '"' :: r => readBasic r
  | '\'' :: r => readLiteral r
  | _ => none

def read : List Char → Option (List Char × List Char)
  | '"' :: '"' :: '"' :: r => readBasicLines (dropNewline r)
  | '\'' :: '\'' :: '\'' :: r => readLiteralLines (dropNewline r)
  | s => readLine s

theorem of_map_cons {x : Option (List Char × List Char)} {c : Char} {t r : List Char}
    (h : x.map (cons c) = some (t, r)) : ∃ u, x = some (u, r) := by
  obtain ⟨y, rfl, he⟩ := Option.map_eq_some_iff.mp h
  cases he
  exact ⟨y.1, rfl⟩

theorem length_readBasic_lt {s r t : List Char} (h : readBasic s = some (t, r)) :
    r.length < s.length := by
  fun_induction readBasic s generalizing t <;> grind [of_map_cons]

theorem length_readLiteral_lt {s r t : List Char} (h : readLiteral s = some (t, r)) :
    r.length < s.length := by
  fun_induction readLiteral s generalizing t <;> grind [of_map_cons]

theorem length_readBasicLines_lt {s r t : List Char} (h : readBasicLines s = some (t, r)) :
    r.length < s.length := by
  fun_induction readBasicLines s generalizing t <;> grind [of_map_cons, → length_closing?_lt]

theorem length_readLiteralLines_lt {s r t : List Char} (h : readLiteralLines s = some (t, r)) :
    r.length < s.length := by
  fun_induction readLiteralLines s generalizing t <;> grind [of_map_cons, → length_closing?_lt]

theorem length_dropNewline_le (s : List Char) : (dropNewline s).length ≤ s.length := by
  unfold dropNewline
  cases h : newline? s with
  | none => exact Nat.le_refl _
  | some r => exact Nat.le_of_lt (length_newline?_lt h)

theorem length_readLine_lt {s r t : List Char} (h : readLine s = some (t, r)) :
    r.length < s.length := by
  unfold readLine at h
  split at h
  · exact Nat.lt_succ_of_lt (length_readBasic_lt h)
  · exact Nat.lt_succ_of_lt (length_readLiteral_lt h)
  · cases h

theorem length_read_lt {s r t : List Char} (h : read s = some (t, r)) : r.length < s.length := by
  unfold read at h
  split at h
  · rename_i u
    have := length_readBasicLines_lt h
    have := length_dropNewline_le u
    simp only [List.length_cons]
    omega
  · rename_i u
    have := length_readLiteralLines_lt h
    have := length_dropNewline_le u
    simp only [List.length_cons]
    omega
  · exact length_readLine_lt h

def line : Reader (List Char) where
  read := readLine
  length_lt := length_readLine_lt

def string : Reader (List Char) where
  read := read
  length_lt := length_read_lt

end AddressShuffle.Toml.Quoted
