import AddressShuffle.Text.Numeral

namespace AddressShuffle.Toml.Number

open Text

def digits? (base : Nat) (s : List Char) : Option (List Char) :=
  let runs := s.splitOn '_'
  if runs.all fun r => !r.isEmpty && r.all fun c => (Numeral.digit? base c).isSome then
    some runs.flatten
  else none

def natural? (base : Nat) (s : List Char) : Option Nat :=
  (digits? base s).bind (Numeral.value? base)

def wholeDigits? (s : List Char) : Option (List Char) :=
  (digits? 10 s).filter fun ds => ds.length = 1 || ds.head? != some '0'

def unsigned : List Char → Bool × List Char
  | '-' :: r => (true, r)
  | '+' :: r => (false, r)
  | r => (false, r)

def decimal? (s : List Char) : Option Int :=
  let (negative, r) := unsigned s
  ((wholeDigits? r).bind (Numeral.value? 10)).map fun n => if negative then -(n : Int) else n

def integer? (s : List Char) : Option Int :=
  let n : Option Int := match s with
    | '0' :: 'x' :: r => (natural? 16 r).map Int.ofNat
    | '0' :: 'o' :: r => (natural? 8 r).map Int.ofNat
    | '0' :: 'b' :: r => (natural? 2 r).map Int.ofNat
    | r => decimal? r
  n.filter fun n => decide (Int64.minValue.toInt ≤ n ∧ n ≤ Int64.maxValue.toInt)

/-- Whether `n` times that power of ten is nearer to a double than to the first power of two beyond
them. -/
def isFinite (n : Nat) (exponent : Int) : Bool :=
  let magnitude := exponent + (Nat.toDigits 10 n).length
  if n = 0 ∨ magnitude ≤ 300 then true
  else if 320 ≤ magnitude then false
  else
    decide (n * Nat.pow 10 exponent.toNat <
      (1 <<< 1024 - 1 <<< 970) * Nat.pow 10 (-exponent).toNat)

def significand? (s : List Char) : Option (List Char × List Char) :=
  match s.splitOn '.' with
  | [whole] => (wholeDigits? whole).map fun w => (w, [])
  | [whole, fraction] =>
    (wholeDigits? whole).bind fun w => (digits? 10 fraction).map fun f => (w, f)
  | _ => none

def exponent? : List Char → Option Int
  | [] => some 0
  | _ :: s =>
    let (negative, r) := unsigned s
    (natural? 10 r).map fun n => if negative then -(n : Int) else n

def isExponentMark (c : Char) : Bool := c = 'e' || c = 'E'

def isFloat (s : List Char) : Bool :=
  let (negative, r) := unsigned s
  let power := r.dropWhile fun c => !isExponentMark c
  if r = "inf".toList ∨ r = "nan".toList then true
  else
    match significand? (r.takeWhile fun c => !isExponentMark c), exponent? power with
    | some (whole, fraction), some e =>
      (!fraction.isEmpty || !power.isEmpty) &&
        (negative ||
          isFinite (((Numeral.value? 10 (whole ++ fraction)).getD 0)) (e - fraction.length))
    | _, _ => false

end AddressShuffle.Toml.Number
