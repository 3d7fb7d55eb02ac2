import AddressShuffle.Text.Numeral

namespace AddressShuffle.Toml.Moment

open Text

def number? (length : Nat) (s : List Char) : Option Nat :=
  if s.length = length then Numeral.value? 10 s else none

def isLeapYear (year : Nat) : Bool :=
  year % 4 = 0 && (year % 100 != 0 || year % 400 = 0)

def daysIn (year month : Nat) : Nat :=
  if month = 2 then if isLeapYear year then 29 else 28
  else if month ∈ [4, 6, 9, 11] then 30
  else 31

def isDate (s : List Char) : Bool :=
  match s.splitOn '-' with
  | [year, month, day] =>
    match number? 4 year, number? 2 month, number? 2 day with
    | some y, some m, some d => decide (1 ≤ m ∧ m ≤ 12 ∧ 1 ≤ d ∧ d ≤ daysIn y m)
    | _, _, _ => false
  | _ => false

def isHourMinute (hour minute : List Char) : Bool :=
  (number? 2 hour).any (· < 24) && (number? 2 minute).any (· < 60)

def isSecond (s : List Char) : Bool :=
  match s.splitOn '.' with
  | [second] => (number? 2 second).any (· ≤ 60)
  | [second, fraction] =>
    (number? 2 second).any (· ≤ 60) && (Numeral.value? 10 fraction).isSome
  | _ => false

def isTime (s : List Char) : Bool :=
  match s.splitOn ':' with
  | [hour, minute, second] => isHourMinute hour minute && isSecond second
  | _ => false

def isOffset : List Char → Bool
  | ['Z'] => true
  | ['z'] => true
  | '+' :: r => isClock r
  | '-' :: r => isClock r
  | _ => false
where
  isClock (s : List Char) : Bool :=
    match s.splitOn ':' with
    | [hour, minute] => isHourMinute hour minute
    | _ => false

def isDayTime (s : List Char) : Bool :=
  let inTime := fun c => !(['Z', 'z', '+', '-'].contains c)
  isTime (s.takeWhile inTime) &&
    ((s.dropWhile inTime).isEmpty || isOffset (s.dropWhile inTime))

def isMoment (s : List Char) : Bool :=
  isDate s || isTime s ||
    match s.drop 10 with
    | 'T' :: r => isDate (s.take 10) && isDayTime r
    | 't' :: r => isDate (s.take 10) && isDayTime r
    | _ => false

end AddressShuffle.Toml.Moment
