import AddressShuffle.Network.Text
import AddressShuffle.Range.Basic
import AddressShuffle.Text.Blank

namespace AddressShuffle

open Text

namespace RangeError

def message : RangeError → String
  | .wrongOrder first last => s!"wrong order: {first} is higher than {last}"
  | .mixedFamilies first last => s!"mixed IPv4 and IPv6 addresses: {first} - {last}"
  | .invalidAddress => "invalid address: " ++ Address.invalidText
  | .invalidNetwork s => "invalid network: " ++ Network.invalidText s

def cause? : RangeError → Option String
  | .invalidAddress => some Address.invalidText
  | .invalidNetwork s => some (Network.invalidText s)
  | _ => none

end RangeError

namespace AddressRange

def boundOfChars (s : List Char) : Except RangeError Address :=
  match Address.ofChars? (trim s) with
  | some a => .ok a
  | none => .error .invalidAddress

def networkOfChars (s : List Char) : Except RangeError Network :=
  match Network.ofChars? s with
  | some n => .ok n
  | none => .error (.invalidNetwork (String.ofList s))

def ofChars (s : List Char) : Except RangeError AddressRange :=
  match s.dropWhile (· ≠ '-') with
  | _ :: right => do
    let first ← boundOfChars (s.takeWhile (· ≠ '-'))
    let last ← boundOfChars right
    ofBounds first last
  | [] => (networkOfChars (trim s)).map ofNetwork

def ofString (s : String) : Except RangeError AddressRange :=
  ofChars s.toList

def chars (r : AddressRange) : List Char :=
  r.first.chars ++ '-' :: r.last.chars

instance : ToString AddressRange where
  toString r := String.ofList r.chars

end AddressRange

end AddressShuffle
