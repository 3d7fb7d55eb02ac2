import AddressShuffle.Address.Text
import AddressShuffle.Network.Basic

/-! An address, then perhaps a slash and the number of shared bits or, for IPv4, their mask. -/

namespace AddressShuffle

open Text

namespace Network

def lengthOfChars? (s : List Char) : Option Nat :=
  let digits := match s with
    | '+' :: r => r
    | r => r
  (Numeral.value? 10 digits).filter (· < 256)

def maskLength? (mask : Nat) : Option Nat :=
  (List.range 33).find? fun n => mask = Family.v4.size - 1 <<< (32 - n)

def ofLength? (a : Address) (n : Nat) : Option Network :=
  if h : n ≤ a.family.width then some ⟨a, n, h⟩ else none

def v4LengthOfChars? (s : List Char) : Option Nat :=
  match Address.v4OfChars? s with
  | some mask => maskLength? mask.bits
  | none => lengthOfChars? s

def ofFields? (address? : List Char → Option Address) (length? : List Char → Option Nat) :
    List (List Char) → Option Network
  | [a] => (address? a).bind fun a => ofLength? a a.family.width
  | [a, n] => (address? a).bind fun a => (length? n).bind (ofLength? a)
  | _ => none

def ofChars? (s : List Char) : Option Network :=
  ofFields? Address.v4OfChars? v4LengthOfChars? (s.splitOn '/') <|>
    ofFields? Address.v6OfChars? lengthOfChars? (s.splitOn '/')

def ofString? (s : String) : Option Network :=
  ofChars? s.toList

def invalidText (s : String) : String := "invalid address: " ++ s

def chars (n : Network) : List Char :=
  n.address.chars ++ '/' :: Nat.toDigits 10 n.length

instance : ToString Network where
  toString n := String.ofList n.chars

end Network

end AddressShuffle
