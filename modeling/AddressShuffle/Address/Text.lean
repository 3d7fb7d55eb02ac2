import AddressShuffle.Address.Basic
import AddressShuffle.Address.Groups
import AddressShuffle.Text.Numeral

/-! The text of IPv4 and IPv6 addresses. What is written is the recommended form of RFC 5952. -/

namespace AddressShuffle

open Text

namespace Address

def invalidText : String := "invalid IP address syntax"

def octet? (s : List Char) : Option (Fin 256) :=
  if 3 < s.length ∨ (1 < s.length ∧ s.head? = some '0') then none
  else (Numeral.value? 10 s).bind fun n => if h : n < 256 then some ⟨n, h⟩ else none

def octets? (s : List Char) : Option { gs : List (Fin 256) // gs.length = 4 } :=
  ((s.splitOn '.').mapM octet?).bind fun gs => if h : gs.length = 4 then some ⟨gs, h⟩ else none

def hextet? (s : List Char) : Option (Fin 65536) :=
  if 4 < s.length then none
  else (Numeral.value? 16 s).bind fun n => if h : n < 65536 then some ⟨n, h⟩ else none

def octets (count n : Nat) : List (Fin 256) := Groups.ofNat (by decide) count n

def hextets (count n : Nat) : List (Fin 65536) := Groups.ofNat (by decide) count n

def hextetsOfOctets (gs : List (Fin 256)) : List (Fin 65536) :=
  hextets 2 (Groups.value gs)

def hextets? : List (List Char) → Option (List (Fin 65536))
  | [] => some []
  | [s] =>
    match octets? s with
    | some gs => some (hextetsOfOctets gs.1)
    | none => (hextet? s).map ([·])
  | s :: t :: r => (hextet? s).bind fun g => (hextets? (t :: r)).map (g :: ·)

def cutColons : List Char → Option (List Char × List Char)
  | ':' :: ':' :: r => some ([], r)
  | c :: r => (cutColons r).map fun p => (c :: p.1, p.2)
  | [] => none

def side? (groups? : List (List Char) → Option (List (Fin 65536))) (s : List Char) :
    Option (List (Fin 65536)) :=
  if s.isEmpty then some [] else groups? (s.splitOn ':')

def v4OfChars? (s : List Char) : Option Address :=
  (octets? s).map fun gs =>
    ⟨.v4, Groups.value gs.1, by simpa [gs.2, Family.size, Family.width] using Groups.value_lt gs.1⟩

def ofHextets (gs : List (Fin 65536)) (h : gs.length = 8) : Address :=
  ⟨.v6, Groups.value gs, by simpa [h, Family.size, Family.width] using Groups.value_lt gs⟩

def v6OfChars? (s : List Char) : Option Address :=
  match cutColons s with
  | some (left, right) =>
    (side? (·.mapM hextet?) left).bind fun head =>
      (side? hextets? right).bind fun tail =>
        if h : head.length + tail.length ≤ 7 then
          some (ofHextets (head ++ List.replicate (8 - (head.length + tail.length)) 0 ++ tail)
            (by simp; omega))
        else none
  | none => (hextets? (s.splitOn ':')).bind fun gs =>
      if h : gs.length = 8 then some (ofHextets gs h) else none

def ofChars? (s : List Char) : Option Address :=
  v4OfChars? s <|> v6OfChars? s

def ofString? (s : String) : Option Address :=
  ofChars? s.toList

def dotted (bits : Nat) : List Char :=
  ['.'].intercalate ((octets 4 bits).map fun g => Nat.toDigits 10 g.val)

def coloned (gs : List (Fin 65536)) : List Char :=
  [':'].intercalate (gs.map fun g => Nat.toDigits 16 g.val)

def zeroRun (gs : List (Fin 65536)) : Nat :=
  (gs.takeWhile (· = 0)).length

def longestZeroRun (gs : List (Fin 65536)) : Nat × Nat :=
  (List.range gs.length).foldl (fun best i =>
    if best.2 < zeroRun (gs.drop i) then (i, zeroRun (gs.drop i)) else best) (0, 0)

def compressed (gs : List (Fin 65536)) : List Char :=
  let (start, count) := longestZeroRun gs
  if 2 ≤ count then coloned (gs.take start) ++ "::".toList ++ coloned (gs.drop (start + count))
  else coloned gs

/-- An IPv6 address whose first 96 bits are `0:0:0:0:0:ffff` keeps the dotted form of the rest. -/
def chars (a : Address) : List Char :=
  match a.family with
  | .v4 => dotted a.bits
  | .v6 =>
    if a.bits / Family.v4.size = 0xffff then "::ffff:".toList ++ dotted a.bits
    else compressed (hextets 8 a.bits)

instance : ToString Address where
  toString a := String.ofList a.chars

@[simp] theorem toList_toString (a : Address) : (toString a).toList = a.chars :=
  String.toList_ofList

end Address

end AddressShuffle
