import AddressShuffle.Toml.Moment
import AddressShuffle.Toml.Number
import AddressShuffle.Toml.Quoted
import AddressShuffle.Toml.Value

namespace AddressShuffle.Toml

open Reader

def isBareKeyChar (c : Char) : Bool := c.isAlphanum || c = '_' || c = '-'

def isWordChar (c : Char) : Bool := isBareKeyChar c || c = '+' || c = '.' || c = ':'

/-- How deep values may stand in one another, and how many parts a key has at most. -/
def depthLimit : Nat := 79

def simpleKey : Reader String :=
  (span isBareKeyChar <|> Quoted.line).map String.ofList

def dottedKey : Reader (List String) :=
  (separated '.' ((simpleKey.after .spaces).before .spaces)).filterMap fun path =>
    if path.length ≤ depthLimit then some path else none

def Value.ofWord? (s : List Char) : Option Value :=
  if s = "true".toList then some (.boolean true)
  else if s = "false".toList then some (.boolean false)
  else if Moment.isMoment s then some .moment
  else if Number.isFloat s then some .float
  else (Number.integer? s).map .integer

def ofCheck (check : List Char → Bool) (s : List Char) : Option Unit :=
  if check s then some () else none

def spacedMoment : Reader Value :=
  (((span isWordChar).filterMap (ofCheck Moment.isDate)).right
    ((char ' ').right ((span isWordChar).filterMap (ofCheck Moment.isDayTime)))).map
    fun _ => .moment

def scalar : Reader Value :=
  Quoted.string.map (fun s => .string (String.ofList s)) <|> spacedMoment <|>
    (span isWordChar).filterMap Value.ofWord?

def pair (value : Reader Value) : Reader (List String × Value) :=
  dottedKey.bind fun path => ((char '=').right (value.after .spaces)).map fun v => (path, v)

def array (value : Reader Value) : Reader Value :=
  ((char '[').right
    (((char ']').after .lines).map (fun _ => []) <|>
      (separated ',' ((value.after .lines).before .lines)).left
        (char ']' <|> (char ',').right ((char ']').after .lines)))).map .array

def inlineTable (value : Reader Value) : Reader Value :=
  ((char '\x7b').right
    (((char '\x7d').after .spaces).map (fun _ => []) <|>
      (separated ',' ((pair value).before .spaces)).left (char '\x7d'))).filterMap
    fun pairs => (Table.fill pairs []).map (.table .closed)

def value : Nat → Reader Value
  | 0 => scalar
  | depth + 1 => scalar <|> array (value depth) <|> inlineTable (value depth)

end AddressShuffle.Toml
