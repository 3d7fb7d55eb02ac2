import AddressShuffle.Range.Text

namespace AddressShuffle

structure Entry where
  first : Option Address := none
  last : Option Address := none
  network : Option String := none
  hostsOnly : Bool := false
  deriving DecidableEq

structure Config where
  limit : Nat := 256
  entries : List Entry
  deriving DecidableEq

inductive EntryError where
  | incomplete
  | invalid (cause : RangeError)
  deriving DecidableEq

inductive ReadError where
  | system (description : String) (code : Nat)
  | notText
  | other (description : String)
  deriving DecidableEq

inductive ConfigError where
  | unreadable (cause : ReadError)
  | malformed
  | entry (index : Nat) (cause : EntryError)
  deriving DecidableEq

namespace EntryError

def message : EntryError → String
  | .incomplete => "expected either start and end, or cidr"
  | .invalid cause => cause.message

end EntryError

namespace ReadError

def missing : ReadError := .system "No such file or directory" 2

def message : ReadError → String
  | .system description code => s!"{description} (os error {code})"
  | .notText => "stream did not contain valid UTF-8"
  | .other description => description

end ReadError

namespace ConfigError

def message : ConfigError → String
  | .unreadable cause => "cannot read config: " ++ cause.message
  | .malformed => "cannot decode config:"
  | .entry index cause => s!"range #{index}: {cause.message}"

end ConfigError

namespace Entry

def networkRange (hostsOnly : Bool) (text : String) : Except RangeError AddressRange :=
  (AddressRange.networkOfChars text.toList).map
    (if hostsOnly then AddressRange.usableHosts else AddressRange.ofNetwork)

def range (e : Entry) : Except EntryError AddressRange :=
  match e.first, e.last, e.network with
  | some first, some last, none => (AddressRange.ofBounds first last).mapError .invalid
  | none, none, some text => (networkRange e.hostsOnly text).mapError .invalid
  | _, _, _ => .error .incomplete

end Entry

namespace Config

def rangesFrom (index : Nat) : List Entry → Except ConfigError (List AddressRange)
  | [] => .ok []
  | e :: r =>
    match e.range with
    | .error cause => .error (.entry index cause)
    | .ok range => (rangesFrom (index + 1) r).map (range :: ·)

def ranges (c : Config) : Except ConfigError (List AddressRange) :=
  rangesFrom 0 c.entries

end Config

end AddressShuffle
