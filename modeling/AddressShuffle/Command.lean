import AddressShuffle.Config.Decode
import AddressShuffle.Shuffle.Addresses

/-! One group of addresses for each range of a configuration, or else a complaint and no output. -/

namespace AddressShuffle

universe u

namespace Command

variable {γ : Type u} [Picker γ]

def defaultFile : String := "rangeperm.toml"

def groups (picker : Nat → γ) (limit : Nat) (ranges : List AddressRange) : List (List Address) :=
  ranges.zipIdx.map fun r => ((Shuffle.ofRange r.1 (picker r.2)).take limit).1

structure Outcome where
  lines : List String
  complaint : Option String

def indented (s : List Char) : List Char :=
  s.flatMap fun c => if c = '\n' then "\n    ".toList else [c]

def errorRecord (e : ConfigError) : String :=
  "ERROR rangeperm] " ++ String.ofList (indented e.message.toList)

def run (picker : Nat → γ) (config : Except ConfigError Config) : Outcome :=
  let printed : Except ConfigError (List Address) := do
    let c ← config
    let ranges ← c.ranges
    return (groups picker c.limit ranges).flatten
  match printed with
  | .ok addresses => ⟨addresses.map toString, none⟩
  | .error e => ⟨[], some (errorRecord e)⟩

def Outcome.exitCode (o : Outcome) : Nat := if o.complaint.isSome then 1 else 0

end Command

end AddressShuffle
