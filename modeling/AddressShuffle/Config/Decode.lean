import AddressShuffle.Config.Basic
import AddressShuffle.Toml.Document

/-! The keys that are asked for must hold values of their kind; any other key may hold anything. -/

namespace AddressShuffle

open Toml

def Toml.Table.optional? {α : Type} (kind : Value → Option α) (key : String) (t : Table) :
    Option (Option α) :=
  match t.get? key with
  | none => some none
  | some v => (kind v).map some

namespace Toml.Value

def string? : Value → Option String
  | .string s => some s
  | _ => none

def natural? : Value → Option Nat
  | .integer n => if 0 ≤ n then some n.toNat else none
  | _ => none

def boolean? : Value → Option Bool
  | .boolean b => some b
  | _ => none

def address? (v : Value) : Option Address := v.string?.bind Address.ofString?

end Toml.Value

namespace Entry

def ofTable? (t : Table) : Option Entry := do
  let first ← t.optional? Value.address? "start"
  let last ← t.optional? Value.address? "end"
  let network ← t.optional? Value.string? "cidr"
  let hostsOnly ← t.optional? Value.boolean? "hosts_only"
  return { first, last, network, hostsOnly := hostsOnly.getD false }

def ofRow? : List Value → Option Entry
  | first :: last :: network :: r => do
    let first ← first.address?
    let last ← last.address?
    let network ← network.string?
    let hostsOnly ← match r with
      | [] => some false
      | b :: _ => b.boolean?
    return ⟨some first, some last, some network, hostsOnly⟩
  | _ => none

/-- A date or a time has none of the keys asked for, and so counts as a table without them. -/
def ofValue? : Value → Option Entry
  | .table _ t => ofTable? t
  | .array r => ofRow? r
  | .moment => ofTable? []
  | _ => none

def listOfValue? : Value → Option (List Entry)
  | .array vs => vs.mapM ofValue?
  | .tables ts => ts.mapM ofTable?
  | _ => none

end Entry

namespace Config

def ofTable? (t : Table) : Option Config := do
  let limit ← t.optional? Value.natural? "limit"
  let entries ← (t.get? "ranges").bind Entry.listOfValue?
  return ⟨limit.getD 256, entries⟩

def ofString (s : String) : Except ConfigError Config :=
  match (Table.ofString? s).bind ofTable? with
  | some c => .ok c
  | none => .error .malformed

def ofFile (content : Except ReadError ByteArray) : Except ConfigError Config :=
  match content with
  | .error cause => .error (.unreadable cause)
  | .ok bytes =>
    match String.fromUTF8? bytes with
    | some s => ofString s
    | none => .error (.unreadable .notText)

end Config

end AddressShuffle
