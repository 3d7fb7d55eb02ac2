/-! Values and tables, and the rules for what may be added to a table by its own entries. -/

namespace AddressShuffle.Toml

inductive Origin where
  | header
  | implied
  | dotted
  | closed
  deriving DecidableEq

/-- What a key may hold. Of a number with a fraction, or a date or time, only the kind is kept. -/
inductive Value where
  | string (s : String)
  | integer (n : Int)
  | float
  | boolean (b : Bool)
  | moment
  | array (items : List Value)
  | table (origin : Origin) (entries : List (String × Value))
  | tables (items : List (List (String × Value)))

abbrev Table := List (String × Value)

namespace Table

def get? (t : Table) (key : String) : Option Value := t.lookup key

def put (key : String) (v : Value) : Table → Table
  | [] => [(key, v)]
  | e :: r => if e.1 = key then (key, v) :: r else e :: put key v r

/-- Adds a value under a dotted key. The tables on the way may be new or made by dotted keys; those
passed on the way to the last table may also be implied by a header, or be the last of their kind.
The key itself has to be new. -/
def assign (v : Value) : List String → Table → Option Table
  | [], _ => none
  | [key], t => if (t.get? key).isSome then none else some (t.put key v)
  | key :: next :: path, t =>
    match t.get? key with
    | none => (assign v (next :: path) []).map fun u => t.put key (.table .dotted u)
    | some (.table origin u) =>
      if origin = .dotted ∨ (origin = .implied ∧ path ≠ []) then
        (assign v (next :: path) u).map fun u => t.put key (.table origin u)
      else none
    | some (.tables us) =>
      if path = [] then none
      else us.getLast?.bind fun u =>
        (assign v (next :: path) u).map fun u => t.put key (.tables (us.dropLast ++ [u]))
    | some _ => none

def fill (pairs : List (List String × Value)) (t : Table) : Option Table :=
  pairs.foldlM (fun t p => assign p.2 p.1 t) t

def change (final : Option Value → Option Value) : List String → Table → Option Table
  | [], _ => none
  | [key], t => (final (t.get? key)).map fun v => t.put key v
  | key :: next :: path, t =>
    match t.get? key with
    | none => (change final (next :: path) []).map fun u => t.put key (.table .implied u)
    | some (.table origin u) =>
      if origin = .closed then none
      else (change final (next :: path) u).map fun u => t.put key (.table origin u)
    | some (.tables us) =>
      us.getLast?.bind fun u =>
        (change final (next :: path) u).map fun u => t.put key (.tables (us.dropLast ++ [u]))
    | some _ => none

def headed (pairs : List (List String × Value)) : Option Value → Option Value
  | none => (fill pairs []).map (.table .header)
  | some (.table .implied t) => (fill pairs t).map (.table .header)
  | some _ => none

def extended (pairs : List (List String × Value)) : Option Value → Option Value
  | none => (fill pairs []).map fun t => .tables [t]
  | some (.tables ts) => (fill pairs []).map fun t => .tables (ts ++ [t])
  | some _ => none

end Table

end AddressShuffle.Toml
