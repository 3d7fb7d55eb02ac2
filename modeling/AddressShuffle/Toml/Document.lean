import AddressShuffle.Toml.Entry

/-! Documents are read in two steps, first the lines and then the tables they add up to. -/

namespace AddressShuffle.Toml

open Reader

inductive Statement where
  | pair (path : List String) (v : Value)
  | table (path : List String)
  | element (path : List String)

namespace Statement

def header : Reader Statement :=
  (((char '[').right (char '[')).right
    (dottedKey.left ((char ']').right (char ']')))).map .element <|>
  ((char '[').right (dottedKey.left (char ']'))).map .table

def reader : Reader Statement :=
  header <|> (Toml.pair (value depthLimit)).map fun p => .pair p.1 p.2

def line : Reader Statement :=
  reader.upTo .line

def ofChars? (s : List Char) : Option (List Statement) :=
  match h : Gap.lines.skip s with
  | [] => some []
  | c :: r =>
    match hl : line.read (c :: r) with
    | some (st, t) =>
      have := line.length_lt hl
      have := h ▸ Gap.lines.length_skip_le s
      (ofChars? t).map (st :: ·)
    | none => none
termination_by s.length

end Statement

structure Section where
  repeated : Bool
  path : List String
  pairs : List (List String × Value)

def sections : List Statement → List (List String × Value) × List Section
  | [] => ([], [])
  | .pair path v :: r => ((path, v) :: (sections r).1, (sections r).2)
  | .table path :: r => ([], ⟨false, path, (sections r).1⟩ :: (sections r).2)
  | .element path :: r => ([], ⟨true, path, (sections r).1⟩ :: (sections r).2)

def Section.addTo (t : Table) (s : Section) : Option Table :=
  t.change (if s.repeated then Table.extended s.pairs else Table.headed s.pairs) s.path

namespace Table

def ofStatements? (statements : List Statement) : Option Table :=
  (fill (sections statements).1 []).bind fun t =>
    (sections statements).2.foldlM Section.addTo t

def ofChars? (s : List Char) : Option Table :=
  let text := match s with
    | '\ufeff' :: r => r
    | r => r
  (Statement.ofChars? text).bind ofStatements?

def ofString? (s : String) : Option Table :=
  ofChars? s.toList

end Table

end AddressShuffle.Toml
