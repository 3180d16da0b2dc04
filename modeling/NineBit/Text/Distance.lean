import NineBit.Text.Slice

/-!
# Edit distance and suggestions

`distance` counts the insertions, deletions and substitutions between two words, row by row of the
table whose entry for two beginnings is their distance. `similar` picks the candidates a misspelt
name may stand for, and `suggestion` words them.
-/

namespace NineBit.Text

/-- The rest of a table row for the character `c`, given the entry to its left, the entry above
    that one, and the rest of the row above. -/
def rowFrom (c : Char) (left diagonal : Nat) : List Nat → List Char → List Nat
  | above :: row, x :: word =>
    let entry := if c = x then diagonal else 1 + min diagonal (min above left)
    entry :: rowFrom c entry above row word
  | _, _ => []

/-- The table row for one character more, over the columns of `word`. -/
def nextRow (word : List Char) (row : List Nat) (c : Char) : List Nat :=
  match row with
  | [] => []
  | first :: rest => (first + 1) :: rowFrom c (first + 1) first rest word

/-- The last entry of the table with a row for each character of `source` and a column for each of
    `word`. -/
def lastEntry (source word : List Char) : Nat :=
  (source.foldl (nextRow word) (List.range (word.length + 1))).getLastD 0

/-- The least number of single-character edits that turn one word into the other. The longer word
    has the rows, so that a row is no longer than it has to be. -/
def distance (source target : String) : Nat :=
  if source.length < target.length then lastEntry target.toList source.toList
  else lastEntry source.toList target.toList

/-- The distance up to which a candidate counts as a misspelling of a name. -/
def tolerance (name : String) : Nat := if name.length ≤ 2 then 1 else 2

/-- The order of suggestions: closest first, then by code points. -/
def closer (x y : Nat × String) : Bool :=
  decide (x.1 < y.1) || (x.1 == y.1 && decide (x.2 ≤ y.2))

/-- The candidates other than the name itself within its tolerance, closest first. -/
def ranked (name : String) (candidates : List String) : List String :=
  let near := candidates.filterMap fun candidate =>
    if candidate = name then none
    else
      let edits := distance name candidate
      if edits ≤ tolerance name then some (edits, candidate) else none
  (near.mergeSort closer).map (·.2)

/-- The ranked candidates up to a signed bound. -/
def similarUpTo (limit : Int) (name : String) (candidates : List String) : List String :=
  sliceTo (ranked name candidates) limit

/-- The first four of the ranked candidates. -/
def similar (name : String) (candidates : List String) : List String :=
  similarUpTo 4 name candidates

/-- Names between single quotes, separated by commas. -/
def quoteAll (names : List String) : String :=
  ", ".intercalate (names.map fun name => s!"'{name}'")

/-- The hint that names the suggestions, if there are any. -/
def suggestion : List String → Option String
  | [] => none
  | names => some s!"did you mean {quoteAll names}?"

end NineBit.Text
