/-!
# Edit distance

* `editDistance` : the least number of insertions, deletions and replacements of one character
  that turn one text into another.

The distance is computed row by row: the row of a text `a` holds, for each beginning of `b`, its
distance to `a`.
-/

namespace SqlDialects.Text

/-- The rest of the next row: `up` is the entry above the one to the left, `left` the entry to the
left, `row` the entries above. -/
def distanceRow (c : Char) (up left : Nat) : List Char → List Nat → List Nat
  | d :: ds, above :: row =>
    let here := min (min (left + 1) (above + 1)) (if c = d then up else up + 1)
    here :: distanceRow c above here ds row
  | _, _ => []

/-- The row of `cs` after the row `row` of what stands before it. -/
def distanceFrom (b : List Char) : List Char → List Nat → List Nat
  | [], row => row
  | c :: cs, row =>
    match row with
    | [] => []
    | up :: above => distanceFrom b cs ((up + 1) :: distanceRow c up (up + 1) b above)

/-- The edit distance of two texts, counted in characters. -/
def editDistance (a b : String) : Nat :=
  let row := List.range (b.toList.length + 1)
  (distanceFrom b.toList a.toList row).getLastD 0

end SqlDialects.Text
