/-!
# Sets of code points given by ranges

* `Ranges` : a table of inclusive ranges of code points;
* `Ranges.covers` : whether a code point lies in one of them.

The tables of the `Text` modules start above the ASCII block: each property decides ASCII
characters by core's own tests, and asks its table only for the others.
-/

namespace SqlDialects.Text

/-- A table of inclusive ranges of code points. -/
abbrev Ranges := List (Nat × Nat)

/-- Whether `n` lies in one of the ranges of `rs`. -/
def Ranges.covers (rs : Ranges) (n : Nat) : Bool :=
  rs.any fun r => r.1 ≤ n && n ≤ r.2

theorem Ranges.covers_iff (rs : Ranges) (n : Nat) :
    rs.covers n = true ↔ ∃ r ∈ rs, r.1 ≤ n ∧ n ≤ r.2 := by
  simp [Ranges.covers]

/-- Whether `c` is an ASCII character. -/
def isAscii (c : Char) : Bool := c.val < 0x80

end SqlDialects.Text
