/-!
# Positions in a text

* `Position` : line and column from one, columns in characters; the offset in bytes from zero;
* `Position.next`, `Position.after` : the position behind a character and behind a run of them.
-/

namespace SqlDialects

/-- A place in a text. Lines and columns start at one and columns count characters; the offset
counts the bytes before it. -/
structure Position where
  line : Nat := 1
  column : Nat := 1
  offset : Nat := 0
deriving DecidableEq, Repr, Inhabited

namespace Position

/-- The beginning of a text. -/
def start : Position := {}

/-- The position behind the character `c` at `p`. -/
def next (p : Position) (c : Char) : Position :=
  if c = '\n' then ⟨p.line + 1, 1, p.offset + c.utf8Size⟩
  else ⟨p.line, p.column + 1, p.offset + c.utf8Size⟩

/-- The position behind the characters `cs` at `p`. -/
def after (p : Position) (cs : List Char) : Position := cs.foldl next p

@[simp] theorem after_nil (p : Position) : p.after [] = p := rfl

@[simp] theorem after_cons (p : Position) (c : Char) (cs : List Char) :
    p.after (c :: cs) = (p.next c).after cs := rfl

theorem after_append (p : Position) (cs ds : List Char) :
    p.after (cs ++ ds) = (p.after cs).after ds := by
  simp [after]

/-- How a position is named in messages. -/
def describe (p : Position) : String := s!"line {p.line}, column {p.column}"

end Position

end SqlDialects
