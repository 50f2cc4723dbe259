import SqlDialects.Text.Ascii

/-!
# Lexical rules

* `LexicalRules` : what a dialect fixes about its tokens;
* `LexicalRules.addOperator` : a table of operators with one symbol more, longest first.
-/

namespace SqlDialects

/-- How an engine folds bare names. The names themselves are kept as written. -/
inductive CaseFolding where
  | upper
  | lower
  | none
deriving DecidableEq, Repr

/-- What a dialect fixes about its tokens. -/
structure LexicalRules where
  /-- The reserved words, in upper case. -/
  reserved : List String
  /-- Opening and closing characters of quoted names, the preferred pair first. -/
  nameQuotes : List (Char × Char)
  stringQuotes : List Char
  backslashEscapes : Bool := false
  hashComments : Bool := false
  nestedComments : Bool := false
  dollarStrings : Bool := false
  nationalStrings : Bool := false
  /-- Characters that introduce a bind parameter. -/
  paramMarks : List Char
  /-- Characters besides letters and the underscore that may start a word. -/
  wordStarts : List Char := []
  /-- The operator symbols, longest first. -/
  operators : List String := []
  folding : CaseFolding := .upper
deriving DecidableEq, Repr

namespace LexicalRules

/-- Whether `word` is reserved, in any case. -/
def isReserved (r : LexicalRules) (word : String) : Bool := r.reserved.contains (Text.upper word)

/-- Whether the operator `a` stands before `b` in a table: the longer first, and in alphabetical
order among those of one length. -/
def operatorBefore (a b : String) : Bool :=
  b.utf8ByteSize < a.utf8ByteSize || (a.utf8ByteSize == b.utf8ByteSize && a ≤ b)

/-- The table `ops` with `symbol` in its place. -/
def placeOperator (symbol : String) : List String → List String
  | [] => [symbol]
  | op :: ops =>
    if operatorBefore symbol op then symbol :: op :: ops else op :: placeOperator symbol ops

/-- The rules with `symbol` among the operators. -/
def addOperator (r : LexicalRules) (symbol : String) : LexicalRules :=
  if r.operators.contains symbol then r
  else { r with operators := placeOperator symbol r.operators }

/-- The rules with `word` reserved. -/
def reserve (r : LexicalRules) (word : String) : LexicalRules :=
  { r with reserved := r.reserved.insert word }

/-- The rules with `word` free again. -/
def release (r : LexicalRules) (word : String) : LexicalRules :=
  { r with reserved := r.reserved.filter (· != word) }

end LexicalRules

end SqlDialects
