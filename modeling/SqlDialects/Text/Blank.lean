import SqlDialects.Text.Ranges

/-!
# White space

* `isBlank` : the property White_Space;
* `trimLeft`, `trim` : a text without the blanks at its ends;
* `words` : the blank-separated words of a text.
-/

namespace SqlDialects.Text

/-- The code points with the property White_Space. -/
def blankRanges : Ranges :=
  [(0x9, 0xD), (0x20, 0x20), (0x85, 0x85), (0xA0, 0xA0), (0x1680, 0x1680), (0x2000, 0x200A),
    (0x2028, 0x2029), (0x202F, 0x202F), (0x205F, 0x205F), (0x3000, 0x3000)]

/-- Whether `c` is white space. -/
def isBlank (c : Char) : Bool := blankRanges.covers c.toNat

/-- The characters from the first that is not blank. -/
def trimLeft (cs : List Char) : List Char := cs.dropWhile isBlank

/-- `s` without the blanks at its two ends. -/
def trim (s : String) : String :=
  .ofList (trimLeft (trimLeft s.toList).reverse).reverse

/-- The words of `cs`; `word` holds the characters of the current one in reverse. -/
def wordsFrom (word : List Char) : List Char → List String
  | [] => if word.isEmpty then [] else [.ofList word.reverse]
  | c :: cs =>
    if isBlank c then
      if word.isEmpty then wordsFrom [] cs else .ofList word.reverse :: wordsFrom [] cs
    else wordsFrom (c :: word) cs

/-- The maximal runs of characters that are not blank. -/
def words (s : String) : List String := wordsFrom [] s.toList

end SqlDialects.Text
