/-!
# ASCII case

* `upper` : the text with its ASCII letters in upper case; other characters stay;
* `sameWord` : equality up to the case of ASCII letters;
* `natOf?` : the number written by ASCII digits.
-/

namespace SqlDialects.Text

/-- `s` with its ASCII letters in upper case. -/
def upper (s : String) : String := .ofList (s.toList.map Char.toUpper)

/-- `s` with its ASCII letters in lower case. -/
def lowerAscii (s : String) : String := .ofList (s.toList.map Char.toLower)

/-- Equality up to the case of ASCII letters. -/
def sameWord (a b : String) : Bool :=
  a.toList.map Char.toUpper == b.toList.map Char.toUpper

theorem sameWord_iff (a b : String) : sameWord a b = true ↔ upper a = upper b := by
  simp [sameWord, upper, String.ofList_inj]

theorem sameWord_refl (a : String) : sameWord a a = true := by simp [sameWord]

/-- The number that the digits `cs` write after `n`. -/
def digitsFrom (n : Nat) : List Char → Nat
  | [] => n
  | c :: cs => digitsFrom (10 * n + (c.toNat - '0'.toNat)) cs

/-- The number below `bound` that a non-empty run of ASCII digits writes. -/
def natOf? (bound : Nat) (s : String) : Option Nat :=
  let cs := s.toList
  if cs.isEmpty || !cs.all Char.isDigit then none
  else
    let n := digitsFrom 0 cs
    if n < bound then some n else none

end SqlDialects.Text
