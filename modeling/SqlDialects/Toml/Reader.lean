import SqlDialects.Text.Ascii
import SqlDialects.Toml

/-!
# Reading TOML

* `Toml.Reader.value` : a value;
* `Toml.Reader.entries` : the lines of a document;
* `Toml.read?` : the table of a document.

Floats and dates are no values of a setting, and a document with one is refused like one that is
malformed. A reader gives what it has read and the text behind it.
-/

namespace SqlDialects.Toml

namespace Reader

/-! ## Blanks and comments -/

/-- Whether `c` is a blank inside a line. -/
def isBlank (c : Char) : Bool := c == ' ' || c == '\t'

/-- The text from the first character that is not a blank. -/
def skip (cs : List Char) : List Char := cs.dropWhile isBlank

/-- Whether `c` may stand in a string or in a comment. -/
def isPlain (c : Char) : Bool := c == '\t' || (32 ≤ c.toNat && c.toNat != 127)

/-- The text behind the end of a line, which may have blanks and a comment before it. -/
def lineEnd (cs : List Char) : Option (List Char) :=
  let cs := skip cs
  let cs := if cs.head? == some '#' then cs.dropWhile isPlain else cs
  match cs with
  | [] => some []
  | '\n' :: rest => some rest
  | '\r' :: '\n' :: rest => some rest
  | _ => none

/-- The text behind blanks, line ends and comments; `comment` tells whether a comment is being
read. -/
def skipLines (comment : Bool) : List Char → List Char
  | [] => []
  | '\n' :: cs => skipLines false cs
  | '\r' :: '\n' :: cs => skipLines false cs
  | c :: cs =>
    if comment then (if isPlain c then skipLines true cs else c :: cs)
    else if isBlank c then skipLines false cs
    else if c == '#' then skipLines true cs
    else c :: cs

/-! ## Strings -/

/-- The value of a hexadecimal digit. -/
def hexDigit? (c : Char) : Option Nat :=
  if c.isDigit then some (c.toNat - '0'.toNat)
  else if 'a' ≤ c && c ≤ 'f' then some (c.toNat - 'a'.toNat + 10)
  else if 'A' ≤ c && c ≤ 'F' then some (c.toNat - 'A'.toNat + 10)
  else none

/-- The number that digits of the given base write. -/
def ofDigits? (base : Nat) (cs : List Char) : Option Nat :=
  cs.foldlM (fun n c => do
    let d ← hexDigit? c
    if d < base then some (base * n + d) else none) 0

/-- The character with the code point that hexadecimal digits write. -/
def codePoint? (cs : List Char) : Option Char := do
  let n ← ofDigits? 16 cs
  if n < 0xD800 || (0xDFFF < n && n < 0x110000) then some (Char.ofNat n) else none

/-- The character that a backslash and `c` stand for. -/
def escape? (c : Char) : Option Char :=
  match c with
  | 'b' => some (Char.ofNat 8)
  | 't' => some '\t'
  | 'n' => some '\n'
  | 'f' => some (Char.ofNat 12)
  | 'r' => some '\r'
  | '"' => some '"'
  | '\\' => some '\\'
  | _ => none

/-- Puts a character, if there is one, before the contents of what follows. -/
def consTo (c : Option Char) (rest : Option (List Char × List Char)) :
    Option (List Char × List Char) := do
  let c ← c
  let (v, cs) ← rest
  return (c :: v, cs)

/-- The contents of a basic string behind its opening quote. -/
def basic : List Char → Option (List Char × List Char)
  | '"' :: cs => some ([], cs)
  | '\\' :: 'u' :: a :: b :: c :: d :: cs => consTo (codePoint? [a, b, c, d]) (basic cs)
  | '\\' :: 'U' :: a :: b :: c :: d :: e :: f :: g :: h :: cs =>
    consTo (codePoint? [a, b, c, d, e, f, g, h]) (basic cs)
  | '\\' :: c :: cs => consTo (escape? c) (basic cs)
  | c :: cs => if isPlain c then consTo (some c) (basic cs) else none
  | [] => none

/-- The contents of a literal string behind its opening quote. -/
def literal : List Char → Option (List Char × List Char)
  | '\'' :: cs => some ([], cs)
  | c :: cs => if isPlain c then consTo (some c) (literal cs) else none
  | [] => none

/-- At most two quotes that belong to a string although they follow its three closing ones. -/
def lastQuotes (quote : Char) (cs : List Char) : List Char × List Char :=
  let run := (cs.take 2).takeWhile (· == quote)
  (run, cs.drop run.length)

/-- Whether a backslash before `cs` stands at the end of its line. -/
def endsLine (cs : List Char) : Bool :=
  match skip cs with
  | '\n' :: _ => true
  | '\r' :: '\n' :: _ => true
  | _ => false

/-- The contents of a basic string of several lines. `skipping` drops blanks and line ends, behind
a backslash at the end of a line. -/
def longBasic (skipping : Bool) : List Char → Option (List Char × List Char)
  | '"' :: '"' :: '"' :: cs => some (lastQuotes '"' cs)
  | '\\' :: 'u' :: a :: b :: c :: d :: cs => consTo (codePoint? [a, b, c, d]) (longBasic false cs)
  | '\\' :: 'U' :: a :: b :: c :: d :: e :: f :: g :: h :: cs =>
    consTo (codePoint? [a, b, c, d, e, f, g, h]) (longBasic false cs)
  | '\r' :: '\n' :: cs =>
    if skipping then longBasic true cs else consTo (some '\n') (longBasic false cs)
  | '\\' :: c :: cs =>
    if endsLine (c :: cs) then longBasic true (c :: cs)
    else consTo (escape? c) (longBasic false cs)
  | c :: cs =>
    if skipping && (isBlank c || c == '\n') then longBasic true cs
    else if isPlain c || c == '\n' then consTo (some c) (longBasic false cs)
    else none
  | [] => none

/-- The contents of a literal string of several lines. -/
def longLiteral : List Char → Option (List Char × List Char)
  | '\'' :: '\'' :: '\'' :: cs => some (lastQuotes '\'' cs)
  | '\r' :: '\n' :: cs => consTo (some '\n') (longLiteral cs)
  | c :: cs => if isPlain c || c == '\n' then consTo (some c) (longLiteral cs) else none
  | [] => none

/-- The text behind a line end at its head, which a string of several lines leaves out. -/
def skipNewline : List Char → List Char
  | '\n' :: cs => cs
  | '\r' :: '\n' :: cs => cs
  | cs => cs

/-- A string of any kind. -/
def string (cs : List Char) : Option (String × List Char) :=
  let contents :=
    match cs with
    | '"' :: '"' :: '"' :: rest => longBasic false (skipNewline rest)
    | '\'' :: '\'' :: '\'' :: rest => longLiteral (skipNewline rest)
    | '"' :: rest => basic rest
    | '\'' :: rest => literal rest
    | _ => none
  contents.map fun (v, rest) => (.ofList v, rest)

/-! ## Keys -/

/-- Whether `c` may stand in a bare key. -/
def isBare (c : Char) : Bool := c.isAlphanum || c == '_' || c == '-'

/-- One part of a key. -/
def keyPart (cs : List Char) : Option (String × List Char) :=
  match cs with
  | '"' :: rest => (basic rest).map fun (v, rest) => (.ofList v, rest)
  | '\'' :: rest => (literal rest).map fun (v, rest) => (.ofList v, rest)
  | _ =>
    let part := cs.takeWhile isBare
    if part.isEmpty then none else some (.ofList part, cs.drop part.length)

/-- A key of at most `n` parts with dots between them, and the text behind it and its blanks. -/
def key : Nat → List Char → Option (List String × List Char)
  | 0, _ => none
  | n + 1, cs => do
    let (part, rest) ← keyPart (skip cs)
    match skip rest with
    | '.' :: more =>
      let (parts, rest) ← key n more
      return (part :: parts, rest)
    | rest => return ([part], rest)

/-! ## Values -/

/-- Digits without their underscores, each of which stands between two digits. -/
def digits? : List Char → Option (List Char)
  | [] => none
  | [c] => if c == '_' then none else some [c]
  | c :: '_' :: cs => if c == '_' then none else (digits? cs).map (c :: ·)
  | c :: cs => if c == '_' then none else (digits? cs).map (c :: ·)

/-- A decimal number, which has no zeros to spare. -/
def decimal? (cs : List Char) : Option Nat := do
  let ds ← digits? cs
  if ds.head? == some '0' && 1 < ds.length then none else ofDigits? 10 ds

/-- The integer of 64 bits that a word writes. -/
def integer? (cs : List Char) : Option Int := do
  let n : Int ←
    match cs with
    | '0' :: 'x' :: ds => (digits? ds >>= ofDigits? 16).map Int.ofNat
    | '0' :: 'o' :: ds => (digits? ds >>= ofDigits? 8).map Int.ofNat
    | '0' :: 'b' :: ds => (digits? ds >>= ofDigits? 2).map Int.ofNat
    | '+' :: ds => (decimal? ds).map Int.ofNat
    | '-' :: ds => (decimal? ds).map fun n => -Int.ofNat n
    | ds => (decimal? ds).map Int.ofNat
  if -Int.pow 2 63 ≤ n && n < Int.pow 2 63 then some n else none

/-- Whether `c` may stand in a word: a number or a truth value. -/
def isWordChar (c : Char) : Bool := isBare c || c == '+' || c == '.' || c == ':'

/-- A truth value or an integer. -/
def word (cs : List Char) : Option (Toml × List Char) := do
  let token := cs.takeWhile isWordChar
  let rest := cs.drop token.length
  if token == "true".toList then return (.boolean true, rest)
  if token == "false".toList then return (.boolean false, rest)
  return (.integer (← integer? token), rest)

mutual

/-- A value. The number bounds how many values and separators are read. -/
def value : Nat → List Char → Option (Toml × List Char)
  | 0, _ => none
  | n + 1, cs =>
    match cs with
    | '[' :: rest => (items n true rest).map fun (vs, rest) => (.array vs, rest)
    | '{' :: rest => do
      let (fields, rest) ←
        match skip rest with
        | '}' :: rest => some ([], rest)
        | rest => fields n rest
      return (.table .inline (← ofInline? fields), rest)
    | '"' :: _ => (string cs).map fun (s, rest) => (.string s, rest)
    | '\'' :: _ => (string cs).map fun (s, rest) => (.string s, rest)
    | _ => word cs

/-- The rest of an array. `fresh` tells whether a value may follow. -/
def items : Nat → Bool → List Char → Option (List Toml × List Char)
  | 0, _, _ => none
  | n + 1, fresh, cs =>
    match skipLines false cs with
    | ']' :: rest => some ([], rest)
    | ',' :: rest => if fresh then none else items n true rest
    | rest => do
      if !fresh then none
      let (v, rest) ← value n rest
      let (vs, rest) ← items n false rest
      return (v :: vs, rest)

/-- The fields of a table in braces, up to the closing one. -/
def fields : Nat → List Char → Option (List (List String × Toml) × List Char)
  | 0, _ => none
  | n + 1, cs => do
    let (path, rest) ← key (cs.length + 1) cs
    match rest with
    | '=' :: rest =>
      let (v, rest) ← value n (skip rest)
      match skip rest with
      | '}' :: rest => return ([(path, v)], rest)
      | ',' :: rest =>
        let (fs, rest) ← fields n rest
        return ((path, v) :: fs, rest)
      | _ => none
    | _ => none

end

/-! ## Documents -/

/-- The key of a header behind its brackets, and the text behind `close`. -/
def headerKey (close : List Char) (cs : List Char) : Option (List String × List Char) := do
  let (path, rest) ← key (cs.length + 1) cs
  if close.isPrefixOf rest then some (path, rest.drop close.length) else none

/-- A line with a header or a field. -/
def entry (cs : List Char) : Option (Entry × List Char) :=
  match cs with
  | '[' :: '[' :: rest => (headerKey [']', ']'] rest).map fun (p, rest) => (.element p, rest)
  | '[' :: rest => (headerKey [']'] rest).map fun (p, rest) => (.header p, rest)
  | _ => do
    let (path, rest) ← key (cs.length + 1) cs
    match rest with
    | '=' :: rest =>
      let rest := skip rest
      let (v, rest) ← value (rest.length + 1) rest
      return (.field path v, rest)
    | _ => none

/-- The lines of a document, at most `n` of them. -/
def entries : Nat → List Char → Option (List Entry)
  | 0, _ => none
  | n + 1, cs =>
    match skipLines false cs with
    | [] => some []
    | rest => do
      let (e, rest) ← entry rest
      let rest ← lineEnd rest
      return e :: (← entries n rest)

end Reader

/-- The table of a document. -/
def read? (text : String) : Option Fields := do
  let cs := text.toList
  let cs := if cs.head? == some (Char.ofNat 0xFEFF) then cs.tail else cs
  ofEntries? (← Reader.entries (cs.length + 1) cs)

end SqlDialects.Toml
