import SqlDialects.Fault
import SqlDialects.Text.Blank
import SqlDialects.Text.Numeric
import SqlDialects.Token
import SqlDialects.Token.Rules

/-!
# From text to tokens

* `lexeme` : the token at the head of a text, as its kind and its length;
* `Scan` : the tokens of a text up to its end or to the first fault;
* `scan` : the scan of a text, with or without its trivia;
* `tokenize` : the tokens of a text and its end, or the fault.

Every lexeme has at least one character, so scanning ends. A text is cut into lexemes in one way
only: the kinds are tried in a fixed order, and words, numbers, comments and blanks are as long as
they can be. The table of operators lists longer symbols first.
-/

namespace SqlDialects

open Text

/-- A token at the head of a text: its kind, the number of its characters behind the first, and its
contents where they are not the text itself. -/
structure Lexeme where
  kind : Token.Kind
  extra : Nat
  contents : Option String := none
deriving DecidableEq, Repr

namespace Lexer

/-! ## Trivia -/

/-- The length of the rest of a line. A line may end in a line feed, after a carriage return or
not; a carriage return alone does not end one. -/
def lineLength (cs : List Char) : Option Nat :=
  let line := cs.takeWhile fun c => c != '\r' && c != '\n'
  match cs.drop line.length with
  | '\r' :: '\n' :: _ => some line.length
  | '\r' :: _ => none
  | _ => some line.length

/-- The length of a line comment behind its first character `c`. -/
def lineComment (r : LexicalRules) (c : Char) (cs : List Char) : Option Nat :=
  let dashed :=
    match c, cs with
    | '-', '-' :: line => (lineLength line).map (· + 1)
    | _, _ => none
  dashed <|> if r.hashComments && c == '#' then lineLength cs else none

/-- The length of the rest of a block comment in which `depth` comments are open. Marks do not
overlap. -/
def commentLength (nested : Bool) (depth : Nat) : List Char → Option Nat
  | '/' :: '*' :: cs => (commentLength nested (if nested then depth + 1 else depth) cs).map (· + 2)
  | '*' :: '/' :: cs =>
    if depth ≤ 1 then some 2 else (commentLength nested (depth - 1) cs).map (· + 2)
  | _ :: cs => (commentLength nested depth cs).map (· + 1)
  | [] => none

/-! ## Strings and quoted names -/

/-- The character that a backslash and `c` stand for. -/
def unescape (c : Char) : Char :=
  match c with
  | 'n' => '\n'
  | 't' => '\t'
  | 'r' => '\r'
  | '0' => '\x00'
  | other => other

/-- The contents of a quoted text behind its opening quote, and the length up to and with the
closing one. A closing quote written twice stands for itself. -/
def quoted (close : Char) (escapes : Bool) : List Char → Option (List Char × Nat)
  | [] => none
  | c :: cs =>
    if c = close then
      match cs with
      | d :: ds =>
        if d = close then (quoted close escapes ds).map fun (v, n) => (close :: v, n + 2)
        else some ([], 1)
      | [] => some ([], 1)
    else if escapes && c == '\\' then
      match cs with
      | [] => none
      | d :: ds => (quoted close escapes ds).map fun (v, n) => (unescape d :: v, n + 2)
    else (quoted close escapes cs).map fun (v, n) => (c :: v, n + 1)

/-- The first place at which `needle` stands in a text. -/
def findIn (needle : List Char) : List Char → Option Nat
  | [] => if needle.isEmpty then some 0 else none
  | c :: cs => if needle.isPrefixOf (c :: cs) then some 0 else (findIn needle cs).map (· + 1)

/-- The tag between the two dollar signs of an opening delimiter, behind the first. -/
def dollarTag : List Char → Option (List Char)
  | '$' :: _ => some []
  | c :: cs =>
    if isAlphabetic c || c == '_' then
      let tag := (c :: cs).takeWhile fun d => isAlphanumeric d || d == '_'
      if ((c :: cs).drop tag.length).head? == some '$' then some tag else none
    else none
  | [] => none

/-! ## Parameters, numbers, words -/

/-- The length of the name of a parameter. -/
def paramName (cs : List Char) : Nat :=
  let head := cs.takeWhile fun c => isAlphabetic c || c == '_' || c == '@'
  if head.isEmpty then 0
  else head.length + ((cs.drop head.length).takeWhile fun c => isAlphanumeric c || c == '_').length

/-- The length of a run of ASCII digits. -/
def digits (cs : List Char) : Nat := (cs.takeWhile Char.isDigit).length

/-- The length of a parameter behind its mark. -/
def paramLength (mark : Char) (cs : List Char) : Option Nat :=
  let number := digits cs
  let name := paramName cs
  match mark with
  | '?' => some number
  | '$' => if 0 < number then some number else if 0 < name then some name else none
  | ':' => if 0 < name then some name else if 0 < number then some number else none
  | '@' => if 0 < name then some name else none
  | _ => none

/-- The length of the part of a number before its exponent. -/
def mantissa (cs : List Char) : Option Nat :=
  let whole := digits cs
  match cs.drop whole with
  | '.' :: rest =>
    let fraction := digits rest
    if 0 < whole || 0 < fraction then some (whole + 1 + fraction) else none
  | _ => if 0 < whole then some whole else none

/-- The length of an exponent, zero if there is none. -/
def exponent : List Char → Nat
  | e :: cs =>
    if e == 'e' || e == 'E' then
      match cs with
      | s :: ds =>
        if s == '+' || s == '-' then
          if 0 < digits ds then digits ds + 2 else 0
        else if 0 < digits cs then digits cs + 1 else 0
      | [] => 0
    else 0
  | [] => 0

/-- The length of a number. -/
def number (cs : List Char) : Option Nat :=
  (mantissa cs).map fun n => n + exponent (cs.drop n)

/-- Whether `c` may start a word. -/
def startsWord (r : LexicalRules) (c : Char) : Bool :=
  isAlphabetic c || c == '_' || r.wordStarts.contains c

/-- Whether `c` may continue a word. -/
def continuesWord (r : LexicalRules) (c : Char) : Bool :=
  isAlphanumeric c || c == '_' || c == '$' || r.wordStarts.contains c

/-- The marks that are tokens on their own. -/
def punctuation : List Char := ['(', ')', ',', ';', '.', '[', ']', '{', '}']

/-! ## Lexemes -/

/-- The blank, comment or end of a comment at the head of `c :: cs`. -/
def trivia (r : LexicalRules) (c : Char) (cs : List Char) : Except LexicalFault (Option Lexeme) :=
  if isBlank c then .ok (some ⟨.blank, (cs.takeWhile isBlank).length, none⟩)
  else
    match lineComment r c cs with
    | some n => .ok (some ⟨.comment, n, none⟩)
    | none =>
      match c, cs with
      | '/', '*' :: body =>
        match commentLength r.nestedComments 1 body with
        | some n => .ok (some ⟨.comment, n + 1, none⟩)
        | none => .error .openComment
      | _, _ => .ok none

/-- A string whose opening quote stands right before `cs`, after `skipped` more characters. -/
def stringAfter (r : LexicalRules) (quote : Char) (skipped : Nat) (cs : List Char) :
    Except LexicalFault Lexeme :=
  match quoted quote r.backslashEscapes cs with
  | some (v, n) => .ok ⟨.string, skipped + n, some (.ofList v)⟩
  | none => .error .openString

/-- A quoted name whose opening character stands right before `cs`. -/
def nameAfter (close : Char) (cs : List Char) : Except LexicalFault Lexeme :=
  match quoted close false cs with
  | some (v, n) => .ok ⟨.quotedName, n, some (.ofList v)⟩
  | none => .error (.openName close)

/-- A dollar-quoted string with the tag `tag`, behind its first dollar sign. -/
def dollarAfter (tag : List Char) (cs : List Char) : Except LexicalFault Lexeme :=
  let body := cs.drop (tag.length + 1)
  match findIn ('$' :: tag ++ ['$']) body with
  | some n => .ok ⟨.string, 2 * tag.length + 3 + n, some (.ofList (body.take n))⟩
  | none => .error .openDollarString

/-- The lexeme at the head of `c :: cs` if it is a string, a quoted name or a dollar-quoted
string. -/
def quotation (r : LexicalRules) (c : Char) (cs : List Char) :
    Option (Except LexicalFault Lexeme) :=
  if r.nationalStrings && (c == 'N' || c == 'n') && cs.head? == some '\'' then
    some (stringAfter r '\'' 1 cs.tail)
  else if r.stringQuotes.contains c then some (stringAfter r c 0 cs)
  else
    match r.nameQuotes.find? fun q => q.1 == c with
    | some (_, close) => some (nameAfter close cs)
    | none =>
      if c == '$' && r.dollarStrings then (dollarTag cs).map fun tag => dollarAfter tag cs
      else none

/-- The lexeme at the head of `c :: cs` if it is a parameter. -/
def param (r : LexicalRules) (c : Char) (cs : List Char) : Option Lexeme :=
  if r.paramMarks.contains c && !(c == ':' && cs.head? == some ':') then
    (paramLength c cs).map fun n => ⟨.param, n, none⟩
  else none

/-- The lexeme at the head of `c :: cs` if it is a word. -/
def word (r : LexicalRules) (c : Char) (cs : List Char) : Option Lexeme :=
  if startsWord r c then
    let rest := cs.takeWhile (continuesWord r)
    let kind := if r.isReserved (.ofList (c :: rest)) then .keyword else .word
    some ⟨kind, rest.length, none⟩
  else none

/-- The lexeme at the head of `c :: cs` if it is an operator of the table. The empty symbol is left out: it stands
behind all others in a table, and a scanner that comes to it takes nothing and never ends. -/
def operator (r : LexicalRules) (c : Char) (cs : List Char) : Option Lexeme :=
  let here := r.operators.find? fun op => op != "" && op.toList.isPrefixOf (c :: cs)
  here.map fun op => ⟨.operator, op.toList.length - 1, none⟩

/-- The lexeme at the head of `c :: cs` if it has neither trivia nor quotes. -/
def plain (r : LexicalRules) (c : Char) (cs : List Char) : Lexeme :=
  let found :=
    param r c cs <|>
    ((number (c :: cs)).map fun n => ⟨.number, n - 1, none⟩) <|>
    word r c cs <|>
    operator r c cs
  found.getD ⟨if punctuation.contains c then .punctuation else .unknown, 0, none⟩

/-- The lexeme at the head of `c :: cs`. -/
def lexeme (r : LexicalRules) (c : Char) (cs : List Char) : Except LexicalFault Lexeme :=
  match trivia r c cs with
  | .error f => .error f
  | .ok (some l) => .ok l
  | .ok none => (quotation r c cs).getD (.ok (plain r c cs))

end Lexer

/-! ## Scans -/

/-- The tokens of a text up to its end, which is a token too, or up to the first fault. -/
structure Scan where
  tokens : List Token
  stop : Except Fault Token

/-- The scan of `cs` from `p` on. Trivia are tokens if `keep` holds and dropped otherwise; `spaced`
tells whether some were dropped right before. -/
def scanFrom (r : LexicalRules) (keep : Bool) (p : Position) (spaced : Bool) :
    List Char → Scan
  | [] => ⟨[], .ok ⟨.finish, "", p, spaced⟩⟩
  | c :: cs =>
    match Lexer.lexeme r c cs with
    | .error f => ⟨[], .error (.lexical f p)⟩
    | .ok l =>
      let source := c :: cs.take l.extra
      if l.kind.isTrivia && !keep then scanFrom r keep (p.after source) true (cs.drop l.extra)
      else
        let rest := scanFrom r keep (p.after source) false (cs.drop l.extra)
        ⟨⟨l.kind, l.contents.getD (.ofList source), p, spaced⟩ :: rest.tokens, rest.stop⟩
termination_by cs => cs.length
decreasing_by all_goals simp only [List.length_drop, List.length_cons]; omega

/-- The scan of a text; `trivia` keeps comments and blanks. -/
def scan (r : LexicalRules) (trivia : Bool) (sql : String) : Scan :=
  scanFrom r trivia .start false sql.toList

/-- The tokens of a text without trivia, and its end. -/
def tokenize (r : LexicalRules) (sql : String) : Except Fault (List Token × Token) :=
  let s := scan r false sql
  s.stop.map fun finish => (s.tokens, finish)

end SqlDialects
