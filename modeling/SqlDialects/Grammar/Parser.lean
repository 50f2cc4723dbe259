import SqlDialects.Dialect.Basic
import SqlDialects.Fault
import SqlDialects.Token

/-!
# Parsers

* `Input` : the tokens to read and the dialect that they are read in;
* `Cursor` : the state of a parser: the next token, the furthest token that was asked about, what
  would have been accepted there, the number of bare parameters read, the depth of nesting, and the names
  of the functions read;
* `Parser` : a function from an input and a cursor to a result or a fault and the next cursor, which is as
  deep as the first one;
* the tests and steps by which the grammar looks at tokens. A test that fails leaves a note of what
  it asked for, and `unexpected` reports the notes of the furthest token;
* `many`, `iterate`, `commaSeparated` : repetition.

Tests of the form `eat…` and `check…` leave notes; `peek` and what is built on it do not.
-/

namespace SqlDialects

/-- The tokens to read, without the end of the text, which is `finish`. -/
structure Input where
  dialect : Dialect
  tokens : Array Token
  finish : Token

namespace Input

/-- The token at `k`; behind the last one stands the end of the text. -/
def token (i : Input) (k : Nat) : Token := i.tokens[k]?.getD i.finish

/-- The tokens of a text and its end. -/
def ofTokens (d : Dialect) (tokens : List Token) (finish : Token) : Input :=
  ⟨d, tokens.toArray, finish⟩

/-- Tokens without an end. The end is put where the last token stands. -/
def ofOpenTokens (d : Dialect) (tokens : List Token) : Input :=
  let p := (tokens.getLast?.map Token.position).getD .start
  ⟨d, tokens.toArray, ⟨.finish, "", p, false⟩⟩

end Input

/-- The state of a parser. -/
structure Cursor where
  /-- The next token. -/
  index : Nat := 0
  /-- The furthest token that a test has asked about. -/
  furthest : Nat := 0
  /-- What would have been accepted there, in alphabetical order. -/
  expected : List String := []
  /-- The number of bare parameters read in the current statement. -/
  binds : Nat := 0
  /-- The number of levels of nesting that the parser is in. -/
  depth : Nat := 0
  /-- The names of the functions that were read, as they are written, the last one first. No production looks at
  them: they tell what a text calls its functions. -/
  functions : List (List Name) := []
deriving DecidableEq, Repr, Inhabited

namespace Cursor

/-- The notes `xs`, which are in alphabetical order, with `x` in its place. -/
def addNote (x : String) : List String → List String
  | [] => [x]
  | y :: ys => if x < y then x :: y :: ys else if x = y then y :: ys else y :: addNote x ys

/-- The cursor after the note that `what` would be accepted at the token `k`. Only the notes of the
furthest token are kept. -/
def note (c : Cursor) (k : Nat) (what : String) : Cursor :=
  if c.furthest < k then { c with furthest := k, expected := [what] }
  else if k = c.furthest then { c with expected := addNote what c.expected }
  else c

/-- The same place one level of nesting further down. -/
def down (c : Cursor) : Cursor := { c with depth := c.depth + 1 }

/-- The same place one level of nesting further up. -/
def up (c : Cursor) : Cursor := { c with depth := c.depth - 1 }

/-- A parser that starts at `c` may stop at `e`: it is as deep there, and has forgotten no name of a function. -/
structure Leads (c e : Cursor) : Prop where
  depth : e.depth = c.depth
  functions : c.functions <:+ e.functions

theorem Leads.refl (c : Cursor) : c.Leads c := ⟨rfl, List.suffix_rfl⟩

theorem Leads.trans {c e f : Cursor} (h : c.Leads e) (h' : e.Leads f) : c.Leads f :=
  ⟨h'.depth.trans h.depth, h.functions.trans h'.functions⟩

theorem leads_note (c : Cursor) (k : Nat) (what : String) : c.Leads (c.note k what) := by
  unfold note
  split
  · exact ⟨rfl, List.suffix_rfl⟩
  · split <;> exact ⟨rfl, List.suffix_rfl⟩

end Cursor

/-- A parser of `α`. The cursor moves also when it fails, and whatever the result, the depth is the one at which the
parser started. -/
structure Parser (α : Type) where
  run : Input → Cursor → Except Fault α × Cursor
  leads : ∀ (i : Input) (c : Cursor), c.Leads (run i c).2

namespace Parser

variable {α β σ : Type}

instance : CoeFun (Parser α) fun _ => Input → Cursor → Except Fault α × Cursor := ⟨run⟩

/-- Parsers with the same runs are the same. -/
theorem ext_run {p q : Parser α} (h : ∀ i c, p i c = q i c) : p = q := by
  cases p
  cases q
  congr
  exact funext fun i => funext (h i)

/-- What `f` sees of the input and the cursor. -/
def look (f : Input → Cursor → α) : Parser α := ⟨fun i c => (.ok (f i c), c), fun _ c => .refl c⟩

instance : Monad Parser where
  pure a := look fun _ _ => a
  bind p f := {
    run := fun i c =>
      match p i c with
      | (.ok a, c) => f a i c
      | (.error e, c) => (.error e, c)
    leads := fun i c => by
      have hp := p.leads i c
      split
      · next a e heq =>
        rw [heq] at hp
        exact hp.trans ((f a).leads i e)
      · next y e heq =>
        rw [heq] at hp
        exact hp }

theorem depth_of_run {p : Parser α} {i : Input} {c e : Cursor} {r : Except Fault α} (h : p i c = (r, e)) :
    e.depth = c.depth := by
  have hleads := p.leads i c
  rw [h] at hleads
  exact hleads.depth

theorem functions_of_run {p : Parser α} {i : Input} {c e : Cursor} {r : Except Fault α} (h : p i c = (r, e)) :
    c.functions ⊆ e.functions := by
  have hleads := p.leads i c
  rw [h] at hleads
  exact hleads.functions.subset

/-! ## Looking at tokens -/

/-- The dialect that is read. -/
def dialect : Parser Dialect := look fun i _ => i.dialect

/-- The reading rules of the dialect. -/
def rules : Parser ReadingRules := look fun i _ => i.dialect.reading

/-- Whether the dialect can say `x`. -/
def supports (x : Construct) : Parser Bool := look fun i _ => i.dialect.supports x

/-- The token `n` places behind the next one. -/
def peekNth (n : Nat) : Parser Token := look fun i c => i.token (c.index + n)

/-- The next token. -/
def peek : Parser Token := peekNth 0

/-- Whether the next token is the word `word`. -/
def peekWord (word : String) : Parser Bool := do return (← peek).isWord word

/-- Whether the next token is the symbol `symbol`. -/
def peekSymbol (symbol : String) : Parser Bool := do return (← peek).isSymbol symbol

/-- Whether all tokens have been read. -/
def atEnd : Parser Bool := look fun i c => decide (i.tokens.size ≤ c.index)

/-- Takes the next token; the end of the text is never passed. -/
def advance : Parser Token where
  run i c := (.ok (i.token c.index), if c.index < i.tokens.size then { c with index := c.index + 1 } else c)
  leads i c := by
    split
    · exact ⟨rfl, List.suffix_rfl⟩
    · exact .refl c

/-! ## Notes and faults -/

/-- Notes that `what` would be accepted `n` places behind the next token. -/
def expectNth (n : Nat) (what : String) : Parser Unit where
  run _ c := (.ok (), c.note (c.index + n) what)
  leads _ c := c.leads_note (c.index + n) what

/-- Notes that `what` would be accepted here. -/
def expectHere (what : String) : Parser Unit := expectNth 0 what

/-- Fails at the furthest token that was asked about, with what was asked for. -/
def unexpected : Parser α where
  run i c :=
    let t := i.token (max c.furthest c.index)
    let expected := if c.index ≤ c.furthest then c.expected else []
    (.error (.unexpected t.position expected t.describe), c)
  leads _ c := .refl c

/-- Fails with the given fault. -/
def fail (f : Fault) : Parser α := ⟨fun _ c => (.error f, c), fun _ c => .refl c⟩

/-- Fails at the token `t`, where `what` would be accepted. -/
def unexpectedAt (t : Token) (what : String) : Parser α := fail (.unexpected t.position [what] t.describe)

/-! ## Words and symbols -/

/-- Whether the next token is the word `word`. -/
def checkWord (word : String) : Parser Bool := do
  if ← peekWord word then return true
  expectHere (Text.upper word)
  return false

/-- Takes the word `word` if it is next. -/
def eatWord (word : String) : Parser Bool := do
  if ← checkWord word then
    let _ ← advance
    return true
  return false

/-- Takes the word `word`. -/
def expectWord (word : String) : Parser Unit := do
  unless ← eatWord word do unexpected

/-- The first of `words` that does not stand in its place, `n` places behind the next token and
on. -/
def missingWord (n : Nat) : List String → Parser (Option (Nat × String))
  | [] => return none
  | word :: words => do
    if (← peekNth n).isWord word then missingWord (n + 1) words else return some (n, word)

/-- Runs `p` `n` times. -/
def times (n : Nat) (p : Parser α) : Parser (List α) :=
  match n with
  | 0 => return []
  | n + 1 => do
    let a ← p
    return a :: (← times n p)

/-- Takes the words `words` if all of them are next. -/
def eatWords (words : List String) : Parser Bool := do
  match ← missingWord 0 words with
  | none =>
    let _ ← times words.length advance
    return true
  | some (n, word) =>
    expectNth n (Text.upper word)
    return false

/-- Whether the next token is the symbol `symbol`. -/
def checkSymbol (symbol : String) : Parser Bool := do
  if ← peekSymbol symbol then return true
  expectHere s!"'{symbol}'"
  return false

/-- Takes the symbol `symbol` if it is next. -/
def eatSymbol (symbol : String) : Parser Bool := do
  if ← checkSymbol symbol then
    let _ ← advance
    return true
  return false

/-- Takes the symbol `symbol`. -/
def expectSymbol (symbol : String) : Parser Unit := do
  unless ← eatSymbol symbol do unexpected

/-- The test `p` where `condition` holds. -/
def onlyIf (condition : Bool) (p : Parser Bool) : Parser Bool :=
  if condition then p else return false

/-- The parser `p` if the test `test` succeeds. -/
def optional (test : Parser Bool) (p : Parser α) : Parser (Option α) := do
  if ← test then return some (← p)
  return none

/-- The list that `p` reads if the test `test` succeeds. -/
def optionalList (test : Parser Bool) (p : Parser (List α)) : Parser (List α) := do
  if ← test then p else return []

/-! ## Repetition -/

/-- The number of tokens that have not been read. -/
def remaining : Parser Nat := look fun i c => i.tokens.size - c.index

/-- The results of `p` as long as it gives one, at most `n` times. -/
def manyUpTo (p : Parser (Option α)) : Nat → Parser (List α)
  | 0 => return []
  | n + 1 => do
    match ← p with
    | some a => return a :: (← manyUpTo p n)
    | none => return []

/-- The results of `p` as long as it gives one. A result takes at least one token, so the number of
tokens bounds their number. -/
def many (p : Parser (Option α)) : Parser (List α) := do
  manyUpTo p ((← remaining) + 1)

/-- The last state that `step` reaches from `s`, in at most `n` steps. -/
def iterateUpTo (step : σ → Parser (Option σ)) (s : σ) : Nat → Parser σ
  | 0 => return s
  | n + 1 => do
    match ← step s with
    | some s => iterateUpTo step s n
    | none => return s

/-- The last state that `step` reaches from `s`. A step takes at least one token, so the number of
tokens bounds their number. -/
def iterate (step : σ → Parser (Option σ)) (s : σ) : Parser σ := do
  iterateUpTo step s ((← remaining) + 1)

/-- The results of `p` behind commas. -/
def afterCommas (p : Parser α) : Parser (List α) := many (optional (eatSymbol ",") p)

/-- One or more results of `p` with commas between them. -/
def commaSeparated (p : Parser α) : Parser (List α) := do
  let first ← p
  return first :: (← afterCommas p)

/-- What `p` reads between parentheses. -/
def parenthesized (p : Parser α) : Parser α := do
  expectSymbol "("
  let a ← p
  expectSymbol ")"
  return a

/-! ## Names -/

/-- A quoted name or an unreserved word. -/
def name : Parser Name := do
  let t ← peek
  if t.isName then
    let _ ← advance
    return ⟨t.text, t.kind == .quotedName⟩
  expectHere "identifier"
  unexpected

/-- A dot and the name behind it. -/
def dottedPart : Parser (Option Name) := do
  if ← peekSymbol "." then
    let _ ← advance
    return some (← name)
  return none

/-- Names with dots between them. -/
def qualifiedName : Parser QualifiedName := do
  let first ← name
  return first :: (← many dottedPart)

/-- A list of names in parentheses. -/
def nameList : Parser (List Name) := parenthesized (commaSeparated name)

/-- A list of names in parentheses if a parenthesis is next. -/
def optionalNameList : Parser (List Name) := optionalList (peekSymbol "(") nameList

end Parser

end SqlDialects
