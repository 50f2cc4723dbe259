import SqlDialects.Grammar.DataType
import SqlDialects.Temporal
import SqlDialects.Tree.Expr

/-!
# Reading expressions

* `Deeper` : the productions one level of nesting down;
* `Parser.wordForm?`, `Parser.WordForm` : the forms that a word introduces by itself;
* `Parser.operandFrom` : unary operators and primaries;
* `Parser.subexpr` : operands and the operators between them, by precedence.

An operand reads subexpressions and queries through `Deeper`. Only the amount of an interval and
the bound of a window frame are operands without a level of their own, and both follow a token.
-/

namespace SqlDialects

/-- The productions one level of nesting down. -/
structure Deeper where
  /-- An expression whose operators bind tighter than the given precedence. -/
  expr : Precedence → Parser Expr
  query : Parser Query

namespace Parser

/-! ## Windows -/

/-- The direction of a key, if one is next. -/
def direction : Parser (Option Bool) := do
  if ← eatWord "ASC" then return some true
  if ← eatWord "DESC" then return some false
  return none

/-- `ORDER BY` and its keys, if they are next. -/
def orderBy (deeper : Deeper) : Parser (List OrderItem) :=
  optionalList (eatWords ["ORDER", "BY"]) (commaSeparated do
    let key ← deeper.expr 0
    let ascending ← direction
    let nullsFirst ← optional (do onlyIf (← supports .nullsOrdering) (eatWord "NULLS")) (do
      if ← eatWord "FIRST" then return true
      if ← eatWord "LAST" then return false
      unexpected)
    return ⟨key, ascending, nullsFirst⟩)

/-- An end of a window frame; `operand` reads its distance. -/
def frameBound (operand : Parser Expr) : Parser Bound := do
  if ← eatWords ["CURRENT", "ROW"] then return .currentRow
  if ← eatWord "UNBOUNDED" then
    if ← eatWord "PRECEDING" then return .unboundedPreceding
    expectWord "FOLLOWING"
    return .unboundedFollowing
  let offset ← operand
  if ← eatWord "PRECEDING" then return .preceding offset
  expectWord "FOLLOWING"
  return .following offset

/-- A window frame. -/
def windowFrame (operand : Parser Expr) : Parser Frame := do
  let unit ←
    if ← eatWord "ROWS" then pure .rows
    else do
      expectWord "RANGE"
      pure .range
  if ← eatWord "BETWEEN" then
    let start ← frameBound operand
    expectWord "AND"
    let stop ← frameBound operand
    return ⟨unit, start, some stop⟩
  let start ← frameBound operand
  return ⟨unit, start, none⟩

/-- Whether a window frame is next. -/
def checkFrame : Parser Bool := do
  if ← checkWord "ROWS" then return true
  checkWord "RANGE"

/-- A window in parentheses. -/
def window (deeper : Deeper) (operand : Parser Expr) : Parser Window := parenthesized do
  let partitionBy ←
    optionalList (eatWords ["PARTITION", "BY"]) (commaSeparated (deeper.expr 0))
  let orderBy ← orderBy deeper
  let frame ← optional checkFrame (windowFrame operand)
  return ⟨partitionBy, orderBy, frame⟩

/-! ## Function calls -/

/-- Whether the next token names a part of a date. -/
def peekDateField : Parser Bool := do
  let t ← peek
  return t.isBareWord && (DateField.ofWord? t.text).isSome

/-- A part of a date. -/
def dateField : Parser DateField := do
  let t ← peek
  match (if t.isBareWord then DateField.ofWord? t.text else none) with
  | some field =>
    let _ ← advance
    return field
  | none =>
    expectHere "date part"
    unexpected

/-- The arguments of a call of the function `upper`. The two strings of `POSITION(a IN b)` are put
in the order in which a search in a string has them. -/
def callArgs (deeper : Deeper) (upper : String) : Parser (List Arg) := do
  let expr := deeper.expr 0
  if upper == "POSITION" then
    let needle ← deeper.expr .comparison
    if ← eatWord "IN" then
      let haystack ← expr
      return [.expr haystack, .expr needle]
    return .expr needle :: (← afterCommas expr).map .expr
  let first ← expr
  if ← onlyIf (upper == "SUBSTRING" || upper == "SUBSTR") (eatWord "FROM") then
    let start ← expr
    let length ← optional (eatWord "FOR") expr
    return .expr first :: .expr start :: (length.map Arg.expr).toList
  return .expr first :: (← afterCommas expr).map .expr

/-- `DISTINCT` and the arguments of a call, up to the closing parenthesis. -/
def callBody (deeper : Deeper) (upper : String) : Parser (Bool × List Arg) := do
  if ← eatSymbol ")" then return (false, [])
  let distinct ← eatWord "DISTINCT"
  let args ← if ← eatSymbol "*" then pure [.star] else callArgs deeper upper
  expectSymbol ")"
  return (distinct, args)

/-- The list with its first two elements exchanged. -/
def swapFirst {α : Type} : List α → List α
  | a :: b :: rest => b :: a :: rest
  | short => short

/-- The function that `name` means and its arguments: first by the aliases of the dialect, then
among the functions that everybody knows. `position` is where the call starts. -/
def canonicalCall (name : String) (args : List Arg) (position : Position) :
    Parser (String × List Arg) := do
  let upper := Text.upper name
  let rules ← rules
  if upper == "POSITION" then return ("STRPOS", args)
  match rules.functionAliases.get? upper with
  | some (.rename canonical) => return (canonical, args)
  | some (.swap canonical) => return (canonical, swapFirst args)
  | none =>
    if knownFunctions.contains upper then return (upper, args)
    match rules.unknownFunctions with
    | .accept => return (name, args)
    | .reject => fail (.unexpected position ["known function"] s!"function '{name}'")

/-- The part of a date that a date function takes, with `separator` between its arguments. -/
def extraction (deeper : Deeper) (separator : Parser Unit) : Parser Expr := parenthesized do
  let field ← dateField
  separator
  return .extract field (← deeper.expr 0)

/-- The three arguments of a conditional. -/
def conditional (deeper : Deeper) : Parser Expr := parenthesized do
  let condition ← deeper.expr 0
  expectSymbol ","
  let yes ← deeper.expr 0
  expectSymbol ","
  let no ← deeper.expr 0
  return .cond condition yes no

/-- Keeps the name of a function that is read. -/
def nameFunction (parts : List Name) : Parser Unit where
  run _ c := (.ok (), { c with functions := parts :: c.functions })
  leads _ c := ⟨rfl, List.suffix_cons parts c.functions⟩

/-- A call whose name has been read; `position` is where it starts. -/
def call (deeper : Deeper) (operand : Parser Expr) (name : String) (position : Position) :
    Parser Expr := do
  let upper := Text.upper name
  let d ← dialect
  if upper == "EXTRACT" && d.writing.extract == some .standard then
    return ← extraction deeper (expectWord "FROM")
  if upper == "DATEPART" && d.writing.extract == some .datePart then
    return ← extraction deeper (expectSymbol ",")
  if d.reading.ifFunctions.contains upper then
    return ← conditional deeper
  if let some (_, kind) := d.reading.nowFunctions.find? (·.1 == upper) then
    expectSymbol "("
    expectSymbol ")"
    return .now kind
  expectSymbol "("
  let (distinct, args) ← callBody deeper upper
  let (canonical, args) ← canonicalCall name args position
  let window ← optional (eatWord "OVER") (window deeper operand)
  return .call ⟨canonical, args, distinct, window⟩

/-! ## Primaries -/

/-- Whether a subquery is next. -/
def peekQuery : Parser Bool := do
  let t ← peek
  return t.isWord "SELECT" || t.isWord "WITH"

/-- A dot and a name behind it, unless a star follows the dot. -/
def chainPart : Parser (Option Name) := do
  if (← peekSymbol ".") && !(← peekNth 1).isSymbol "*" then
    let _ ← advance
    return some (← name)
  return none

/-- A name, a dotted name, or a call of a function with such a name. -/
def chain (deeper : Deeper) (operand : Parser Expr) : Parser Expr := do
  let position := (← peek).position
  let first ← name
  let rest ← many chainPart
  let parts := first :: rest
  let quoted := (rest.getLastD first).quoted
  if (← peekSymbol "(") && !quoted then
    nameFunction parts
    return ← call deeper operand (QualifiedName.dotted parts) position
  return if rest.isEmpty then .name first else .path parts

/-- The next bare parameter. -/
def nextBind : Parser Nat where
  run _ c := (.ok (c.binds + 1), { c with binds := c.binds + 1 })
  leads _ _ := ⟨rfl, List.suffix_rfl⟩

/-- A bind parameter of a kind that the dialect has. -/
def param : Parser Expr := do
  let t ← peek
  let rules ← rules
  let body := String.ofList (t.text.toList.drop 1)
  let found ←
    if body == "" then
      if rules.positionalParams then (some ∘ Param.positional) <$> nextBind else pure none
    else
      match Text.natOf? (Nat.pow 2 32) body with
      | some n => pure (if rules.numberedParams then some (.numbered n) else none)
      | none => pure (if rules.namedParams then some (.named body) else none)
  match found with
  | some p =>
    let _ ← advance
    return .param p
  | none =>
    expectHere "expression"
    unexpected

/-- A `CASE` expression. -/
def caseExpr (deeper : Deeper) : Parser Expr := do
  expectWord "CASE"
  let operand ← if ← checkWord "WHEN" then pure none else some <$> deeper.expr 0
  let branches ← many (optional (eatWord "WHEN") do
    let condition ← deeper.expr 0
    expectWord "THEN"
    let result ← deeper.expr 0
    return (⟨condition, result⟩ : Branch))
  if branches.isEmpty then unexpected
  let otherwise ← optional (eatWord "ELSE") (deeper.expr 0)
  expectWord "END"
  return .case operand branches otherwise

/-- A cast whose first word is next. -/
def castExpr (deeper : Deeper) (safe : Bool) : Parser Expr := do
  let _ ← advance
  parenthesized do
    let operand ← deeper.expr 0
    expectWord "AS"
    let type ← dataType
    return .cast operand type safe

/-- The query of a test for rows, behind `EXISTS`. -/
def existsExpr (deeper : Deeper) (negated : Bool) : Parser Expr := do
  let query ← parenthesized deeper.query
  return .exists query negated

/-- An interval, in the style in which the dialect writes it. -/
def intervalExpr (operand : Parser Expr) : Parser Expr := do
  expectWord "INTERVAL"
  match (← dialect).writing.interval with
  | some .bare =>
    let amount ← operand
    let unit ← dateField
    return .interval amount (some unit)
  | _ =>
    let t ← peek
    unless t.kind == .string do
      expectHere "string"
      unexpected
    let _ ← advance
    let unit ← optional peekDateField dateField
    return .interval (.literal (.string t.text)) unit

/-- The reserved words that name a function if a parenthesis follows. -/
def keywordFunctions : List String :=
  ["LEFT", "RIGHT", "REPLACE", "INSERT", "IF", "TRUNCATE", "CURRENT_DATE", "CURRENT_TIME",
    "CURRENT_TIMESTAMP"]

/-- A typed constant of the given kind, whose word and string are next. -/
def temporalLiteral (kind : TemporalKind) : Parser Expr := do
  let _ ← advance
  let value ← advance
  unless Temporal.isValid kind value.text do
    unexpectedAt value s!"valid {kind.keyword} literal"
  return .literal (.temporal kind value.text)

/-- The forms that one word introduces by itself, without regard to what it is in the dialect. -/
def wordForm? (deeper : Deeper) (operand : Parser Expr) (d : Dialect) (word : String)
    (called : Bool) : Option (Parser Expr) :=
  if word == "NULL" then
    some do
      let _ ← advance
      return .literal .null
  else if (word == "TRUE" || word == "FALSE") && d.reading.booleanLiterals then
    some do
      let _ ← advance
      return .literal (.boolean (word == "TRUE"))
  else if word == "CASE" then some (caseExpr deeper)
  else if word == "CAST" && called then some (castExpr deeper false)
  else if word == "EXISTS" && called then
    some do
      let _ ← advance
      existsExpr deeper false
  else if word == "INTERVAL" && d.writing.interval.isSome then some (intervalExpr operand)
  else if called && d.writing.safeCast == some word then some (castExpr deeper true)
  else if called then none
  else
    (d.reading.nowWords.find? (·.1 == word)).map fun (_, kind) => do
      let _ ← advance
      return .now kind

/-- The forms that a word can introduce by itself. -/
inductive WordForm (deeper : Deeper) (operand : Parser Expr) (d : Dialect) (word : String) : Parser Expr → Prop
  | null : WordForm deeper operand d word (advance >>= fun _ => Pure.pure (.literal .null))
  | truth (b : Bool) : WordForm deeper operand d word (advance >>= fun _ => Pure.pure (.literal (.boolean b)))
  | branches : WordForm deeper operand d word (caseExpr deeper)
  | cast : WordForm deeper operand d word (castExpr deeper false)
  | existence (h : word = "EXISTS") : WordForm deeper operand d word (advance >>= fun _ => existsExpr deeper false)
  | interval (h : d.writing.interval.isSome = true) : WordForm deeper operand d word (intervalExpr operand)
  | safeCast (h : d.writing.safeCast = some word) : WordForm deeper operand d word (castExpr deeper true)
  | now {entry : String × TemporalKind} (h : entry ∈ d.reading.nowWords) :
    WordForm deeper operand d word (advance >>= fun _ => Pure.pure (.now entry.2))

theorem wordForm_cases {deeper : Deeper} {operand : Parser Expr} {d : Dialect} {word : String} {called : Bool}
    {form : Parser Expr} (h : wordForm? deeper operand d word called = some form) :
    WordForm deeper operand d word form := by
  unfold wordForm? at h
  split at h
  · cases h
    exact .null
  split at h
  · cases h
    exact .truth _
  split at h
  · cases h
    exact .branches
  split at h
  · cases h
    exact .cast
  split at h
  · next hexists =>
    cases h
    exact .existence (beq_iff_eq.mp (Bool.and_eq_true_iff.mp hexists).1)
  split at h
  · next hinterval =>
    cases h
    exact .interval (Bool.and_eq_true_iff.mp hinterval).2
  split at h
  · next hsafe =>
    cases h
    exact .safeCast (beq_iff_eq.mp (Bool.and_eq_true_iff.mp hsafe).2)
  split at h
  · cases h
  · obtain ⟨entry, hfind, rfl⟩ := Option.map_eq_some_iff.mp h
    exact .now (List.mem_of_find?_eq_some hfind)

/-- An expression that starts with the bare word `t`. -/
def wordExpr (deeper : Deeper) (operand : Parser Expr) (t : Token) : Parser Expr := do
  let word := Text.upper t.text
  let d ← dialect
  let next ← peekNth 1
  let called := next.isSymbol "("
  if let some form := wordForm? deeper operand d word called then
    return ← form
  let typed := d.reading.typedLiterals && t.kind == .word && next.kind == .string
  if let some kind := (if typed then TemporalKind.ofKeyword? word else none) then
    return ← temporalLiteral kind
  if called && (t.kind == .word || keywordFunctions.contains word) then
    let _ ← advance
    nameFunction [⟨t.text, false⟩]
    return ← call deeper operand t.text t.position
  if t.kind == .keyword then
    expectHere "expression"
    unexpected
  chain deeper operand

/-- An expression without operators around it. -/
def primary (deeper : Deeper) (operand : Parser Expr) : Parser Expr := do
  let t ← peek
  match t.kind with
  | .number =>
    let _ ← advance
    return .literal (.number t.text)
  | .string =>
    let _ ← advance
    return .literal (.string t.text)
  | .param => param
  | .keyword | .word => wordExpr deeper operand t
  | .quotedName => chain deeper operand
  | .punctuation =>
    if t.text == "(" then
      parenthesized do
        if ← peekQuery then
          return .subquery (← deeper.query)
        return .nested (← deeper.expr 0)
    else
      expectHere "expression"
      unexpected
  | _ =>
    expectHere "expression"
    unexpected

/-- The unary operator that a token is. -/
def unaryOp? (t : Token) : Option UnaryOp :=
  if t.kind == .operator then
    if t.text == "-" then some .minus
    else if t.text == "+" then some .plus
    else if t.text == "~" then some .bitNot
    else none
  else none

/-- An operand: unary operators and what they apply to. `operand` reads those operands inside that
have no level of their own. -/
def operandWith (deeper : Deeper) (operand : Parser Expr) : Parser Expr := do
  if ← eatWord "NOT" then
    if ← eatWord "EXISTS" then
      return ← existsExpr deeper true
    return .unary .not (← deeper.expr .not)
  match unaryOp? (← peek) with
  | some op =>
    let _ ← advance
    return .unary op (← deeper.expr .unary)
  | none => primary deeper operand

/-- An operand with at most `n` operands in each other that have no level of their own. -/
def operandUpTo (deeper : Deeper) : Nat → Parser Expr
  | 0 => unexpected
  | n + 1 => operandWith deeper (operandUpTo deeper n)

/-- An operand. An operand inside it starts behind a token, so the number of tokens bounds how deep
they go. -/
def operandFrom (deeper : Deeper) : Parser Expr := do
  operandUpTo deeper ((← remaining) + 1)

/-! ## Operators -/

/-- What joins a left operand to the rest of an expression. -/
inductive Connective where
  | binary (op : BinaryOp)
  | doubleColon
  | is
  /-- `IN`, `LIKE` and `BETWEEN`, negated or not. -/
  | predicate
deriving DecidableEq, Repr

/-- The binary operator that the dialect sees in a token. -/
def operatorAt (rules : ReadingRules) (t : Token) : Option (Connective × Precedence) :=
  (rules.operator? t.text).map fun rule => (.binary rule.op, rule.precedence)

/-- The connective that the token `t` starts, with the token `next` behind it. -/
def connective? (rules : ReadingRules) (t next : Token) : Option (Connective × Precedence) :=
  if t.isBareWord then
    let word := Text.upper t.text
    if word == "AND" then some (.binary .and, .and)
    else if word == "OR" then some (.binary .or, .or)
    else if word == "IS" then some (.is, .comparison)
    else if word == "IN" || word == "LIKE" || word == "BETWEEN" then some (.predicate, .comparison)
    else if word == "ILIKE" && rules.ilike then some (.predicate, .comparison)
    else if word == "NOT" then
      let negatable := next.isWord "IN" || next.isWord "LIKE" || next.isWord "BETWEEN" ||
        (rules.ilike && next.isWord "ILIKE")
      if negatable then some (.predicate, .comparison) else none
    else operatorAt rules t
  else if t.kind == .operator then
    if t.text == "::" && rules.doubleColonCast then some (.doubleColon, .cast)
    else operatorAt rules t
  else none

/-- The list or the query of a test for membership, behind `IN`. -/
def membership (deeper : Deeper) (left : Expr) (negated : Bool) : Parser Expr := parenthesized do
  if ← peekQuery then
    return .inQuery left (← deeper.query) negated
  return .inList left (← commaSeparated (deeper.expr 0)) negated

/-- A predicate on `left`. -/
def predicate (deeper : Deeper) (left : Expr) : Parser Expr := do
  let negated ← eatWord "NOT"
  if ← eatWord "BETWEEN" then
    let low ← deeper.expr .comparison
    expectWord "AND"
    let high ← deeper.expr .comparison
    return .between left negated low high
  if ← eatWord "IN" then
    return ← membership deeper left negated
  let anyCase ←
    if ← eatWord "LIKE" then pure false
    else do
      expectWord "ILIKE"
      pure true
  let pattern ← deeper.expr .comparison
  let escape ← optional (eatWord "ESCAPE") (operandFrom deeper)
  return .like left pattern negated anyCase escape

/-- The expression of `left`, the connective that is next, and what follows it. -/
def joined (deeper : Deeper) (left : Expr) (c : Connective) (p : Precedence) : Parser Expr := do
  match c with
  | .binary op =>
    let _ ← advance
    return .binary left op (← deeper.expr p)
  | .doubleColon =>
    let _ ← advance
    return .cast left (← dataType) false
  | .is =>
    let _ ← advance
    let negated ← eatWord "NOT"
    expectWord "NULL"
    return .isNull left negated
  | .predicate => predicate deeper left

/-- `left` with the next connective, if that binds tighter than `least`. -/
def moreOperands (deeper : Deeper) (least : Precedence) (left : Expr) :
    Parser (Option Expr) := do
  match connective? (← rules) (← peek) (← peekNth 1) with
  | some (c, p) => if p ≤ least then return none else return some (← joined deeper left c p)
  | none => return none

/-- An expression whose operators bind tighter than `least`. -/
def subexpr (deeper : Deeper) (least : Precedence) : Parser Expr := do
  let left ← operandFrom deeper
  iterate (moreOperands deeper least) left

end Parser

end SqlDialects
