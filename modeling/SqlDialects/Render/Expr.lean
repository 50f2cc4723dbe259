import SqlDialects.Render.Basic
import SqlDialects.Tree.Expr

/-!
# Writing expressions and queries

* `Target.precedence` : how tightly an expression binds as it will be written;
* `Expr.texts` : the texts of the operands of a chain of concatenations, one text for any other
  expression, and `Render.whole` for the text that they make;
* `Query.text` : the text of a query.

Parts are written in the order in which the target has to see their bind parameters. An operand
has parentheses only where it would be regrouped without them: on the left if it binds looser than
its operator, on the right if it binds no tighter.
-/

namespace SqlDialects

open Render

/-! ## Operators -/

/-- How a binary operator is written. -/
inductive BinaryForm where
  /-- A symbol between the operands. -/
  | symbol (s : String)
  /-- A call of a function. -/
  | function (canonical : String)
  /-- One call for a whole chain. -/
  | chain
  /-- Not at all. -/
  | none
deriving DecidableEq, Repr

/-- How many blanks and what word negates a predicate. -/
def negation (negated : Bool) : String := if negated then "NOT " else ""

namespace Target

/-- How the operator `op` is written. -/
def binaryForm (t : Target) (op : BinaryOp) : BinaryForm :=
  let bySymbol (otherwise : BinaryForm) : BinaryForm :=
    match t.dialect.reading.spelling? op with
    | some rule => .symbol rule.symbol
    | none => otherwise
  match op with
  | .and => .symbol "AND"
  | .or => .symbol "OR"
  | .concat =>
    match t.dialect.writing.concat with
    | .function => .chain
    | .plus => .symbol "+"
    | .operator => bySymbol .none
  | .power => bySymbol (.function "POWER")
  | .modulo => bySymbol (.function "MOD")
  | _ => bySymbol .none

/-- How tightly the operator `op` binds as it is written. -/
def opPrecedence (t : Target) (op : BinaryOp) : Precedence :=
  let bySymbol (otherwise : Precedence) : Precedence :=
    match t.dialect.reading.spelling? op with
    | some rule => rule.precedence
    | none => otherwise
  match op with
  | .and => .and
  | .or => .or
  | .concat =>
    match t.dialect.writing.concat with
    | .function => .atom
    | .plus => .additive
    | .operator => bySymbol .concat
  | _ => bySymbol .atom

/-- The text of an amount that stands in quotes: a string or a number. -/
def quotedAmount? : Expr → Option String
  | .literal (.string s) => some s
  | .literal (.number s) => some s
  | _ => none

/-- How tightly an expression binds as it is written. -/
def precedence (t : Target) : Expr → Precedence
  | .binary _ op _ => t.opPrecedence op
  | .unary .not _ => .not
  | .unary _ _ => .unary
  | .between .. | .inList .. | .inQuery .. | .like .. | .isNull .. => .comparison
  | .exists _ true => .not
  | .interval amount _ =>
    if t.dialect.writing.interval == some .quoted && (quotedAmount? amount).isNone
    then .multiplicative else .atom
  | _ => .atom

/-- The text of the expression `e` as an operand of an operator of precedence `parent`, on its
right side or not. -/
def wrap (t : Target) (e : Expr) (parent : Precedence) (right : Bool) (text : String) : String :=
  let p := t.precedence e
  if p < parent || (right && p == parent) then s!"({text})" else text

/-- The text of a unary operator and its operand. Two minus signs would start a comment. -/
def unaryText (op : UnaryOp) (operand : String) : String :=
  match op with
  | .not => s!"NOT {operand}"
  | .minus => if operand.toList.head? == some '-' then s!"- {operand}" else s!"-{operand}"
  | .plus => s!"+{operand}"
  | .bitNot => s!"~{operand}"

/-- The precedence of a unary operator. -/
def unaryPrecedence : UnaryOp → Precedence
  | .not => .not
  | _ => .unary

/-- The text of operands that have been written: one alone, or several in a call of the function
that concatenates. -/
def whole (t : Target) : List String → String
  | [one] => one
  | many => s!"{t.functionName concatName}({String.intercalate listComma many})"
where
  /-- The function that concatenates. -/
  concatName : String := "CONCAT"
  /-- What stands between arguments. -/
  listComma : String := ", "

/-- A call with written arguments. -/
def callText (t : Target) (name : String) (distinct : Bool) (args : List String) : String :=
  let (name, args) :=
    match t.dialect.spelling? name, args with
    | some (.rename other), args => (other, args)
    | some (.swap other), a :: b :: rest => (other, b :: a :: rest)
    | some (.swap other), args => (other, args)
    | _, args => (name, args)
  let first := if distinct then "DISTINCT " else ""
  let list := String.intercalate ", " args
  s!"{name}({first}{list})"

/-- Whether a call is written as the position of one text in another. -/
def asksPosition (t : Target) (name : String) (args : List Arg) (window : Option Window) : Bool :=
  match t.dialect.spelling? name, args, window with
  | some .position, [.expr _, .expr _], none => true
  | _, _, _ => false

end Target

namespace Render

/-- The text that the texts of operands make. -/
def whole (p : Render (List String)) : Render String := do
  let texts ← p
  return (← target).whole texts

/-- One text as the only operand. -/
def single (p : Render String) : Render (List String) := do return [← p]

/-- The text of `e`, which `p` writes, as an operand. -/
def operand (e : Expr) (parent : Precedence) (right : Bool) (p : Render (List String)) :
    Render String := do
  let text ← whole p
  return (← target).wrap e parent right text

/-! ## Leaves -/

/-- A constant. -/
def literal (l : Literal) : Render String := do
  let t ← target
  match l with
  | .number digits => return digits
  | .string value => return t.string value
  | .null => return "NULL"
  | .boolean b =>
    match t.dialect.writing.booleans with
    | .keyword => return if b then "TRUE" else "FALSE"
    | .integer => return if b then "1" else "0"
  | .temporal kind value =>
    let text := t.string value
    match t.dialect.writing.temporals with
    | .keyword => return s!"{kind.keyword} {text}"
    | .cast => return s!"CAST({text} AS {t.dataType kind.dataType})"
    | .function =>
      match kind with
      | .date => return s!"DATE({text})"
      | .time => return s!"TIME({text})"
      | .timestamp => return s!"DATETIME({text})"

/-- A bind parameter with the ordinal `k`. A bare mark is written only if it binds `k`. -/
def ordinal (k : Nat) (positional : Bool) : Render String := do
  let inSequence ← bindInSequence k
  let t ← target
  match t.dialect.params with
  | .dollar => return s!"${k}"
  | .atName => return s!"@p{k}"
  | .colon => return s!":{k}"
  | .question => if inSequence then return t.bare k else unsupported "reordered bind parameter"
  | .questionNumbered => return if positional && inSequence then t.bare k else s!"?{k}"

/-- A bind parameter. -/
def param (p : Param) : Render String := do
  match p with
  | .positional k => ordinal k true
  | .numbered k => ordinal k false
  | .named name =>
    match (← target).dialect.writing.namedParamMark with
    | some mark => return s!"{mark}{name}"
    | none => unsupported "named parameter"

/-- The current date, time or timestamp. -/
def now (kind : TemporalKind) : Render String := do
  let w := (← target).dialect.writing
  match kind with
  | .date =>
    match w.currentDate with
    | some text => return text
    | none => unsupported "CURRENT_DATE"
  | .time =>
    match w.currentTime with
    | some text => return text
    | none => unsupported "CURRENT_TIME"
  | .timestamp => return w.currentTimestamp

/-! ## Parts with their operands written -/

/-- A binary operator between the operands `left` and `right`, which `l` and `r` write. -/
def binary (left : Expr) (op : BinaryOp) (right : Expr) (l r : Render (List String)) :
    Render (List String) := do
  let t ← target
  let p := t.opPrecedence op
  match t.binaryForm op with
  | .symbol s =>
    let l ← operand left p false l
    let r ← operand right p true r
    return [s!"{l} {s} {r}"]
  | .function canonical =>
    let l ← whole l
    let r ← whole r
    return [s!"{t.functionName canonical}({l}, {r})"]
  | .chain =>
    let l ← l
    let r ← r
    return l ++ r
  | .none => unsupported op.describe

/-- An interval of the amount `e`, which `p` writes. -/
def interval (e : Expr) (unit : Option DateField) (p : Render (List String)) :
    Render String := do
  let t ← target
  match t.dialect.writing.interval with
  | none => unsupported "INTERVAL"
  | some .quoted =>
    match Target.quotedAmount? e, unit with
    | some text, none => return s!"INTERVAL {t.string text}"
    | some text, some u => return s!"INTERVAL {t.string text} {u.keyword}"
    | none, some u =>
      let amount ← operand e .multiplicative false p
      return s!"{amount} * INTERVAL '1' {u.keyword}"
    | none, none => unsupported "INTERVAL without a unit"
  | some .bare =>
    match e, unit with
    | .literal (.string s), none =>
      match splitInterval? s with
      | some (amount, u) => return s!"INTERVAL {amount} {u.keyword}"
      | none => unsupported s!"INTERVAL '{s}'"
    | e, some u =>
      let amount ← operand e .unary false p
      return s!"INTERVAL {amount} {u.keyword}"
    | _, none => unsupported "INTERVAL without a unit"

/-- A comparison by pattern of `left` and `right`, which `l` and `r` write, up to the escape. A
dialect that has no comparison in any case compares the lower-case forms. -/
def pattern (left right : Expr) (negated anyCase : Bool) (l r : Render (List String)) :
    Render String := do
  let t ← target
  let word := negation negated
  if !anyCase || t.dialect.reading.ilike then
    let l ← operand left .comparison false l
    let r ← operand right .comparison true r
    let keyword := if anyCase then "ILIKE" else "LIKE"
    return s!"{l} {word}{keyword} {r}"
  else
    let l ← whole l
    let r ← whole r
    return s!"{t.callText lowerName false [l]} {word}LIKE {t.callText lowerName false [r]}"
where
  /-- The function of lower case. -/
  lowerName : String := "LOWER"

/-- A subquery in parentheses. -/
def block (p : Render String) : Render String := do
  let text ← p
  return (← target).block text

/-- The arbitrary ordering, for a dialect that needs one before an offset. -/
def arbitraryOrder : Render String := do
  let t ← target
  let dummy := (t.dialect.writing.dummyTable.map fun table => s!"FROM {table}").toList
  return t.block (t.clauses (t.listClause "SELECT" ["NULL"] :: dummy))

/-- The keys of an ordering, or the arbitrary ordering where one is needed and there are no keys. -/
def ordering (needed : Bool) (keys : List String) : Render (List String) :=
  if keys.isEmpty && needed then single arbitraryOrder else pure keys

/-- `LIMIT` and `OFFSET`. An offset alone takes the greatest count, where the dialect has one. -/
def limitOffset (count offset : Render (Option String)) : Render (List String) := do
  let count ← count
  let offset ← offset
  let most := (← target).dialect.writing.maxLimit
  let count := count <|> if offset.isSome then most else none
  return (count.map fun c => s!"LIMIT {c}").toList ++ (offset.map fun o => s!"OFFSET {o}").toList

/-- `LIMIT` with the offset before the count. -/
def limitComma (count offset : Render (Option String)) : Render (List String) := do
  let offset := (← offset).getD ""
  let count := (← count).getD ""
  return [s!"LIMIT {offset}, {count}"]

/-- The clauses of a row limit behind the ordering; `hasCount` and `hasOffset` tell what `count` and
`offset` write. -/
def limitClauses (hasCount hasOffset : Bool) (count offset : Render (Option String)) :
    Render (List String) := do
  let d := (← target).dialect
  match d.writing.limitStyle with
  | .limitOffset =>
    -- The form with a comma keeps the order of binds where bare parameters need it.
    if d.reading.limitComma && hasCount && hasOffset then
      orElse (limitOffset count offset) (limitComma count offset)
    else limitOffset count offset
  | .offsetLimit =>
    let offset := (← offset).map fun o => s!"OFFSET {o}"
    let count := (← count).map fun c => s!"LIMIT {c}"
    return offset.toList ++ count.toList
  | .fetchFirst =>
    let offset := (← offset).map fun o => s!"OFFSET {o} ROWS"
    let count := (← count).map fun c => s!"FETCH FIRST {c} ROWS ONLY"
    return offset.toList ++ count.toList
  | .limitOnly =>
    if hasOffset then unsupported Construct.offset.describe
    let count := (← count).map fun c => s!"LIMIT {c}"
    return count.toList
  | .top fetch =>
    if !fetch then unsupported (if hasOffset then "OFFSET" else "TOP")
    let offset := (← offset).getD "0"
    let count := (← count).map fun c => s!"FETCH NEXT {c} ROWS ONLY"
    return s!"OFFSET {offset} ROWS" :: count.toList

/-- The alias of a relation that has been written. -/
def aliased (relation : String) (label : Option TableAlias) : Render String := do
  let t ← target
  match label with
  | some a => return s!"{relation}{t.aliasWord}{t.name a.name}{t.columns a.columns}"
  | none => return relation

/-- The words of a join. -/
def joinWords (natural : Bool) (kind : JoinKind) : Render String := do
  if natural then require .naturalJoin
  if kind == .full then require .fullOuterJoin
  let word :=
    match kind with
    | .inner => "JOIN"
    | .left => "LEFT JOIN"
    | .right => "RIGHT JOIN"
    | .full => "FULL OUTER JOIN"
    | .cross => "CROSS JOIN"
  return if natural then s!"NATURAL {word}" else word

end Render

/-- The word of a set operation. -/
def Target.setWord (t : Target) (op : SetOp) (quantifier : SetQuantifier) : String :=
  let word :=
    match op with
    | .union => "UNION"
    | .intersect => "INTERSECT"
    | .except => t.dialect.writing.exceptKeyword
  match quantifier with
  | .none => word
  | .all => word ++ " ALL"
  | .distinct => word ++ " DISTINCT"

/-- Whether a body is one `SELECT`. -/
def Body.isSelect : Body → Bool
  | .select _ => true
  | _ => false

/-- Whether a body is a set operation. -/
def Body.isCombine : Body → Bool
  | .combine .. => true
  | _ => false

/-- Whether a join is natural. -/
def JoinCondition.isNatural : JoinCondition → Bool
  | .natural => true
  | _ => false

/-- Whether the `SELECT` of a query in this target carries the row limit `l` as a `TOP` count. -/
def Target.hasTop (t : Target) (body : Body) (l : Limit) : Bool :=
  match t.dialect.writing.limitStyle with
  | .top _ => l.count.isSome && l.offset.isNone && body.isSelect
  | _ => false

/-! ## Trees -/

mutual

/-- The texts of the operands of a chain of concatenations that the dialect writes by one call, and
one text for any other expression. -/
def Expr.texts : Expr → Render (List String)
  | .name n => do return [(← target).name n]
  | .path parts => do return [(← target).path parts]
  | .literal l => single (literal l)
  | .param p => single (param p)
  | .binary left op right => binary left op right left.texts right.texts
  | .unary op e => do
    let text ← operand e (Target.unaryPrecedence op) false e.texts
    return [Target.unaryText op text]
  | .call f => single f.text
  | .cast e type safe => do
    let t ← target
    match safe, t.dialect.writing.safeCast with
    | true, none => unsupported "TRY_CAST"
    | true, some word =>
      let text ← whole e.texts
      return [s!"{word}({text} AS {t.dataType type})"]
    | false, _ =>
      let text ← whole e.texts
      return [s!"CAST({text} AS {t.dataType type})"]
  | .case subject branches otherwise => do
    let subject ← optionTexts subject
    let branches ← branchTexts branches
    let otherwise ← optionTexts otherwise
    let otherwise := otherwise.map fun e => s!"ELSE {e}"
    return [String.intercalate " " (["CASE"] ++ subject ++ branches ++ otherwise ++ ["END"])]
  | .cond condition yes no => do
    let condition ← whole condition.texts
    let yes ← whole yes.texts
    let no ← whole no.texts
    match (← target).dialect.writing.ifFunction with
    | some function => return [s!"{function}({condition}, {yes}, {no})"]
    | none => return [s!"CASE WHEN {condition} THEN {yes} ELSE {no} END"]
  | .between e negated low high => do
    let text ← operand e .comparison false e.texts
    let low ← operand low .comparison true low.texts
    let high ← operand high .comparison true high.texts
    return [s!"{text} {negation negated}BETWEEN {low} AND {high}"]
  | .inList e items negated => do
    let items ← exprTexts items
    let text ← operand e .comparison false e.texts
    let list := String.intercalate ", " items
    return [s!"{text} {negation negated}IN ({list})"]
  | .inQuery e query negated => do
    let text ← operand e .comparison false e.texts
    let query ← block query.text
    return [s!"{text} {negation negated}IN {query}"]
  | .like e p negated anyCase escape => do
    let text ← pattern e p negated anyCase e.texts p.texts
    let escape ← escapeText escape
    return [text ++ escape]
  | .isNull e negated => do
    let text ← operand e .comparison false e.texts
    return [s!"{text} IS {negation negated}NULL"]
  | .exists query negated => do
    let query ← block query.text
    return [s!"{negation negated}EXISTS {query}"]
  | .subquery query => single (block query.text)
  | .nested e => do
    let text ← whole e.texts
    return [s!"({text})"]
  | .extract field e => do
    match (← target).dialect.writing.extract with
    | some .standard =>
      let text ← whole e.texts
      return [s!"EXTRACT({field.keyword} FROM {text})"]
    | some .datePart =>
      let text ← whole e.texts
      return [s!"DATEPART({field.datepart}, {text})"]
    | none => unsupported "EXTRACT"
  | .interval e unit => single (interval e unit e.texts)
  | .now kind => single (now kind)

/-- The text of an expression that may be missing, as a list of at most one. -/
def optionTexts : Option Expr → Render (List String)
  | none => return []
  | some e => do return [← whole e.texts]

/-- The escape clause of a comparison by pattern. -/
def escapeText : Option Expr → Render String
  | none => return ""
  | some e => do
    let text ← operand e .unary false e.texts
    return s!" ESCAPE {text}"

/-- The texts of expressions. -/
def exprTexts : List Expr → Render (List String)
  | [] => return []
  | e :: es => do
    let text ← whole e.texts
    return text :: (← exprTexts es)

/-- The texts of branches. -/
def branchTexts : List Branch → Render (List String)
  | [] => return []
  | ⟨condition, result⟩ :: rest => do
    let condition ← whole condition.texts
    let result ← whole result.texts
    return s!"WHEN {condition} THEN {result}" :: (← branchTexts rest)

/-- The text of a call. -/
def Call.text : Call → Render String
  | ⟨name, args, distinct, window⟩ => do
    let t ← target
    if t.asksPosition name args window then positionText args
    else
      let args ← argTexts args
      let window ← overText window
      return t.callText name distinct args ++ window

/-- The text of a call for a position: the needle stands before the haystack. -/
def positionText : List Arg → Render String
  | [.expr haystack, .expr needle] => do
    let needle ← operand needle .comparison true needle.texts
    let haystack ← whole haystack.texts
    return s!"POSITION({needle} IN {haystack})"
  | _ => unsupported "POSITION"

/-- The texts of arguments. -/
def argTexts : List Arg → Render (List String)
  | [] => return []
  | .star :: rest => do return "*" :: (← argTexts rest)
  | .expr e :: rest => do
    let text ← whole e.texts
    return text :: (← argTexts rest)

/-- The window of a call behind it. -/
def overText : Option Window → Render String
  | none => return ""
  | some ⟨partitionBy, order, frame⟩ => do
    let keys ← exprTexts partitionBy
    let order ← orderTexts order
    let frame ← frameText frame
    let clause (keyword : String) (items : List String) : List String :=
      if items.isEmpty then [] else [keyword ++ String.intercalate ", " items]
    let parts := clause "PARTITION BY " keys ++ clause "ORDER BY " order ++ frame
    return " OVER (" ++ String.intercalate " " parts ++ ")"

/-- The texts of the keys of an ordering. -/
def orderTexts : List OrderItem → Render (List String)
  | [] => return []
  | ⟨key, ascending, nullsFirst⟩ :: rest => do
    let key ← whole key.texts
    if nullsFirst.isSome then require .nullsOrdering
    let direction := (ascending.map fun a => if a then " ASC" else " DESC").getD ""
    let nulls := (nullsFirst.map fun f => if f then " NULLS FIRST" else " NULLS LAST").getD ""
    return (key ++ direction ++ nulls) :: (← orderTexts rest)

/-- The text of a window frame, as a list of at most one. -/
def frameText : Option Frame → Render (List String)
  | none => return []
  | some ⟨unit, start, stop⟩ => do
    let unit := match unit with
      | .rows => "ROWS"
      | .range => "RANGE"
    let start ← start.text
    match ← stopText stop with
    | some stop => return [s!"{unit} BETWEEN {start} AND {stop}"]
    | none => return [s!"{unit} {start}"]

/-- The text of the second end of a window frame. -/
def stopText : Option Bound → Render (Option String)
  | none => return none
  | some b => do return some (← b.text)

/-- The text of an end of a window frame. -/
def Bound.text : Bound → Render String
  | .unboundedPreceding => return "UNBOUNDED PRECEDING"
  | .unboundedFollowing => return "UNBOUNDED FOLLOWING"
  | .currentRow => return "CURRENT ROW"
  | .preceding e => do
    let text ← operand e .unary false e.texts
    return s!"{text} PRECEDING"
  | .following e => do
    let text ← operand e .unary false e.texts
    return s!"{text} FOLLOWING"

/-- The text of a query. A `TOP` count is written before the `SELECT` that carries it. -/
def Query.text : Query → Render String
  | ⟨ctes, body, order, limit⟩ => do
    let t ← target
    let ctes ← withTexts ctes
    let top ← topText body limit
    let body ← body.text top
    let order ← orderTexts order
    let needed := t.dialect.writing.limitStyle == .top true && limit.isSome
    let order ← ordering (top.isNone && needed) order
    let order := if order.isEmpty then [] else [t.listClause "ORDER BY" order]
    let limit ← if top.isSome then pure [] else limitTexts limit
    return t.clauses (ctes ++ body :: order ++ limit)

/-- The `TOP` count of a query, if the dialect writes the row limit that way and the body can carry
it. -/
def topText (body : Body) : Option Limit → Render (Option String)
  | none => return none
  | some ⟨count, offset⟩ => do
    if (← target).hasTop body ⟨count, offset⟩ then
      match count with
      | some (.literal (.number digits)) => return some s!"TOP {digits}"
      | some e =>
        let text ← whole e.texts
        return some s!"TOP ({text})"
      | none => return none
    else return none

/-- The clauses of a row limit behind the ordering. -/
def limitTexts : Option Limit → Render (List String)
  | none => return []
  | some ⟨count, offset⟩ =>
    limitClauses count.isSome offset.isSome (optionText count) (optionText offset)

/-- The text of an expression that may be missing. -/
def optionText : Option Expr → Render (Option String)
  | none => return none
  | some e => do return some (← whole e.texts)

/-- The common table expressions of a query, as a list of at most one text. -/
def withTexts : Option With → Render (List String)
  | none => return []
  | some ⟨recursive, tables⟩ => do
    let tables ← cteTexts tables
    let keyword := if recursive then "WITH RECURSIVE " else "WITH "
    return [keyword ++ String.intercalate (← target).comma tables]

/-- The texts of common table expressions. -/
def cteTexts : List Cte → Render (List String)
  | [] => return []
  | ⟨name, columns, query⟩ :: rest => do
    let query ← block query.text
    let t ← target
    return s!"{t.name name}{t.columns columns} AS {query}" :: (← cteTexts rest)

/-- The text of a body; `top` is the `TOP` count of its `SELECT`. -/
def Body.text : Body → Option String → Render String
  | .select s, top => s.text top
  | .query q, _ => block q.text
  | .values rows, _ => do
    let rows ← rowTexts rows
    return (← target).listClause "VALUES" rows
  | .combine op quantifier left right, _ => do
    let t ← target
    let left ← left.text none
    let text ← right.text none
    let text := if right.isCombine then t.block text else text
    return t.clauses [left, t.setWord op quantifier, text]

/-- The texts of rows of values. -/
def rowTexts : List (List Expr) → Render (List String)
  | [] => return []
  | row :: rest => do
    let row ← exprTexts row
    let list := String.intercalate ", " row
    return s!"({list})" :: (← rowTexts rest)

/-- The text of a `SELECT` block with the `TOP` count `top`. -/
def Select.text : Select → Option String → Render String
  | ⟨distinct, items, sources, condition, groupBy, having, qualify⟩, top => do
    let t ← target
    let distinct ← distinctText distinct
    let top := (top.map fun text => s!" {text}").getD ""
    let items ← itemTexts items
    let tables ← sourceTexts sources
    let tables :=
      if tables.isEmpty then (t.dialect.writing.dummyTable.map fun d => s!"FROM {d}").toList
      else [t.listClause "FROM" tables]
    let condition ← optionTexts condition
    let groups ← exprTexts groupBy
    let groups := if groups.isEmpty then [] else [t.listClause "GROUP BY" groups]
    let having ← optionTexts having
    if qualify.isSome then require .qualify
    let qualify ← optionTexts qualify
    let clause (keyword : String) (texts : List String) : List String :=
      texts.map fun text => keyword ++ text
    return t.clauses (t.listClause ("SELECT" ++ distinct ++ top) items :: tables ++
      clause "WHERE " condition ++ groups ++ clause "HAVING " having ++
      clause "QUALIFY " qualify)

/-- The word that removes duplicates. -/
def distinctText : Option Distinct → Render String
  | none => return ""
  | some .all => return " DISTINCT"
  | some (.on keys) => do
    require .distinctOn
    let keys ← exprTexts keys
    let list := String.intercalate ", " keys
    return s!" DISTINCT ON ({list})"

/-- The texts of the items of a projection. -/
def itemTexts : List SelectItem → Render (List String)
  | [] => return []
  | .star :: rest => do return "*" :: (← itemTexts rest)
  | .qualifiedStar table :: rest => do
    let path := (← target).path table
    return s!"{path}.*" :: (← itemTexts rest)
  | .expr e label :: rest => do
    let text ← whole e.texts
    let t ← target
    let text := (label.map fun a => s!"{text} AS {t.name a}").getD text
    return text :: (← itemTexts rest)

/-- The texts of sources. -/
def sourceTexts : List Source → Render (List String)
  | [] => return []
  | ⟨relation, joins⟩ :: rest => do
    let relation ← relation.text
    let joins ← joinTexts joins
    return (relation ++ joins) :: (← sourceTexts rest)

/-- The text of a relation. -/
def Relation.text : Relation → Render String
  | .table name label => do aliased ((← target).path name) label
  | .derived query label => do
    let query ← block query.text
    aliased query label
  | .function call label => do
    let call ← call.text
    aliased call label

/-- The texts of joins, each behind a separator. -/
def joinTexts : List Join → Render String
  | [] => return ""
  | ⟨relation, kind, condition⟩ :: rest => do
    let words ← joinWords condition.isNatural kind
    let relation ← relation.text
    let condition ← condition.text
    let separator := (← target).separator
    let rest ← joinTexts rest
    return s!"{separator}{words} {relation}{condition}{rest}"

/-- The text of the condition of a join. -/
def JoinCondition.text : JoinCondition → Render String
  | .on e => do
    let text ← whole e.texts
    return s!" ON {text}"
  | .using columns => do
    require .joinUsing
    let list := (← target).names columns
    return s!" USING ({list})"
  | .natural | .none => return ""

end

/-- The text of an expression. -/
def Expr.text (e : Expr) : Render String := whole e.texts

end SqlDialects
