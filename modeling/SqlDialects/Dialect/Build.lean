import SqlDialects.Dialect.Basic

/-!
# Building dialects

* `Dialect.base` : standard SQL with the common extensions switched off;
* one function per property of a dialect. Those that concern both reading and writing change both
  sides at once, so that a dialect reads what it writes;
* `Change` : these functions as data, and `Dialect.change` to apply one.
-/

namespace SqlDialects

/-! ## The common base -/

/-- The words that standard SQL reserves. -/
def baseReserved : List String :=
  ["ALL", "AND", "AS", "ASC", "BETWEEN", "BY", "CASE", "CAST", "CREATE", "CROSS",
    "CURRENT_DATE", "CURRENT_TIME", "CURRENT_TIMESTAMP", "DEFAULT", "DELETE", "DESC",
    "DISTINCT", "DROP", "ELSE", "END", "EXCEPT", "EXISTS", "FALSE", "FOR", "FROM", "FULL",
    "GROUP", "HAVING", "IN", "INNER", "INSERT", "INTERSECT", "INTERVAL", "INTO", "IS", "JOIN",
    "LEFT", "LIKE", "NATURAL", "NOT", "NULL", "ON", "OR", "ORDER", "OUTER", "PRIMARY",
    "RIGHT", "SELECT", "SET", "TABLE", "THEN", "TRUE", "UNION", "UNIQUE", "UPDATE", "USING",
    "VALUES", "WHEN", "WHERE", "WITH"]

/-- The operators of standard SQL. -/
def baseOperators : List OperatorRule :=
  [⟨"=", .eq, .comparison⟩, ⟨"<>", .notEq, .comparison⟩, ⟨"!=", .notEq, .comparison⟩,
    ⟨"<", .lt, .comparison⟩, ⟨"<=", .ltEq, .comparison⟩, ⟨">", .gt, .comparison⟩,
    ⟨">=", .gtEq, .comparison⟩, ⟨"+", .plus, .additive⟩, ⟨"-", .minus, .additive⟩,
    ⟨"*", .multiply, .multiplicative⟩, ⟨"/", .divide, .multiplicative⟩,
    ⟨"%", .modulo, .multiplicative⟩, ⟨"||", .concat, .concat⟩, ⟨"&", .bitAnd, .bitAnd⟩,
    ⟨"|", .bitOr, .bitOr⟩, ⟨"^", .bitXor, .bitXor⟩, ⟨"<<", .shiftLeft, .shift⟩,
    ⟨">>", .shiftRight, .shift⟩]

/-- Function names that every dialect reads as another. -/
def baseAliases : Table String FunctionAlias :=
  [("NVL", .rename "COALESCE"), ("IFNULL", .rename "COALESCE"),
    ("CHAR_LENGTH", .rename "LENGTH"), ("CHARACTER_LENGTH", .rename "LENGTH"),
    ("LEN", .rename "LENGTH"), ("SUBSTR", .rename "SUBSTRING"), ("RAND", .rename "RANDOM"),
    ("CEILING", .rename "CEIL"), ("POW", .rename "POWER"), ("INSTR", .rename "STRPOS"),
    ("CHARINDEX", .swap "STRPOS"), ("LOCATE", .swap "STRPOS")]

/-- The standard words for the current date and time. -/
def standardNowWords : List (String × TemporalKind) :=
  [("CURRENT_DATE", .date), ("CURRENT_TIME", .time), ("CURRENT_TIMESTAMP", .timestamp)]

namespace Dialect

/-! ## Constructs and words -/

/-- The dialect under another name. -/
def named (d : Dialect) (name : String) : Dialect := { d with name }

/-- The dialect with `word`, in upper case, reserved. -/
def reserveWord (d : Dialect) (word : String) : Dialect :=
  { d with lexical := d.lexical.reserve word }

/-- The dialect with `word`, in upper case, free. -/
def releaseWord (d : Dialect) (word : String) : Dialect :=
  { d with lexical := d.lexical.release word }

/-- The dialect with all of `words` reserved. -/
def reserve (d : Dialect) (words : List String) : Dialect :=
  words.foldl (fun d w => d.reserveWord (Text.upper w)) d

/-- The dialect with all of `words` free. -/
def release (d : Dialect) (words : List String) : Dialect :=
  words.foldl (fun d w => d.releaseWord (Text.upper w)) d

/-- The dialect without `c` among what it cannot say. -/
def allow (d : Dialect) (c : Construct) : Dialect :=
  { d with unsupported := d.unsupported.filter (· != c) }

/-- The dialect able to say `c`, with the word that introduces it reserved. -/
def support (d : Dialect) (c : Construct) : Dialect :=
  let d := d.allow c
  match c with
  | .qualify => d.reserveWord "QUALIFY"
  | .returning => d.reserveWord "RETURNING"
  | _ => d

/-- The dialect unable to say `c`. -/
def forbid (d : Dialect) (c : Construct) : Dialect :=
  { d with unsupported := d.unsupported.insert c }

/-! ## Operators, casts, names -/

/-- The dialect with a meaning for an operator symbol, in place of an earlier one. -/
def operator (d : Dialect) (symbol : String) (op : BinaryOp) (p : Precedence) : Dialect :=
  { d with
    reading.operators := d.reading.operators.filter (·.symbol != symbol) ++ [⟨symbol, op, p⟩]
    lexical := d.lexical.addOperator symbol }

/-- The dialect that prefers `symbol` among the spellings of its operator. -/
def preferOperator (d : Dialect) (symbol : String) : Dialect :=
  match d.reading.operators.find? (·.symbol == symbol) with
  | some rule =>
    { d with
      reading.operators := rule :: d.reading.operators.eraseP (·.symbol == symbol) }
  | none => d

/-- The dialect without a meaning for an operator symbol. -/
def removeOperator (d : Dialect) (symbol : String) : Dialect :=
  { d with
    reading.operators := d.reading.operators.filter (·.symbol != symbol) }

/-- The dialect that quotes names by `left` and `right`. -/
def quoteNames (d : Dialect) (left right : Char) : Dialect :=
  { d with
    lexical.nameQuotes := (left, right) :: d.lexical.nameQuotes.filter (·.1 != left)
    writing.nameQuote := (left, right) }

/-- The dialect that reads `x::type` as a cast. -/
def doubleColonCast (d : Dialect) : Dialect :=
  { d with
    reading.doubleColonCast := true
    lexical := d.lexical.addOperator "::" }

/-- The dialect with the comparison `ILIKE`. -/
def ilike (d : Dialect) : Dialect :=
  { d with reading.ilike := true }.reserveWord "ILIKE"

/-! ## Row limits -/

/-- The reading rules for the clauses of a row limit. -/
def limitReading (r : ReadingRules) : LimitStyle → ReadingRules
  | .limitOffset | .offsetLimit =>
    { r with top := false, fetch := false, offsetRequiresOrder := false,
             limit := true, offset := true }
  | .top fetch =>
    { r with top := true, fetch := fetch, offsetRequiresOrder := fetch,
             limit := false, limitComma := false, offset := fetch }
  | .fetchFirst =>
    { r with top := false, fetch := true, offsetRequiresOrder := false,
             limit := false, limitComma := false, offset := true }
  | .limitOnly =>
    { r with top := false, fetch := false, offsetRequiresOrder := false,
             limit := true, offset := false }

/-- The words that introduce a row limit, with whether the rules read them. -/
def limitWords (r : ReadingRules) : List (String × Bool) :=
  [("LIMIT", r.limit), ("OFFSET", r.offset), ("FETCH", r.fetch), ("TOP", r.top)]

/-- The dialect that limits rows in the given style. It reads the clauses of that style, reserves
their words and no others of them. -/
def limitStyle (d : Dialect) (style : LimitStyle) : Dialect :=
  let r := limitReading d.reading style
  let words := limitWords r
  let d := { d with reading := r, writing.limitStyle := style }
  let d := (words.map Prod.fst).foldl releaseWord d
  let d := ((words.filter Prod.snd).map Prod.fst).foldl reserveWord d
  if r.offset then d.allow .offset else d.forbid .offset

/-- The dialect that reads `LIMIT` besides the clauses of its style. -/
def acceptLimit (d : Dialect) : Dialect :=
  { d with reading.limit := true }.reserveWord "LIMIT"

/-- The dialect that reads `LIMIT o, c`. -/
def limitComma (d : Dialect) : Dialect := { d with reading.limitComma := true }

/-- The dialect whose offsets follow a limit; an offset alone is written with the count `most`. -/
def offsetRequiresLimit (d : Dialect) (most : String) : Dialect :=
  { d with reading.offsetRequiresLimit := true, writing.maxLimit := some most }

/-! ## Constants and special functions -/

/-- The dialect that has numbers for truth values. -/
def integerBooleans (d : Dialect) : Dialect :=
  let d := { d with reading.booleanLiterals := false, writing.booleans := .integer }
  (d.releaseWord "TRUE").releaseWord "FALSE"

/-- The dialect that writes constant dates and times in the given style; it reads typed constants
only if it writes them. -/
def temporalStyle (d : Dialect) (style : TemporalStyle) : Dialect :=
  { d with reading.typedLiterals := style == .keyword, writing.temporals := style }

/-- The dialect with a conditional function. -/
def ifFunction (d : Dialect) (name : String) : Dialect :=
  let name := Text.upper name
  { d with
    reading.ifFunctions :=
      if d.reading.ifFunctions.contains name then d.reading.ifFunctions
      else d.reading.ifFunctions ++ [name]
    writing.ifFunction := some name }

/-- The dialect with a cast that does not fail. -/
def safeCast (d : Dialect) (name : String) : Dialect :=
  { d with writing.safeCast := some (Text.upper name) }.allow .tryCast

/-- The dialect with its words and functions for the current date and time: words read without
parentheses, functions read with empty ones, and the texts written for the date, the time and the
timestamp. -/
def currentTimes (d : Dialect) (words functions : List (String × TemporalKind))
    (date time timestamp : Option String) : Dialect :=
  { d with
    reading.nowWords := words
    reading.nowFunctions := functions
    writing.currentDate := date
    writing.currentTime := time
    writing.currentTimestamp := timestamp.getD d.writing.currentTimestamp }

/-! ## Functions and types -/

/-- The dialect that reads calls of `name` as `target` says. -/
def aliasFunction (d : Dialect) (name : String) (target : FunctionAlias) : Dialect :=
  { d with
    reading.functionAliases := d.reading.functionAliases.insert (Text.upper name) target }

/-- The dialect that writes the function `canonical` as `spelling` and reads `rendered` as `target`
says. -/
def spellFunction (d : Dialect) (canonical rendered : String) (target : FunctionAlias)
    (spelling : FunctionSpelling) : Dialect :=
  let d := d.aliasFunction rendered target
  { d with
    writing.functionNames := d.writing.functionNames.insert canonical spelling }

/-- The dialect with another name for a function. -/
def renameFunction (d : Dialect) (canonical rendered : String) : Dialect :=
  let canonical := Text.upper canonical
  d.spellFunction canonical rendered (.rename canonical) (.rename rendered)

/-- The dialect with another name for a function, and its first two arguments exchanged. -/
def swapFunction (d : Dialect) (canonical rendered : String) : Dialect :=
  let canonical := Text.upper canonical
  d.spellFunction canonical rendered (.swap canonical) (.swap rendered)

/-- The dialect that writes the search in a string as `POSITION(needle IN haystack)`. -/
def positionFunction (d : Dialect) : Dialect :=
  { d with
    writing.functionNames := d.writing.functionNames.insert "STRPOS" .position }

/-- The dialect with another name for a kind of type. -/
def renameType (d : Dialect) (kind : TypeKind) (name : String) : Dialect :=
  { d with
    reading.typeNames := d.reading.typeNames.insert (Text.upper name) kind
    writing.typeNames := d.writing.typeNames.insert kind name }

/-- The dialect that writes a kind of type under the name of another. It reads no name as that
kind any more. -/
def foldType (d : Dialect) (kind : TypeKind) (name : String) : Dialect :=
  { d with
    reading.typeNames := d.reading.typeNames.keep (· != kind)
    writing.typeNames := d.writing.typeNames.insert kind name
    writing.foldedTypes := d.writing.foldedTypes.insert kind }

/-! ## Parameters and generated columns -/

/-- The dialect that writes parameters in the given style, reads the given marks, and has `named`
as the mark of named parameters. -/
def bindBy (d : Dialect) (style : ParamStyle) (marks : List Char) (named : Option Char) :
    Dialect :=
  { d with
    params := style
    lexical.paramMarks := marks
    reading.positionalParams := marks.contains '?'
    reading.numberedParams :=
      match style with
      | .dollar | .questionNumbered | .colon => true
      | .question | .atName => false
    reading.namedParams := named.isSome
    writing.namedParamMark := named }

/-- The dialect that writes columns with generated values in the given style, or has none. -/
def autoIncrementBy (d : Dialect) (style : Option AutoIncrementStyle) : Dialect :=
  let d := { d with autoIncrement := style }
  if style.isSome then d.allow .autoIncrement else d.forbid .autoIncrement

/-! ## The base -/

/-- Standard SQL with the common extensions switched off. -/
def base (name : String) : Dialect :=
  let lexical : LexicalRules :=
    { reserved := baseReserved, nameQuotes := [('"', '"')], stringQuotes := ['\''],
      paramMarks := ['?'] }
  let lexical := (baseOperators.map OperatorRule.symbol ++ ["~"]).foldl
    LexicalRules.addOperator lexical
  let reading : ReadingRules :=
    { operators := baseOperators, nowWords := standardNowWords, functionAliases := baseAliases,
      typeNames := commonTypeNames }
  let writing : WritingRules :=
    { nameQuote := ('"', '"'), limitStyle := .fetchFirst, currentDate := some "CURRENT_DATE",
      currentTime := some "CURRENT_TIME", currentTimestamp := "CURRENT_TIMESTAMP" }
  let d : Dialect :=
    { name, lexical, reading, writing,
      unsupported := [.qualify, .distinctOn, .returning, .tryCast],
      params := .question, autoIncrement := some .generatedIdentity }
  d.limitStyle .fetchFirst

end Dialect

/-! ## Changes as data -/

/-- A change of a dialect. -/
inductive Change where
  | named (name : String)
  | support (c : Construct)
  | forbid (c : Construct)
  | reserve (words : List String)
  | release (words : List String)
  | operator (symbol : String) (op : BinaryOp) (p : Precedence)
  | preferOperator (symbol : String)
  | removeOperator (symbol : String)
  | quoteNames (left right : Char)
  | doubleColonCast
  | ilike
  | limitStyle (style : LimitStyle)
  | acceptLimit
  | limitComma
  | offsetRequiresLimit (most : String)
  | integerBooleans
  | temporalStyle (style : TemporalStyle)
  | ifFunction (name : String)
  | safeCast (name : String)
  | aliasFunction (name : String) (target : FunctionAlias)
  | renameFunction (canonical rendered : String)
  | swapFunction (canonical rendered : String)
  | positionFunction
  | renameType (kind : TypeKind) (name : String)
  | foldType (kind : TypeKind) (name : String)
  | bindBy (style : ParamStyle) (marks : List Char) (named : Option Char)
  | autoIncrementBy (style : Option AutoIncrementStyle)
  | currentTimes (words functions : List (String × TemporalKind))
      (date time timestamp : Option String)
deriving DecidableEq, Repr

/-- The dialect after a change. -/
def Dialect.change (d : Dialect) : Change → Dialect
  | .named name => d.named name
  | .support c => d.support c
  | .forbid c => d.forbid c
  | .reserve words => d.reserve words
  | .release words => d.release words
  | .operator symbol op p => d.operator symbol op p
  | .preferOperator symbol => d.preferOperator symbol
  | .removeOperator symbol => d.removeOperator symbol
  | .quoteNames left right => d.quoteNames left right
  | .doubleColonCast => d.doubleColonCast
  | .ilike => d.ilike
  | .limitStyle style => d.limitStyle style
  | .acceptLimit => d.acceptLimit
  | .limitComma => d.limitComma
  | .offsetRequiresLimit most => d.offsetRequiresLimit most
  | .integerBooleans => d.integerBooleans
  | .temporalStyle style => d.temporalStyle style
  | .ifFunction name => d.ifFunction name
  | .safeCast name => d.safeCast name
  | .aliasFunction name target => d.aliasFunction name target
  | .renameFunction canonical rendered => d.renameFunction canonical rendered
  | .swapFunction canonical rendered => d.swapFunction canonical rendered
  | .positionFunction => d.positionFunction
  | .renameType kind name => d.renameType kind name
  | .foldType kind name => d.foldType kind name
  | .bindBy style marks named => d.bindBy style marks named
  | .autoIncrementBy style => d.autoIncrementBy style
  | .currentTimes words functions date time timestamp =>
    d.currentTimes words functions date time timestamp

/-- The dialect after several changes in order. -/
def Dialect.changes (d : Dialect) (cs : List Change) : Dialect := cs.foldl Dialect.change d

end SqlDialects
