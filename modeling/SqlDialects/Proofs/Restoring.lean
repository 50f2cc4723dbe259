import SqlDialects.Proofs.Selects
import SqlDialects.Proofs.TypeTexts

/-!
# Parts of statements that are read where they are written

* `Dialect.Stable` : what is asked of a dialect so that it reads what it writes of its own texts;
  `stable_of_mem_postgresFamily` : the family of `postgres`;
* `Stops` : what may follow a clause, and `EndsKeys` : what may follow a list of keys;
* `Listwise`, `Returned` : lists are written and read one element after the other;
* `Clause.reads`, `Keys.reads` : an expression or a list behind the words of a clause.
-/

namespace SqlDialects

open Render

/-! ## Dialects -/

/-- The words that may follow the body of a query. -/
def bodyEnds : List String := ["ORDER", "LIMIT", "OFFSET", "RETURNING"]

/-- The words that may follow an operand of a set operation. -/
def operandEnds : List String := ["UNION", "INTERSECT", "EXCEPT"] ++ bodyEnds

/-- The words that may follow the sources of a query. -/
def sourceEnds : List String := ["WHERE", "GROUP", "HAVING", "QUALIFY"] ++ operandEnds

/-- The words of the clauses of a query and of what stands around it, in their order. -/
def clauseWords : List String := "FROM" :: sourceEnds

/-- The words that start a join. -/
def joinHeads : List String := ["JOIN", "LEFT", "RIGHT", "FULL", "CROSS", "NATURAL"]

/-- The words that may follow a relation and belong to its source. -/
def sourceWords : List String := joinHeads ++ ["ON", "USING"]

/-- The words of the options of a column. -/
def optionWords : List String := ["NOT", "NULL", "PRIMARY", "UNIQUE", "DEFAULT", "GENERATED"]

/-- The words that are reserved whatever the dialect supports. -/
def statementWords : List String :=
  clauseWords.filter (· ∉ ["QUALIFY", "RETURNING"]) ++ sourceWords ++
    ["VALUES", "AS", "SET", "INTO", "PRIMARY", "UNIQUE"]

/-- The function that a function alias means. -/
def FunctionAlias.canonical : FunctionAlias → String
  | .rename canonical => canonical
  | .swap canonical => canonical

/-- What is asked of a dialect so that statements are read where they are written. -/
structure Dialect.Stable (d : Dialect) : Prop extends d.Fluent where
  settled : d.typeRules.Settled
  escapes : d.lexical.backslashEscapes = false
  /-- The words of statements are reserved, and those of typed constants are not. -/
  words : (∀ w ∈ statementWords, d.lexical.isReserved w = true) ∧
    ∀ w ∈ ["DATE", "TIME", "TIMESTAMP"], d.lexical.isReserved w = false
  /-- The word of a construct that is supported is reserved. -/
  constructs : (d.supports .qualify = true → d.lexical.isReserved "QUALIFY" = true) ∧
    (d.supports .returning = true → d.lexical.isReserved "RETURNING" = true)
  /-- An option of a column is no part of the type before it. -/
  options : ∀ w ∈ optionWords, foreignToTypes d.reading.typeNames w = true
  ilike : d.reading.ilike = true
  truths : d.writing.booleans = .keyword
  concat : d.writing.concat = .operator
  /-- Assignments, powers and remainders have symbols. -/
  arithmetic : (d.reading.spelling? .eq).map OperatorRule.symbol = some "=" ∧
    (d.reading.spelling? .power).isSome = true ∧ (d.reading.spelling? .modulo).isSome = true
  temporals : d.writing.temporals = .keyword ∧ d.reading.typedLiterals = true
  conditionals : d.reading.ifFunctions = []
  extract : d.writing.extract = some .standard ∧ d.isCallable "EXTRACT" = true
  intervals : d.writing.interval = some .quoted
  safeCast : d.writing.safeCast = none
  params : d.params = .dollar ∧ d.reading.positionalParams = false ∧
    d.reading.numberedParams = true ∧ d.reading.namedParams = false
  /-- A dollar sign marks parameters and quotes nothing before a digit. -/
  dollar : '$' ∈ d.lexical.paramMarks ∧ '$' ∉ d.lexical.stringQuotes ∧
    d.lexical.nameQuotes.find? (·.1 == '$') = none ∧ d.writing.nameQuote.1 ≠ '$'
  times : d.writing.currentDate = some "CURRENT_DATE" ∧ d.writing.currentTime = some "CURRENT_TIME" ∧
    d.writing.currentTimestamp = "CURRENT_TIMESTAMP" ∧ d.reading.nowWords = standardNowWords
  limits : d.writing.limitStyle = .limitOffset ∧ d.writing.maxLimit = none ∧
    d.reading.limit = true ∧ d.reading.offset = true ∧ d.reading.limitComma = false ∧
    d.reading.fetch = false ∧ d.reading.top = false ∧ d.reading.offsetRequiresOrder = false ∧
    d.reading.offsetRequiresLimit = false
  queries : d.reading.minus = false ∧ d.reading.requireFrom = false ∧
    d.writing.dummyTable = none ∧ d.writing.exceptKeyword = "EXCEPT"
  aliases : d.writing.tableAliasAs = true
  schema : d.autoIncrement = some .generatedIdentity ∧ d.writing.orReplace = "REPLACE"
  /-- Functions are written under the names that they have everywhere. -/
  sayings : d.writing.functionNames = [] ∧
    ∀ name ∈ d.canonicalNames, Text.sameWord name "UNBOUNDED" = false
  /-- What a word that is not reserved means is not reserved. -/
  tables : d.lexical.isReserved "STRPOS" = false ∧
    ∀ entry ∈ d.reading.functionAliases, d.lexical.isReserved entry.2.canonical = false

/-- The dialects of the family of `postgres` that only leave constructs out or add to them. -/
def postgresFamily : List Dialect := [.postgres, .materialize, .risingwave, .redshift]

theorem mem_builtins_of_leader {d : Dialect} (h : d ∈ [Dialect.postgres, .redshift]) :
    d ∈ Dialect.builtins := by
  rcases List.mem_pair.mp h with rfl | rfl <;> simp [Dialect.builtins]

/-- The name of a dialect does not matter. -/
theorem Dialect.Stable.named {d : Dialect} (h : d.Stable) (name : String) : (d.named name).Stable :=
  { h with }

theorem stable_of_leader {d : Dialect} (h : d ∈ [Dialect.postgres, .redshift]) : d.Stable where
  toFluent := fluent_of_mem_builtins (mem_builtins_of_leader h)
  settled := settled_of_mem_builtins (mem_builtins_of_leader h)
  words := by revert d; decide +kernel
  constructs := by revert d; decide +kernel
  escapes := by revert d; decide +kernel
  options := by revert d; decide +kernel
  ilike := by revert d; decide +kernel
  truths := by revert d; decide +kernel
  concat := by revert d; decide +kernel
  arithmetic := by revert d; decide +kernel
  temporals := by revert d; decide +kernel
  conditionals := by revert d; decide +kernel
  extract := by revert d; decide +kernel
  intervals := by revert d; decide +kernel
  safeCast := by revert d; decide +kernel
  params := by revert d; decide +kernel
  dollar := by revert d; decide +kernel
  times := by revert d; decide +kernel
  limits := by revert d; decide +kernel
  queries := by revert d; decide +kernel
  aliases := by revert d; decide +kernel
  schema := by revert d; decide +kernel
  sayings := by revert d; decide +kernel
  tables := by revert d; decide +kernel

theorem stable_of_mem_postgresFamily {d : Dialect} (h : d ∈ postgresFamily) : d.Stable := by
  simp only [postgresFamily, List.mem_cons, List.not_mem_nil, or_false] at h
  rcases h with rfl | rfl | rfl | rfl
  · exact stable_of_leader (by simp)
  · exact (stable_of_leader (d := .postgres) (by simp)).named "materialize"
  · exact (stable_of_leader (d := .postgres) (by simp)).named "risingwave"
  · exact stable_of_leader (by simp)

namespace Dialect.Stable

variable {d : Dialect} (hd : d.Stable)

include hd

theorem isReserved {w : String} (hw : w ∈ statementWords) : d.lexical.isReserved w = true :=
  hd.words.1 w hw

/-- A function is written under its own name. -/
theorem saying_eq (canonical : String) : d.saying canonical = (canonical, false) := by
  unfold Dialect.saying Dialect.spelling?
  rw [hd.sayings.1]
  rfl

/-- A word that is not reserved means a function whose name is not reserved. -/
theorem isReserved_meaning {w canonical : String} {swapped : Bool} (hw : d.lexical.isReserved w = false)
    (h : d.meaning? w = some (canonical, swapped)) : d.lexical.isReserved canonical = false := by
  have hupper : ∀ name ∈ knownFunctions, Text.upper name = name := by decide +kernel
  have hname {x : String} {b : Bool} (hx : d.lexical.isReserved x = false)
      (heq : some (x, b) = some (canonical, swapped)) : d.lexical.isReserved canonical = false := by
    have hx' : x = canonical := congrArg Prod.fst (Option.some.inj heq)
    rwa [← hx']
  unfold Dialect.meaning? at h
  dsimp only at h
  split at h
  · exact hname hd.tables.1 h
  · split at h
    case h_1 other hget => exact hname (hd.tables.2 _ (Table.mem_of_get? hget)) h
    case h_2 other hget => exact hname (hd.tables.2 _ (Table.mem_of_get? hget)) h
    case h_3 =>
      split at h
      · next hknown =>
        refine hname ?_ h
        rw [LexicalRules.isReserved, hupper _ (by simpa using hknown)]
        exact hw
      · rw [hd.accepts] at h
        exact hname hw h

end Dialect.Stable

/-! ## What follows a clause -/

/-- What may follow a clause: the end of the text, one of the marks `ms`, or one of the words `ws`, which is
reserved. -/
inductive Stops (d : Dialect) (ms ws : List String) : List Shape → Prop where
  | nil : Stops d ms ws []
  | mark {m : String} (hm : m ∈ ms) (rest : List Shape) : Stops d ms ws (.mark m :: rest)
  | word {w : String} (hw : w ∈ ws) (hreserved : d.lexical.isReserved w = true) (rest : List Shape) :
    Stops d ms ws (d.bare w :: rest)

namespace Stops

variable {d : Dialect} {ms ms' ws vs : List String} {ts rest : List Shape}

theorem mono (h : Stops d ms ws rest) (hms : ms ⊆ ms') (hws : ws ⊆ vs) : Stops d ms' vs rest := by
  cases h with
  | nil => exact .nil
  | mark hm rest => exact .mark (hms hm) rest
  | word hw hreserved rest => exact .word (hws hw) hreserved rest

/-- A clause that may be missing, before what follows it. -/
theorem behind (h : Stops d ms ws rest) (hts : Behind d vs ts) : Stops d ms (vs ++ ws) (ts ++ rest) := by
  rcases hts with rfl | ⟨w, hw, hreserved, us, rfl⟩
  · exact h.mono (List.Subset.refl ms) (List.subset_append_right vs ws)
  · exact .word (List.mem_append_left ws hw) hreserved _

theorem ends (h : Stops d ms ws rest) (hd : d.Readable) (p : Precedence)
    (hms : ∀ m ∈ ms, m ≠ "(" ∧ m ≠ ".") (hws : ∀ w ∈ ws, endsExpression w = true) : Ends d p rest := by
  cases h with
  | nil => exact .nil d p
  | mark hm rest => exact .mark d p (hms _ hm) rest
  | word hw _ rest => exact .bare hd p (hws _ hw) rest

theorem noneNext (h : Stops d ms ws rest) (hno : ∀ w ∈ ws, ∀ v ∈ vs, Text.sameWord w v = false) :
    NoneNext rest vs := by
  cases h with
  | nil => exact .nil vs
  | mark _ rest => exact .mark _ rest vs
  | word hw _ rest => exact .bare d rest (hno _ hw)

theorem isName (h : Stops d ms ws rest) : (headShape rest).isName = false := by
  cases h with
  | nil => rfl
  | mark => rfl
  | word _ hreserved => exact isName_bare hreserved

theorem isSymbol (h : Stops d ms ws rest) {m : String} (hm : m ∉ ms) :
    (headShape rest).isSymbol m = false := by
  cases h with
  | nil => rfl
  | @mark x hx =>
    rw [headShape_cons, Shape.isSymbol_mark, beq_eq_false_iff_ne]
    rintro rfl
    exact hm hx
  | word => exact Shape.isSymbol_bare d _ m

end Stops

/-- What may follow a key of a list: nothing that belongs to it. -/
structure EndsKey (d : Dialect) (rest : List Shape) : Prop where
  ends : Ends d 0 rest
  words : NoneNext rest ["ASC", "DESC", "NULLS"]

/-- What may follow a list of keys: nothing that belongs to its last key or starts a further one. -/
structure EndsKeys (d : Dialect) (rest : List Shape) : Prop extends EndsKey d rest where
  comma : (headShape rest).isSymbol "," = false

theorem EndsKey.mark (d : Dialect) {m : String} (hm : m ≠ "(" ∧ m ≠ ".") (rest : List Shape) :
    EndsKey d (.mark m :: rest) :=
  ⟨.mark d 0 hm rest, .mark _ _ _⟩

namespace EndsKeys

variable {d : Dialect} {ms ws : List String} {rest : List Shape}

theorem closed (d : Dialect) (rest : List Shape) : EndsKeys d (.mark ")" :: rest) :=
  ⟨.mark d (by decide) rest, rfl⟩

theorem bare (hd : d.Readable) {w : String} (hends : endsExpression w = true)
    (hw : ∀ v ∈ ["ASC", "DESC", "NULLS"], Text.sameWord w v = false) (rest : List Shape) :
    EndsKeys d (d.bare w :: rest) :=
  ⟨⟨.bare hd 0 hends rest, .bare d rest hw⟩, Shape.isSymbol_bare d w ","⟩

theorem of_stops (hd : d.Readable) (h : Stops d [")"] ws rest)
    (hws : ∀ w ∈ ws, endsExpression w = true ∧ ∀ v ∈ ["ASC", "DESC", "NULLS"], Text.sameWord w v = false) :
    EndsKeys d rest :=
  ⟨⟨h.ends hd 0 (by decide) fun w hw => (hws w hw).1, h.noneNext fun w hw => (hws w hw).2⟩,
    h.isSymbol (by decide)⟩

end EndsKeys

/-! ## Lists -/

/-- What becomes of a list in a respelling is told by what becomes of its elements. -/
structure Listwise {α : Type} (spell : Respelling → List α → List α) : Prop where
  nil : ∀ r, spell r [] = []
  cons : ∀ r a as, spell r (a :: as) = spell r [a] ++ spell r as

/-- The element `a` is written as a text of whose tokens `R` makes the respelled one. -/
def Returned {α : Type} (t : Target) (spell : Respelling → List α → List α) (R : List Shape → α → Prop)
    (text : String) (a : α) : Prop :=
  ∃ ts a', Spelled t.dialect text ts ∧ R ts a' ∧
    spell (.plain id) [a'] = spell (t.dialect.respelling id) [a]

/-- The text that `p` writes for `a` is made of tokens of which `R` makes the respelled `a`. -/
def Restores {α : Type} (t : Target) (p : Render String) (spell : Respelling → α → α)
    (R : List Shape → α → Prop) (a : α) : Prop :=
  Renders false t p fun text => ∃ ts a', Spelled t.dialect text ts ∧ R ts a' ∧
    spell (.plain id) a' = spell (t.dialect.respelling id) a

/-- Where the elements of a list are returned one by one the list is, and none is lost. -/
theorem Listwise.returned {α : Type} {t : Target} {spell : Respelling → List α → List α}
    {R : List Shape → α → Prop} (hspell : Listwise spell) {texts : List String} {as : List α}
    (h : List.Forall₂ (Returned t spell R) texts as) :
    ∃ tss as', List.Forall₂ (Spelled t.dialect) texts tss ∧ List.Forall₂ R tss as' ∧ (as ≠ [] → as' ≠ []) ∧
      spell (.plain id) as' = spell (t.dialect.respelling id) as := by
  induction h with
  | nil => exact ⟨[], [], .nil, .nil, id, by rw [hspell.nil, hspell.nil]⟩
  | @cons text a texts as hfirst _ ih =>
    obtain ⟨ts, a', hspelled, hread, heq⟩ := hfirst
    obtain ⟨tss, as', hall, hreads, -, hrest⟩ := ih
    refine ⟨ts :: tss, a' :: as', .cons hspelled hall, .cons hread hreads, fun _ => List.cons_ne_nil _ _, ?_⟩
    rw [hspell.cons, heq, hrest, ← hspell.cons]

/-! ## Expressions behind the words of a clause -/

section Clauses

variable {d : Dialect} {t : Target} {ms ws : List String} {w : String} {ts rest : List Shape}
  {o : Option Expr}

theorem Clause.behind (h : Clause d [d.bare w] ts o) (hreserved : d.lexical.isReserved w = true) :
    Behind d [w] ts := by
  cases o with
  | none => exact .inl h
  | some e =>
    obtain ⟨p, us, -, rfl⟩ := h
    exact .word (by simp) hreserved us

/-- An expression that may be missing, behind the word of its clause. -/
theorem Clause.reads (h : Clause d [d.bare w] ts o) (hd : d.Readable) (hrest : Stops d [")"] ws rest)
    (hws : ∀ v ∈ ws, endsExpression v = true ∧ Text.sameWord v w = false) (n : Nat) :
    Parses d (Parser.optional (Parser.eatWord w) ((Parser.nested n).expr 0)) (ts ++ rest) o rest := by
  have hends : Ends d 0 rest := hrest.ends hd 0 (by decide) fun v hv => (hws v hv).1
  have hnone : NoneNext rest [w] := hrest.noneNext fun v hv => by simpa using (hws v hv).2
  exact h.optional hends (hnone w (by simp)) n

/-- The tokens of a list that may be empty, behind the words `words`. `R` tells the tokens of its elements. -/
def Keys {α : Type} (d : Dialect) (R : List Shape → α → Prop) (words : List String) (ts : List Shape)
    (as : List α) : Prop :=
  as = [] ∧ ts = [] ∨ as ≠ [] ∧ ∃ tss, List.Forall₂ R tss as ∧ ts = words.map d.bare ++ betweenCommas tss

theorem wordsMatch_bare (d : Dialect) (words : List String) (ts : List Shape) :
    ReadsOr.wordsMatch (words.map d.bare ++ ts) words = true := by
  induction words with
  | nil => cases ts <;> rfl
  | cons word words ih =>
    rw [List.map_cons, List.cons_append, ReadsOr.wordsMatch, headShape_cons, List.tail_cons, ih,
      Shape.isWord_bare, Text.sameWord_refl]
    rfl

/-- Words that stand at the head of tokens are taken. -/
theorem eatWords_bare {F : Lapses} (d : Dialect) (words : List String) (ts : List Shape) :
    ReadsOr F d (Parser.eatWords words) (words.map d.bare ++ ts) true ts := by
  have h := ReadsOr.eatWords (F := F) (d := d) (wordsMatch_bare d words ts)
  rwa [List.drop_left' (by simp)] at h

section Keys

variable {α : Type} {spell : Respelling → List α → List α} {R : List Shape → α → Prop} {words : List String}
  {as : List α}

theorem Keys.behind (h : Keys d R (w :: words) ts as) (hreserved : d.lexical.isReserved w = true) :
    Behind d [w] ts := by
  rcases h with ⟨-, rfl⟩ | ⟨-, tss, -, rfl⟩
  · exact .nil d [w]
  · exact .word (by simp) hreserved _

/-- A list is read behind its words. `E` holds of what may follow an element. -/
theorem Keys.reads {F : Lapses} {p : Parser α} {E : List Shape → Prop} (h : Keys d R (w :: words) ts as)
    (hread : ∀ ts a us, R ts a → E us → ReadsOr F d p (ts ++ us) a us) (hcomma : ∀ us, E (.mark "," :: us))
    (hrest : E rest) (hstop : (headShape rest).isSymbol "," = false)
    (hno : (headShape rest).isWord w = false) :
    ReadsOr F d (Parser.optionalList (Parser.eatWords (w :: words)) (Parser.commaSeparated p)) (ts ++ rest) as
      rest := by
  rcases h with ⟨rfl, rfl⟩ | ⟨hne, tss, helements, rfl⟩
  · exact .optionalList_no (ReadsOr.eatWords_no (by simp [ReadsOr.wordsMatch, hno]))
  · rw [List.append_assoc]
    refine .optionalList (eatWords_bare d _ _) (.commaSeparated hne ?_ hcomma hrest hstop)
    exact helements.imp fun ts a hR us hus => hread ts a us hR hus

/-- A list whose elements are returned one by one is written behind its words, unless it is empty. -/
theorem Listwise.keys (hspell : Listwise spell) (words : List String) (write : List String → String)
    {texts : List String} (h : List.Forall₂ (Returned t spell R) texts as)
    (hwrite : ∀ tss, List.Forall₂ (Spelled t.dialect) texts tss →
      Spelled t.dialect (write texts) (words.map t.dialect.bare ++ betweenCommas tss)) :
    ∃ tss as', List.Forall₂ (Spelled t.dialect) (if texts.isEmpty then [] else [write texts]) tss ∧
      Keys t.dialect R words tss.flatten as' ∧ spell (.plain id) as' = spell (t.dialect.respelling id) as := by
  obtain ⟨tss, as', hall, hreads, -, heq⟩ := hspell.returned h
  cases hall with
  | nil =>
    cases hreads
    exact ⟨[], [], .nil, .inl ⟨rfl, rfl⟩, heq⟩
  | cons hfirst hrest =>
    have hne : as' ≠ [] := by
      cases hreads
      exact List.cons_ne_nil _ _
    exact ⟨[_], as', .cons (hwrite _ (.cons hfirst hrest)) .nil, .inr ⟨hne, _, hreads, by simp⟩, heq⟩

end Keys

end Clauses

end SqlDialects
