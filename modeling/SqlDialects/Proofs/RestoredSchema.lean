import SqlDialects.Proofs.RestoredStatements

/-!
# Changes of the schema are read where they are written

* `CreateView.IsWritten`, `CreateTable.IsWritten`, `Drop.IsWritten` : the parts of a statement are written;
* `OptionForm`, `ColumnForm`, `ConstraintForm`, `TableElementForm` : the tokens of what stands in a new table;
* `createView_restored`, `createTable_restored`, `drop_restored` : then the statement is read where it is written.

A constraint may stand between columns where a table is read. It is written behind them, so that the columns
and the constraints are read again as two lists.
-/

namespace SqlDialects

open Render

section Heads

variable {F : Lapses} {d : Dialect} {t : Target} {ns : List Name} {us : List Shape}

/-- Words behind which a name may stand are not taken where the name stands alone. -/
theorem guard_no (hne : ns ≠ []) {w v : String} (words : List String) (hus : (headShape us).isWord v = false) :
    ReadsOr F d (Parser.eatWords (w :: v :: words)) (betweenDots (ns.map Name.shape) ++ us) false
      (betweenDots (ns.map Name.shape) ++ us) := by
  cases ns with
  | nil => exact absurd rfl hne
  | cons n ns =>
    have hsecond : (headShape (behindDots (ns.map Name.shape) ++ us)).isWord v = false := by
      cases ns with
      | nil => exact hus
      | cons m ns => rfl
    exact .eatWords_no (by simp [betweenDots, ReadsOr.wordsMatch, hsecond])

/-- The first word of a phrase is another one. -/
theorem eatWords_bare_no {w v : String} (h : Text.sameWord w v = false) (words : List String) (us : List Shape) :
    ReadsOr F d (Parser.eatWords (v :: words)) (d.bare w :: us) false (d.bare w :: us) :=
  .eatWords_no (by simp [ReadsOr.wordsMatch, h])

theorem StatementForm.create {s : Statement} (h : Parses d Parser.create (d.bare "CREATE" :: us) s []) :
    StatementForm d (d.bare "CREATE" :: us) s := by
  refine .bare (.no (checkQuery_no (by decide) _) ?_)
  refine .no (ReadsOr.checkWord (Shape.isWord_bare _ _ _)) (.no (ReadsOr.checkWord (Shape.isWord_bare _ _ _)) ?_)
  refine .no (ReadsOr.checkWord (Shape.isWord_bare _ _ _)) ?_
  exact .yes (ReadsOr.checkWord (Shape.isWord_bare d "CREATE" "CREATE")) h

/-- The query behind the head of a statement is written. -/
theorem asQuery_restored (hd : t.dialect.Stable) {q : Query} (h : q.Restored t) {head : String} {hs : List Shape}
    (hhead : Spelled t.dialect head hs) :
    Renders false t (asQuery head q) fun text => ∃ qs q', Spelled t.dialect text (hs ++ t.dialect.bare "AS" :: qs) ∧
      QueryForm t.dialect qs q' ∧ q'.respell (.plain id) = q.respell (t.dialect.respelling id) := by
  unfold asQuery
  refine h.bind ?_
  rintro text ⟨qs, q', hspelled, ⟨hform, -⟩, heq⟩
  have hword : Spelled t.dialect "AS" [t.dialect.bare "AS"] := .word hd.toLegible rfl
  have hall := Spelled.clauses t (.cons hhead (.cons (hword.join Spelled.blank_mem hspelled) .nil))
  simp only [List.flatten_cons, List.flatten_nil, List.append_nil, List.singleton_append] at hall
  exact .target (.pure ⟨qs, q', hall.of_eq (by simp), hform, heq⟩)

theorem QueryForm.last {d : Dialect} {ts : List Shape} {q : Query} (h : QueryForm d ts q) :
    Parses d Parser.query ts q [] := by
  have hreads := h Parser.maxDepth [] .nil
  rwa [List.append_nil] at hreads

end Heads

/-! ## Views -/

/-- The parts of a view are written. -/
structure CreateView.IsWritten (t : Target) (c : CreateView) : Prop where
  name : c.name ≠ [] ∧ t.Keeps c.name
  columns : t.Keeps c.columns
  query : c.query.Restored t

/-- The words with which a view is created. -/
def CreateView.words (replace : Bool) : List String :=
  "CREATE" :: if replace then ["OR", "REPLACE", "VIEW"] else ["VIEW"]

section Views

variable {d : Dialect} {t : Target} {ts us : List Shape} {q : Query}

theorem createView_reads {view : QualifiedName} (hne : view ≠ []) (columns : List Name) (h : QueryForm d ts q)
    (replace : Bool) :
    Parses d (Parser.createView replace)
      (betweenDots (view.map Name.shape) ++ (columnShapes columns ++ d.bare "AS" :: ts))
      ⟨view, replace, columns, q⟩ [] := by
  have hdot : (headShape (columnShapes columns ++ d.bare "AS" :: ts)).isSymbol "." = false := by
    unfold columnShapes
    split
    · exact Shape.isSymbol_bare d "AS" "."
    · rfl
  have hopen : (headShape (d.bare "AS" :: ts)).isSymbol "(" = false := Shape.isSymbol_bare d "AS" "("
  refine (ReadsOr.qualifiedName hne hdot).bind ((columns_read hopen).bind ?_)
  exact (ReadsOr.expectWord (Shape.isWord_bare d "AS" "AS")).bind (h.last.bind (.pure _))

theorem create_view (hd : d.Stable) {replace : Bool} {c : CreateView}
    (h : Parses d (Parser.createView replace) us c []) :
    Parses d Parser.create ((CreateView.words replace).map d.bare ++ us) (.createView c) [] := by
  refine (ReadsOr.expectWord (Shape.isWord_bare d "CREATE" "CREATE")).bind ?_
  cases replace with
  | true =>
    refine .yes (ReadsOr.eatBare d rfl) (.dialect ?_)
    rw [hd.schema.2]
    refine (ReadsOr.expectWord (Shape.isWord_bare d "REPLACE" "REPLACE")).bind ?_
    exact (ReadsOr.expectWord (Shape.isWord_bare d "VIEW" "VIEW")).bind (h.bind (.pure _))
  | false =>
    refine .no (ReadsOr.eatBare_no d rfl) (.no (ReadsOr.eatBare_no d rfl) ((ReadsOr.eatBare_no d rfl).bind ?_))
    exact .yes (.onlyIf_yes rfl (.eatBare d rfl)) (h.bind (.pure _))

theorem createView_restored (hd : t.dialect.Stable) {c : CreateView} (h : c.IsWritten t) :
    (Statement.createView c).Restored t := by
  obtain ⟨view, replace, columns, query⟩ := c
  obtain ⟨⟨hne, hview⟩, hcolumns, hquery⟩ := h
  unfold Statement.Restored Restores
  rw [Statement.text, CreateView.text]
  have hwords : ∀ w ∈ CreateView.words replace, Spelled.isPlainWord w = true := by cases replace <;> decide
  have hhead := hcolumns.columns hd.toLegible
    ((Spelled.phrase hd.toLegible hwords).join Spelled.blank_mem (hview.path hd.toLegible))
  refine .target ((asQuery_restored hd hquery (hhead.of_eq ?_)).mono ?_)
  · cases replace <;> simp [CreateView.words, hd.schema.2, String.intercalate_cons_cons]
  rintro text ⟨qs, q', hspelled, hform, heq⟩
  refine ⟨_, .createView ⟨view, replace, columns, q'⟩, hspelled, ?_, by simp only [Statement.respell, heq]; rfl⟩
  have hreads := create_view hd (createView_reads hne columns hform replace)
  rw [List.append_assoc, List.append_assoc]
  exact .create hreads

end Views

/-! ## Elements of tables -/

/-- The parts of an option are written. -/
def ColumnOption.IsWritten (t : Target) (o : ColumnOption) : Prop := ∀ e, o = .default e → Rewrites false t id e

/-- The parts of a column are written. -/
structure Column.IsWritten (t : Target) (c : Column) : Prop where
  name : t.Keeps [c.name]
  type : c.type.Restored t
  options : ∀ o ∈ c.options, o.IsWritten t

/-- The words of a constraint. -/
def TableConstraint.words : TableConstraint → List String
  | .primaryKey _ => ["PRIMARY", "KEY"]
  | .unique _ => ["UNIQUE"]

/-- The columns of a constraint. -/
def TableConstraint.columns : TableConstraint → List Name
  | .primaryKey columns => columns
  | .unique columns => columns

/-- The tokens of an option. -/
inductive OptionForm (d : Dialect) : List Shape → ColumnOption → Prop where
  | notNull : OptionForm d (["NOT", "NULL"].map d.bare) .notNull
  | null : OptionForm d [d.bare "NULL"] .null
  | primaryKey : OptionForm d (["PRIMARY", "KEY"].map d.bare) .primaryKey
  | unique : OptionForm d [d.bare "UNIQUE"] .unique
  | default {ts : List Shape} {e : Expr} {p : Precedence} (h : Form d p ts e) (hp : .comparison < p) :
    OptionForm d (d.bare "DEFAULT" :: ts) (.default e)
  | autoIncrement : OptionForm d (["GENERATED", "BY", "DEFAULT", "AS", "IDENTITY"].map d.bare) .autoIncrement

/-- The tokens of a column. -/
def ColumnForm (d : Dialect) (ts : List Shape) (c : Column) : Prop :=
  c.name.IsFree d ∧ ∃ ys tss, (∀ rest, EndsType d rest → Parses d Parser.dataType (ys ++ rest) c.type rest) ∧
    List.Forall₂ (OptionForm d) tss c.options ∧ ts = c.name.shape :: (ys ++ tss.flatten)

/-- The tokens of a constraint. -/
def ConstraintForm (d : Dialect) (ts : List Shape) (c : TableConstraint) : Prop :=
  c.columns ≠ [] ∧ ts = c.words.map d.bare ++ inParens (betweenCommas (c.columns.map fun n => [n.shape]))

/-- The tokens of a constraint or a column. -/
def TableElementForm (d : Dialect) (ts : List Shape) : TableConstraint ⊕ Column → Prop
  | .inl c => ConstraintForm d ts c
  | .inr c => ColumnForm d ts c

section Elements

variable {d : Dialect} {t : Target} {ts rest : List Shape} {tss : List (List Shape)} {o : ColumnOption}
  {os : List ColumnOption} {c : Column} {k : TableConstraint}

/-- No expression goes on with `NOT NULL`. -/
theorem ends_notNull (d : Dialect) (us : List Shape) :
    Ends d .comparison (d.bare "NOT" :: d.bare "NULL" :: us) := by
  have hnone : nextConnective d (d.bare "NOT" :: d.bare "NULL" :: us) = none := by
    refine (connective_bare d "NOT" _).trans ?_
    have hnext : ∀ word ∈ ["IN", "LIKE", "BETWEEN", "ILIKE"], (d.bare "NULL").token.isWord word = false :=
      fun word hword => (Shape.isWord_bare d "NULL" word).trans (by revert word; decide)
    have hupper : Text.upper "NOT" = "NOT" := by decide
    simp [Parser.connective?, hnext, hupper]
  refine ⟨(Shape.isClear_bare d "NOT").trans rfl, by simp [nextPrecedence, hnone], fun h => ?_⟩
  rw [headShape_cons, Shape.isWord_bare] at h
  cases h

/-- An option starts with a word that ends the type and the options before it. -/
theorem OptionForm.head (h : OptionForm d ts o) (hd : d.Stable) (us : List Shape) :
    Ends d .comparison (ts ++ us) ∧ EndsType d (ts ++ us) ∧ 0 < ts.length := by
  cases h with
  | notNull => exact ⟨ends_notNull d us, .bare (hd.options "NOT" (by decide)) _, by simp⟩
  | null => exact ⟨.bare hd.toReadable _ rfl _, .bare (hd.options "NULL" (by decide)) _, by simp⟩
  | primaryKey => exact ⟨.bare hd.toReadable _ rfl _, .bare (hd.options "PRIMARY" (by decide)) _, by simp⟩
  | unique => exact ⟨.bare hd.toReadable _ rfl _, .bare (hd.options "UNIQUE" (by decide)) _, by simp⟩
  | default => exact ⟨.bare hd.toReadable _ rfl _, .bare (hd.options "DEFAULT" (by decide)) _, by simp⟩
  | autoIncrement => exact ⟨.bare hd.toReadable _ rfl _, .bare (hd.options "GENERATED" (by decide)) _, by simp⟩

theorem OptionForm.reads (h : OptionForm d ts o) (hd : d.Stable) (hrest : Ends d .comparison rest) :
    Parses d Parser.columnOption (ts ++ rest) (some o) rest := by
  cases h with
  | notNull => exact .yes (eatWords_bare d ["NOT", "NULL"] rest) (.pure _)
  | null => exact .no (eatWords_bare_no rfl _ _) (.yes (ReadsOr.eatBare d rfl) (.pure _))
  | primaryKey =>
    refine .no (eatWords_bare_no rfl _ _) (.no (ReadsOr.eatBare_no d rfl) ?_)
    exact .yes (eatWords_bare d ["PRIMARY", "KEY"] rest) (.pure _)
  | unique =>
    refine .no (eatWords_bare_no rfl _ _) (.no (ReadsOr.eatBare_no d rfl) (.no (eatWords_bare_no rfl _ _) ?_))
    exact .yes (ReadsOr.eatBare d rfl) (.pure _)
  | default hform hp =>
    refine .no (eatWords_bare_no rfl _ _) (.no (ReadsOr.eatBare_no d rfl) (.no (eatWords_bare_no rfl _ _) ?_))
    refine .no (ReadsOr.eatBare_no d rfl) (.yes (ReadsOr.eatBare d rfl) ?_)
    exact (hform.expr_lt hp hrest Parser.maxDepth).bind (.pure _)
  | autoIncrement =>
    refine .no (eatWords_bare_no rfl _ _) (.no (ReadsOr.eatBare_no d rfl) (.no (eatWords_bare_no rfl _ _) ?_))
    refine .no (ReadsOr.eatBare_no d rfl) (.no (ReadsOr.eatBare_no d rfl) (.dialect ?_))
    rw [hd.schema.1]
    refine .yes (.onlyIf_yes rfl ?_) (.pure _)
    refine .no (ReadsOr.eatBare_no d rfl) (.no (ReadsOr.eatBare_no d rfl) (.no (ReadsOr.eatBare_no d rfl) ?_))
    refine .yes (ReadsOr.eatBare d rfl) (.no (ReadsOr.eatBare_no d rfl) ?_)
    refine (ReadsOr.expectWord (Shape.isWord_bare d "BY" "BY")).bind ?_
    refine (ReadsOr.expectWord (Shape.isWord_bare d "DEFAULT" "DEFAULT")).bind ?_
    refine (ReadsOr.expectWord (Shape.isWord_bare d "AS" "AS")).bind ?_
    exact (ReadsOr.expectWord (Shape.isWord_bare d "IDENTITY" "IDENTITY")).bind (.pure _)

/-- No option is next where an element of a table ends. -/
theorem columnOption_none {F : Lapses} (hrest : Stops d [")", ","] [] rest) :
    ReadsOr F d Parser.columnOption rest none rest := by
  have hno (v : String) : (headShape rest).isWord v = false := hrest.noneNext (by simp) v (List.mem_singleton_self v)
  have hword (v : String) : ReadsOr F d (Parser.eatWord v) rest false rest := .eatWord_no (hno v)
  have hwords (v : String) (words : List String) : ReadsOr F d (Parser.eatWords (v :: words)) rest false rest :=
    .eatWords_no (by simp [ReadsOr.wordsMatch, hno])
  refine .no (hwords _ _) (.no (hword _) (.no (hwords _ _) (.no (hword _) (.no (hword _) (.dialect ?_)))))
  refine .no (.onlyIf_no ?_) (.pure _)
  exact .no (hword _) (.no (hword _) (.no (hword _) (.no (hword _) (.pure _))))

/-- What may follow a type or an option of a column. -/
theorem options_head (h : List.Forall₂ (OptionForm d) tss os) (hd : d.Stable) (hrest : Stops d [")", ","] [] rest) :
    Ends d .comparison (tss.flatten ++ rest) ∧ EndsType d (tss.flatten ++ rest) := by
  cases h with
  | nil =>
    refine ⟨hrest.ends hd.toReadable _ (by decide) (by simp), .of_head (hrest.isSymbol (by decide)) ?_⟩
    cases hrest with
    | nil => rfl
    | mark => rfl
    | word hw => cases hw
  | cons hfirst _ =>
    rw [List.flatten_cons, List.append_assoc]
    obtain ⟨hends, htype, -⟩ := hfirst.head hd _
    exact ⟨hends, htype⟩

theorem options_read (h : List.Forall₂ (OptionForm d) tss os) (hd : d.Stable) (hrest : Stops d [")", ","] [] rest) :
    Parses d (Parser.many Parser.columnOption) (tss.flatten ++ rest) os rest := by
  refine .many ?_
  induction h with
  | nil => exact .repeats_nil (columnOption_none hrest)
  | cons hfirst htail ih =>
    rw [List.flatten_cons, List.append_assoc]
    refine .repeats_cons (hfirst.reads hd (options_head htail hd hrest).1) ?_ ih
    obtain ⟨-, -, hlength⟩ := hfirst.head hd []
    simp only [List.length_append]
    omega

theorem ColumnForm.reads (h : ColumnForm d ts c) (hd : d.Stable) (hrest : Stops d [")", ","] [] rest) :
    Parses d Parser.column (ts ++ rest) c rest := by
  obtain ⟨name, type, options⟩ := c
  obtain ⟨-, ys, tss, htype, hoptions, rfl⟩ := h
  rw [List.cons_append, List.append_assoc]
  refine (ReadsOr.name name).bind ((htype _ (options_head hoptions hd hrest).2).bind ?_)
  exact (options_read hoptions hd hrest).bind (.pure _)

theorem ConstraintForm.reads (h : ConstraintForm d ts k) (us : List Shape) :
    Parses d Parser.tableConstraint (ts ++ us) (some k) us := by
  obtain ⟨hne, rfl⟩ := h
  rw [List.append_assoc]
  cases k with
  | primaryKey columns => exact .yes (eatWords_bare d ["PRIMARY", "KEY"] _) ((ReadsOr.nameList hne).bind (.pure _))
  | unique columns =>
    refine .no (eatWords_bare_no rfl _ _) (.yes (ReadsOr.eatBare d rfl) ?_)
    exact (ReadsOr.nameList hne).bind (.pure _)

/-- A column starts no constraint. -/
theorem ColumnForm.tableConstraint (h : ColumnForm d ts c) (hd : d.Stable) (us : List Shape) :
    Parses d Parser.tableConstraint (ts ++ us) none (ts ++ us) := by
  obtain ⟨hfree, ys, tss, -, -, rfl⟩ := h
  have hno {v : String} (hv : v ∈ statementWords) : c.name.shape.isWord v = false :=
    Name.isWord_shape hfree (by simpa [LexicalRules.isReserved] using hd.isReserved hv)
  refine .no (.eatWords_no ?_) (.no (.eatWord_no (hno (by decide))) (.pure _))
  simp [ReadsOr.wordsMatch, hno (v := "PRIMARY") (by decide)]

theorem TableElementForm.reads {x : TableConstraint ⊕ Column} (h : TableElementForm d ts x) (hd : d.Stable)
    (hrest : Stops d [")", ","] [] rest) : Parses d Parser.tableElement (ts ++ rest) x rest := by
  cases x with
  | inl k => exact (ConstraintForm.reads h rest).bind (.pure _)
  | inr c => exact (ColumnForm.tableConstraint h hd rest).bind ((ColumnForm.reads h hd hrest).bind (.pure _))

/-! ### Texts -/

theorem optionText_returned (hd : t.dialect.Stable) (h : o.IsWritten t) :
    Renders false t o.text fun text => ∃ ts o', Spelled t.dialect text ts ∧ OptionForm t.dialect ts o' ∧
      o'.respell (.plain id) = o.respell (t.dialect.respelling id) := by
  have hword {w : String} (hw : Spelled.isPlainWord w = true) : Spelled t.dialect w [t.dialect.bare w] :=
    .word hd.toLegible hw
  have hphrase (ws : List String) (hws : ∀ w ∈ ws, Spelled.isPlainWord w = true) :
      Spelled t.dialect (String.intercalate " " ws) (ws.map t.dialect.bare) := .phrase hd.toLegible hws
  cases o with
  | notNull =>
    exact .pure ⟨_, .notNull, (hphrase ["NOT", "NULL"] (by decide)).of_eq rfl, .notNull, rfl⟩
  | null => exact .pure ⟨_, .null, hword rfl, .null, rfl⟩
  | primaryKey =>
    exact .pure ⟨_, .primaryKey, (hphrase ["PRIMARY", "KEY"] (by decide)).of_eq rfl, .primaryKey, rfl⟩
  | unique => exact .pure ⟨_, .unique, hword rfl, .unique, rfl⟩
  | default e =>
    rw [ColumnOption.text]
    refine ((h e rfl).operand hd.toExpressive true (by decide)).bind ?_
    rintro text ⟨p, ⟨e', ⟨ts, hspelled, hform, -⟩, heq⟩, -, hp⟩
    refine .pure ⟨_, .default e', ?_, .default hform (hp rfl), congrArg ColumnOption.default heq⟩
    exact ((hword (w := "DEFAULT") rfl).join Spelled.blank_mem hspelled).of_eq (by simp)
  | autoIncrement =>
    rw [ColumnOption.text]
    refine .target ?_
    rw [hd.schema.1]
    have hall := hphrase ["GENERATED", "BY", "DEFAULT", "AS", "IDENTITY"] (by decide)
    exact .pure ⟨_, .autoIncrement, hall.of_eq rfl, .autoIncrement, rfl⟩

/-- Options are written behind what stands before them. -/
theorem optionsText_returned (hd : t.dialect.Stable) (h : ∀ o ∈ os, o.IsWritten t) :
    Renders false t (optionsText os) fun text => ∃ tss os', List.Forall₂ (OptionForm t.dialect) tss os' ∧
      os'.map (·.respell (.plain id)) = os.map (·.respell (t.dialect.respelling id)) ∧
        ∀ s ts, Spelled t.dialect s ts → Spelled t.dialect (s ++ text) (ts ++ tss.flatten) := by
  induction os with
  | nil => exact .pure ⟨[], [], .nil, rfl, fun s ts hs => by simpa using hs⟩
  | cons o os ih =>
    rw [optionsText]
    refine (optionText_returned hd (h o (by simp))).bind ?_
    rintro text ⟨ts, o', hspelled, hform, heq⟩
    refine (ih fun x hx => h x (by simp [hx])).bind ?_
    rintro more ⟨tss, os', hforms, hmore, hbehind⟩
    refine .pure ⟨ts :: tss, o' :: os', .cons hform hforms, by simp [heq, hmore], fun s us hs => ?_⟩
    have hall := hbehind _ _ (hs.join Spelled.blank_mem hspelled)
    rw [List.append_assoc] at hall
    exact hall.of_eq (by simp)

theorem columnTexts_returned (hd : t.dialect.Stable) {columns : List Column} (h : ∀ c ∈ columns, c.IsWritten t) :
    Renders false t (columnTexts columns) fun texts =>
      List.Forall₂ (Returned t (fun r cs => cs.map (Column.respell r)) (ColumnForm t.dialect)) texts columns := by
  induction columns with
  | nil => exact .pure .nil
  | cons c columns ih =>
    obtain ⟨hname, ⟨ys, hys, htype⟩, hoptions⟩ := h c (by simp)
    rw [columnTexts]
    refine .target ((optionsText_returned hd hoptions).bind ?_)
    rintro text ⟨tss, os', hforms, heq, hbehind⟩
    refine (ih fun x hx => h x (by simp [hx])).bind fun texts htexts => .pure (.cons ?_ htexts)
    have hhead := (hname.name hd.toLegible (List.mem_singleton_self _)).join Spelled.blank_mem hys
    have hall := hbehind _ _ hhead
    rw [List.append_assoc] at hall
    refine ⟨_, ⟨c.name, c.type, os'⟩, hall.of_eq (by simp), ⟨hname.isFree (List.mem_singleton_self _), ys, tss,
      fun rest hrest => htype rest hrest, hforms, rfl⟩, ?_⟩
    simp only [List.map_cons, List.map_nil, Column.respell, heq]
    rfl

theorem constraint_spelled (hd : t.dialect.Stable) (hk : t.Keeps k.columns) :
    Spelled t.dialect (t.constraint k)
      (k.words.map t.dialect.bare ++ inParens (betweenCommas (k.columns.map fun n => [n.shape]))) := by
  have hlist := (hk.names hd.toLegible).parens hd.toLegible
  have hwords : ∀ w ∈ k.words, Spelled.isPlainWord w = true := by
    cases k <;> (rw [TableConstraint.words]; decide)
  refine ((Spelled.phrase hd.toLegible hwords).join Spelled.blank_mem hlist).of_eq ?_
  cases k <;> simp [Target.constraint, TableConstraint.words, TableConstraint.columns, String.intercalate_cons_cons]

end Elements

/-! ## Tables -/

/-- The parts of a table are written. -/
structure CreateTable.IsWritten (t : Target) (c : CreateTable) : Prop where
  name : c.name ≠ [] ∧ t.Keeps c.name
  columns : ∀ x ∈ c.columns, x.IsWritten t
  constraints : ∀ k ∈ c.constraints, k.columns ≠ [] ∧ t.Keeps k.columns
  query : ∀ q ∈ c.query, q.Restored t
  content : c.query = none → c.columns = [] → c.constraints ≠ []

/-- The words with which a table is created. -/
def CreateTable.words (temporary : Bool) : List String :=
  "CREATE" :: if temporary then ["TEMPORARY", "TABLE"] else ["TABLE"]

/-- The words behind which a name may stand. -/
def Dialect.guardShapes (d : Dialect) (guarded : Bool) (words : List String) : List Shape :=
  if guarded then words.map d.bare else []

/-- The tokens of the elements of a table in parentheses, or none for no elements. -/
def elementShapes (tss : List (List Shape)) : List Shape := if tss = [] then [] else inParens (betweenCommas tss)

/-- The tokens of a query that may be missing, behind `AS`. -/
def SourceQueryForm (d : Dialect) (ts : List Shape) : Option Query → Prop
  | none => ts = []
  | some q => ∃ us, QueryForm d us q ∧ ts = d.bare "AS" :: us

section Tables

variable {F : Lapses} {d : Dialect} {t : Target} {ns : List Name} {ts us : List Shape} {tss : List (List Shape)}

/-- The words of a guard are read where the dialect knows them. -/
theorem guard_reads (hne : ns ≠ []) {guarded known : Bool} (hknown : guarded = true → known = true) {w v : String}
    (words : List String) (hus : (headShape us).isWord v = false) :
    ReadsOr F d (Parser.onlyIf known (Parser.eatWords (w :: v :: words)))
      (d.guardShapes guarded (w :: v :: words) ++ (betweenDots (ns.map Name.shape) ++ us)) guarded
      (betweenDots (ns.map Name.shape) ++ us) := by
  cases guarded with
  | true => exact .onlyIf_yes (hknown rfl) (eatWords_bare d _ _)
  | false => exact .onlyIf_no (guard_no hne words hus)

theorem SourceQueryForm.reads {source : Option Query} (h : SourceQueryForm d ts source) :
    Parses d (Parser.optional (Parser.eatWord "AS") Parser.query) ts source [] := by
  cases source with
  | none =>
    subst h
    exact .optional_no (.eatWord_no rfl)
  | some q =>
    obtain ⟨us, hform, rfl⟩ := h
    exact .optional (.eatBare d rfl) hform.last

theorem elements_read (hd : d.Stable) {elements : List (TableConstraint ⊕ Column)}
    (h : List.Forall₂ (TableElementForm d) tss elements) (hopen : (headShape us).isSymbol "(" = false) :
    Parses d (Parser.optionalList (Parser.eatSymbol "(") (do
      let elements ← Parser.commaSeparated Parser.tableElement
      Parser.expectSymbol ")"
      return elements)) (elementShapes tss ++ us) elements us := by
  cases h with
  | nil => exact .optionalList_no (.eatSymbol_no hopen)
  | @cons ts x tss elements hfirst htail =>
    have hall : List.Forall₂ (fun ts x => ∀ us, Stops d [")", ","] [] us →
        Parses d Parser.tableElement (ts ++ us) x us) (ts :: tss) (x :: elements) := by
      refine (List.Forall₂.cons hfirst htail).imp fun us x hx vs hvs => ?_
      exact hx.reads hd hvs
    rw [elementShapes, if_neg (List.cons_ne_nil _ _), inParens, List.cons_append, List.append_assoc]
    refine .optionalList (.eatSymbol rfl) ?_
    refine (ReadsOr.commaSeparated (List.cons_ne_nil _ _) hall (fun vs => .mark (by simp) vs)
      (.mark (by simp) us) rfl).bind ?_
    exact (ReadsOr.expectSymbol rfl).bind (.pure _)

theorem createTable_reads (hd : d.Stable) {table : QualifiedName} (hne : table ≠ []) {guarded temporary : Bool}
    (hguarded : guarded = true → d.supports .ifNotExists = true) {columns : List Column}
    {constraints : List TableConstraint}
    (helements : List.Forall₂ (TableElementForm d) tss (columns.map .inr ++ constraints.map .inl))
    {source : Option Query} (hsource : SourceQueryForm d ts source)
    (hcontent : source = none → columns = [] → constraints ≠ []) :
    Parses d (Parser.createTable temporary) (d.guardShapes guarded ["IF", "NOT", "EXISTS"] ++
        (betweenDots (table.map Name.shape) ++ (elementShapes tss ++ ts)))
      ⟨table, temporary, guarded, columns, constraints, source⟩ [] := by
  have hhead : (headShape ts).isSymbol "(" = false ∧ (headShape ts).isSymbol "." = false ∧
      (headShape ts).isWord "NOT" = false := by
    cases source with
    | none =>
      subst hsource
      exact ⟨rfl, rfl, rfl⟩
    | some q =>
      obtain ⟨us, -, rfl⟩ := hsource
      exact ⟨Shape.isSymbol_bare d "AS" "(", Shape.isSymbol_bare d "AS" ".", Shape.isWord_bare d "AS" "NOT"⟩
  have hbehind : (headShape (elementShapes tss ++ ts)).isSymbol "." = false ∧
      (headShape (elementShapes tss ++ ts)).isWord "NOT" = false := by
    unfold elementShapes
    split
    · exact hhead.2
    · exact ⟨rfl, rfl⟩
  refine .supports ((guard_reads hne hguarded ["EXISTS"] hbehind.2).bind ?_)
  refine (ReadsOr.qualifiedName hne hbehind.1).bind ((elements_read hd helements hhead.1).bind ?_)
  refine hsource.reads.bind ?_
  have hsome : (source.isNone &&
      (columns.map Sum.inr ++ constraints.map Sum.inl : List (TableConstraint ⊕ Column)).isEmpty) = false := by
    cases source with
    | none => cases columns <;> simp_all
    | some q => rfl
  rw [hsome]
  have hparts : Parses d (pure (⟨table, temporary, guarded, columns, constraints, source⟩ : CreateTable)) []
    ⟨table, temporary, guarded, columns, constraints, source⟩ [] := .pure _
  simpa [List.filterMap_append, List.filterMap_map, Function.comp_def] using hparts

theorem create_table {temporary : Bool} {c : CreateTable} (h : Parses d (Parser.createTable temporary) us c []) :
    Parses d Parser.create ((CreateTable.words temporary).map d.bare ++ us) (.createTable c) [] := by
  refine (ReadsOr.expectWord (Shape.isWord_bare d "CREATE" "CREATE")).bind ?_
  cases temporary with
  | true =>
    refine .no (ReadsOr.eatBare_no d rfl) (.yes (ReadsOr.eatBare d rfl) ((ReadsOr.pure true).bind ?_))
    refine .no (.onlyIf_no (.eatBare_no d rfl)) ?_
    exact (ReadsOr.expectWord (Shape.isWord_bare d "TABLE" "TABLE")).bind (h.bind (.pure _))
  | false =>
    refine .no (ReadsOr.eatBare_no d rfl) (.no (ReadsOr.eatBare_no d rfl) ((ReadsOr.eatBare_no d rfl).bind ?_))
    refine .no (.onlyIf_no (.eatBare_no d rfl)) ?_
    exact (ReadsOr.expectWord (Shape.isWord_bare d "TABLE" "TABLE")).bind (h.bind (.pure _))

/-- The text of the elements of a table. -/
def Target.elementsText (t : Target) (elements : List String) : String :=
  if elements.isEmpty then "" else " " ++ t.block (String.intercalate t.comma elements)

theorem elements_spelled (hd : t.dialect.Stable) {texts : List String}
    (h : List.Forall₂ (Spelled t.dialect) texts tss) {head : String} (hs : Spelled t.dialect head ts) :
    Spelled t.dialect (head ++ t.elementsText texts) (ts ++ elementShapes tss) := by
  cases h with
  | nil => simpa [Target.elementsText, elementShapes] using hs
  | cons hfirst hrest =>
    have hlist := (Spelled.commaList hd.toLegible (Spelled.comma_mem t) (.cons hfirst hrest)).block hd.toLegible rfl
    exact (hs.join Spelled.blank_mem hlist).of_eq (by simp [Target.elementsText])

/-- The elements of a table are written by their tokens. -/
theorem elements_returned (hd : t.dialect.Stable) {columns : List Column} {constraints : List TableConstraint}
    (hconstraints : ∀ k ∈ constraints, k.columns ≠ [] ∧ t.Keeps k.columns) {texts : List String}
    (h : List.Forall₂ (Returned t (fun r cs => cs.map (Column.respell r)) (ColumnForm t.dialect)) texts columns) :
    ∃ tss columns', List.Forall₂ (Spelled t.dialect) (texts ++ constraints.map t.constraint) tss ∧
      List.Forall₂ (TableElementForm t.dialect) tss (columns'.map .inr ++ constraints.map .inl) ∧
        (columns ≠ [] → columns' ≠ []) ∧
          columns'.map (Column.respell (.plain id)) = columns.map (Column.respell (t.dialect.respelling id)) := by
  obtain ⟨css, columns', hall, hforms, hne, heq⟩ := (listwise_map Column.respell).returned h
  have hparts : ∃ kss, List.Forall₂ (Spelled t.dialect) (constraints.map t.constraint) kss ∧
      List.Forall₂ (TableElementForm t.dialect) kss (constraints.map .inl) := by
    clear hall hforms
    induction constraints with
    | nil => exact ⟨[], .nil, .nil⟩
    | cons k constraints ih =>
      obtain ⟨kss, hspelled, hform⟩ := ih fun x hx => hconstraints x (by simp [hx])
      obtain ⟨hsome, hkeeps⟩ := hconstraints k (by simp)
      exact ⟨_ :: kss, .cons (constraint_spelled hd hkeeps) hspelled, .cons ⟨hsome, rfl⟩ hform⟩
  obtain ⟨kss, hkall, hkforms⟩ := hparts
  refine ⟨css ++ kss, columns', List.rel_append hall hkall, List.rel_append ?_ hkforms, hne, heq⟩
  exact List.forall₂_map_right_iff.mpr hforms

/-- The head of a table, without its elements. -/
theorem tableHead_spelled (hd : t.dialect.Stable) {table : QualifiedName} (htable : t.Keeps table)
    (temporary guarded : Bool) :
    Spelled t.dialect ("CREATE " ++ (if temporary then "TEMPORARY " else "") ++ "TABLE " ++
        (if guarded then "IF NOT EXISTS " else "") ++ t.path table)
      ((CreateTable.words temporary).map t.dialect.bare ++
        (t.dialect.guardShapes guarded ["IF", "NOT", "EXISTS"] ++ betweenDots (table.map Name.shape))) := by
  have hphrase (ws : List String) (hws : ∀ w ∈ ws, Spelled.isPlainWord w = true) :
      Spelled t.dialect (String.intercalate " " ws) (ws.map t.dialect.bare) := .phrase hd.toLegible hws
  have hwords := hphrase (CreateTable.words temporary) (by cases temporary <;> decide)
  cases guarded with
  | true =>
    have hguard := hphrase ["IF", "NOT", "EXISTS"] (by decide)
    have hall := hwords.join Spelled.blank_mem (hguard.join Spelled.blank_mem (htable.path hd.toLegible))
    exact hall.of_eq (by cases temporary <;> simp [CreateTable.words, String.intercalate_cons_cons])
  | false =>
    have hall := hwords.join Spelled.blank_mem (htable.path hd.toLegible)
    exact hall.of_eq (by cases temporary <;> simp [CreateTable.words, String.intercalate_cons_cons])

/-- The query of a table is written behind its head. -/
theorem sourceQuery_restored (hd : t.dialect.Stable) {source : Option Query} (h : ∀ q ∈ source, q.Restored t)
    {head : String} (hhead : Spelled t.dialect head ts) :
    Renders false t (match source with | some q => asQuery head q | none => return head) fun text =>
      ∃ qs source', Spelled t.dialect text (ts ++ qs) ∧ SourceQueryForm t.dialect qs source' ∧
        source'.map (·.respell (.plain id)) = source.map (·.respell (t.dialect.respelling id)) := by
  cases source with
  | none => exact .pure ⟨[], none, by simpa using hhead, rfl, rfl⟩
  | some q =>
    refine (asQuery_restored hd (h q rfl) hhead).mono ?_
    rintro text ⟨qs, q', hspelled, hform, heq⟩
    exact ⟨_, some q', hspelled, ⟨qs, hform, rfl⟩, congrArg some heq⟩

theorem createTable_restored (hd : t.dialect.Stable) {c : CreateTable} (h : c.IsWritten t) :
    (Statement.createTable c).Restored t := by
  obtain ⟨table, temporary, guarded, columns, constraints, query⟩ := c
  obtain ⟨⟨hne, htable⟩, hcolumns, hconstraints, hquery, hcontent⟩ := h
  dsimp only at hne htable hcolumns hconstraints hquery hcontent
  unfold Statement.Restored Restores
  rw [Statement.text, CreateTable.text]
  refine .target ?_
  extract_lets temporaryText guardText finish
  refine .requiredIf fun hguarded => (columnTexts_returned hd hcolumns).bind fun texts htexts => ?_
  obtain ⟨tss, columns', hall, hforms, hsome, heq⟩ := elements_returned hd hconstraints htexts
  have hhead := elements_spelled hd hall (tableHead_spelled hd htable temporary guarded)
  refine (sourceQuery_restored hd hquery (hhead.of_eq ?_)).mono ?_
  · simp [Target.elementsText, temporaryText, guardText]
  rintro text ⟨qs, query', hspelled, hqform, hqeq⟩
  refine ⟨_, .createTable ⟨table, temporary, guarded, columns', constraints, query'⟩, hspelled, ?_, ?_⟩
  · have hcontent' : query' = none → columns' = [] → constraints ≠ [] := by
      rintro rfl hnil
      have hnone : query = none := by simpa using hqeq.symm
      exact hcontent hnone (by_contra fun hcolumns => hsome hcolumns hnil)
    simp only [List.append_assoc]
    exact .create (create_table (createTable_reads hd hne hguarded hforms hqform hcontent'))
  · simp only [Statement.respell, hqeq]
    exact congrArg (fun cs => Statement.createTable ⟨_, _, _, cs, _, _⟩) heq

end Tables

/-! ## Removals -/

/-- The parts of a removal are written. -/
structure Drop.IsWritten (t : Target) (s : Drop) : Prop where
  names : s.names ≠ []
  paths : ∀ path ∈ s.names, path ≠ [] ∧ t.Keeps path

/-- The tokens of a removal. -/
def Dialect.dropShapes (d : Dialect) (s : Drop) : List Shape :=
  ["DROP", s.object.keyword].map d.bare ++ (d.guardShapes s.ifExists ["IF", "EXISTS"] ++
    (betweenCommas (s.names.map fun path => betweenDots (path.map Name.shape)) ++
      d.guardShapes s.cascade ["CASCADE"]))

section Removals

variable {d : Dialect} {t : Target} {s : Drop}

theorem cascade_reads {cascade : Bool} (hcascade : cascade = true → d.supports .dropCascade = true) :
    Parses d (Parser.onlyIf (d.supports .dropCascade) (Parser.eatWord "CASCADE")) (d.guardShapes cascade ["CASCADE"])
      cascade [] := by
  cases cascade with
  | true => exact .onlyIf_yes (hcascade rfl) (.eatBare d rfl)
  | false => exact .onlyIf_no (.eatWord_no rfl)

theorem isSymbol_cascade (d : Dialect) (cascade : Bool) (m : String) :
    (headShape (d.guardShapes cascade ["CASCADE"])).isSymbol m = false := by
  cases cascade with
  | true => exact Shape.isSymbol_bare d "CASCADE" m
  | false => rfl

/-- The names of what is removed are read before the word that removes what depends on it. -/
theorem paths_read {names : List QualifiedName} (hne : names ≠ []) (hpaths : ∀ path ∈ names, path ≠ [])
    (cascade : Bool) :
    Parses d (Parser.commaSeparated Parser.qualifiedName)
      (betweenCommas (names.map fun path => betweenDots (path.map Name.shape)) ++ d.guardShapes cascade ["CASCADE"])
      names (d.guardShapes cascade ["CASCADE"]) := by
  refine .commaSeparated (E := fun us => (headShape us).isSymbol "." = false) hne ?_ (fun _ => rfl)
    (isSymbol_cascade d cascade ".") (isSymbol_cascade d cascade ",")
  refine List.forall₂_map_left_iff.mpr (List.forall₂_same.mpr fun path hpath us hus => ?_)
  exact .qualifiedName (hpaths path hpath) hus

/-- The test for what is removed is read before its names. -/
theorem ifExists_reads {names : List QualifiedName} (hne : names ≠ []) (hpaths : ∀ path ∈ names, path ≠ [])
    {guarded : Bool} (hguarded : guarded = true → d.supports .ifExists = true) (cascade : Bool) :
    Parses d (Parser.onlyIf (d.supports .ifExists) (Parser.eatWords ["IF", "EXISTS"]))
      (d.guardShapes guarded ["IF", "EXISTS"] ++
        (betweenCommas (names.map fun path => betweenDots (path.map Name.shape)) ++ d.guardShapes cascade ["CASCADE"]))
      guarded
      (betweenCommas (names.map fun path => betweenDots (path.map Name.shape)) ++
        d.guardShapes cascade ["CASCADE"]) := by
  cases names with
  | nil => exact absurd rfl hne
  | cons path names =>
    rw [List.map_cons, betweenCommas, List.append_assoc]
    refine guard_reads (hpaths path (by simp)) hguarded [] ?_
    cases names with
    | cons => rfl
    | nil =>
      cases cascade with
      | true => exact Shape.isWord_bare d "CASCADE" "EXISTS"
      | false => rfl

theorem drop_reads (hnames : s.names ≠ [] ∧ ∀ path ∈ s.names, path ≠ [])
    (hguarded : s.ifExists = true → d.supports .ifExists = true)
    (hcascade : s.cascade = true → d.supports .dropCascade = true) :
    Parses d Parser.drop (d.dropShapes s) s [] := by
  obtain ⟨object, guarded, names, cascade⟩ := s
  obtain ⟨hne, hpaths⟩ := hnames
  dsimp only at hne hpaths hguarded hcascade
  have hguard := ifExists_reads hne hpaths hguarded cascade
  have hlast := cascade_reads hcascade
  have hrest : Parses d (do
      let ifExists ← Parser.onlyIf (← Parser.supports .ifExists) (Parser.eatWords ["IF", "EXISTS"])
      let names ← Parser.commaSeparated Parser.qualifiedName
      let cascade ← Parser.onlyIf (← Parser.supports .dropCascade) (Parser.eatWord "CASCADE")
      return (⟨object, ifExists, names, cascade⟩ : Drop)) _ ⟨object, guarded, names, cascade⟩ [] :=
    .supports (hguard.bind ((paths_read hne hpaths cascade).bind (.supports (hlast.bind (.pure _)))))
  refine (ReadsOr.expectWord (Shape.isWord_bare d "DROP" "DROP")).bind ?_
  cases object with
  | table => exact .yes (ReadsOr.eatBare d (w := "TABLE") rfl) ((ReadsOr.pure _).bind hrest)
  | view =>
    refine .no (ReadsOr.eatBare_no d (w := "VIEW") rfl) ?_
    exact (ReadsOr.expectWord (Shape.isWord_bare d "VIEW" "VIEW")).bind ((ReadsOr.pure _).bind hrest)

theorem drop_spelled (hd : t.dialect.Stable) (hpaths : ∀ path ∈ s.names, t.Keeps path) :
    Spelled t.dialect
      ("DROP " ++ s.object.keyword ++ " " ++ (if s.ifExists then "IF EXISTS " else "")
        ++ String.intercalate ", " (s.names.map t.path) ++ (if s.cascade then " CASCADE" else ""))
      (t.dialect.dropShapes s) := by
  obtain ⟨object, guarded, names, cascade⟩ := s
  have hphrase (ws : List String) (hws : ∀ w ∈ ws, Spelled.isPlainWord w = true) :
      Spelled t.dialect (String.intercalate " " ws) (ws.map t.dialect.bare) := .phrase hd.toLegible hws
  have hall : List.Forall₂ (Spelled t.dialect) (names.map t.path)
      (names.map fun path => betweenDots (path.map Name.shape)) := by
    refine List.forall₂_map_left_iff.mpr (List.forall₂_map_right_iff.mpr (List.forall₂_same.mpr fun path hpath => ?_))
    exact (hpaths path hpath).path hd.toLegible
  have hlist := Spelled.commaList hd.toLegible (by decide : ", " ∈ Spelled.listGaps) hall
  have hwords := hphrase ["DROP", object.keyword] (by cases object <;> decide)
  have hguard := hphrase ["IF", "EXISTS"] (by decide)
  have hcascade := hphrase ["CASCADE"] (by decide)
  have hnames : Spelled t.dialect
      ("DROP " ++ object.keyword ++ " " ++ (if guarded then "IF EXISTS " else "") ++
        String.intercalate ", " (names.map t.path))
      (["DROP", object.keyword].map t.dialect.bare ++ (t.dialect.guardShapes guarded ["IF", "EXISTS"] ++
        betweenCommas (names.map fun path => betweenDots (path.map Name.shape)))) := by
    cases guarded with
    | true =>
      exact (hwords.join Spelled.blank_mem (hguard.join Spelled.blank_mem hlist)).of_eq
        (by simp [String.intercalate_cons_cons])
    | false => exact (hwords.join Spelled.blank_mem hlist).of_eq (by simp [String.intercalate_cons_cons])
  cases cascade with
  | true =>
    have htotal := hnames.join Spelled.blank_mem hcascade
    simp only [List.append_assoc] at htotal
    exact htotal.of_eq (by simp)
  | false => simpa [Dialect.dropShapes, Dialect.guardShapes] using hnames

theorem drop_restored (hd : t.dialect.Stable) (h : s.IsWritten t) : (Statement.drop s).Restored t := by
  obtain ⟨object, guarded, names, cascade⟩ := s
  obtain ⟨hne, hpaths⟩ := h
  unfold Statement.Restored Restores
  rw [Statement.text, Drop.text]
  refine .target (.requiredIf fun hguarded => .requiredIf fun hcascade => .pure ⟨_, .drop ⟨object, guarded, names,
    cascade⟩, (drop_spelled hd fun path hpath => (hpaths path hpath).2).of_eq (by simp), ?_, rfl⟩)
  have hreads := drop_reads ⟨hne, fun path hpath => (hpaths path hpath).1⟩ hguarded hcascade
  refine .bare (.no (checkQuery_no (by decide) _) ?_)
  refine .no (ReadsOr.checkWord (Shape.isWord_bare _ _ _)) (.no (ReadsOr.checkWord (Shape.isWord_bare _ _ _)) ?_)
  refine .no (ReadsOr.checkWord (Shape.isWord_bare _ _ _)) (.no (ReadsOr.checkWord (Shape.isWord_bare _ _ _)) ?_)
  exact .yes (ReadsOr.checkWord (Shape.isWord_bare t.dialect "DROP" "DROP")) (hreads.bind (.pure _))

end Removals

end SqlDialects
