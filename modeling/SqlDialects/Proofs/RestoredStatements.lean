import SqlDialects.Proofs.RestoredQueries

/-!
# Statements are read where they are written

* `StatementForm` : the tokens of a statement that is a whole text;
* `Statement.Restored` : a statement that is written by such tokens;
* `Insert.IsWritten`, `Update.IsWritten`, `Delete.IsWritten` : the parts of a statement are written;
* `insert_restored`, `update_restored`, `delete_restored` : then the statement is read where it is written.
-/

namespace SqlDialects

open Render

/-- The tokens of a statement that is a whole text. -/
structure StatementForm (d : Dialect) (ts : List Shape) (s : Statement) : Prop where
  nonempty : ts ≠ []
  start : (headShape ts).isSymbol ";" = false
  reads : Parses d Parser.statement ts s []

theorem StatementForm.bare {d : Dialect} {w : String} {ts : List Shape} {s : Statement}
    (h : Parses d Parser.statement (d.bare w :: ts) s []) : StatementForm d (d.bare w :: ts) s :=
  ⟨by simp, Shape.isSymbol_bare d w ";", h⟩

/-- A word that starts another statement starts no query. -/
theorem checkQuery_no {F : Lapses} {d : Dialect} {w : String}
    (hw : ∀ v ∈ ["SELECT", "WITH", "VALUES"], Text.sameWord w v = false) (ts : List Shape) :
    ReadsOr F d Parser.checkQuery (d.bare w :: ts) false (d.bare w :: ts) := by
  have hno {v : String} (hv : v ∈ ["SELECT", "WITH", "VALUES"]) :
      ReadsOr F d (Parser.checkWord v) (d.bare w :: ts) false (d.bare w :: ts) :=
    .checkWord ((Shape.isWord_bare d w v).trans (hw v hv))
  refine .no (hno (by simp)) (.no (hno (by simp)) (.no (hno (by simp)) ?_))
  exact .checkSymbol (Shape.isSymbol_bare d w "(")

/-- The tokens of a query start with no mark but a parenthesis. -/
theorem Query.head_of_opensWith {q : Query} {ts : List Shape} (h : opensWith q.opening ts = true) :
    ts ≠ [] ∧ ∀ m, m ≠ "(" → (headShape ts).isSymbol m = false := by
  obtain ⟨w, ws, heq, -⟩ := q.opening_eq
  rw [heq, opensWith, Bool.and_eq_true] at h
  refine ⟨?_, fun m hm => Shape.isSymbol_of_isLead h.1 hm⟩
  rintro rfl
  exact absurd h.1 (by simp [Shape.isLead_finish])

/-- A query starts a statement that is one. -/
theorem checkQuery_yes {F : Lapses} {d : Dialect} {q : Query} {ts : List Shape}
    (h : opensWith q.opening ts = true) : ReadsOr F d Parser.checkQuery ts true ts := by
  obtain ⟨w, ws, heq, hw⟩ := q.opening_eq
  rw [heq, opensWith, Bool.and_eq_true] at h
  have hlead := h.1
  cases hselect : (headShape ts).isWord "SELECT" with
  | true => exact .yes (.checkWord hselect) (.pure true)
  | false =>
    refine .no (.checkWord hselect) ?_
    cases hwith : (headShape ts).isWord "WITH" with
    | true => exact .yes (.checkWord hwith) (.pure true)
    | false =>
      refine .no (.checkWord hwith) ?_
      cases hvalues : (headShape ts).isWord "VALUES" with
      | true => exact .yes (.checkWord hvalues) (.pure true)
      | false =>
        refine .no (.checkWord hvalues) (.checkSymbol ?_)
        simp only [List.mem_cons, List.not_mem_nil, or_false] at hw
        rcases hw with rfl | rfl | rfl | rfl <;> simp_all [Shape.isLead]

/-- The statement is written by the tokens of the respelled one. -/
def Statement.Restored (t : Target) (s : Statement) : Prop :=
  Restores t s.text Statement.respell (StatementForm t.dialect) s

theorem query_statement_restored {t : Target} {q : Query} (h : q.Restored t) : (Statement.query q).Restored t := by
  unfold Statement.Restored Restores
  rw [Statement.text]
  refine h.mono ?_
  rintro text ⟨ts, q', hspelled, ⟨hform, hopens⟩, heq⟩
  obtain ⟨hne, hmarks⟩ := q.head_of_opensWith hopens
  have hreads := hform Parser.maxDepth [] .nil
  rw [List.append_nil] at hreads
  refine ⟨ts, .query q', hspelled, ⟨hne, hmarks ";" (by decide), ?_⟩, by simp only [Statement.respell, heq]⟩
  exact .yes (checkQuery_yes hopens) (hreads.bind (.pure _))

/-! ## Clauses of statements -/

section Clauses

variable {d : Dialect} {t : Target} {ts us rest : List Shape} {items : List SelectItem}

theorem returning_reads (hd : d.Stable) (h : Keys d (ItemForm d) ["RETURNING"] ts items)
    (hsupports : items ≠ [] → d.supports .returning = true) : Parses d Parser.returning ts items [] := by
  rcases h with ⟨rfl, rfl⟩ | ⟨hne, tss, hitems, rfl⟩
  · exact .optionalList_no (.supports (.onlyIf_no (.eatWord_no rfl)))
  · refine .optionalList (.supports (.onlyIf_yes (hsupports hne) (.eatBare d (w := "RETURNING") rfl))) ?_
    have hend : EndsItem d [] := .of_stops hd.toReadable .nil
    have hlist := ReadsOr.commaSeparated hne (hitems.imp fun us item hform vs hvs =>
      hform.reads hd.toReadable hvs Parser.maxDepth) (.comma d) hend rfl
    rwa [List.append_nil] at hlist

theorem Keys.returning (hd : d.Stable) (h : Keys d (ItemForm d) ["RETURNING"] ts items)
    (hsupports : items ≠ [] → d.supports .returning = true) : Stops d [")"] ["RETURNING"] ts := by
  have hbehind : Behind d ["RETURNING"] ts := by
    rcases h with ⟨-, rfl⟩ | ⟨hne, tss, -, rfl⟩
    · exact .nil d _
    · exact .word (by simp) (hd.constructs.2 (hsupports hne)) _
  have hend : Stops d [")"] [] [] := .nil
  have hstops := hend.behind hbehind
  simpa using hstops

/-- The rows that a statement returns are written behind it. -/
theorem returningText_returned (hd : t.dialect.Stable) (h : ∀ item ∈ items, item.IsWritten t) :
    Renders false t (returningText items) fun text => ∃ us items', Spelled t.dialect text us ∧
      Keys t.dialect (ItemForm t.dialect) ["RETURNING"] us items' ∧
        (items' ≠ [] → t.dialect.supports .returning = true) ∧
          respellItems (.plain id) items' = respellItems (t.dialect.respelling id) items := by
  unfold returningText
  cases items with
  | nil => exact .pure ⟨[], [], Spelled.empty _, .inl ⟨rfl, rfl⟩, by simp, rfl⟩
  | cons item items =>
    refine .required fun hsupports => (itemTexts_returned hd.toFluent h).bind fun texts htexts => .target (.pure ?_)
    obtain ⟨tss, items', hall, hforms, hne, heq⟩ := listwise_items.returned htexts
    have hword : Spelled t.dialect "RETURNING" (["RETURNING"].map t.dialect.bare) := .word hd.toLegible rfl
    exact ⟨_, items', .listClause hd.toLegible rfl hword hall, .inr ⟨hne (by simp), tss, hforms, rfl⟩,
      fun _ => hsupports, heq⟩

/-- A condition is written as one clause. -/
theorem conditionTexts_gains (hd : t.dialect.Expressive) {condition : Option Expr}
    (h : ∀ e ∈ condition, Rewrites false t id e) :
    Renders false t (conditionTexts condition) fun texts => OptionGains t id [t.dialect.bare "WHERE"] texts
      (respellOption (t.dialect.respelling id) condition) := by
  refine (optionTexts_gains hd h fun s ts hs => ?_).bind fun texts htexts => .pure htexts
  exact ((Spelled.word (w := "WHERE") hd.toLegible rfl).join Spelled.blank_mem hs).of_eq (by simp)

/-- A condition and the rows that are returned stand behind the other parts of a statement. -/
theorem condition_behind (hd : d.Stable) {condition : Option Expr} (hcondition : Clause d [d.bare "WHERE"] ts condition)
    (hitems : Keys d (ItemForm d) ["RETURNING"] us items) (hsupports : items ≠ [] → d.supports .returning = true) :
    Stops d [")"] ["WHERE", "RETURNING"] (ts ++ us) :=
  (hitems.returning hd hsupports).behind (hcondition.behind (hd.isReserved (by decide)))

theorem condition_reads (hd : d.Stable) {condition : Option Expr} (hcondition : Clause d [d.bare "WHERE"] ts condition)
    (hitems : Keys d (ItemForm d) ["RETURNING"] us items) (hsupports : items ≠ [] → d.supports .returning = true) :
    Parses d (Parser.optional (Parser.eatWord "WHERE") Parser.expr) (ts ++ us) condition us :=
  hcondition.reads hd.toReadable (hitems.returning hd hsupports) (by decide) Parser.maxDepth

end Clauses

/-! ## Changes of data -/

/-- The parts of an insertion are written. A query that stands where a list of columns may stand is not taken for
one. -/
structure Insert.IsWritten (t : Target) (s : Insert) : Prop where
  table : s.table ≠ [] ∧ t.Keeps s.table
  columns : t.Keeps s.columns
  source : s.source.Restored t
  plain : s.columns = [] → ∀ w ws, s.source.opening = "(" :: w :: ws → w = "SELECT"
  returning : ∀ item ∈ s.returning, item.IsWritten t

/-- The target and the value of an assignment are written. -/
structure Assignment.IsWritten (t : Target) (a : Assignment) : Prop where
  target : a.target ≠ [] ∧ t.Keeps a.target
  value : Rewrites false t id a.value

/-- The parts of an update are written. -/
structure Update.IsWritten (t : Target) (s : Update) : Prop where
  table : s.table ≠ [] ∧ t.Keeps s.table
  label : t.Keeps s.label.toList
  assignments : s.assignments ≠ [] ∧ ∀ a ∈ s.assignments, a.IsWritten t
  condition : ∀ e ∈ s.condition, Rewrites false t id e
  returning : ∀ item ∈ s.returning, item.IsWritten t

/-- The parts of a deletion are written. -/
structure Delete.IsWritten (t : Target) (s : Delete) : Prop where
  table : s.table ≠ [] ∧ t.Keeps s.table
  condition : ∀ e ∈ s.condition, Rewrites false t id e
  returning : ∀ item ∈ s.returning, item.IsWritten t

section Data

variable {d : Dialect} {t : Target} {ts us rest : List Shape} {q : Query}

theorem Body.opening_paren {b : Body} {ws : List String} (h : b.opening = "(" :: ws) :
    ∃ q : Query, ws = q.opening := by
  match b with
  | .select _ => exact absurd (List.cons.inj h).1 (by decide)
  | .combine _ _ left _ => exact left.opening_paren h
  | .query q => exact ⟨q, (List.cons.inj h).2.symm⟩
  | .values _ => exact absurd (List.cons.inj h).1 (by decide)

/-- What opens with a parenthesis goes on as a query. -/
theorem Query.opening_paren {q : Query} {ws : List String} (h : q.opening = "(" :: ws) :
    ∃ w vs, ws = w :: vs ∧ w ∈ ["WITH", "SELECT", "VALUES", "("] := by
  match q with
  | ⟨some _, _, _, _⟩ => exact absurd (List.cons.inj h).1 (by decide)
  | ⟨none, body, _, _⟩ =>
    obtain ⟨q, rfl⟩ := Body.opening_paren h
    exact q.opening_eq

/-- A query behind the table of an insertion is not taken for a list of columns. -/
theorem listed_of_opensWith (h : opensWith q.opening ts = true)
    (hplain : ∀ w ws, q.opening = "(" :: w :: ws → w = "SELECT") :
    ((headShape ts).isSymbol "(" && !(nthShape ts 1).isWord "SELECT") = false := by
  obtain ⟨w, ws, heq, -⟩ := q.opening_eq
  have hopens := h
  rw [heq, opensWith, Bool.and_eq_true] at hopens
  by_cases hw : w = "("
  · subst hw
    obtain ⟨v, vs, rfl, -⟩ := q.opening_paren heq
    obtain rfl := hplain v vs heq
    rw [opensWith, Bool.and_eq_true] at hopens
    have hselect : (nthShape ts 1).isWord "SELECT" = true := by
      have hlead := hopens.2.1
      cases ts with
      | nil => exact absurd hlead (by simp [Shape.isLead_finish])
      | cons s ts =>
        show (headShape ts).isWord "SELECT" = true
        simpa [Shape.isLead] using hlead
    simp [hselect]
  · have hword : (headShape ts).isWord w = true := by simpa [Shape.isLead, hw] using hopens.1
    have hsymbol : (headShape ts).isSymbol "(" = false := by
      rw [← Bool.not_eq_true]
      exact fun hs => Bool.false_ne_true ((Token.isWord_of_isSymbol hs w).symm.trans hword)
    rw [hsymbol, Bool.false_and]

/-- The tokens of an insertion. -/
theorem insert_reads (hd : d.Stable) {table : QualifiedName} (htable : table ≠ []) {columns : List Name}
    (hcolumns : ∀ n ∈ columns, n.IsFree d) (hq : QueryForm d ts q) {opening : Query}
    (hopens : opensWith opening.opening ts = true)
    (hplain : columns = [] → ∀ w ws, opening.opening = "(" :: w :: ws → w = "SELECT") {items : List SelectItem}
    (hitems : Keys d (ItemForm d) ["RETURNING"] us items) (hsupports : items ≠ [] → d.supports .returning = true) :
    Parses d Parser.insert (["INSERT", "INTO"].map d.bare ++ (betweenDots (table.map Name.shape) ++
      (columnShapes columns ++ (ts ++ us)))) ⟨table, columns, q, items⟩ [] := by
  obtain ⟨hne, hmarks⟩ := opening.head_of_opensWith hopens
  have hdot : (headShape (columnShapes columns ++ (ts ++ us))).isSymbol "." = false := by
    unfold columnShapes
    split
    · rw [List.nil_append, headShape_append hne]
      exact hmarks "." (by decide)
    · rfl
  have hlast : Parses d (do
      let source ← Parser.query
      let returning ← Parser.returning
      return (⟨table, columns, source, returning⟩ : Insert)) (ts ++ us) ⟨table, columns, q, items⟩ [] :=
    (hq Parser.maxDepth us (hitems.returning hd hsupports)).bind ((returning_reads hd hitems hsupports).bind (.pure _))
  refine (ReadsOr.expectWord (Shape.isWord_bare d "INSERT" "INSERT")).bind ?_
  refine (ReadsOr.expectWord (Shape.isWord_bare d "INTO" "INTO")).bind ((ReadsOr.qualifiedName htable hdot).bind ?_)
  cases columns with
  | nil =>
    refine ReadsOr.bind (.peekSymbol rfl) (.peekNth fun next hnext => ?_)
    have hlisted := listed_of_opensWith (opensWith_append hopens us) (hplain rfl)
    rw [← Token.isWord_shape, hnext]
    have hnone : ((headShape (columnShapes [] ++ (ts ++ us))).isSymbol "(" &&
        !(nthShape (columnShapes [] ++ (ts ++ us)) 1).isWord "SELECT") = false := hlisted
    rw [hnone]
    exact hlast
  | cons n columns =>
    refine ReadsOr.bind (.peekSymbol rfl) (.peekNth fun next hnext => ?_)
    have hselect : next.isWord "SELECT" = false := by
      rw [← Token.isWord_shape, hnext]
      exact Name.isWord_shape (hcolumns n (by simp)) (reserved_of_mem_nonstarters hd.toReadable (by decide))
    rw [hselect]
    exact (ReadsOr.nameList (by simp)).bind hlast

theorem insert_restored (hd : t.dialect.Stable) {s : Insert} (h : s.IsWritten t) : (Statement.insert s).Restored t := by
  obtain ⟨table, columns, source, returning⟩ := s
  obtain ⟨⟨hne, htable⟩, hcolumns, hsource, hplain, hreturning⟩ := h
  unfold Statement.Restored Restores
  rw [Statement.text, Insert.text]
  refine .target (hsource.bind ?_)
  rintro qtext ⟨qs, q', hqspelled, ⟨hqform, hopens⟩, hqeq⟩
  refine (returningText_returned hd hreturning).bind ?_
  rintro rtext ⟨rs, items', hrspelled, hitems, hsupports, hreq⟩
  have hinto : Spelled t.dialect "INSERT INTO" (["INSERT", "INTO"].map t.dialect.bare) :=
    (Spelled.phrase hd.toLegible (by decide : ∀ w ∈ ["INSERT", "INTO"], Spelled.isPlainWord w = true)).of_eq rfl
  have hhead := hcolumns.columns hd.toLegible (hinto.join Spelled.blank_mem (htable.path hd.toLegible))
  have hall := Spelled.clauses t (.cons hhead (.cons hqspelled (.cons hrspelled .nil)))
  refine .pure ⟨_, .insert ⟨table, columns, q', items'⟩, hall.of_eq (by simp), ?_, ?_⟩
  · have hreads := insert_reads hd hne (fun n hn => hcolumns.isFree hn) hqform hopens hplain hitems hsupports
    simp only [List.flatten_cons, List.flatten_nil, List.append_nil, List.append_assoc]
    refine .bare (.no (checkQuery_no (by decide) _) ?_)
    exact .yes (ReadsOr.checkWord (Shape.isWord_bare t.dialect "INSERT" "INSERT")) (hreads.bind (.pure _))
  · simp only [Statement.respell, hqeq, hreq]
    rfl

/-! ### Updates -/

/-- The tokens of an assignment. -/
def AssignmentForm (d : Dialect) (ts : List Shape) (a : Assignment) : Prop :=
  a.target ≠ [] ∧ ∃ us, ElementForm d us a.value ∧
    ts = betweenDots (a.target.map Name.shape) ++ (.operator, "=") :: us

theorem targetParts_read {F : Lapses} (ns : List Name) (us : List Shape) :
    ReadsOr.Repeats F d (Parser.optional (Parser.eatSymbol ".") Parser.name)
      (behindDots (ns.map Name.shape) ++ (.operator, "=") :: us) ns ((.operator, "=") :: us) := by
  induction ns with
  | nil => exact .repeats_nil (.optional_no (.eatSymbol_no rfl))
  | cons n ns ih =>
    rw [List.map_cons, behindDots_cons, List.cons_append, List.cons_append]
    refine .repeats_cons (.optional (.eatSymbol rfl) (.name n)) ?_ ih
    simp only [List.length_cons]
    omega

theorem AssignmentForm.reads {a : Assignment} (h : AssignmentForm d ts a) (hrest : Ends d 0 rest) :
    Parses d Parser.assignment (ts ++ rest) a rest := by
  obtain ⟨target, value⟩ := a
  obtain ⟨hne, us, hvalue, rfl⟩ := h
  cases target with
  | nil => exact absurd rfl hne
  | cons n ns =>
    rw [List.append_assoc, List.cons_append]
    refine (ReadsOr.name n).bind ((ReadsOr.many (targetParts_read ns _)).bind ?_)
    exact (ReadsOr.expectSymbol rfl).bind ((hvalue.reads hrest Parser.maxDepth).bind (.pure _))

/-- An assignment as it is spelled. -/
def Assignment.respell (r : Respelling) (a : Assignment) : Assignment := ⟨a.target.map r.name, a.value.respell r⟩

theorem listwise_map {α : Type} (f : Respelling → α → α) : Listwise fun r (as : List α) => as.map (f r) where
  nil _ := rfl
  cons _ _ _ := rfl

theorem assignmentTexts_returned (hd : t.dialect.Stable) {as : List Assignment} (h : ∀ a ∈ as, a.IsWritten t) :
    Renders false t (assignmentTexts as) fun texts =>
      List.Forall₂ (Returned t (fun r as => as.map (Assignment.respell r)) (AssignmentForm t.dialect)) texts as := by
  have hequal : t.binaryForm .eq = .symbol "=" := by
    obtain ⟨rule, hrule, hsymbol⟩ := Option.map_eq_some_iff.mp hd.arithmetic.1
    simp [Target.binaryForm, hrule, hsymbol]
  induction as with
  | nil => exact .pure .nil
  | cons a as ih =>
    obtain ⟨⟨hne, htarget⟩, hvalue⟩ := h a (by simp)
    rw [assignmentTexts]
    refine (hvalue.whole hd.toExpressive).bind ?_
    rintro text ⟨e', ⟨ts, hspelled, hform, -⟩, heq⟩
    refine .target ((ih fun x hx => h x (by simp [hx])).bind fun texts htexts => .pure (.cons ?_ htexts))
    have hright := (symbolFacts hd.toExpressive hequal).spelled hspelled
    refine ⟨_, ⟨a.target, e'⟩, ((htarget.path hd.toLegible).join Spelled.blank_mem hright).of_eq (by simp),
      ⟨hne, ts, ⟨_, hform⟩, rfl⟩, ?_⟩
    simp only [List.map_cons, List.map_nil, Assignment.respell, heq]
    rfl

/-- The tokens of an update. -/
theorem update_reads (hd : d.Stable) {table : QualifiedName} (htable : table ≠ []) {label : Option Name}
    {assignments : List Assignment} (hne : assignments ≠ []) {ass : List (List Shape)}
    (hassignments : List.Forall₂ (AssignmentForm d) ass assignments) {condition : Option Expr}
    (hcondition : Clause d [d.bare "WHERE"] ts condition) {items : List SelectItem}
    (hitems : Keys d (ItemForm d) ["RETURNING"] us items) (hsupports : items ≠ [] → d.supports .returning = true) :
    Parses d Parser.update (d.bare "UPDATE" :: (betweenDots (table.map Name.shape) ++ (d.labelShapes label ++
      d.bare "SET" :: (betweenCommas ass ++ (ts ++ us))))) ⟨table, label, assignments, condition, items⟩ [] := by
  have hset (vs : List Shape) : Stops d [")"] ["SET"] (d.bare "SET" :: vs) :=
    .word (by simp) (hd.isReserved (by decide)) vs
  have hdot (vs : List Shape) : (headShape (d.labelShapes label ++ d.bare "SET" :: vs)).isSymbol "." = false := by
    cases label with
    | none => exact Shape.isSymbol_bare d "SET" "."
    | some n => exact Shape.isSymbol_bare d "AS" "."
  have hbehind := condition_behind hd hcondition hitems hsupports
  have hlist : List.Forall₂ (fun ts a => ∀ us, Ends d 0 us → Parses d Parser.assignment (ts ++ us) a us) ass
      assignments := by
    refine hassignments.imp fun us a ha vs hvs => ?_
    exact ha.reads hvs
  refine (ReadsOr.expectWord (Shape.isWord_bare d "UPDATE" "UPDATE")).bind ?_
  refine (ReadsOr.qualifiedName htable (hdot _)).bind ((label_reads ((hset _).endsLabel (by decide))).bind ?_)
  refine (ReadsOr.expectWord (Shape.isWord_bare d "SET" "SET")).bind ?_
  refine (ReadsOr.commaSeparated hne hlist (fun ws => .mark d 0 (by decide) ws)
    (hbehind.ends hd.toReadable 0 (by decide) (by decide)) (hbehind.isSymbol (by decide))).bind ?_
  refine (condition_reads hd hcondition hitems hsupports).bind ?_
  exact (returning_reads hd hitems hsupports).bind (.pure _)

theorem update_restored (hd : t.dialect.Stable) {s : Update} (h : s.IsWritten t) : (Statement.update s).Restored t := by
  obtain ⟨table, label, assignments, condition, returning⟩ := s
  obtain ⟨⟨hne, htable⟩, hlabel, ⟨hsome, hassignments⟩, hcondition, hreturning⟩ := h
  unfold Statement.Restored Restores
  rw [Statement.text, Update.text]
  refine .target ((assignmentTexts_returned hd hassignments).bind fun atexts hatexts => ?_)
  refine (conditionTexts_gains hd.toExpressive hcondition).bind ?_
  rintro ctexts ⟨css, condition', hcall, hcclause, hceq⟩
  refine (returningText_returned hd hreturning).bind ?_
  rintro rtext ⟨rs, items', hrspelled, hitems, hsupports, hreq⟩
  obtain ⟨ass, assignments', haall, haforms, hne', haeq⟩ := (listwise_map Assignment.respell).returned hatexts
  have hword {w : String} (hw : Spelled.isPlainWord w = true) : Spelled t.dialect w [t.dialect.bare w] :=
    .word hd.toLegible hw
  have hhead : Spelled t.dialect
      (s!"UPDATE {t.path table}" ++ (label.map fun a => t.aliasWord ++ t.name a).getD "")
      (t.dialect.bare "UPDATE" :: (betweenDots (table.map Name.shape) ++ t.dialect.labelShapes label)) := by
    have hupdate := (hword (w := "UPDATE") rfl).join Spelled.blank_mem (htable.path hd.toLegible)
    cases label with
    | none =>
      rw [Dialect.labelShapes, List.append_nil]
      exact hupdate.of_eq (by simp)
    | some n =>
      have hname := hlabel.name hd.toLegible (n := n) (by simp)
      have hall := hupdate.join Spelled.blank_mem ((hword (w := "AS") rfl).join Spelled.blank_mem hname)
      simp only [List.append_assoc] at hall
      exact hall.of_eq (by simp [Target.aliasWord, hd.aliases])
  have hset : Spelled t.dialect (t.listClause "SET" atexts) ([t.dialect.bare "SET"] ++ betweenCommas ass) :=
    .listClause hd.toLegible rfl (hword rfl) haall
  have hall := Spelled.clauses t (.cons hhead (.cons hset (List.rel_append hcall (.cons hrspelled .nil))))
  refine .pure ⟨_, .update ⟨table, label, assignments', condition', items'⟩, hall.of_eq (by simp), ?_, ?_⟩
  · have hreads : Parses t.dialect Parser.update (t.dialect.bare "UPDATE" :: (betweenDots (table.map Name.shape) ++
        (t.dialect.labelShapes label ++ t.dialect.bare "SET" :: (betweenCommas ass ++ (css.flatten ++ rs)))))
        ⟨table, label, assignments', condition', items'⟩ [] :=
      update_reads hd hne (hne' hsome) haforms hcclause hitems hsupports
    simp only [List.flatten_cons, List.flatten_append, List.flatten_nil, List.append_nil, List.append_assoc,
      List.cons_append, List.nil_append]
    refine .bare (.no (checkQuery_no (by decide) _) (.no (ReadsOr.checkWord (Shape.isWord_bare _ _ _)) ?_))
    exact .yes (ReadsOr.checkWord (Shape.isWord_bare t.dialect "UPDATE" "UPDATE")) (hreads.bind (.pure _))
  · have hassigned : assignments'.map (fun a => (⟨a.target.map id, a.value.respell (.plain id)⟩ : Assignment)) =
        assignments.map fun a => ⟨a.target.map id, a.value.respell (t.dialect.respelling id)⟩ := haeq
    simp only [Statement.respell, hceq, hreq]
    exact congrArg (fun as => Statement.update ⟨_, _, as, _, _⟩) hassigned

/-! ### Deletions -/

theorem delete_restored (hd : t.dialect.Stable) {s : Delete} (h : s.IsWritten t) : (Statement.delete s).Restored t := by
  obtain ⟨table, condition, returning⟩ := s
  obtain ⟨⟨hne, htable⟩, hcondition, hreturning⟩ := h
  unfold Statement.Restored Restores
  rw [Statement.text, Delete.text]
  refine .target ((conditionTexts_gains hd.toExpressive hcondition).bind ?_)
  rintro ctexts ⟨css, condition', hcall, hcclause, hceq⟩
  refine (returningText_returned hd hreturning).bind ?_
  rintro rtext ⟨rs, items', hrspelled, hitems, hsupports, hreq⟩
  have hfrom : Spelled t.dialect "DELETE FROM" (["DELETE", "FROM"].map t.dialect.bare) :=
    (Spelled.phrase hd.toLegible (by decide : ∀ w ∈ ["DELETE", "FROM"], Spelled.isPlainWord w = true)).of_eq rfl
  have hhead := hfrom.join Spelled.blank_mem (htable.path hd.toLegible)
  have hall := Spelled.clauses t (.cons hhead (List.rel_append hcall (.cons hrspelled .nil)))
  refine .pure ⟨_, .delete ⟨table, condition', items'⟩, hall.of_eq (by simp), ?_, ?_⟩
  · have hbehind := condition_behind hd hcclause hitems hsupports
    have hreads : Parses t.dialect Parser.delete (["DELETE", "FROM"].map t.dialect.bare ++
        (betweenDots (table.map Name.shape) ++ (css.flatten ++ rs))) ⟨table, condition', items'⟩ [] := by
      refine (ReadsOr.expectWord (Shape.isWord_bare t.dialect "DELETE" "DELETE")).bind ?_
      refine (ReadsOr.expectWord (Shape.isWord_bare t.dialect "FROM" "FROM")).bind ?_
      refine (ReadsOr.qualifiedName hne (hbehind.isSymbol (by decide))).bind ?_
      refine (condition_reads hd hcclause hitems hsupports).bind ?_
      exact (returning_reads hd hitems hsupports).bind (.pure _)
    simp only [List.flatten_cons, List.flatten_append, List.flatten_nil, List.append_nil, List.append_assoc]
    refine .bare (.no (checkQuery_no (by decide) _) (.no (ReadsOr.checkWord (Shape.isWord_bare _ _ _))
      (.no (ReadsOr.checkWord (Shape.isWord_bare _ _ _)) ?_)))
    exact .yes (ReadsOr.checkWord (Shape.isWord_bare t.dialect "DELETE" "DELETE")) (hreads.bind (.pure _))
  · simp only [Statement.respell, hceq, hreq]
    rfl

end Data

end SqlDialects
