import SqlDialects.Proofs.RestoredBodies
import SqlDialects.Proofs.RowLimits

/-!
# Queries are read where they are written

* `CteForm`, `WithForm`, `LimitForm` : the tokens of common table expressions and of a row limit;
* `queryForm_parts` : a query from its parts;
* `Query.restored` : a query whose parts are written is read where it is written;
* `exists_regains`, `subquery_regains`, `inQuery_regains` : queries inside expressions.
-/

namespace SqlDialects

open Render

/-! ## Common table expressions -/

/-- The tokens of a common table expression. -/
def CteForm (d : Dialect) (ts : List Shape) (c : Cte) : Prop :=
  ∃ us, QueryForm d us c.query ∧
    ts = c.name.shape :: (columnShapes c.columns ++ d.bare "AS" :: inParens us)

/-- The tokens of common table expressions that may be missing. Without `RECURSIVE` the first of them does not
start with that word. -/
def WithForm (d : Dialect) (ts : List Shape) : Option With → Prop
  | none => ts = []
  | some w => w.tables ≠ [] ∧
      (w.recursive = false → ∀ c ∈ w.tables.head?, c.name.shape.isWord "RECURSIVE" = false) ∧
        ∃ tss, List.Forall₂ (CteForm d) tss w.tables ∧
          ts = d.bare "WITH" :: ((if w.recursive then [d.bare "RECURSIVE"] else []) ++ betweenCommas tss)

/-- The parts of a common table expression are written. -/
structure Cte.IsWritten (t : Target) (c : Cte) : Prop where
  query : c.query.Restored t
  names : t.Keeps (c.name :: c.columns)

/-- The common table expressions are written; the first of them does not start with `RECURSIVE` by itself. -/
structure With.IsWritten (t : Target) (w : With) : Prop where
  nonempty : w.tables ≠ []
  tables : ∀ c ∈ w.tables, c.IsWritten t
  plain : w.recursive = false → ∀ c ∈ w.tables.head?, c.name.shape.isWord "RECURSIVE" = false

section Tables

variable {d : Dialect} {t : Target} {ts us rest : List Shape} {c : Cte} {tables : List Cte} {ctes : Option With}

theorem CteForm.reads (h : CteForm d ts c) (n : Nat) (rest : List Shape) :
    Parses d (Parser.cte (Parser.nested n)) (ts ++ rest) c rest := by
  obtain ⟨name, columns, query⟩ := c
  obtain ⟨us, hquery, rfl⟩ := h
  simp only [List.cons_append, List.append_assoc, inParens_append]
  refine (ReadsOr.name name).bind (ReadsOr.bind (columns_read (Shape.isSymbol_bare d "AS" "(")) ?_)
  refine (ReadsOr.expectWord (Shape.isWord_bare d "AS" "AS")).bind ?_
  exact (ReadsOr.parenthesized (hquery.closed n rest)).bind (.pure _)

theorem WithForm.reads (h : WithForm d ts ctes) (hrest : (headShape rest).isWord "WITH" = false)
    (hcomma : (headShape rest).isSymbol "," = false) (n : Nat) :
    Parses d (Parser.optional (Parser.eatWord "WITH") (Parser.ctes (Parser.nested n))) (ts ++ rest) ctes rest := by
  cases ctes with
  | none =>
    obtain rfl : ts = [] := h
    exact .optional_no (ReadsOr.eatWord_no hrest)
  | some w =>
    obtain ⟨recursive, tables⟩ := w
    obtain ⟨hne, hplain, tss, htables, rfl⟩ := h
    have hlist : Parses d (Parser.commaSeparated (Parser.cte (Parser.nested n))) (betweenCommas tss ++ rest) tables
        rest :=
      ReadsOr.commaSeparated (E := fun _ => True) hne (htables.imp fun us c hc vs _ => hc.reads n vs)
        (fun _ => trivial) trivial hcomma
    rw [List.cons_append, List.append_assoc]
    refine .optional (ReadsOr.eatBare d rfl) ?_
    cases recursive with
    | true => exact (ReadsOr.eatBare d (w := "RECURSIVE") rfl).bind (hlist.bind (.pure _))
    | false =>
      refine ReadsOr.bind (a := false) (u := betweenCommas tss ++ rest) (.eatWord_no ?_) (hlist.bind (.pure _))
      cases htables with
      | nil => exact absurd rfl hne
      | @cons us c tss tables hc _ =>
        obtain ⟨vs, -, rfl⟩ := hc
        exact hplain rfl c rfl

theorem listwise_ctes : Listwise respellCtes where
  nil r := by rw [respellCtes]
  cons r a as := by
    obtain ⟨name, columns, query⟩ := a
    simp only [respellCtes, List.cons_append, List.nil_append]

theorem cteTexts_returned (hd : t.dialect.Stable) (h : ∀ c ∈ tables, c.IsWritten t) :
    Renders false t (cteTexts tables) fun texts =>
      List.Forall₂ (Returned t respellCtes (CteForm t.dialect)) texts tables := by
  induction tables with
  | nil => exact .pure .nil
  | cons c tables ih =>
    obtain ⟨name, columns, query⟩ := c
    obtain ⟨hquery, hnames⟩ := h ⟨name, columns, query⟩ (by simp)
    rw [cteTexts]
    refine (hquery.block hd).bind ?_
    rintro text ⟨us, q', hspelled, hform, -, heq⟩
    refine .target ((ih fun x hx => h x (by simp [hx])).bind fun more hmore => .pure (.cons ?_ hmore))
    have hword : Spelled t.dialect "AS" [t.dialect.bare "AS"] := .word hd.toLegible rfl
    have hname : Spelled t.dialect (t.name name) [name.shape] := hnames.name hd.toLegible (by simp)
    have hcolumns : t.Keeps columns := fun n hn => hnames n (by simp [hn])
    have htable := (hcolumns.columns hd.toLegible hname).join Spelled.blank_mem
      (hword.join Spelled.blank_mem hspelled)
    refine ⟨_, ⟨name, columns, q'⟩, htable.of_eq (by simp), ⟨us, hform, by simp⟩, ?_⟩
    simp only [respellCtes, heq]
    rfl

/-- Common table expressions are written before a body. -/
theorem withTexts_returned (hd : t.dialect.Stable) (h : ∀ w ∈ ctes, w.IsWritten t) :
    Renders false t (withTexts ctes) fun texts => ∃ tss ctes', List.Forall₂ (Spelled t.dialect) texts tss ∧
      WithForm t.dialect tss.flatten ctes' ∧
        respellWith (.plain id) ctes' = respellWith (t.dialect.respelling id) ctes := by
  cases ctes with
  | none => exact .pure ⟨[], none, .nil, rfl, rfl⟩
  | some w =>
    obtain ⟨recursive, tables⟩ := w
    obtain ⟨hne, htables, hplain⟩ := h _ rfl
    rw [withTexts]
    refine (cteTexts_returned hd htables).bind fun texts htexts => .target (.pure ?_)
    obtain ⟨tss, tables', hall, hforms, hne', heq⟩ := listwise_ctes.returned htexts
    have hlist := Spelled.commaList hd.toLegible (Spelled.comma_mem t) hall
    have hwith : Spelled t.dialect "WITH" [t.dialect.bare "WITH"] := .word hd.toLegible rfl
    refine ⟨[_], some ⟨recursive, tables'⟩, .cons ?_ .nil, ⟨hne' hne, fun hno c' hc' => ?_, tss, hforms,
      (List.append_nil _).trans rfl⟩, by rw [respellWith, respellWith, heq]⟩
    · cases recursive with
      | false => exact (hwith.join Spelled.blank_mem hlist).of_eq (by simp)
      | true =>
        have hrecursive : Spelled t.dialect "RECURSIVE" [t.dialect.bare "RECURSIVE"] := .word hd.toLegible rfl
        exact (hwith.join Spelled.blank_mem (hrecursive.join Spelled.blank_mem hlist)).of_eq (by simp)
    · -- The first table has kept its name.
      cases tables with
      | nil => exact absurd rfl hne
      | cons c tables =>
        cases tables' with
        | nil => cases hc'
        | cons b tables' =>
          obtain rfl : b = c' := Option.some.inj hc'
          obtain ⟨name, columns, query⟩ := c
          obtain ⟨name', columns', query'⟩ := b
          simp only [respellCtes, List.cons.injEq, Cte.mk.injEq] at heq
          obtain rfl : name' = name := heq.1.1
          exact hplain hno ⟨name', columns, query⟩ rfl

end Tables

/-! ## Row limits -/

/-- The tokens of a row limit that may be missing. -/
def LimitForm (d : Dialect) (ts : List Shape) : Option Limit → Prop
  | none => ts = []
  | some l => (l.count.isSome = true ∨ l.offset.isSome = true) ∧ ∃ cs os,
      Clause d [d.bare "LIMIT"] cs l.count ∧ Clause d [d.bare "OFFSET"] os l.offset ∧ ts = cs ++ os

/-- The parts of a row limit are written. -/
structure Limit.IsWritten (t : Target) (l : Limit) : Prop where
  some : l.count.isSome = true ∨ l.offset.isSome = true
  count : ∀ e ∈ l.count, Rewrites false t id e
  offset : ∀ e ∈ l.offset, Rewrites false t id e

/-- Any number of steps from `x` that is enough leads to a state with the property `P`. -/
theorem Gives.iterates_step {σ : Type} {F : Lapses} {d : Dialect} {step : σ → Parser (Option σ)} {x : σ}
    {ts us vs : List Shape} {P Q : σ → Prop} (h : Gives F d (step x) ts (fun r => ∃ y, r = some y ∧ P y) us)
    (hlt : us.length < ts.length)
    (hrest : ∀ y, P y → ∀ k, us.length < k → Gives F d (Parser.iterateUpTo step y k) us Q vs) (k : Nat)
    (hk : ts.length < k) : Gives F d (Parser.iterateUpTo step x k) ts Q vs := by
  cases k with
  | zero => cases hk
  | succ k =>
    refine h.bind ?_
    rintro _ ⟨y, rfl, hy⟩
    exact hrest y hy k (by omega)

section Limits

variable {d : Dialect} {t : Target} {ts us rest : List Shape} {count offset : Option Expr} {limit : Option Limit}
  {l : Parser.LimitClauses}

/-- The clause of an offset is read, and what may follow it ends the row limit. -/
theorem offset_reads (hd : d.Stable) (h : Clause d [d.bare "OFFSET"] ts offset)
    (hrest : Stops d [")"] ["RETURNING"] rest) (n k : Nat) (hk : (ts ++ rest).length < k)
    (htoken : l.offsetToken = none) (hoffset : l.offset = none) :
    Gives .deep d (Parser.iterateUpTo (Parser.moreLimit (Parser.nested n)) l k) (ts ++ rest)
      (fun l' => l'.count = l.count ∧ l'.offset = offset) rest := by
  have hnone : NoneNext rest ("ROWS" :: "ROW" :: limitStarts) := hrest.noneNext (by decide)
  have hstop (l : Parser.LimitClauses) (k : Nat) (hk : rest.length < k) :
      Gives .deep d (Parser.iterateUpTo (Parser.moreLimit (Parser.nested n)) l k) rest (· = l) rest :=
    .of_reads (ReadsOr.iterates_stop (moreLimit_no (hnone.mono (by simp))) k hk)
  cases offset with
  | none =>
    obtain rfl : ts = [] := h
    exact (hstop l k hk).mono fun l' hl' => by simp [hl', hoffset]
  | some e =>
    obtain ⟨p, us, hform, rfl⟩ := h
    have hafter (l' : Parser.LimitClauses) (hl' : l'.count = l.count ∧ l'.offset = some e) (k : Nat)
        (hk : rest.length < k) :
        Gives .deep d (Parser.iterateUpTo (Parser.moreLimit (Parser.nested n)) l' k) rest
          (fun l' => l'.count = l.count ∧ l'.offset = some e) rest :=
      (hstop l' k hk).mono fun l'' hl'' => by rwa [hl'']
    refine Gives.iterates_step ?_ ?_ hafter k hk
    · have hcond : (d.reading.offset && (l.offsetToken.isNone && l.offset.isNone)) = true := by
        simp [hd.limits, htoken, hoffset]
      refine .rules (.step (.onlyIf_no (.eatBare_no d (w := "OFFSET") rfl)) ?_)
      refine .step (.onlyIf_yes hcond (.checkWord (Shape.isWord_bare d "OFFSET" "OFFSET"))) (.advance fun token => ?_)
      refine .step (hform.expr_zero (hrest.ends hd.toReadable 0 (by decide) (by decide)) n) ?_
      refine .step (hnone.eatWord (by simp)) (.step (hnone.eatWord (by simp)) (.pure ?_))
      exact ⟨_, rfl, rfl, rfl⟩
    · simp

theorem LimitForm.reads (h : LimitForm d ts limit) (hd : d.Stable) (hrest : Stops d [")"] ["RETURNING"] rest)
    (n : Nat) (ordered : Bool) :
    Parses d (Parser.limit (Parser.nested n) none ordered) (ts ++ rest) limit rest := by
  cases limit with
  | none =>
    obtain rfl : ts = [] := h
    exact limit_no none ordered (hrest.noneNext (by decide))
  | some l =>
    obtain ⟨count, offset⟩ := l
    obtain ⟨hsome, cs, os, hcount, hoffset, rfl⟩ := h
    have hiterate : Gives .deep d (Parser.iterate (Parser.moreLimit (Parser.nested n)) { count := none })
        (cs ++ os ++ rest) (fun l => l.count = count ∧ l.offset = offset) rest := by
      refine .remaining ?_
      rw [List.append_assoc]
      cases count with
      | none =>
        obtain rfl : cs = [] := hcount
        exact offset_reads hd hoffset hrest n _ (Nat.lt_succ_self _) rfl rfl
      | some e =>
        obtain ⟨p, us, hform, rfl⟩ := hcount
        have hbehind : Ends d 0 (os ++ rest) := by
          refine Stops.ends (hrest.behind (hoffset.behind (hd.isReserved (by decide)))) hd.toReadable 0 (by decide) ?_
          decide
        have hcomma : (headShape (os ++ rest)).isSymbol "," = false :=
          (hrest.behind (hoffset.behind (hd.isReserved (by decide)))).isSymbol (by decide)
        have hall : (headShape (us ++ (os ++ rest))).isWord "ALL" = false := by
          rw [headShape_append hform.opens.ne_nil]
          exact hform.opens.word "ALL" (by decide)
        have hafter (l : Parser.LimitClauses) (hl : l = { count := some e, limited := true }) (k : Nat)
            (hk : (os ++ rest).length < k) :
            Gives .deep d (Parser.iterateUpTo (Parser.moreLimit (Parser.nested n)) l k) (os ++ rest)
              (fun l => l.count = some e ∧ l.offset = offset) rest := by
          subst hl
          exact offset_reads hd hoffset hrest n k hk rfl rfl
        refine Gives.iterates_step ?_ ?_ hafter _ (Nat.lt_succ_self _)
        · refine .rules (.step (.onlyIf_yes (by simp [hd.limits]) (.eatBare d (w := "LIMIT") rfl)) ?_)
          refine .step (.eatWord_no hall) (.step (hform.expr_zero hbehind n) ?_)
          exact .step (.onlyIf_no (.eatSymbol_no hcomma)) (.pure ⟨_, rfl, rfl⟩)
        · simp
    refine Gives.reads (hiterate.bind ?_)
    rintro l ⟨rfl, rfl⟩
    have hpresent : (l.count.isNone && l.offset.isNone) = false := by
      revert hsome
      cases l.count <;> cases l.offset <;> simp
    obtain ⟨-, -, -, -, -, -, -, horder, hlimit⟩ := hd.limits
    refine .rules ?_
    simp only [hpresent, horder, hlimit, Bool.false_and]
    cases l.offsetToken <;> exact .pure rfl

/-- What follows a body ends before a row limit. -/
theorem LimitForm.behind (h : LimitForm d ts limit) (hd : d.Stable) : Behind d ["LIMIT", "OFFSET"] ts := by
  cases limit with
  | none => exact .inl h
  | some l =>
    obtain ⟨count, offset⟩ := l
    obtain ⟨-, cs, os, hcount, hoffset, rfl⟩ := h
    cases count with
    | none =>
      obtain rfl : cs = [] := hcount
      exact (hoffset.behind (hd.isReserved (by decide))).mono (by simp)
    | some e =>
      obtain ⟨p, us, -, rfl⟩ := hcount
      exact .word (by simp) (hd.isReserved (by decide)) _

theorem optionText_gains (hd : t.dialect.Expressive) {o : Option Expr} {w : String}
    (hw : Spelled.isPlainWord w = true) (ho : ∀ e ∈ o, Rewrites false t id e) :
    Renders false t (optionText o) fun text => OptionGains t id [t.dialect.bare w]
      (text.map fun s => w ++ " " ++ s).toList (respellOption (t.dialect.respelling id) o) := by
  cases o with
  | none =>
    rw [optionText, respellOption]
    exact .pure ⟨[], none, .nil, rfl, by rw [respellOption]⟩
  | some e =>
    rw [optionText, respellOption]
    refine ((ho e rfl).whole hd).bind ?_
    rintro text ⟨e', ⟨ts, hspelled, hform, -⟩, heq⟩
    have hword : Spelled t.dialect w [t.dialect.bare w] := .word hd.toLegible hw
    refine .pure ⟨[_], some e', .cons (hword.join Spelled.blank_mem hspelled) .nil, ⟨_, ts, hform, by simp⟩, ?_⟩
    rw [respellOption, heq]

/-- A row limit is written behind an ordering. -/
theorem limitTexts_returned (hd : t.dialect.Stable) (h : ∀ l ∈ limit, l.IsWritten t) :
    Renders false t (limitTexts limit) fun texts => ∃ tss limit', List.Forall₂ (Spelled t.dialect) texts tss ∧
      LimitForm t.dialect tss.flatten limit' ∧
        respellLimit (.plain id) limit' = respellLimit (t.dialect.respelling id) limit := by
  cases limit with
  | none => exact .pure ⟨[], none, .nil, rfl, rfl⟩
  | some l =>
    obtain ⟨count, offset⟩ := l
    obtain ⟨hsome, hcount, hoffset⟩ := h _ rfl
    rw [limitTexts]
    unfold limitClauses limitOffset
    refine .target ?_
    simp only [hd.limits.1, hd.limits.2.2.2.2.1, Bool.false_and, Bool.false_eq_true, if_false]
    refine (optionText_gains hd.toExpressive (w := "LIMIT") rfl hcount).bind ?_
    rintro ctext ⟨css, count', hcall, hcclause, hceq⟩
    refine (optionText_gains hd.toExpressive (w := "OFFSET") rfl hoffset).bind ?_
    rintro otext ⟨oss, offset', hoall, hoclause, hoeq⟩
    refine .target (.pure ?_)
    have hmost : (ctext <|> if otext.isSome then t.dialect.writing.maxLimit else none) = ctext := by
      rw [hd.limits.2.1]
      cases ctext <;> simp
    refine ⟨css ++ oss, some ⟨count', offset'⟩, ?_, ⟨?_, _, _, hcclause, hoclause, by simp⟩, ?_⟩
    · rw [hmost]
      exact List.rel_append hcall hoall
    · rw [isSome_of_respellOption hceq, isSome_of_respellOption hoeq]
      exact hsome
    · rw [respellLimit, respellLimit, hceq, hoeq]

end Limits

/-! ## Queries -/

section Queries

variable {d : Dialect} {t : Target} {cs bs os ls ts : List Shape} {q : Query} {b : Body}

/-- A query from its parts. -/
theorem queryForm_parts (hd : d.Stable) (hctes : WithForm d cs q.ctes) (hbody : BodyForm d bs q.body)
    (hopens : opensWith b.opening bs = true) (horder : Keys d (OrderForm d) ["ORDER", "BY"] os q.orderBy)
    (hlimit : LimitForm d ls q.limit) : QueryForm d (cs ++ (bs ++ (os ++ ls))) q := by
  intro n rest hrest
  cases n with
  | zero => exact Parses.tooDeep
  | succ n =>
    obtain ⟨ctes, body, orderBy, limit⟩ := q
    obtain ⟨hne, hwords, hcomma⟩ := b.head_of_opensWith hopens
    have hls := hrest.behind (hlimit.behind hd)
    have hos := hls.behind (horder.behind (hd.isReserved (by decide)))
    have hmore : Stops d [")"] operandEnds (os ++ (ls ++ rest)) :=
      hos.mono (List.Subset.refl _) (List.subset_append_right _ _)
    have hends : EndsKeys d (ls ++ rest) := .of_stops hd.toReadable hls (by decide)
    have hnone : NoneNext (ls ++ rest) ["ORDER"] := hls.noneNext (by decide)
    simp only [List.append_assoc]
    refine .level ((hctes.reads ?_ ?_ n).bind ?_)
    · rw [headShape_append hne]
      exact hwords "WITH" (by simp)
    · rwa [headShape_append hne]
    refine (hbody n _ (body, none) _ hmore (ReadsOr.iterates_stop (moreBodies_no (hos.noneNext (by decide))))).bind ?_
    refine ReadsOr.bind (a := orderBy) (u := ls ++ rest) ?_ ((hlimit.reads hd hrest n _).bind (.pure _))
    rw [Parser.orderBy_eq]
    exact horder.reads (E := EndsKey d) (fun _ _ _ ho hus => ho.reads hd.toReadable hus n)
      (fun us => .mark d (by decide) us) hends.toEndsKey hends.comma (hnone _ (by simp))

/-- The row limit of a query is written behind its ordering. -/
theorem topText_eq (hd : t.dialect.Stable) (body : Body) (limit : Option Limit) :
    Renders false t (topText body limit) (· = none) := by
  cases limit with
  | none => exact .pure rfl
  | some l =>
    obtain ⟨count, offset⟩ := l
    have hno : t.hasTop body ⟨count, offset⟩ = false := by simp [Target.hasTop, hd.limits.1]
    unfold topText
    refine .target ?_
    rw [hno]
    exact .pure rfl

/-- A query whose parts are written is read where it is written. -/
theorem Query.restored (hd : t.dialect.Stable) (hctes : ∀ w ∈ q.ctes, w.IsWritten t) (hbody : q.body.Restored t)
    (horder : ∀ o ∈ q.orderBy, Rewrites false t id o.key) (hlimit : ∀ l ∈ q.limit, l.IsWritten t) :
    q.Restored t := by
  obtain ⟨ctes, body, orderBy, limit⟩ := q
  unfold Query.Restored Restores
  rw [Query.text]
  refine .target ((withTexts_returned hd hctes).bind ?_)
  rintro wtexts ⟨css, ctes', hwall, hwform, hweq⟩
  refine (topText_eq hd body limit).bind ?_
  rintro _ rfl
  refine hbody.bind ?_
  rintro btext ⟨bs, body', hbspelled, ⟨hbform, hbopens⟩, hbeq⟩
  refine (orderTexts_returned hd.toExpressive horder).bind fun otexts hotexts => ?_
  have hwords : Spelled t.dialect "ORDER BY" (["ORDER", "BY"].map t.dialect.bare) :=
    ((Spelled.word (w := "ORDER") hd.toLegible rfl).join Spelled.blank_mem
      (.word (w := "BY") hd.toLegible rfl)).of_eq rfl
  obtain ⟨oss, orderBy', hoall, hoform, hoeq⟩ := listwise_order.keys ["ORDER", "BY"] (t.listClause "ORDER BY")
    hotexts fun tss hall => Spelled.listClause hd.toLegible rfl hwords hall
  refine Renders.bind (P := (· = otexts)) ?_ ?_
  · have hneeded : (t.dialect.writing.limitStyle == .top true && limit.isSome) = false := by simp [hd.limits.1]
    rw [hneeded, ordering, Bool.and_false, Bool.and_false]
    exact .pure rfl
  rintro _ rfl
  refine (limitTexts_returned hd hlimit).bind ?_
  rintro ltexts ⟨lss, limit', hlall, hlform, hleq⟩
  have hall := Spelled.clauses t (List.rel_append (List.rel_append hwall (.cons hbspelled hoall)) hlall)
  refine .pure ⟨_, ⟨ctes', body', orderBy', limit'⟩, ?_,
    ⟨queryForm_parts hd hwform hbform hbopens hoform hlform, ?_⟩, ?_⟩
  · simpa using hall
  · cases ctes with
    | none =>
      cases ctes' with
      | none =>
        have hnil : css.flatten = [] := hwform
        rw [hnil]
        exact opensWith_append hbopens _
      | some w =>
        cases w
        cases hweq
    | some w =>
      cases ctes' with
      | none =>
        cases w
        cases hweq
      | some w' =>
        obtain ⟨-, -, tss, -, heq⟩ := hwform
        rw [heq]
        exact opensWith_bare t.dialect (w := "WITH") (by decide) _
  · rw [Query.respell, Query.respell, hweq, hbeq, hoeq, hleq]

end Queries

/-! ## Queries inside expressions -/

section Expressions

variable {d : Dialect} {t : Target} {ts us rest : List Shape} {e : Expr} {q : Query} {p : Precedence}

/-- Whether a query that opens so is taken for one behind a parenthesis of an expression. -/
def Query.IsNextQuery (q : Query) : Prop := ∃ w ∈ ["SELECT", "WITH"], ∃ ws, q.opening = w :: ws

theorem peekQuery_yes (h : q.IsNextQuery) (hopens : opensWith q.opening ts = true) (us : List Shape) :
    Parses d Parser.peekQuery (ts ++ us) true (ts ++ us) := by
  obtain ⟨w, hw, ws, heq⟩ := h
  have hlead := opensWith_append hopens us
  rw [heq, opensWith, Bool.and_eq_true] at hlead
  have hword : (headShape (ts ++ us)).isWord w = true := by
    have hmark : w ≠ "(" := by rintro rfl; revert hw; decide
    simpa [Shape.isLead, hmark] using hlead.1
  refine .peek fun u hu => ?_
  rw [← hu, Token.isWord_shape] at hword
  have hnext : (u.isWord "SELECT" || u.isWord "WITH") = true := by
    rcases List.mem_pair.mp hw with rfl | rfl <;> simp [hword]
  rw [hnext]
  exact .pure true

theorem form_subquery (h : QueryForm d ts q) (hq : ∀ us, Parses d Parser.peekQuery (ts ++ us) true (ts ++ us)) :
    Form d .atom (inParens ts) (.subquery q) := by
  refine Primary.form (fun n k rest hrest _ => ?_) (opens_paren _) rfl rfl
  rw [inParens_append]
  refine .peek fun u hu => ?_
  have hshape : u.shape = (.punctuation, "(") := hu
  obtain ⟨hkind, htext⟩ := shape_eq hshape
  rw [hkind]
  simp only [htext, beq_self_eq_true, if_true]
  exact ReadsOr.parenthesized (ReadsOr.yes (hq _) ((h.closed n rest).bind (.pure _)))

theorem existsExpr_reads (h : QueryForm d ts q) (negated : Bool) (n : Nat) (rest : List Shape) :
    Parses d (Parser.existsExpr (Parser.nested n) negated) (inParens ts ++ rest) (.exists q negated) rest := by
  rw [inParens_append]
  exact (ReadsOr.parenthesized (h.closed n rest)).bind (.pure _)

theorem form_exists (hd : d.Readable) (h : QueryForm d ts q) :
    Form d .atom (d.bare "EXISTS" :: inParens ts) (.exists q false) := by
  have hreserved : d.lexical.isReserved "EXISTS" = true := isReserved_of_mem (hd.reserved "EXISTS" (by decide))
  refine Primary.form (fun n k rest hrest _ => ?_) (.bare hreserved (by decide) _)
    (Shape.isWord_bare d "EXISTS" "NOT") (unaryOp_bare d _)
  have hform : Parser.wordForm? (Parser.nested n) (Parser.operandUpTo (Parser.nested n) k) d
      (Text.upper "EXISTS") true = some (do
        let _ ← Parser.advance
        Parser.existsExpr (Parser.nested n) false) := by
    simp [Parser.wordForm?, show Text.upper "EXISTS" = "EXISTS" from rfl]
  rw [List.cons_append]
  refine primary_bare fun u hu => wordExpr_form hu rfl hform (.advance fun _ _ => ?_)
  exact existsExpr_reads h false n rest

theorem form_notExists (hd : d.Readable) (h : QueryForm d ts q) :
    Form d .not (d.bare "NOT" :: d.bare "EXISTS" :: inParens ts) (.exists q true) := by
  refine Operand.form (fun n k rest hrest hk => ?_) (by decide) (opens_unary hd .not _)
  cases k with
  | zero => cases hk
  | succ k =>
    rw [List.cons_append, List.cons_append]
    refine .yes (ReadsOr.eatBare d (w := "NOT") rfl) (.yes (ReadsOr.eatBare d (w := "EXISTS") rfl) ?_)
    exact existsExpr_reads h true n rest

theorem form_inQuery {es : List Shape} (negated : Bool) (he : Form d p es e) (hp : .comparison ≤ p)
    (h : QueryForm d ts q) (hq : ∀ us, Parses d Parser.peekQuery (ts ++ us) true (ts ++ us)) :
    Form d .comparison (es ++ (d.negation negated ++ d.bare "IN" :: inParens ts)) (.inQuery e q negated) := by
  refine form_predicate negated (by simp [Dialect.predicateWords]) he hp fun n rest hrest => ?_
  refine (eatNegation rfl negated).bind ?_
  refine ReadsOr.no (ReadsOr.eatWord_no (Shape.isWord_bare d "IN" "BETWEEN")) ?_
  refine ReadsOr.yes (ReadsOr.eatWord (Shape.isWord_bare d "IN" "IN")) ?_
  rw [inParens_append]
  exact ReadsOr.parenthesized (ReadsOr.yes (hq _) ((h.closed n rest).bind (.pure _)))

theorem subquery_regains (hd : t.dialect.Stable) (h : q.Restored t) (hq : q.IsNextQuery) :
    Rewrites false t id (.subquery q) := by
  refine rewrites_single (by rw [Expr.texts]) (by simp only [Expr.respell]; rfl) ?_
  refine (h.block hd).mono ?_
  rintro text ⟨ts, q', hspelled, hform, hopens, heq⟩
  refine ⟨_, ⟨_, hspelled, form_subquery hform (peekQuery_yes hq hopens), .of_head rfl rfl⟩, ?_⟩
  rw [Expr.respell, Expr.respell, heq]

theorem exists_regains (hd : t.dialect.Stable) (h : q.Restored t) (negated : Bool) :
    Rewrites false t id (.exists q negated) := by
  unfold Rewrites
  simp only [Expr.texts]
  refine (h.block hd).bind ?_
  rintro text ⟨ts, q', hspelled, hform, -, heq⟩
  have hexists : Spelled t.dialect "EXISTS" [t.dialect.bare "EXISTS"] := .word hd.toLegible rfl
  have htest := hexists.join Spelled.blank_mem hspelled
  have hrespell : (Expr.exists q' negated).respell (.plain id) =
      (Expr.exists q negated).respell (t.dialect.respelling id) := by
    rw [Expr.respell, Expr.respell, heq]
  refine .pure (.single (by simp only [Expr.respell]; rfl) ?_)
  cases negated with
  | false =>
    refine ⟨_, ⟨_, htest.of_eq (by simp [negation]), form_exists hd.toReadable hform, fun _ => rfl, fun hw => ?_⟩,
      hrespell⟩
    cases (Shape.isWord_bare t.dialect "EXISTS" "UNBOUNDED").symm.trans hw
  | true =>
    have hnot : Spelled t.dialect "NOT" [t.dialect.bare "NOT"] := .word hd.toLegible rfl
    exact ⟨_, ⟨_, (hnot.join Spelled.blank_mem htest).of_eq (by simp [negation]), form_notExists hd.toReadable hform,
      .bare ⟨rfl, rfl⟩⟩, hrespell⟩

theorem inQuery_regains (hd : t.dialect.Stable) (he : Rewrites false t id e) (h : q.Restored t)
    (hq : q.IsNextQuery) (negated : Bool) : Rewrites false t id (.inQuery e q negated) := by
  unfold Rewrites
  simp only [Expr.texts]
  refine (he.operand hd.toExpressive false (by decide)).bind ?_
  rintro text ⟨p, ⟨e', ⟨es, hespelled, heform, hstarts⟩, heeq⟩, hp, -⟩
  refine (h.block hd).bind ?_
  rintro text ⟨ts, q', hspelled, hform, hopens, heq⟩
  have hin : Spelled t.dialect "IN" [t.dialect.bare "IN"] := .word hd.toLegible rfl
  refine .pure (.single (by simp only [Expr.respell]; rfl) ⟨_, ⟨_, ?_,
    form_inQuery negated heform hp hform (peekQuery_yes hq hopens), hstarts.append heform.opens.ne_nil rfl⟩, ?_⟩)
  · have hright := spelled_negation hd.toLegible negated (hin.join Spelled.blank_mem hspelled)
    exact (hespelled.join Spelled.blank_mem hright).of_eq (by simp)
  · rw [Expr.respell, Expr.respell, heeq, heq]

end Expressions

end SqlDialects
