import SqlDialects.Proofs.BareParams

/-!
# Bare parameters of a statement

* `Statement.text_writes` : the text of a statement, for every way to write bare parameters;
* `Statement.Fills` : the template of a statement, and `Statement.Fills.unique` that there is at most
  one;
* `bare_params_in_order_iff` : the places of a statement that can be written are `1, ..., k` in some
  order, and in this order exactly if the statement keeps the order.
-/

namespace SqlDialects

open Render

/-! ## Statements -/

section Statements

variable {d : Dialect} {l : Layout}

theorem conditionTexts_writes (hd : d.BindsBare) (condition : Option Expr) :
    WritesAll d l (conditionTexts condition) (optionNodes condition) := by
  intro n
  refine (optionTexts_writes hd l condition n).bind fun f m hf => .pure ?_
  simpa using hf.keyword "WHERE "

theorem returningText_writes (hd : d.BindsBare) (items : List SelectItem) :
    Writes d l (returningText items) (itemNodes items) := by
  intro n
  unfold returningText
  cases items with
  | nil =>
    simp only [itemNodes]
    exact .pure (.const d n "")
  | cons item items =>
    refine .require _ fun _ => (itemTexts_writes hd l (item :: items) n).bind fun f m hf => ?_
    exact .target (fun _ => rfl) (.pure ((Written.const d n "RETURNING").listClause hd.apart hf))

theorem Insert.text_writes (hd : d.BindsBare) (i : Insert) :
    Writes d l i.text (i.source.nodes ++ itemNodes i.returning) := by
  intro n
  refine .target (fun _ => rfl) ?_
  refine (Query.text_writes hd l i.source n).bind fun f m hf => ?_
  refine (returningText_writes hd i.returning m).bind fun g k hg => .pure ?_
  have hhead := (Written.const d n ("INSERT INTO " ++ Target.path { dialect := d, layout := l } i.table ++
    Target.columns { dialect := d, layout := l } i.columns)).single
  simpa using (hhead.append (hf.single.append hg.single)).clauses

theorem assignmentTexts_writes (hd : d.BindsBare) (as : List Assignment) :
    WritesAll d l (assignmentTexts as) (as.flatMap (·.value.nodes)) := by
  induction as with
  | nil => exact fun n => .pure (.nil d n)
  | cons a as ih =>
    intro n
    simp only [assignmentTexts, List.flatMap_cons]
    refine (whole_steady (Expr.texts_writes hd l a.value n)).bind fun f m hf => .target (fun _ => rfl) ?_
    refine (ih m).bind fun g k hg => .pure (.cons ?_ hg)
    simpa using hf.around (Target.path { dialect := d, layout := l } a.target ++ " = ") ""

theorem Update.text_writes (hd : d.BindsBare) (u : Update) :
    Writes d l u.text (u.assignments.flatMap (·.value.nodes) ++ optionNodes u.condition ++
      itemNodes u.returning) := by
  intro n
  refine .target (fun _ => rfl) ?_
  refine (assignmentTexts_writes hd u.assignments n).bind fun f m hf => ?_
  refine (conditionTexts_writes hd u.condition m).bind fun g k hg => ?_
  refine (returningText_writes hd u.returning k).bind fun h k' hh => .pure ?_
  have hset := (Written.const d n "SET").listClause (t := { dialect := d, layout := l }) hd.apart hf
  have hhead := (Written.const d n ("UPDATE " ++ Target.path { dialect := d, layout := l } u.table ++
    (u.label.map fun a => Target.aliasWord { dialect := d, layout := l } ++
      Target.name { dialect := d, layout := l } a).getD "")).single
  simpa [List.append_assoc] using
    (hhead.append (hset.single.append (hg.append hh.single))).clauses

theorem Delete.text_writes (hd : d.BindsBare) (x : Delete) :
    Writes d l x.text (optionNodes x.condition ++ itemNodes x.returning) := by
  intro n
  refine .target (fun _ => rfl) ?_
  refine (conditionTexts_writes hd x.condition n).bind fun f m hf => ?_
  refine (returningText_writes hd x.returning m).bind fun g k hg => .pure ?_
  have hhead := (Written.const d n ("DELETE FROM " ++
    Target.path { dialect := d, layout := l } x.table)).single
  simpa using (hhead.append (hf.append hg.single)).clauses

theorem ColumnOption.text_writes (hd : d.BindsBare) (o : ColumnOption) :
    Writes d l o.text o.nodes := by
  intro n
  cases o with
  | default value =>
    refine (operand_steady (Expr.texts_writes hd l value n) ..).bind fun f m hf => .pure ?_
    simpa [ColumnOption.nodes] using hf.around "DEFAULT " ""
  | autoIncrement =>
    refine .target (fun _ => rfl) ?_
    cases d.autoIncrement with
    | none => exact .unsupported _
    | some style => cases style <;> exact .pure (.const d n _)
  | notNull => exact .pure (.const d n _)
  | null => exact .pure (.const d n _)
  | primaryKey => exact .pure (.const d n _)
  | unique => exact .pure (.const d n _)

theorem optionsText_writes (hd : d.BindsBare) (os : List ColumnOption) :
    Writes d l (optionsText os) (os.flatMap ColumnOption.nodes) := by
  induction os with
  | nil => exact fun n => .pure (.const d n "")
  | cons o os ih =>
    intro n
    simp only [optionsText, List.flatMap_cons]
    refine (ColumnOption.text_writes hd o n).bind fun f m hf => (ih m).bind fun g k hg => .pure ?_
    simpa [String.append_assoc] using (hf.append hg).around " " ""

theorem columnTexts_writes (hd : d.BindsBare) (cs : List Column) :
    WritesAll d l (columnTexts cs) (cs.flatMap Column.nodes) := by
  induction cs with
  | nil => exact fun n => .pure (.nil d n)
  | cons c cs ih =>
    intro n
    simp only [columnTexts, List.flatMap_cons]
    refine .target (fun _ => rfl) ?_
    refine (optionsText_writes hd c.options n).bind fun f m hf => ?_
    refine (ih m).bind fun g k hg => .pure (.cons ?_ hg)
    simpa [Column.nodes] using hf.around (Target.name { dialect := d, layout := l } c.name ++ " " ++
      Target.dataType { dialect := d, layout := l } c.type) ""

theorem asQuery_steady (hd : d.BindsBare) {ns : List Node} {n m : Nat} {head : Marking → String}
    (hh : Written d ns n head m) (q : Query) :
    Steady d l (fun b => asQuery (head b) q) m (Written d (ns ++ q.nodes) n) := by
  refine (Query.text_writes hd l q m).bind fun f k hf => .target (fun _ => rfl) (.pure ?_)
  simpa using (hh.single.append (hf.around "AS " "").single).clauses

/-- The columns and the constraints of a new table, in parentheses if there are any. -/
theorem elements_written (hd : d.BindsBare) {ns : List Node} {n m : Nat}
    {f : Marking → List String} (hf : WrittenAll d ns n f m) :
    Written d ns n (fun b => if (f b).isEmpty then "" else
      " " ++ Target.block { dialect := d, layout := l }
        (String.intercalate (Target.comma { dialect := d, layout := l }) (f b))) m := by
  rcases hf.isEmpty with he | he
  · simp only [he, if_true]
    exact (hf.replace he (.const [])).intercalate ""
  · simp only [he, Bool.false_eq_true, if_false]
    have hblock := (hf.intercalate (Target.comma { dialect := d, layout := l })).block
      (t := { dialect := d, layout := l }) hd.apart
    simpa using hblock.around " " ""

/-- The elements of a new table and the query behind them; `left` is the head of the statement. -/
theorem tableText_steady (hd : d.BindsBare) {columns : List Column} (constraints : List TableConstraint)
    (query : Option Query) (left : String) {f : Marking → List String} {n m : Nat}
    (hf : WrittenAll d (columns.flatMap Column.nodes) n f m) :
    Steady d l (fun b =>
      let elements := f b ++ constraints.map (Target.constraint { dialect := d, layout := l })
      let elements := if elements.isEmpty then "" else
        " " ++ Target.block { dialect := d, layout := l }
          (String.intercalate (Target.comma { dialect := d, layout := l }) elements)
      match query with
      | some query => asQuery (left ++ elements) query
      | none => return left ++ elements) m
      (Written d (columns.flatMap Column.nodes ++ (query.map Query.nodes).getD []) n) := by
  have hall := hf.append (WrittenAll.const d m
    (constraints.map (Target.constraint { dialect := d, layout := l })))
  have htext := (elements_written (l := l) hd hall).around left ""
  simp only [List.append_nil, String.append_empty] at htext
  cases query with
  | none =>
    simp only [Option.map_none, Option.getD_none, List.append_nil]
    exact .pure htext
  | some q => exact asQuery_steady hd htext q

theorem CreateTable.text_writes (hd : d.BindsBare) (c : CreateTable) :
    Writes d l c.text (c.columns.flatMap Column.nodes ++
      (c.query.map Query.nodes).getD []) := by
  obtain ⟨name, temporary, ifNotExists, columns, constraints, query⟩ := c
  intro n
  refine .target (fun _ => rfl) ?_
  cases ifNotExists with
  | false =>
    exact (columnTexts_writes hd columns n).bind fun f m hf => tableText_steady hd constraints query _ hf
  | true =>
    exact .require _ fun _ => (columnTexts_writes hd columns n).bind fun f m hf =>
      tableText_steady hd constraints query _ hf

theorem CreateView.text_writes (hd : d.BindsBare) (c : CreateView) :
    Writes d l c.text c.query.nodes := fun n =>
  .target (fun _ => rfl) (asQuery_steady hd (.const d n _) c.query)

theorem Drop.text_writes (x : Drop) : Writes d l x.text [] := by
  intro n
  refine .target (fun _ => rfl) ?_
  have hlast (text : String) : Steady d l (fun _ => Pure.pure text) n (Written d [] n) :=
    .pure (.const d n text)
  cases x.ifExists with
  | true =>
    refine .require _ fun _ => ?_
    cases x.cascade with
    | true => exact .require _ fun _ => hlast _
    | false => exact hlast _
  | false =>
    cases x.cascade with
    | true => exact .require _ fun _ => hlast _
    | false => exact hlast _

theorem Statement.text_writes (hd : d.BindsBare) (s : Statement) : Writes d l s.text s.nodes := by
  cases s with
  | query q => exact Query.text_writes hd l q
  | insert i => exact Insert.text_writes hd i
  | update u => exact Update.text_writes hd u
  | delete x => exact Delete.text_writes hd x
  | createTable c => exact CreateTable.text_writes hd c
  | createView c => exact CreateView.text_writes hd c
  | drop x => exact Drop.text_writes x

end Statements

/-! ## Templates of statements -/

theorem bindsBare_of_mem_builtins {d : Dialect} (hd : d ∈ Dialect.builtins)
    (hq : d.params = .question) : d.BindsBare := by
  have hall : ∀ d ∈ Dialect.builtins, d.params = .question →
      (isMarkChar d.writing.nameQuote.1 = false ∧ isMarkChar d.writing.nameQuote.2 = false) ∧
        (d.writing.limitStyle ∈ [.top true, .top false] → d.supports .distinctOn = false) := by
    decide
  obtain ⟨hquotes, htop⟩ := hall d hd hq
  refine ⟨hq, hquotes, fun fetch h => htop ?_⟩
  cases fetch <;> simp [h]

/-- `T` is the text of the statement `s` with places for its bare parameters: it gives the right text
for every marking. -/
def Statement.Fills (d : Dialect) (l : Layout) (s : Statement) (T : Template) : Prop :=
  ∀ b : Marking, s.text.run (b.target d l) = .ok (T.text b)

/-- A marking that tells the ordinal `k` from all others. -/
def Marking.separating (k : Nat) : Marking :=
  ⟨fun j => if j = k then "0" else "?", fun j => by
    dsimp only
    split <;> simp [IsMark, isMarkChar]⟩

/-- A template is known from its texts. -/
theorem Template.eq_of_fill : ∀ {T U : Template}, (∀ b, T.fill b = U.fill b) → T = U
  | [], U, h => (fill_eq_nil.mp (h .plain).symm).symm
  | .char _ :: _, [], h => by cases h .plain
  | .place _ :: _, [], h => fill_eq_nil.mp (h .plain)
  | .char c :: T, .char c' :: U, h => by
    have hhead : c = c' := by simpa using congrArg List.head? (h .plain)
    have htail : T = U := eq_of_fill fun b => by simpa [hhead] using h b
    rw [hhead, htail]
  | .char c :: T, .place k :: U, h => by
    have h₁ := congrArg List.head? (h .plain)
    have h₂ := congrArg List.head? (h (.separating k))
    simp [Marking.plain] at h₁
    simp [Marking.separating, h₁] at h₂
  | .place k :: T, .char c :: U, h => by
    have h₁ := congrArg List.head? (h .plain)
    have h₂ := congrArg List.head? (h (.separating k))
    simp [Marking.plain] at h₁
    simp [Marking.separating, ← h₁] at h₂
  | .place k :: T, .place j :: U, h => by
    have hhead : j = k := by
      by_contra hne
      have := congrArg List.head? (h (.separating k))
      simp [Marking.separating, hne] at this
    have htail : T = U := eq_of_fill fun b => by simpa [hhead] using h b
    rw [hhead, htail]

theorem Statement.Fills.unique {d : Dialect} {l : Layout} {s : Statement} {T U : Template}
    (hT : s.Fills d l T) (hU : s.Fills d l U) : T = U := by
  refine Template.eq_of_fill fun b => ?_
  have h := (hT b).symm.trans (hU b)
  simpa [Template.text, String.ofList_inj] using h

/-- The places of a statement that can be written with bare parameters are those of its parameters,
they are `1, ..., k`, and they stand in this order exactly if no membership test and no call with
exchanged arguments has parameters on both sides. -/
theorem bare_params_in_order_iff {d : Dialect} (hd : d ∈ Dialect.builtins)
    (hq : d.params = .question) (l : Layout) (s : Statement) {text : String}
    (h : render d l s = .ok text) :
    ∃ T : Template, s.Fills d l T ∧ text = T.text .plain ∧ T.ordinals.Perm (ordinals s.nodes) ∧
      T.ordinals.Perm (List.range' 1 T.ordinals.length) ∧
      (T.ordinals = List.range' 1 T.ordinals.length ↔ KeepsOrder d s.nodes) := by
  have hplain : s.text.run (Marking.plain.target d l) = .ok text := h
  rcases Statement.text_writes (l := l) (bindsBare_of_mem_builtins hd hq) s 0 with
    ⟨f, m, ⟨ks, ⟨T, rfl, hT⟩, hp⟩, hrun⟩ | hfail
  · have hfills : s.Fills d l T := fun b => by
      have hb : s.text (b.target d l) 0 = .ok (f b, m) := hrun b
      simp [Render.run, hb, hT b, Except.map]
    have hlen : m = T.ordinals.length := by simpa using hp.length.symm
    refine ⟨T, hfills, ?_, hp.tree, ?_, ?_⟩
    · simpa using hplain.symm.trans (hfills .plain)
    · simpa [hlen] using hp.every
    · simpa [hlen] using hp.inOrder
  · obtain ⟨e, he⟩ := hfail .plain
    have hb : s.text (Marking.plain.target d l) 0 = .error e := he
    simp [Render.run, hb, Except.map] at hplain

/-- `SELECT $2 IN ($1)`. -/
def crossedTest : Statement :=
  .query
    { ctes := none
      body := .select
        { distinct := none
          items := [.expr (.inList (.param (.numbered 2)) [.param (.numbered 1)] false) none]
          sources := []
          condition := none
          groupBy := []
          having := none
          qualify := none }
      orderBy := []
      limit := none }

/-- The list of the test is counted before the operand in front of it, so both ordinals pass the guard
and the marks change places. -/
theorem crossedTest_out_of_order :
    crossedTest.text.run (Marking.numbered.target .mysql {}) = .ok "SELECT ?2 IN (?1)" ∧
      ∃ T : Template, crossedTest.Fills .mysql {} T ∧ "SELECT ? IN (?)" = T.text .plain ∧
        T.ordinals ≠ List.range' 1 T.ordinals.length := by
  refine ⟨rfl, ?_⟩
  have hplain : render .mysql {} crossedTest = .ok "SELECT ? IN (?)" := rfl
  obtain ⟨T, hT, htext, -, -, hiff⟩ := bare_params_in_order_iff
    (by simp [Dialect.builtins]) rfl {} crossedTest hplain
  refine ⟨T, hT, htext, fun h => ?_⟩
  have hnode := hiff.mp h (.expr (.inList (.param (.numbered 2)) [.param (.numbered 1)] false))
    (by simp [crossedTest, Statement.nodes, Query.nodes, Body.nodes, Select.nodes, itemNodes,
      Expr.nodes])
  revert hnode
  decide

end SqlDialects
