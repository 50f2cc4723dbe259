import SqlDialects.Proofs.RestoredGrammar
import SqlDialects.Proofs.RestoredSchema
import SqlDialects.Proofs.Unconditional
import SqlDialects.Proofs.Validity

/-!
# Texts that are written are read back

* `statements_restored` : the statements that are read from a text are written by tokens of the respelled ones;
* `StatementForm.text_read` : a text of such tokens is read as one statement;
* `statement_round_trip` : in the family of `postgres`, what is written of a statement is read back as it.
-/

namespace SqlDialects

open Render

/-! ## Statements of a text -/

section Statements

variable {i : Input} {t : Target}

theorem returning_restored (hs : i.Suits t) :
    YieldsUnquoted i Parser.returning fun items => Sourced i (itemNodes items) → ∀ item ∈ items, item.IsWritten t := by
  have hitem := selectItem_restored hs (nested_restoring hs Parser.maxDepth)
  refine YieldsOn.mono (.optionalList_part (.commaSeparated hitem)) fun items hitems hsourced item hmem => ?_
  exact hitems item hmem (all_itemNodes.mp hsourced item hmem)

/-- A query behind the table of an insertion opens with a parenthesis only before `SELECT`. -/
theorem Input.OpensAt.plain {q : Query} {k : Nat} (h : i.OpensAt k q.opening)
    (hlisted : ((i.token k).isSymbol "(" && !(i.token (k + 1)).isWord "SELECT") = false) :
    ∀ w ws, q.opening = "(" :: w :: ws → w = "SELECT" := by
  intro w ws heq
  rw [heq] at h
  obtain ⟨hopen, hlead, -⟩ := h
  have hselect : (i.token (k + 1)).isWord "SELECT" = true := by
    have hopen' : (i.token k).isSymbol "(" = true := by simpa [Shape.isLead] using hopen
    simpa [hopen'] using hlisted
  have hno (hsame : w = "(" ∨ Text.sameWord w "SELECT" = false) : False :=
    Bool.false_ne_true ((Shape.isWord_of_isLead hlead hsame).symm.trans hselect)
  obtain ⟨v, vs, hws, hv⟩ := q.opening_paren heq
  obtain ⟨rfl, -⟩ := List.cons.inj hws
  simp only [List.mem_cons, List.not_mem_nil, or_false] at hv
  rcases hv with rfl | rfl | rfl | rfl
  · exact (hno (.inr rfl)).elim
  · rfl
  · exact (hno (.inr rfl)).elim
  · exact (hno (.inl rfl)).elim

theorem insert_written (hs : i.Suits t) :
    YieldsUnquoted i Parser.insert fun x => Sourced i (Statement.nodes (.insert x)) → x.IsWritten t := by
  have hdeep := nested_restoring hs Parser.maxDepth
  refine .skip fun _ => .skip fun _ => qualifiedName_has.bind fun table htable => .of_at fun k => ?_
  refine .peekSymbol (.peekNth ?_)
  extract_lets listed rest
  have hlast {columns : List Name} (hcolumns : ∀ n ∈ columns, i.Has n.shape) {q : Query}
      (hq : Sourced i q.nodes → q.Restored t)
      (hplain : columns = [] → ∀ w ws, q.opening = "(" :: w :: ws → w = "SELECT") :
      YieldsUnquoted i (do
        let returning ← Parser.returning
        return (⟨table, columns, q, returning⟩ : Insert)) fun x =>
          Sourced i (Statement.nodes (.insert x)) → x.IsWritten t := by
    refine (returning_restored hs).bind fun items hitems => .pure fun hsourced => ?_
    obtain ⟨hksource, hkitems⟩ := all_append.mp hsourced
    exact ⟨⟨htable.1, hs.keeps htable.2⟩, hs.keeps hcolumns, hq hksource, hplain, hitems hkitems⟩
  split
  · refine .of_yieldsOn (nameList_has.bind fun columns hcolumns => hdeep.query.bind fun q hq => ?_)
    exact hlast hcolumns.2 hq fun hnil => absurd hnil hcolumns.1
  · next hlisted =>
    have hnone : YieldsAt (N := Unquoted) i k (rest []) fun x =>
        Sourced i (Statement.nodes (.insert x)) → x.IsWritten t := by
      refine ((YieldsAt.of_yieldsOn hdeep.query).and (hdeep.opened k).given).bind fun q hq => ?_
      exact hlast (by simp) hq.1 fun _ => hq.2.plain (by simpa [listed] using hlisted)
    exact hnone

theorem update_written (hs : i.Suits t) :
    YieldsUnquoted i Parser.update fun x => Sourced i (Statement.nodes (.update x)) → x.IsWritten t := by
  have hexpr := (nested_restoring hs Parser.maxDepth).expr 0
  have hassignment : YieldsUnquoted i Parser.assignment fun a => (a.target ≠ [] ∧ ∀ n ∈ a.target, i.Has n.shape) ∧
      a.value.Restored i t := by
    refine name_sourced.bind fun first hfirst => (YieldsOn.many (.optional_part name_sourced)).bind fun rest hrest => ?_
    refine .skip fun _ => hexpr.bind fun e he => .pure ⟨⟨by simp, ?_⟩, he⟩
    exact List.forall_mem_cons.mpr ⟨hfirst, hrest⟩
  refine .skip fun _ => qualifiedName_has.bind fun table htable => optionalAlias_has.bind fun label hlabel => ?_
  refine .skip fun _ => (YieldsOn.commaSeparated_cons hassignment).bind fun as has => ?_
  refine (YieldsOn.optional_part hexpr).bind fun condition hcondition => ?_
  refine (returning_restored hs).bind fun items hitems => .pure fun hsourced => ?_
  simp only [Statement.nodes, all_append, all_flatMap] at hsourced
  obtain ⟨⟨hvalues, hkcondition⟩, hkitems⟩ := hsourced
  exact {
    table := ⟨htable.1, hs.keeps htable.2⟩
    label := hs.keeps fun n hn => hlabel n (by simpa using hn)
    assignments := ⟨has.1, fun a ha => ⟨⟨(has.2 a ha).1.1, hs.keeps (has.2 a ha).1.2⟩, (has.2 a ha).2 (hvalues a ha)⟩⟩
    condition := option_of_sourced hcondition hkcondition
    returning := hitems hkitems }

theorem delete_written (hs : i.Suits t) :
    YieldsUnquoted i Parser.delete fun x => Sourced i (Statement.nodes (.delete x)) → x.IsWritten t := by
  have hexpr := (nested_restoring hs Parser.maxDepth).expr 0
  refine .skip fun _ => .skip fun _ => qualifiedName_has.bind fun table htable => ?_
  refine (YieldsOn.optional_part hexpr).bind fun condition hcondition => ?_
  refine (returning_restored hs).bind fun items hitems => .pure fun hsourced => ?_
  obtain ⟨hkcondition, hkitems⟩ := all_append.mp hsourced
  exact ⟨⟨htable.1, hs.keeps htable.2⟩, option_of_sourced hcondition hkcondition, hitems hkitems⟩

/-! ### Changes of the schema -/

theorem column_written (hs : i.Suits t) :
    YieldsUnquoted i Parser.column fun c => Sourced i c.nodes → c.IsWritten t := by
  have hoption : YieldsUnquoted i Parser.columnOption fun o => ∀ x ∈ o, Sourced i x.nodes → x.IsWritten t := by
    have hplain {x : ColumnOption} (h : ∀ e, x ≠ .default e) :
        YieldsUnquoted i (Pure.pure (some x) : Parser _) fun o => ∀ x ∈ o, Sourced i x.nodes → x.IsWritten t := by
      refine .pure ?_
      rintro _ ⟨⟩ - e heq
      exact absurd heq (h e)
    refine .test (hplain (by simp)) (.test (hplain (by simp)) (.test (hplain (by simp)) (.test (hplain (by simp)) ?_)))
    refine .test ?_ (.skip fun d => .test (hplain (by simp)) (.pure (by simp)))
    refine ((nested_restoring hs Parser.maxDepth).expr _).bind fun e he => .pure ?_
    rintro _ ⟨⟩ hsourced _ ⟨⟩
    exact he hsourced
  refine name_sourced.bind fun name hname => (type_restored hs).bind fun type htype => ?_
  refine (YieldsOn.many hoption).bind fun options hoptions => .pure fun hsourced => ?_
  exact ⟨hs.keeps (by simpa using hname), htype, fun o ho => hoptions o ho (all_flatMap.mp hsourced o ho)⟩

theorem tableElement_written (hs : i.Suits t) : YieldsUnquoted i Parser.tableElement fun x =>
    (∀ k, x = .inl k → k.columns ≠ [] ∧ t.Keeps k.columns) ∧ ∀ c, x = .inr c → Sourced i c.nodes → c.IsWritten t := by
  have hlist {f : List Name → TableConstraint} (hf : ∀ ns, (f ns).columns = ns) :
      YieldsUnquoted i (do return some (f (← Parser.nameList))) fun o =>
        ∀ k ∈ o, k.columns ≠ [] ∧ t.Keeps k.columns := by
    refine nameList_has.bind fun ns hns => .pure ?_
    rintro _ ⟨⟩
    rw [hf]
    exact ⟨hns.1, hs.keeps hns.2⟩
  have hconstraint : YieldsUnquoted i Parser.tableConstraint fun o => ∀ k ∈ o, k.columns ≠ [] ∧ t.Keeps k.columns :=
    .test (hlist fun _ => rfl) (.test (hlist fun _ => rfl) (.pure (by simp)))
  refine hconstraint.bind fun o ho => ?_
  cases o with
  | some k => exact .pure ⟨fun k' heq => Sum.inl.inj heq ▸ ho k rfl, by simp⟩
  | none => exact (column_written hs).bind fun c hc => .pure ⟨by simp, fun c' heq => Sum.inr.inj heq ▸ hc⟩

theorem createTable_written (hs : i.Suits t) (temporary : Bool) :
    YieldsUnquoted i (Parser.createTable temporary) fun x =>
      Sourced i (Statement.nodes (.createTable x)) → x.IsWritten t := by
  refine .skip fun _ => .skip fun guarded => qualifiedName_has.bind fun table htable => ?_
  refine (YieldsOn.optionalList_part ((YieldsOn.commaSeparated (tableElement_written hs)).bind
    fun _ h => .skip fun _ => .pure h)).bind fun elements helements => ?_
  refine (YieldsOn.optional_part (nested_restoring hs Parser.maxDepth).query).bind fun source hsource => ?_
  extract_lets constraints columns close
  have hclose (hcontent : (source.isNone && elements.isEmpty) = false) (u : Unit) :
      YieldsUnquoted i (close u) fun x => Sourced i (Statement.nodes (.createTable x)) → x.IsWritten t := by
    refine .pure fun hsourced => ?_
    simp only [Statement.nodes, all_append, all_flatMap] at hsourced
    obtain ⟨hkcolumns, hksource⟩ := hsourced
    refine ⟨⟨htable.1, hs.keeps htable.2⟩, fun c hc => ?_, fun k hk => ?_, fun q hq => ?_, fun hnone hnil => ?_⟩
    · obtain ⟨x, hx, heq⟩ := List.mem_filterMap.mp hc
      exact (helements x hx).2 c (Sum.getRight?_eq_some_iff.mp heq) (hkcolumns c hc)
    · obtain ⟨x, hx, heq⟩ := List.mem_filterMap.mp hk
      exact (helements x hx).1 k (Sum.getLeft?_eq_some_iff.mp heq)
    · obtain rfl := Option.mem_def.mp hq
      exact hsource q rfl hksource
    · have hsome : elements ≠ [] := by
        obtain rfl : source = none := hnone
        simpa using hcontent
      obtain ⟨x, hx⟩ := List.exists_mem_of_ne_nil _ hsome
      cases x with
      | inl k => exact List.ne_nil_of_mem (List.mem_filterMap.mpr ⟨_, hx, rfl⟩)
      | inr c => exact absurd hnil (List.ne_nil_of_mem (List.mem_filterMap.mpr ⟨_, hx, rfl⟩))
  split
  · exact YieldsOn.bind (P := fun _ => False) .unexpected fun _ h => h.elim
  · next hcontent => exact hclose (by simpa using hcontent) ()

theorem createView_written (hs : i.Suits t) (replace : Bool) : YieldsUnquoted i (Parser.createView replace) fun x =>
    Sourced i (Statement.nodes (.createView x)) → x.IsWritten t := by
  refine qualifiedName_has.bind fun view hview => optionalNameList_has.bind fun columns hcolumns => .skip fun _ => ?_
  refine (nested_restoring hs Parser.maxDepth).query.bind fun q hq => .pure fun hsourced => ?_
  exact ⟨⟨hview.1, hs.keeps hview.2⟩, hs.keeps hcolumns, hq hsourced⟩

theorem drop_written (hs : i.Suits t) : YieldsUnquoted i Parser.drop fun x => x.IsWritten t := by
  have hlast (object : SchemaObject) : YieldsUnquoted i (do
      let ifExists ← Parser.onlyIf (← Parser.supports .ifExists) (Parser.eatWords ["IF", "EXISTS"])
      let names ← Parser.commaSeparated Parser.qualifiedName
      let cascade ← Parser.onlyIf (← Parser.supports .dropCascade) (Parser.eatWord "CASCADE")
      return (⟨object, ifExists, names, cascade⟩ : Drop)) fun x => x.IsWritten t := by
    refine .skip fun _ => .skip fun guarded => (YieldsOn.commaSeparated_cons qualifiedName_has).bind fun names h => ?_
    refine .skip fun _ => .skip fun cascade => .pure ⟨h.1, fun path hpath => ?_⟩
    exact ⟨(h.2 path hpath).1, hs.keeps (h.2 path hpath).2⟩
  refine .skip fun _ => .skip fun found => ?_
  extract_lets rest
  have hrest (object : SchemaObject) : YieldsUnquoted i (rest object) fun x => x.IsWritten t := hlast object
  split
  · exact .skip hrest
  · exact .skip fun _ => .skip hrest

/-! ### Whole texts -/

theorem create_restored (hs : i.Suits t) :
    YieldsUnquoted i Parser.create fun s => Sourced i s.nodes → s.Restored t := by
  have hview (replace : Bool) : YieldsUnquoted i (do return .createView (← Parser.createView replace)) fun s =>
      Sourced i (Statement.nodes s) → s.Restored t :=
    (createView_written hs replace).bind fun v h => .pure fun hsourced => createView_restored hs.stable (h hsourced)
  refine .skip fun _ => .test (.skip fun d => .skip fun _ => .skip fun _ => hview _) (.skip fun temp => ?_)
  extract_lets rest
  have hrest (temporary : Bool) : YieldsUnquoted i (rest temporary) fun s => Sourced i s.nodes → s.Restored t := by
    refine .test (hview _) (.skip fun _ => ?_)
    exact (createTable_written hs temporary).bind fun x h => .pure fun hsourced =>
      createTable_restored hs.stable (h hsourced)
  split
  · exact .skip hrest
  · exact .skip hrest

theorem statement_restored (hs : i.Suits t) :
    YieldsUnquoted i Parser.statement fun s => Sourced i s.nodes → s.Restored t := by
  refine .test ?_ (.test ?_ (.test ?_ (.test ?_ (.test (create_restored hs) (.test ?_ .unexpected)))))
  · exact (nested_restoring hs Parser.maxDepth).query.bind fun q hq => .pure fun hsourced =>
      query_statement_restored (hq hsourced)
  · exact (insert_written hs).bind fun x h => .pure fun hsourced => insert_restored hs.stable (h hsourced)
  · exact (update_written hs).bind fun x h => .pure fun hsourced => update_restored hs.stable (h hsourced)
  · exact (delete_written hs).bind fun x h => .pure fun hsourced => delete_restored hs.stable (h hsourced)
  · exact (drop_written hs).bind fun x h => .pure fun _ => drop_restored hs.stable h

/-- Every statement of a text is read where it is written. -/
theorem statements_restored (hs : i.Suits t) :
    YieldsUnquoted i Parser.statements fun ss => ∀ s ∈ ss, Sourced i s.nodes → s.Restored t := by
  refine .many (.skip fun _ => .test (.pure (by simp)) (.skip fun _ => ?_))
  refine (statement_restored hs).bind fun s h => .skip fun last => ?_
  extract_lets close
  have hclose (u : Unit) : YieldsUnquoted i (close u) fun o => ∀ s ∈ o, Sourced i s.nodes → s.Restored t :=
    .pure (by simpa using h)
  split
  · exact hclose ()
  · exact .test (hclose ()) (.skip hclose)

end Statements

/-! ## One statement -/

/-- A statement that is a whole text is the one statement of that text. -/
theorem StatementForm.statements_read {d : Dialect} {ts : List Shape} {s : Statement} (h : StatementForm d ts s) :
    Parses d Parser.statements ts [s] [] := by
  have hsemicolons {us : List Shape} (hus : (headShape us).isSymbol ";" = false) :
      Parses d (Parser.many Parser.semicolon) us [] us :=
    .many_stop (.no (ReadsOr.eatSymbol_no hus) (.pure none))
  have hreset {us : List Shape} : Parses d Parser.resetBinds us () us :=
    fun i c hat => .inl ⟨{ c with binds := 0 }, rfl, hat.dialect, hat.finish, hat.rest⟩
  have hend : Parses d Parser.atEnd [] true [] := .atEnd
  have hmore : Parses d Parser.atEnd ts false ts := by
    have hempty : ts.isEmpty = false := by simpa using h.nonempty
    exact hempty ▸ .atEnd
  have hfirst : Parses d Parser.nextStatement ts (some s) [] := by
    refine (hsemicolons h.start).bind (.no hmore (hreset.bind (h.reads.bind ?_)))
    exact .yes hend (.pure _)
  have hlast : Parses d Parser.nextStatement [] none [] :=
    (hsemicolons rfl).bind (.yes hend (.pure _))
  refine .many (.repeats_cons hfirst ?_ (.repeats_nil hlast))
  exact List.length_pos_of_ne_nil h.nonempty

/-- A text that is made of the tokens of a statement is that statement, unless it nests too deep. -/
theorem StatementForm.text_read {d : Dialect} {ts : List Shape} {s : Statement} (h : StatementForm d ts s)
    {text : String} (hspelled : Spelled d text ts) :
    parse d text = .ok [s] ∨ ∃ f, parse d text = .error f ∧ f.TooDeep := by
  obtain ⟨tokens, finish, htokens, hat⟩ := hspelled.tokenize
  have hrun : parse d text = (Parser.statements (.ofTokens d tokens finish) {}).1 := by
    rw [parse, htokens]
    rfl
  rw [hrun]
  rcases h.statements_read _ _ hat with ⟨c, heq, -⟩ | ⟨f, c, heq, hdeep⟩
  · exact .inl (by rw [heq])
  · exact .inr ⟨f, by rw [heq], hdeep⟩

/-! ## Round trips -/

theorem mem_builtins_of_mem_postgresFamily {d : Dialect} (h : d ∈ postgresFamily) : d ∈ Dialect.builtins := by
  simp only [postgresFamily, List.mem_cons, List.not_mem_nil, or_false] at h
  rcases h with rfl | rfl | rfl | rfl <;> simp [Dialect.builtins]

/-- A dialect that is stable spells no nodes by other nodes but conditionals. -/
theorem Dialect.Stable.respelling_eq {d : Dialect} (hd : d.Stable) (f : Name → Name) :
    d.respelling f = (Respelling.plain f).withConditional d.writing.ifFunction.isSome := by
  simp [Dialect.respelling, Respelling.plain, Respelling.withConditional, hd.concat, hd.arithmetic, hd.ilike, hd.truths]

/-- A text without functions for conditionals has no conditionals. -/
theorem unconditional_of_sourced {i : Input} {t : Target} (hs : i.Suits t) {ns : List Node} (h : Sourced i ns) :
    Unconditional ns := by
  intro x hx
  have hsourced := h x hx
  unfold Node.isConditional
  split
  · exact absurd (hs.dialect ▸ hs.stable.conditionals) hsourced
  · rfl

/-- In the family of `postgres`, every statement of a text that puts no part of the name of a function in quotes is
written, in any layout, and the text that is written is read as one statement, the same up to parentheses, unless it
nests too deep. -/
theorem statement_round_trip {d : Dialect} (hd : d ∈ postgresFamily) {layout : Layout}
    (hidentify : layout.identify = false) {sql : String} (hnames : ∀ ns ∈ functionNames d sql, Unquoted ns)
    {ss : List Statement} (hparse : parse d sql = .ok ss) {s : Statement} (hs : s ∈ ss) :
    ∃ text, render d layout s = .ok text ∧
      ((∃ s', parse d text = .ok [s'] ∧ s'.respell (.plain id) = s.respell (.plain id)) ∨
        ∃ f, parse d text = .error f ∧ f.TooDeep) := by
  have hstable := stable_of_mem_postgresFamily hd
  obtain ⟨tokens, finish, htokens, hsourced⟩ := parsed_sourced hparse
  have hsuits : (Input.ofTokens d tokens finish).Suits { dialect := d, layout } :=
    suits_ofTokens (t := { dialect := d, layout }) hstable hidentify htokens
  have hrestored : s.Restored { dialect := d, layout } := by
    obtain ⟨tokens', finish', c, htokens', hrun⟩ := parse_ok hparse
    obtain ⟨rfl, rfl⟩ := Prod.mk.inj (Except.ok.inj (htokens.symm.trans htokens'))
    simp only [functionNames, htokens, hrun] at hnames
    exact statements_restored hsuits _ _ _ hrun hnames s hs (hsourced s hs)
  obtain ⟨text, htext⟩ := parsed_renders (mem_builtins_of_mem_postgresFamily hd) hparse hs
    (fun hbare => absurd (hstable.params.1.symm.trans hbare.1) (by decide)) layout
  obtain ⟨ts, s', hspelled, hform, heq⟩ := Renders.run hrestored htext
  refine ⟨text, htext, (hform.text_read hspelled).imp_left fun hread => ⟨s', hread, ?_⟩⟩
  rw [heq, hstable.respelling_eq, Statement.respell_unconditional (unconditional_of_sourced hsuits (hsourced s hs))]

/-- Calls of functions whose names are words without quotes. -/
theorem count_round_trips : ∃ s, parse .postgres "SELECT count(*) AS n FROM s.rows(2) WHERE left(c, 1) > d" = .ok [s] ∧
    ∃ text, render .postgres {} s = .ok text ∧
      ((∃ s', parse .postgres text = .ok [s'] ∧ s'.respell (.plain id) = s.respell (.plain id)) ∨
        ∃ f, parse .postgres text = .error f ∧ f.TooDeep) := by
  obtain ⟨ss, hparse, hlength⟩ := exists_ok (show
    (parse .postgres "SELECT count(*) AS n FROM s.rows(2) WHERE left(c, 1) > d").toOption.map List.length = some 1
    by decide +kernel)
  obtain ⟨s, rfl⟩ := List.length_eq_one_iff.mp hlength
  exact ⟨s, hparse, statement_round_trip (by decide) rfl (by decide +kernel) hparse (List.mem_singleton_self s)⟩

end SqlDialects
