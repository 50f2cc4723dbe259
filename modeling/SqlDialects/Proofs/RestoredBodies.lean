import SqlDialects.Proofs.RestoredSources

/-!
# Bodies of queries

* `SelectForm`, `OperandForm`, `BodyForm` : the tokens of a `SELECT` block, of an operand of a set operation and of
  a body;
* `SelectForm.reads`, `bodyForm_combine` : what the grammar makes of these tokens;
* `Select.text_restored`, `combine_restored`, ... : bodies whose parts are written are written by such tokens.

A body is read from the left, so its tokens are stated for every way in which set operations may go on behind it.
-/

namespace SqlDialects

open Render

/-! ## `SELECT` -/

/-- The tokens of the word that removes duplicates. -/
inductive DistinctForm (d : Dialect) : List Shape → Option Distinct → Prop where
  | none : DistinctForm d [] none
  | all : DistinctForm d [d.bare "DISTINCT"] (some .all)
  | on {tss : List (List Shape)} {keys : List Expr} (hsupports : d.supports .distinctOn = true)
    (hkeys : List.Forall₂ (ElementForm d) tss keys) (hne : keys ≠ []) :
    DistinctForm d (d.bare "DISTINCT" :: d.bare "ON" :: inParens (betweenCommas tss)) (some (.on keys))

/-- The tokens of a `SELECT` block. -/
structure SelectForm (d : Dialect) (ts : List Shape) (s : Select) : Prop where
  items : s.items ≠ []
  qualify : s.qualify.isSome = true → d.supports .qualify = true
  parts : ∃ ds iss fs ws gs hs qs, DistinctForm d ds s.distinct ∧ List.Forall₂ (ItemForm d) iss s.items ∧
    Keys d (SourceForm d) ["FROM"] fs s.sources ∧ Clause d [d.bare "WHERE"] ws s.condition ∧
      Keys d (ElementForm d) ["GROUP", "BY"] gs s.groupBy ∧ Clause d [d.bare "HAVING"] hs s.having ∧
        Clause d [d.bare "QUALIFY"] qs s.qualify ∧
          ts = d.bare "SELECT" :: (ds ++ (betweenCommas iss ++ (fs ++ (ws ++ (gs ++ (hs ++ qs))))))

section Selects

variable {d : Dialect} {t : Target} {ts rest : List Shape} {distinct : Option Distinct} {s : Select}

theorem DistinctForm.reads (h : DistinctForm d ts distinct)
    (hrest : ∀ w ∈ ["DISTINCT", "ALL", "ON"], (headShape rest).isWord w = false) (n : Nat) :
    Parses d (Parser.distinctness (Parser.nested n)) (ts ++ rest) distinct rest := by
  cases h with
  | none =>
    refine .no (ReadsOr.eatWord_no (hrest "DISTINCT" (by simp))) ?_
    exact (ReadsOr.eatWord_no (hrest "ALL" (by simp))).bind (.pure _)
  | all =>
    refine .yes (ReadsOr.eatBare d rfl) (.supports ((ReadsOr.peekWord (hrest "ON" (by simp))).bind ?_))
    refine .peekNth fun next _ => ?_
    rw [Bool.and_false, Bool.false_and]
    exact .pure _
  | on hsupports hkeys hne =>
    rw [List.cons_append, List.cons_append, inParens_append]
    refine .yes (ReadsOr.eatBare d rfl) (.supports ?_)
    refine ReadsOr.bind (.peekWord (Shape.isWord_bare d "ON" "ON")) (.peekNth fun next hnext => ?_)
    have hopen : next.isSymbol "(" = true := by
      rw [← Token.isSymbol_shape, hnext]
      rfl
    rw [hsupports, hopen]
    refine .advance fun _ _ => ?_
    have hclose : Ends d 0 (.mark ")" :: rest) := .mark d 0 (by decide) rest
    have hlist := Elements.commaSeparated hkeys hne n hclose rfl
    exact (ReadsOr.parenthesized hlist).bind (.pure _)

/-- The sources of a query are read behind `FROM`. -/
theorem sources_read (hd : d.Stable) {sources : List Source} (h : Keys d (SourceForm d) ["FROM"] ts sources)
    (hrest : Stops d [")"] sourceEnds rest) (n : Nat) :
    Parses d (Parser.sources (Parser.nested n)) (ts ++ rest) sources rest := by
  rcases h with ⟨rfl, rfl⟩ | ⟨hne, tss, hsources, rfl⟩
  · have hfrom : NoneNext rest ["FROM"] := hrest.noneNext (by decide)
    refine .no (hfrom.eatWord (by simp)) (.rules ?_)
    rw [hd.queries.2.1]
    exact .pure []
  · refine .yes (ReadsOr.eatBare d (w := "FROM") rfl) ?_
    refine ReadsOr.commaSeparated (E := Stops d [")", ","] sourceEnds) hne ?_ (.mark (by simp))
      (hrest.mono (by simp) (List.Subset.refl _)) (hrest.isSymbol (by decide))
    exact hsources.imp fun ts s hform us hus => hform.reads hd hus n

/-- What follows the sources of a `SELECT`. -/
theorem Clause.qualify_behind (hd : d.Stable) {qualify : Option Expr} (h : Clause d [d.bare "QUALIFY"] ts qualify)
    (hsupports : qualify.isSome = true → d.supports .qualify = true) : Behind d ["QUALIFY"] ts := by
  cases qualify with
  | none => exact .inl h
  | some e => exact h.behind (hd.constructs.1 (hsupports rfl))

theorem SelectForm.reads (h : SelectForm d ts s) (hd : d.Stable) (hrest : Stops d [")"] operandEnds rest) (n : Nat) :
    Parses d (Parser.select (Parser.nested n)) (ts ++ rest) (s, none) rest := by
  obtain ⟨distinct, items, sources, condition, groupBy, having, qualify⟩ := s
  obtain ⟨hne, hsupports, ds, iss, fs, ws, gs, hs, qs, hdistinct, hitems, hsources, hcondition, hgroups, hhaving,
    hqualify, rfl⟩ := h
  have hread := hd.toReadable
  -- Each clause ends before those behind it.
  have hqs := hrest.behind (hqualify.qualify_behind hd hsupports)
  have hhs := hqs.behind (hhaving.behind (hd.isReserved (by decide)))
  have hgs := hhs.behind (hgroups.behind (hd.isReserved (by decide)))
  have hws := hgs.behind (hcondition.behind (hd.isReserved (by decide)))
  have hfs := hws.behind (hsources.behind (hd.isReserved (by decide)))
  have hgends := hhs.ends hread 0 (by decide) (by decide)
  simp only [List.cons_append, List.append_assoc]
  have hhead : ∀ w ∈ ["DISTINCT", "ALL", "ON"],
      (headShape (betweenCommas iss ++ (fs ++ (ws ++ (gs ++ (hs ++ (qs ++ rest))))))).isWord w = false := by
    cases hitems with
    | nil => exact absurd rfl hne
    | cons hitem _ =>
      obtain ⟨hitem, hwords⟩ := hitem.head hread
      intro w hw
      rw [betweenCommas, List.append_assoc, headShape_append hitem]
      exact hwords w hw
  refine (ReadsOr.expectWord (Shape.isWord_bare d "SELECT" "SELECT")).bind ((hdistinct.reads hhead n).bind ?_)
  refine (optionalTop_no (by simp [hd.limits])).bind ?_
  have hgroup : NoneNext (hs ++ (qs ++ rest)) ["GROUP"] := hhs.noneNext (by decide)
  refine (ReadsOr.commaSeparated (E := EndsItem d) hne
    (hitems.imp fun us item hform vs hvs => hform.reads hread hvs n) (.comma d) (.of_stops hread hfs)
    (hfs.isSymbol (by decide))).bind ?_
  refine (sources_read hd hsources hws n).bind ?_
  refine (hcondition.reads hread hgs (by decide) n).bind ?_
  refine (hgroups.reads (E := Ends d 0) (fun _ _ _ he hus => he.reads hus n)
    (fun us => .mark d 0 (by decide) us) hgends (hhs.isSymbol (by decide))
    (hgroup _ (by simp))).bind ?_
  refine (hhaving.reads hread hqs (by decide) n).bind ?_
  refine ReadsOr.bind (a := qualify) (u := rest) ?_ (.pure _)
  cases qualify with
  | none =>
    obtain rfl : qs = [] := hqualify
    have hnone : NoneNext rest ["QUALIFY"] := hrest.noneNext (by decide)
    exact .optional_no (.supports (.onlyIf_no (hnone.eatWord (by simp))))
  | some e =>
    obtain ⟨p, us, hform, rfl⟩ := hqualify
    refine .optional (.supports (.onlyIf_yes (hsupports rfl) (ReadsOr.eatBare d (w := "QUALIFY") rfl))) ?_
    exact hform.expr_zero (hrest.ends hread 0 (by decide) (by decide)) n

/-- The parts of a `SELECT` block are written. -/
structure Select.IsWritten (t : Target) (s : Select) : Prop where
  distinct : ∀ keys, s.distinct = some (.on keys) → keys ≠ [] ∧ ∀ e ∈ keys, Rewrites false t id e
  nonempty : s.items ≠ []
  items : ∀ item ∈ s.items, item.IsWritten t
  sources : ∀ r ∈ s.sources, r.IsWritten t
  condition : ∀ e ∈ s.condition, Rewrites false t id e
  groupBy : ∀ e ∈ s.groupBy, Rewrites false t id e
  having : ∀ e ∈ s.having, Rewrites false t id e
  qualify : ∀ e ∈ s.qualify, Rewrites false t id e

/-- The word that removes duplicates is written behind `SELECT`. -/
theorem distinctText_returned (hd : t.dialect.Expressive)
    (h : ∀ keys, distinct = some (.on keys) → keys ≠ [] ∧ ∀ e ∈ keys, Rewrites false t id e) :
    Renders false t (distinctText distinct) fun text => ∃ us distinct', DistinctForm t.dialect us distinct' ∧
      respellDistinct (.plain id) distinct' = respellDistinct (t.dialect.respelling id) distinct ∧
        ∀ s ts, Spelled t.dialect s ts → Spelled t.dialect (s ++ text) (ts ++ us) := by
  have hword : Spelled t.dialect "DISTINCT" [t.dialect.bare "DISTINCT"] := .word hd.toLegible rfl
  match distinct with
  | none => exact .pure ⟨[], none, .none, rfl, fun s ts hs => by simpa using hs⟩
  | some .all =>
    refine .pure ⟨_, some .all, .all, rfl, fun s ts hs => ?_⟩
    exact (hs.join Spelled.blank_mem hword).of_eq (by simp)
  | some (.on keys) =>
    obtain ⟨hne, hkeys⟩ := h keys rfl
    rw [distinctText]
    refine .required fun hsupports => (exprTexts_returned hd hkeys).bind fun texts htexts => ?_
    obtain ⟨tss, keys', hall, hforms, hne', heq⟩ := listwise_all.returned htexts
    have hon : Spelled t.dialect "ON" [t.dialect.bare "ON"] := .word hd.toLegible rfl
    have hlist : Spelled t.dialect (String.intercalate ", " texts) (betweenCommas tss) :=
      .commaList hd.toLegible (by simp [Spelled.listGaps]) hall
    refine .pure ⟨_, some (.on keys'), .on hsupports hforms (hne' hne), ?_, fun s ts hs => ?_⟩
    · rw [respellDistinct, respellDistinct, heq]
    · have hkeyed := hword.join Spelled.blank_mem (hon.join Spelled.blank_mem (hlist.parens hd.toLegible))
      exact (hs.join Spelled.blank_mem hkeyed).of_eq (by simp)

/-- A `SELECT` block is written by the tokens of the respelled one. -/
theorem Select.text_restored (hd : t.dialect.Stable) (h : s.IsWritten t) :
    Restores t (s.text none) Select.respell (SelectForm t.dialect) s := by
  obtain ⟨distinct, items, sources, condition, groupBy, having, qualify⟩ := s
  obtain ⟨hdistinct, hne, hitems, hsources, hcondition, hgroupBy, hhaving, hqualify⟩ := h
  have hlegible := hd.toLegible
  have hword {w : String} (hw : Spelled.isPlainWord w = true) : ∀ s ts, Spelled t.dialect s ts →
      Spelled t.dialect (w ++ " " ++ s) ([t.dialect.bare w] ++ ts) :=
    fun s ts hs => (Spelled.word hlegible hw).join Spelled.blank_mem hs
  unfold Restores
  rw [Select.text]
  refine .target ((distinctText_returned hd.toExpressive hdistinct).bind ?_)
  rintro dtext ⟨ds, distinct', hdform, hdeq, hbehind⟩
  refine (itemTexts_returned hd.toFluent hitems).bind fun itexts hitexts => ?_
  refine (sourceTexts_returned hd.toExpressive hsources).bind fun stexts hstexts => ?_
  refine (optionTexts_gains hd.toExpressive hcondition (hword (w := "WHERE") rfl)).bind ?_
  rintro ctexts ⟨css, condition', hcall, hcclause, hceq⟩
  refine (exprTexts_returned hd.toExpressive hgroupBy).bind fun gtexts hgtexts => ?_
  refine (optionTexts_gains hd.toExpressive hhaving (hword (w := "HAVING") rfl)).bind ?_
  rintro htexts ⟨hss, having', hhall, hhclause, hheq⟩
  refine .requiredIf fun hsupports => (optionTexts_gains hd.toExpressive hqualify (hword (w := "QUALIFY") rfl)).bind ?_
  rintro qtexts ⟨qss, qualify', hqall, hqclause, hqeq⟩
  obtain ⟨iss, items', hiall, hiforms, hne', hieq⟩ := listwise_items.returned hitexts
  obtain ⟨sss, sources', hsall, hskeys, hseq⟩ := listwise_sources.keys ["FROM"] (t.listClause "FROM") hstexts
    fun tss hall => Spelled.listClause hlegible rfl (.word hlegible rfl) hall
  have hgroup : Spelled t.dialect "GROUP BY" (["GROUP", "BY"].map t.dialect.bare) :=
    ((Spelled.word (w := "GROUP") hlegible rfl).join Spelled.blank_mem (.word (w := "BY") hlegible rfl)).of_eq rfl
  obtain ⟨gss, groups', hgall, hgkeys, hgeq⟩ := listwise_all.keys ["GROUP", "BY"] (t.listClause "GROUP BY")
    hgtexts fun tss hall => Spelled.listClause hlegible rfl hgroup hall
  have hselect := hbehind _ _ (Spelled.word (w := "SELECT") hlegible rfl)
  have hclauses := Spelled.clauses t (List.rel_append (List.rel_append (List.rel_append (List.rel_append
    (.cons (.listClause hlegible rfl hselect hiall) hsall) hcall) hgall) hhall) hqall)
  have hkept : qualify'.isSome = true → t.dialect.supports .qualify = true := by
    rw [isSome_of_respellOption hqeq]
    exact hsupports
  refine .pure ⟨_, ⟨distinct', items', sources', condition', groups', having', qualify'⟩, hclauses.of_eq ?_,
    ⟨hne' hne, hkept, ds, iss, _, _, _, _, _, hdform, hiforms, hskeys, hcclause, hgkeys, hhclause, hqclause, ?_⟩, ?_⟩
  · simp [hd.queries.2.2.1]
  · simp
  · rw [Select.respell, Select.respell, hdeq, hieq, hseq, hceq, hgeq, hheq, hqeq]

end Selects

/-! ## Bodies -/

/-- The tokens of a row of values. -/
def RowForm (d : Dialect) (ts : List Shape) (row : List Expr) : Prop :=
  row ≠ [] ∧ ∃ tss, List.Forall₂ (ElementForm d) tss row ∧ ts = inParens (betweenCommas tss)

/-- The tokens of an operand of a set operation, before what may follow one. -/
def OperandForm (d : Dialect) (ts : List Shape) (b : Body) : Prop :=
  ∀ n rest, Stops d [")"] operandEnds rest →
    Parses d (Parser.setOperand (Parser.nested n)) (ts ++ rest) (b, none) rest

/-- The tokens of a body, however the set operation goes on behind it. -/
def BodyForm (d : Dialect) (ts : List Shape) (b : Body) : Prop :=
  ∀ n rest r us, Stops d [")"] operandEnds rest →
    ReadsOr.Iterates .deep d (Parser.moreBodies (Parser.nested n)) (b, none) rest r us →
      Parses d (Parser.body (Parser.nested n)) (ts ++ rest) r us

/-- The word of a set operation. -/
def SetOp.word : SetOp → String
  | union => "UNION"
  | intersect => "INTERSECT"
  | except => "EXCEPT"

/-- The words behind a set operation. -/
def SetQuantifier.words : SetQuantifier → List String
  | none => []
  | all => ["ALL"]
  | distinct => ["DISTINCT"]

/-- The operand is written by the tokens of the respelled one, which open as it does. -/
def Body.OperandRestored (t : Target) (b : Body) : Prop :=
  b.isCombine = false ∧ Restores t (b.text none) Body.respell
    (fun ts b' => OperandForm t.dialect ts b' ∧ opensWith b.opening ts = true) b

/-- The body is written by the tokens of the respelled one, which open as it does. -/
def Body.Restored (t : Target) (b : Body) : Prop :=
  Restores t (b.text none) Body.respell
    (fun ts b' => BodyForm t.dialect ts b' ∧ opensWith b.opening ts = true) b

section Bodies

variable {d : Dialect} {t : Target} {ts us rest : List Shape} {b left right : Body} {s : Select} {q : Query}
  {rows : List (List Expr)} {op : SetOp} {quantifier : SetQuantifier}

theorem Body.opening_eq : ∀ b : Body, ∃ w ws, b.opening = w :: ws ∧ w ∈ ["SELECT", "VALUES", "("]
  | .select _ => ⟨_, _, rfl, by simp⟩
  | .combine _ _ left _ => left.opening_eq
  | .query _ => ⟨_, _, rfl, by simp⟩
  | .values _ => ⟨_, _, rfl, by simp⟩

theorem Query.opening_eq (q : Query) :
    ∃ w ws, q.opening = w :: ws ∧ w ∈ ["WITH", "SELECT", "VALUES", "("] := by
  match q with
  | ⟨some _, _, _, _⟩ => exact ⟨_, _, rfl, by simp⟩
  | ⟨none, body, _, _⟩ =>
    obtain ⟨w, ws, heq, hw⟩ := body.opening_eq
    exact ⟨w, ws, heq, List.mem_cons_of_mem _ hw⟩

theorem Shape.isLead_finish (w : String) : Shape.finish.isLead w = false := by
  unfold Shape.isLead
  split <;> rfl

theorem opensWith_bare (d : Dialect) {w : String} (hw : w ≠ "(") (ts : List Shape) :
    opensWith [w] (d.bare w :: ts) = true := by
  simp [opensWith, Shape.isLead, hw, Text.sameWord_refl]

theorem opensWith_append {ws : List String} (h : opensWith ws ts = true) (us : List Shape) :
    opensWith ws (ts ++ us) = true := by
  induction ws generalizing ts with
  | nil => rfl
  | cons w ws ih =>
    rw [opensWith, Bool.and_eq_true] at h
    cases ts with
    | nil => exact absurd h.1 (by simp [Shape.isLead_finish])
    | cons s ts =>
      rw [List.cons_append, opensWith, Bool.and_eq_true]
      exact ⟨h.1, ih h.2⟩

/-- A mark is no word. -/
theorem Token.isWord_of_isSymbol {t : Token} {m : String} (h : t.isSymbol m = true) (w : String) :
    t.isWord w = false := by
  unfold Token.isSymbol at h
  unfold Token.isWord Token.isBareWord
  cases hkind : t.kind <;> simp_all

/-- A token with which a query opens is no other word. -/
theorem Shape.isWord_of_isLead {s : Shape} {w v : String} (h : s.isLead w = true)
    (hno : w = "(" ∨ Text.sameWord w v = false) : s.isWord v = false := by
  unfold Shape.isLead at h
  split at h
  · exact Token.isWord_of_isSymbol h v
  · next hw =>
    have hsame : Text.sameWord w v = false := hno.resolve_left hw
    rw [← Bool.not_eq_true, Text.sameWord_iff] at hsame
    by_contra hv
    rw [Bool.not_eq_false] at hv
    unfold Shape.isWord Token.isWord at h hv
    rw [Bool.and_eq_true, Text.sameWord_iff] at h hv
    exact hsame (h.2.symm.trans hv.2)

theorem Shape.isSymbol_of_isLead {s : Shape} {w m : String} (h : s.isLead w = true) (hm : m ≠ "(") :
    s.isSymbol m = false := by
  unfold Shape.isLead at h
  rw [← Bool.not_eq_true]
  intro hsymbol
  split at h
  · next hw =>
    subst hw
    unfold Shape.isSymbol Token.isSymbol at h hsymbol
    revert h hsymbol
    cases s.token.kind <;> simp_all
  · exact Bool.false_ne_true ((Token.isWord_of_isSymbol hsymbol w).symm.trans h)

/-- The tokens of a body start with nothing that may stand before it. -/
theorem Body.head_of_opensWith (h : opensWith b.opening ts = true) :
    ts ≠ [] ∧ (∀ v ∈ ["WITH", "ALL", "DISTINCT"], (headShape ts).isWord v = false) ∧
      (headShape ts).isSymbol "," = false := by
  obtain ⟨w, ws, heq, hw⟩ := b.opening_eq
  rw [heq, opensWith, Bool.and_eq_true] at h
  refine ⟨?_, fun v hv => Shape.isWord_of_isLead h.1 ?_, Shape.isSymbol_of_isLead h.1 (by decide)⟩
  · rintro rfl
    exact absurd h.1 (by simp [Shape.isLead_finish])
  · have hwords : ∀ w ∈ ["SELECT", "VALUES", "("], ∀ v ∈ ["WITH", "ALL", "DISTINCT"],
        w = "(" ∨ Text.sameWord w v = false := by decide
    exact hwords w hw v hv

/-! ### Operands -/

theorem SelectForm.operand (h : SelectForm d ts s) (hd : d.Stable) : OperandForm d ts (.select s) := by
  intro n rest hrest
  have hselect := h.reads hd hrest n
  obtain ⟨-, -, ds, iss, fs, ws, gs, hs, qs, -, -, -, -, -, -, -, rfl⟩ := h
  exact setOperand_select hselect

theorem operandForm_query (h : QueryForm d ts q) : OperandForm d (inParens ts) (.query q) := by
  intro n rest hrest
  rw [inParens_append]
  refine .no (ReadsOr.checkWord rfl) (.no (ReadsOr.eatWord_no rfl) ?_)
  refine .yes (ReadsOr.eatSymbol rfl) ((h.closed n rest).bind ?_)
  exact (ReadsOr.expectSymbol rfl).bind (.pure _)

theorem RowForm.reads {row : List Expr} (h : RowForm d ts row) (n : Nat) (us : List Shape) :
    Parses d (Parser.parenthesized (Parser.commaSeparated ((Parser.nested n).expr 0))) (ts ++ us) row us := by
  obtain ⟨hne, tss, hrow, rfl⟩ := h
  rw [inParens_append]
  exact .parenthesized (Elements.commaSeparated hrow hne n (.mark d 0 (by decide) _) rfl)

theorem operandForm_values {tss : List (List Shape)} (hne : rows ≠ []) (h : List.Forall₂ (RowForm d) tss rows) :
    OperandForm d (d.bare "VALUES" :: betweenCommas tss) (.values rows) := by
  intro n rest hrest
  refine .no (ReadsOr.checkWord (Shape.isWord_bare d "VALUES" "SELECT")) ?_
  refine .yes (ReadsOr.eatBare d (w := "VALUES") rfl) ?_
  refine (ReadsOr.commaSeparated (E := fun _ => True) hne ?_ (fun _ => trivial) trivial
    (hrest.isSymbol (by decide))).bind (.pure _)
  exact h.imp fun us row hrow vs _ => hrow.reads n vs

theorem select_operandRestored (hd : t.dialect.Stable) (h : s.IsWritten t) : (Body.select s).OperandRestored t := by
  refine ⟨rfl, ?_⟩
  unfold Restores
  rw [Body.text]
  refine (Select.text_restored hd h).mono ?_
  rintro text ⟨ts, s', hspelled, hform, heq⟩
  refine ⟨ts, .select s', hspelled, ⟨hform.operand hd, ?_⟩, by rw [Body.respell, Body.respell, heq]⟩
  obtain ⟨-, -, ds, iss, fs, ws, gs, hs, qs, -, -, -, -, -, -, -, rfl⟩ := hform
  exact opensWith_bare t.dialect (w := "SELECT") (by decide) _

theorem query_operandRestored (hd : t.dialect.Stable) (h : q.Restored t) : (Body.query q).OperandRestored t := by
  refine ⟨rfl, ?_⟩
  unfold Restores
  rw [Body.text]
  refine (h.block hd).mono ?_
  rintro text ⟨ts, q', hspelled, hform, hopens, heq⟩
  refine ⟨_, .query q', hspelled, ⟨operandForm_query hform, ?_⟩, by rw [Body.respell, Body.respell, heq]⟩
  have hblock : opensWith (Body.query q).opening (.mark "(" :: ts) = true := hopens
  exact opensWith_append hblock [.mark ")"]

theorem listwise_rows : Listwise respellRows where
  nil r := by rw [respellRows]
  cons r a as := by simp only [respellRows, List.cons_append, List.nil_append]

theorem rowTexts_returned (hd : t.dialect.Expressive)
    (h : ∀ row ∈ rows, row ≠ [] ∧ ∀ e ∈ row, Rewrites false t id e) :
    Renders false t (rowTexts rows) fun texts =>
      List.Forall₂ (Returned t respellRows (RowForm t.dialect)) texts rows := by
  induction rows with
  | nil => exact .pure .nil
  | cons row rows ih =>
    obtain ⟨hne, hrow⟩ := h row (by simp)
    rw [rowTexts]
    refine (exprTexts_returned hd hrow).bind fun texts htexts => ?_
    refine (ih fun x hx => h x (by simp [hx])).bind fun more hmore => .pure (.cons ?_ hmore)
    obtain ⟨tss, row', hall, hforms, hne', heq⟩ := listwise_all.returned htexts
    have hlist : Spelled t.dialect (String.intercalate ", " texts) (betweenCommas tss) :=
      .commaList hd.toLegible (by simp [Spelled.listGaps]) hall
    refine ⟨_, row', (hlist.parens hd.toLegible).of_eq (by simp), ⟨hne' hne, tss, hforms, rfl⟩, ?_⟩
    simp only [respellRows, heq]

theorem values_operandRestored (hd : t.dialect.Stable) (hne : rows ≠ [])
    (h : ∀ row ∈ rows, row ≠ [] ∧ ∀ e ∈ row, Rewrites false t id e) : (Body.values rows).OperandRestored t := by
  refine ⟨rfl, ?_⟩
  unfold Restores
  rw [Body.text]
  refine (rowTexts_returned hd.toExpressive h).bind fun texts htexts => .target (.pure ?_)
  obtain ⟨tss, rows', hall, hforms, hne', heq⟩ := listwise_rows.returned htexts
  refine ⟨_, .values rows', .listClause hd.toLegible rfl (.word (w := "VALUES") hd.toLegible rfl) hall,
    ⟨operandForm_values (hne' hne) hforms, ?_⟩, by rw [Body.respell, Body.respell, heq]⟩
  exact opensWith_bare t.dialect (w := "VALUES") (by decide) _

/-! ### Set operations -/

theorem OperandForm.body (h : OperandForm d ts b) : BodyForm d ts b :=
  fun n _ _ _ hrest hmore => (h n _ hrest).bind (.iterate hmore)

theorem SetOp.word_read {F : Lapses} (op : SetOp) (us : List Shape) :
    ReadsOr F d Parser.setOp (d.bare op.word :: us) (some op) us := by
  cases op with
  | union => exact .yes (ReadsOr.eatBare d rfl) (.pure _)
  | intersect => exact .no (ReadsOr.eatBare_no d rfl) (.yes (ReadsOr.eatBare d rfl) (.pure _))
  | except =>
    exact .no (ReadsOr.eatBare_no d rfl) (.no (ReadsOr.eatBare_no d rfl) (.yes (ReadsOr.eatBare d rfl) (.pure _)))

theorem SetQuantifier.words_read {F : Lapses} (quantifier : SetQuantifier)
    (h : ∀ w ∈ ["ALL", "DISTINCT"], (headShape us).isWord w = false) :
    ReadsOr F d Parser.setQuantifier (quantifier.words.map d.bare ++ us) quantifier us := by
  cases quantifier with
  | none =>
    refine .no (ReadsOr.eatWord_no (h "ALL" (by simp))) ?_
    exact .no (ReadsOr.eatWord_no (h "DISTINCT" (by simp))) (.pure _)
  | all => exact .yes (ReadsOr.eatBare d (w := "ALL") rfl) (.pure _)
  | distinct => exact .no (ReadsOr.eatBare_no d (w := "DISTINCT") rfl) (.yes (ReadsOr.eatBare d rfl) (.pure _))

theorem bodyForm_combine (hd : d.Stable) (hleft : BodyForm d ts left) (hright : OperandForm d us right)
    (hopens : ∀ w ∈ ["ALL", "DISTINCT"], ∀ rest, (headShape (us ++ rest)).isWord w = false) :
    BodyForm d (ts ++ d.bare op.word :: (quantifier.words.map d.bare ++ us)) (.combine op quantifier left right) := by
  intro n rest r vs hrest hmore
  rw [List.append_assoc, List.cons_append, List.append_assoc]
  have hword : op.word ∈ operandEnds := by cases op <;> decide
  refine hleft n _ r vs (.word hword (hd.isReserved (by cases op <;> decide)) _) ?_
  refine ReadsOr.iterates_step (y := (.combine op quantifier left right, none)) ?_ ?_ hmore
  · refine (SetOp.word_read op _).bind ?_
    refine (SetQuantifier.words_read quantifier fun w hw => hopens w hw rest).bind ?_
    exact (hright n rest hrest).bind (.pure _)
  · simp only [List.length_cons, List.length_append]
    omega

theorem Body.OperandRestored.restored (h : b.OperandRestored t) : b.Restored t :=
  h.2.mono fun _ ⟨ts, b', hspelled, ⟨hform, hopens⟩, heq⟩ => ⟨ts, b', hspelled, ⟨hform.body, hopens⟩, heq⟩

theorem SetOp.word_spelled (hd : t.dialect.Stable) (op : SetOp) (quantifier : SetQuantifier) :
    Spelled t.dialect (t.setWord op quantifier) (t.dialect.bare op.word :: quantifier.words.map t.dialect.bare) := by
  have hword : Spelled t.dialect op.word [t.dialect.bare op.word] := .word hd.toLegible (by cases op <;> rfl)
  have htext : t.setWord op .none = op.word := by
    cases op <;> simp [Target.setWord, SetOp.word, hd.queries]
  cases quantifier with
  | none => exact hword.of_eq (by rw [htext])
  | all =>
    refine (hword.join Spelled.blank_mem (.word (w := "ALL") hd.toLegible rfl)).of_eq ?_
    rw [← htext]
    simp [Target.setWord]
  | distinct =>
    refine (hword.join Spelled.blank_mem (.word (w := "DISTINCT") hd.toLegible rfl)).of_eq ?_
    rw [← htext]
    simp [Target.setWord]

theorem combine_restored (hd : t.dialect.Stable) (hleft : left.Restored t) (hright : right.OperandRestored t) :
    (Body.combine op quantifier left right).Restored t := by
  obtain ⟨hcombine, hright⟩ := hright
  unfold Body.Restored Restores
  rw [Body.text]
  refine .target (hleft.bind ?_)
  rintro ltext ⟨ts, left', hlspelled, ⟨hlform, hlopens⟩, hleq⟩
  refine hright.bind ?_
  rintro rtext ⟨us, right', hrspelled, ⟨hrform, hropens⟩, hreq⟩
  obtain ⟨hne, hwords, -⟩ := right.head_of_opensWith hropens
  have hall := Spelled.clauses t (.cons hlspelled (.cons (SetOp.word_spelled hd op quantifier) (.cons hrspelled .nil)))
  refine .pure ⟨_, .combine op quantifier left' right', ?_, ⟨bodyForm_combine hd hlform hrform ?_, ?_⟩, ?_⟩
  · simpa [hcombine] using hall
  · intro w hw rest
    rw [headShape_append hne]
    exact hwords w (List.mem_cons_of_mem _ hw)
  · exact opensWith_append hlopens _
  · rw [Body.respell, Body.respell, hleq, hreq]

end Bodies

end SqlDialects
