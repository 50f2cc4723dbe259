import SqlDialects.Proofs.Primaries

/-!
# Plain queries are read

* `NoneNext` : none of the given words is next;
* `Behind` : the tokens end or start with one of the given words;
* `expr_primary`, `expr_name`, `expr_number` : expressions without operators;
* `selectItem_expr`, `sources_table` : an item without an alias, and one table;
* `select_plain` : a `SELECT` without conditions and groups;
* `body_select`, `body_combine` : one `SELECT`, and a set operation of two;
* `queryWith_parts` : a query from its body, its ordering and its row limit.

What is read does not depend on the levels of nesting that are left, but for the one that an
expression takes.
-/

namespace SqlDialects

/-- None of the words `ws` is next. -/
def NoneNext (ts : List Shape) (ws : List String) : Prop :=
  ∀ w ∈ ws, (headShape ts).isWord w = false

namespace NoneNext

variable {d : Dialect} {ts us : List Shape} {ws vs : List String}

theorem nil (ws : List String) : NoneNext [] ws := fun _ _ => rfl

theorem mark (m : String) (ts : List Shape) (ws : List String) : NoneNext (.mark m :: ts) ws :=
  fun _ _ => rfl

theorem bare (d : Dialect) {x : String} (ts : List Shape)
    (h : ∀ w ∈ ws, Text.sameWord x w = false) : NoneNext (d.bare x :: ts) ws :=
  fun w hw => (Shape.isWord_bare d x w).trans (h w hw)

theorem mono (h : NoneNext ts ws) (hsub : vs ⊆ ws) : NoneNext ts vs := fun w hw => h w (hsub hw)

theorem eatWord {F : Lapses} (h : NoneNext ts ws) {w : String} (hw : w ∈ ws) :
    ReadsOr F d (Parser.eatWord w) ts false ts :=
  ReadsOr.eatWord_no (h w hw)

theorem checkWord {F : Lapses} (h : NoneNext ts ws) {w : String} (hw : w ∈ ws) :
    ReadsOr F d (Parser.checkWord w) ts false ts :=
  ReadsOr.checkWord (h w hw)

theorem eatWords {F : Lapses} (h : NoneNext ts ws) {w : String} (hw : w ∈ ws)
    (more : List String) : ReadsOr F d (Parser.eatWords (w :: more)) ts false ts :=
  ReadsOr.eatWords_no (by simp [ReadsOr.wordsMatch, h w hw])

end NoneNext

/-- The tokens `ts` end or start with one of the words `ws`, which is reserved. -/
def Behind (d : Dialect) (ws : List String) (ts : List Shape) : Prop :=
  ts = [] ∨ ∃ w ∈ ws, d.lexical.isReserved w = true ∧ ∃ us, ts = d.bare w :: us

namespace Behind

variable {d : Dialect} {ts us : List Shape} {ws vs : List String}

theorem nil (d : Dialect) (ws : List String) : Behind d ws [] := .inl rfl

theorem word {w : String} (hw : w ∈ ws) (hreserved : d.lexical.isReserved w = true)
    (us : List Shape) : Behind d ws (d.bare w :: us) :=
  .inr ⟨w, hw, hreserved, us, rfl⟩

theorem mono (h : Behind d ws ts) (hsub : ws ⊆ vs) : Behind d vs ts := by
  rcases h with rfl | ⟨w, hw, hreserved, us, rfl⟩
  · exact .nil d vs
  · exact .word (hsub hw) hreserved us

theorem noneNext (h : Behind d ws ts) (hno : ∀ w ∈ ws, ∀ v ∈ vs, Text.sameWord w v = false) :
    NoneNext ts vs := by
  rcases h with rfl | ⟨w, hw, -, us, rfl⟩
  · exact .nil vs
  · exact .bare d us (hno w hw)

theorem isName (h : Behind d ws ts) : (headShape ts).isName = false := by
  rcases h with rfl | ⟨w, -, hreserved, us, rfl⟩
  · rfl
  · exact isName_bare hreserved

theorem isSymbol (h : Behind d ws ts) (m : String) : (headShape ts).isSymbol m = false := by
  rcases h with rfl | ⟨w, -, -, us, rfl⟩
  · rfl
  · exact Shape.isSymbol_bare d w m

theorem ends (hd : d.Readable) (h : Behind d ws ts) (hws : ∀ w ∈ ws, endsExpression w = true) :
    Ends d 0 ts := by
  rcases h with rfl | ⟨w, hw, -, us, rfl⟩
  · exact .nil d 0
  · exact .bare hd 0 (hws w hw) us

end Behind

section Plain

variable {F : Lapses} {d : Dialect} {deeper : Deeper} {ts us vs rest : List Shape}
  {e : Expr} {k : Nat} {least : Precedence}

/-! ## Expressions -/

/-- An operand without operators behind it. -/
theorem subexpr_primary (hnot : (headShape ts).isWord "NOT" = false)
    (hunary : Parser.unaryOp? (headShape ts).token = none)
    (h : ∀ operand, ReadsOr F d (Parser.primary deeper operand) ts e rest)
    (hrest : nextPrecedence d rest ≤ least) : ReadsOr F d (Parser.subexpr deeper least) ts e rest := by
  have hoperand : ReadsOr F d (Parser.operandFrom deeper) ts e rest :=
    .remaining (operandWith_primary hnot hunary (h _))
  exact hoperand.bind (.iterate_stop (moreOperands_stop hrest))

/-- An expression without operators takes one level. -/
theorem expr_primary (hF : F.Limited) (hnot : (headShape ts).isWord "NOT" = false)
    (hunary : Parser.unaryOp? (headShape ts).token = none)
    (h : ∀ operand, Reads d (Parser.primary (Parser.nested k) operand) ts e rest)
    (hrest : nextPrecedence d rest ≤ least) : ReadsOr F d ((Parser.nested (k + 1)).expr least) ts e rest :=
  Reads.level hF (subexpr_primary hnot hunary h hrest)

theorem expr_name (hF : F.Limited) (hd : d.Readable) {n : Name} (hn : n.IsFree d) (hrest : Ends d 0 rest) (k : Nat) :
    ReadsOr F d ((Parser.nested (k + 1)).expr 0) (n.shape :: rest) (.name n) rest :=
  expr_primary hF (Name.isWord_shape hn (hd.reserved "NOT" (by decide))) (Name.unaryOp_shape n)
    (fun _ => primary_names hd hn [] hrest.isClear) hrest.next

theorem expr_number (hF : F.Limited) (w : String) (hrest : nextPrecedence d rest ≤ least) (k : Nat) :
    ReadsOr F d ((Parser.nested (k + 1)).expr least) ((.number, w) :: rest)
      (.literal (.number w)) rest :=
  expr_primary hF rfl rfl (fun _ => primary_number w _ _) hrest

theorem expr_null (hF : F.Limited) (hrest : Ends d 0 rest) (k : Nat) :
    ReadsOr F d ((Parser.nested (k + 1)).expr 0) (d.bare "NULL" :: rest) (.literal .null) rest := by
  refine expr_primary hF (Shape.isWord_bare d "NULL" "NOT") (unaryOp_bare d "NULL") (fun _ => ?_)
    hrest.next
  exact primary_bare fun _ ht => wordExpr_form ht (Shape.isClear_iff.mp hrest.isClear).1 rfl
    (.advance fun _ _ => .pure _)

/-! ## Items -/

theorem optionalAlias_no (has : NoneNext rest ["AS"]) (hname : (headShape rest).isName = false) :
    ReadsOr F d Parser.optionalAlias rest none rest := by
  refine (has.eatWord (by simp)).bind (.peek fun t ht => ?_)
  rw [← Token.isName_shape, ht, hname]
  exact .pure none

theorem starParts_no (n : Nat)
    (h : ((headShape ts).isName && (nthShape ts 1).isSymbol ".") = false) :
    ReadsOr F d (Parser.starParts 0 n) ts none ts := by
  cases n with
  | zero => exact .pure none
  | succ n =>
    refine .peekNth fun t ht => .peekNth fun next hnext => ?_
    rw [← Token.isName_shape, ← Token.isSymbol_shape, ht, hnext]
    simp only [show nthShape ts 0 = headShape ts from rfl, Nat.zero_add, h, Bool.false_eq_true,
      if_false]
    exact .pure none

/-- An item without an alias. -/
theorem selectItem_expr (h : ReadsOr F d (deeper.expr 0) ts e rest)
    (hsymbol : (headShape ts).isSymbol "*" = false)
    (hstar : ((headShape ts).isName && (nthShape ts 1).isSymbol ".") = false)
    (has : NoneNext rest ["AS"]) (hname : (headShape rest).isName = false) :
    ReadsOr F d (Parser.selectItem deeper) ts (.expr e none) rest := by
  refine (ReadsOr.eatSymbol_no hsymbol).bind (.remaining ?_)
  refine (starParts_no _ hstar).bind (h.bind ?_)
  exact (optionalAlias_no has hname).bind (.pure _)

/-! ## Sources -/

/-- The words that may follow a table and belong to it. -/
def joinStarts : List String := ["AS", "JOIN", "INNER", "LEFT", "RIGHT", "FULL", "CROSS", "NATURAL"]

/-- What may follow a source: nothing that belongs to it. -/
structure EndsSource (rest : List Shape) : Prop where
  words : NoneNext rest joinStarts
  name : (headShape rest).isName = false
  symbol : ∀ m ∈ [".", "(", ","], (headShape rest).isSymbol m = false

theorem join_no (h : NoneNext rest joinStarts) :
    ReadsOr F d (Parser.join deeper) rest none rest := by
  have hno (w : String) (hw : w ∈ joinStarts) :
      ReadsOr F d (Parser.eatWord w) rest false rest := h.eatWord hw
  have hkind : ReadsOr F d (Parser.joinKind false) rest none rest := by
    refine (hno "JOIN" (by decide)).bind ((hno "INNER" (by decide)).bind ?_)
    refine (hno "LEFT" (by decide)).bind ((hno "RIGHT" (by decide)).bind (.supports ?_))
    refine (ReadsOr.onlyIf_no (hno "FULL" (by decide))).bind ?_
    exact (ReadsOr.onlyIf_no (hno "CROSS" (by decide))).bind (.pure none)
  refine .supports ((ReadsOr.onlyIf_no (hno "NATURAL" (by decide))).bind ?_)
  exact hkind.bind (.pure none)

/-- One table without an alias. -/
theorem sources_table {ns : List Name} (hne : ns ≠ []) (hrest : EndsSource rest) :
    ReadsOr F d (Parser.sources deeper)
      (d.bare "FROM" :: (betweenDots (ns.map Name.shape) ++ rest)) [⟨.table ns none, []⟩] rest := by
  have hopen : (headShape (betweenDots (ns.map Name.shape) ++ rest)).isSymbol "(" = false := by
    cases ns with
    | nil => exact absurd rfl hne
    | cons n ns => exact Name.isSymbol_shape n "("
  have halias : ReadsOr F d Parser.tableAlias rest none rest :=
    (optionalAlias_no (hrest.words.mono (by decide)) hrest.name).bind (.pure none)
  have hrelation : ReadsOr F d (Parser.relation deeper) (betweenDots (ns.map Name.shape) ++ rest)
      (.table ns none) rest := by
    refine (ReadsOr.eatSymbol_no hopen).bind (.peek fun _ _ => ?_)
    refine (ReadsOr.qualifiedName hne (hrest.symbol "." (by decide))).bind ?_
    exact (ReadsOr.peekSymbol (hrest.symbol "(" (by decide))).bind (halias.bind (.pure _))
  have hsource : ReadsOr F d (Parser.source deeper) (betweenDots (ns.map Name.shape) ++ rest)
      ⟨.table ns none, []⟩ rest :=
    hrelation.bind ((ReadsOr.many_stop (join_no hrest.words)).bind (.pure _))
  have hmore : ReadsOr F d (Parser.afterCommas (Parser.source deeper)) rest [] rest :=
    .many_stop (.optional_no (.eatSymbol_no (hrest.symbol "," (by decide))))
  have hlist : ReadsOr F d (Parser.commaSeparated (Parser.source deeper))
      (betweenDots (ns.map Name.shape) ++ rest) [⟨.table ns none, []⟩] rest :=
    hsource.bind (hmore.bind (.pure _))
  exact (ReadsOr.eatWord (Shape.isWord_bare d "FROM" "FROM")).bind hlist

/-! ## `SELECT` -/

/-- The words of the clauses behind the sources of a `SELECT`. -/
def clauseStarts : List String := ["WHERE", "GROUP", "HAVING", "QUALIFY"]

/-- A `SELECT` without conditions and groups. -/
theorem select_plain {top : Option Expr} {items : List SelectItem} {sources : List Source}
    (hdistinct : NoneNext ts ["DISTINCT", "ALL"])
    (htop : ReadsOr F d
      (Parser.optional (do Parser.onlyIf (← Parser.rules).top (Parser.eatWord "TOP"))
        (Parser.topCount deeper)) ts top us)
    (hitems : ReadsOr F d (Parser.commaSeparated (Parser.selectItem deeper)) us items vs)
    (hsources : ReadsOr F d (Parser.sources deeper) vs sources rest)
    (hrest : NoneNext rest clauseStarts) :
    ReadsOr F d (Parser.select deeper) (d.bare "SELECT" :: ts)
      (⟨none, items, sources, none, [], none, none⟩, top) rest := by
  have hno (w : String) (hw : w ∈ clauseStarts) :
      ReadsOr F d (Parser.eatWord w) rest false rest := hrest.eatWord hw
  refine (ReadsOr.expectWord (Shape.isWord_bare d "SELECT" "SELECT")).bind ?_
  refine ReadsOr.bind (a := none) (u := ts) ?_ ?_
  · refine (hdistinct.eatWord (by decide)).bind ?_
    exact (hdistinct.eatWord (by decide)).bind (.pure none)
  refine htop.bind (hitems.bind (hsources.bind ?_))
  refine (ReadsOr.optional_no (hno "WHERE" (by decide))).bind ?_
  refine (ReadsOr.optionalList_no (hrest.eatWords (by decide) _)).bind ?_
  refine (ReadsOr.optional_no (hno "HAVING" (by decide))).bind ?_
  refine (ReadsOr.optional_no (.supports (.onlyIf_no (hno "QUALIFY" (by decide))))).bind ?_
  exact .pure _

theorem optionalTop_no (h : d.reading.top = true → NoneNext ts ["TOP"]) :
    ReadsOr F d (Parser.optional (do Parser.onlyIf (← Parser.rules).top (Parser.eatWord "TOP"))
      (Parser.topCount deeper)) ts none ts :=
  .optional_no (.rules (.onlyIf (fun htop => (h htop).eatWord (by simp)) fun _ => ⟨rfl, rfl⟩))

/-- A count behind `TOP`. -/
theorem optionalTop_number (htop : d.reading.top = true) (w : String) :
    ReadsOr F d (Parser.optional (do Parser.onlyIf (← Parser.rules).top (Parser.eatWord "TOP"))
      (Parser.topCount deeper)) (d.bare "TOP" :: (.number, w) :: ts)
      (some (.literal (.number w))) ts := by
  have hword : ReadsOr F d (Parser.eatWord "TOP") (d.bare "TOP" :: (.number, w) :: ts) true
      ((.number, w) :: ts) := .eatWord (Shape.isWord_bare d "TOP" "TOP")
  refine .optional (.rules (.onlyIf_yes htop hword)) ((ReadsOr.eatSymbol_no rfl).bind ?_)
  exact .remaining (operandWith_primary rfl rfl (primary_number w _ _))

/-! ## Bodies -/

/-- The words of set operations. -/
def setStarts : List String := ["UNION", "INTERSECT", "EXCEPT", "MINUS"]

theorem setOperand_select {s : Select} {top : Option Expr}
    (h : ReadsOr F d (Parser.select deeper) (d.bare "SELECT" :: ts) (s, top) rest) :
    ReadsOr F d (Parser.setOperand deeper) (d.bare "SELECT" :: ts) (.select s, top) rest := by
  have hselect : (headShape (d.bare "SELECT" :: ts)).isWord "SELECT" = true :=
    Shape.isWord_bare d "SELECT" "SELECT"
  exact (ReadsOr.checkWord hselect).bind (h.bind (.pure _))

theorem moreBodies_no {left : Body × Option Expr} (hrest : NoneNext rest setStarts) :
    ReadsOr F d (Parser.moreBodies deeper left) rest none rest := by
  have hno (w : String) (hw : w ∈ setStarts) :
      ReadsOr F d (Parser.eatWord w) rest false rest := hrest.eatWord hw
  have hop : ReadsOr F d Parser.setOp rest none rest := by
    refine (hno "UNION" (by decide)).bind ((hno "INTERSECT" (by decide)).bind ?_)
    refine (hno "EXCEPT" (by decide)).bind (.rules ?_)
    exact (ReadsOr.onlyIf_no (hno "MINUS" (by decide))).bind (.pure none)
  exact hop.bind (.pure none)

/-- A body that is one `SELECT`. -/
theorem body_select {s : Select} {top : Option Expr}
    (h : ReadsOr F d (Parser.select deeper) (d.bare "SELECT" :: ts) (s, top) rest)
    (hrest : NoneNext rest setStarts) :
    ReadsOr F d (Parser.body deeper) (d.bare "SELECT" :: ts) (.select s, top) rest :=
  (setOperand_select h).bind (.iterate_stop (moreBodies_no hrest))

/-- A body that is a set operation of two `SELECT`s. -/
theorem body_combine {op : SetOp} {quantifier : SetQuantifier} {left right : Select}
    (hleft : ReadsOr F d (Parser.select deeper) (d.bare "SELECT" :: ts) (left, none) us)
    (hop : ReadsOr F d Parser.setOp us (some op) vs) (hlt : vs.length ≤ us.length)
    {ws : List Shape}
    (hquantifier : ReadsOr F d Parser.setQuantifier vs quantifier (d.bare "SELECT" :: ws))
    (hless : ws.length < vs.length)
    (hright : ReadsOr F d (Parser.select deeper) (d.bare "SELECT" :: ws) (right, none) rest)
    (hshort : rest.length ≤ ws.length) (hrest : NoneNext rest setStarts) :
    ReadsOr F d (Parser.body deeper) (d.bare "SELECT" :: ts)
      (.combine op quantifier (.select left) (.select right), none) rest := by
  have hstep : ReadsOr F d (Parser.moreBodies deeper (.select left, none)) us
      (some (.combine op quantifier (.select left) (.select right), none)) rest :=
    hop.bind (hquantifier.bind ((setOperand_select hright).bind (.pure _)))
  refine (setOperand_select hleft).bind (.iterate (ReadsOr.iterates_step hstep (by omega) ?_))
  exact ReadsOr.iterates_stop (moreBodies_no hrest)

/-! ## Queries -/

theorem orderBy_no (h : NoneNext rest ["ORDER"]) :
    ReadsOr F d (Parser.orderBy deeper) rest [] rest :=
  .optionalList_no (h.eatWords (by simp) _)

/-- The words of row limits. -/
def limitStarts : List String := ["LIMIT", "OFFSET", "FETCH"]

theorem moreLimit_no {l : Parser.LimitClauses} (h : NoneNext rest limitStarts) :
    ReadsOr F d (Parser.moreLimit deeper l) rest none rest := by
  refine .rules ((ReadsOr.onlyIf_no (h.eatWord (by decide))).bind ?_)
  refine (ReadsOr.onlyIf_no (h.checkWord (by decide))).bind ?_
  exact (ReadsOr.onlyIf_no (h.eatWord (by decide))).bind (.pure none)

/-- Without clauses of a row limit there is only the count behind `TOP`. -/
theorem limit_no (top : Option Expr) (ordered : Bool) (h : NoneNext rest limitStarts) :
    ReadsOr F d (Parser.limit deeper top ordered) rest (top.map fun count => ⟨some count, none⟩)
      rest := by
  refine (ReadsOr.iterate_stop (moreLimit_no h)).bind (.rules ?_)
  cases top with
  | none => exact .pure _
  | some count => exact .pure _

/-- A query from its body, its ordering and its row limit. -/
theorem queryWith_parts {body : Body} {top : Option Expr} {order : List OrderItem}
    {limit : Option Limit}
    (hbody : ReadsOr F d (Parser.body deeper) (d.bare "SELECT" :: ts) (body, top) us)
    (horder : ReadsOr F d (Parser.orderBy deeper) us order vs)
    (hlimit : ReadsOr F d (Parser.limit deeper top (!order.isEmpty)) vs limit rest) :
    ReadsOr F d (Parser.queryWith deeper) (d.bare "SELECT" :: ts) ⟨none, body, order, limit⟩
      rest := by
  have hwith : (headShape (d.bare "SELECT" :: ts)).isWord "WITH" = false :=
    Shape.isWord_bare d "SELECT" "WITH"
  refine (ReadsOr.optional_no (.eatWord_no hwith)).bind ?_
  exact hbody.bind (horder.bind (hlimit.bind (.pure _)))

/-- The words that may follow a `SELECT` and belong to its query. -/
def queryWords : List String := setStarts ++ "ORDER" :: limitStarts

/-- A query that is one `SELECT`. -/
theorem queryWith_select {s : Select}
    (h : ReadsOr F d (Parser.select deeper) (d.bare "SELECT" :: ts) (s, none) rest)
    (hrest : NoneNext rest queryWords) :
    ReadsOr F d (Parser.queryWith deeper) (d.bare "SELECT" :: ts) (.ofBody (.select s)) rest :=
  queryWith_parts (body_select h (hrest.mono (by decide))) (orderBy_no (hrest.mono (by decide)))
    (limit_no none _ (hrest.mono (by decide)))

end Plain

end SqlDialects
