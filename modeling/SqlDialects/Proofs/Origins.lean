import SqlDialects.Proofs.Productions
import SqlDialects.Proofs.Reading

/-!
# Where the nodes of a tree come from

* `Input.Has` : a token of the input, wherever it stands;
* `Query.ReadFrom` : a query that the production of queries reads from the input;
* `Node.IsSourced` : what is known of a node because it was read from the input;
* `Deeper.Traced`, `nested_traced` : the productions of every level make no other nodes;
* `parsed_sourced` : so do the statements of a text.

Only the count behind `TOP` makes a query of its own out of an operand of a set operation, so what is known
of queries is known only where the dialect does not have it.
-/

namespace SqlDialects

/-- The token `s` stands somewhere in the input. -/
def Input.Has (i : Input) (s : Shape) : Prop := ∃ k, (i.token k).shape = s

/-- The query is read somewhere in the input by the production of queries of some level. -/
def Query.ReadFrom (i : Input) (q : Query) : Prop :=
  ∃ n c c', Parser.queryWith (Parser.nested n) i c = (.ok q, c')

/-- What is known of a node that was read from the input. -/
@[simp]
def Node.IsSourced (i : Input) : Node → Prop
  | .query q => i.dialect.reading.top = false → q.ReadFrom i
  | .expr (.name n) => i.Has n.shape
  | .expr (.path ns) => 2 ≤ ns.length ∧ ∀ n ∈ ns, i.Has n.shape
  | .expr (.literal (.number w)) => i.Has (.number, w)
  | .expr (.binary _ op _) => i.dialect.Joins op
  | .expr (.cond _ _ _) => i.dialect.reading.ifFunctions ≠ []
  | _ => True

/-- The nodes `ns` were read from the input. -/
abbrev Sourced (i : Input) (ns : List Node) : Prop := AllNodes (Node.IsSourced i) ns

/-- The productions one level down read their nodes from the input. -/
structure Deeper.Traced (i : Input) (deeper : Deeper) : Prop where
  expr : ∀ p, YieldsOn i (deeper.expr p) fun e => Sourced i e.nodes
  query : YieldsOn i deeper.query fun q => Sourced i q.nodes

/-! ## Expressions -/

section Expressions

variable {i : Input} {deeper : Deeper} {operand : Parser Expr}

theorem orderBy_sourced (hdeep : deeper.Traced i) :
    YieldsOn i (Parser.orderBy deeper) fun items => Sourced i (orderNodes items) := by
  refine .mono (.optionalList_part (.commaSeparated ?_)) fun items => all_orderNodes.mpr
  refine (hdeep.expr 0).bind fun key hkey => .skip fun ascending => .skip fun nullsFirst => .pure ?_
  simpa [orderNodes] using hkey

theorem frameBound_sourced (hop : YieldsOn i operand fun e => Sourced i e.nodes) :
    YieldsOn i (Parser.frameBound operand) fun b => Sourced i b.nodes := by
  refine .test (.pure (by simp [Bound.nodes])) (.test (.test (.pure (by simp [Bound.nodes])) ?_) ?_)
  · exact .skip fun _ => .pure (by simp [Bound.nodes])
  · refine hop.bind fun offset h => .test (.pure ?_) (.skip fun _ => .pure ?_)
    · simpa [Bound.nodes] using h
    · simpa [Bound.nodes] using h

theorem windowFrame_sourced (hop : YieldsOn i operand fun e => Sourced i e.nodes) :
    YieldsOn i (Parser.windowFrame operand) fun f => Sourced i (frameNodes (some f)) := by
  have hbounds (unit : FrameUnit) : YieldsOn i (do
      if ← Parser.eatWord "BETWEEN" then
        let start ← Parser.frameBound operand
        Parser.expectWord "AND"
        let stop ← Parser.frameBound operand
        return ⟨unit, start, some stop⟩
      let start ← Parser.frameBound operand
      return ⟨unit, start, none⟩) fun f => Sourced i (frameNodes (some f)) := by
    refine .test ?_ ?_
    · refine (frameBound_sourced hop).bind fun start hstart => .skip fun _ => ?_
      refine (frameBound_sourced hop).bind fun stop hstop => .pure ?_
      simpa [frameNodes, stopNodes] using And.intro hstart hstop
    · refine (frameBound_sourced hop).bind fun start hstart => .pure ?_
      simpa [frameNodes, stopNodes] using hstart
  exact .test (hbounds _) (.skip fun _ => hbounds _)

theorem window_sourced (hdeep : deeper.Traced i)
    (hop : YieldsOn i operand fun e => Sourced i e.nodes) :
    YieldsOn i (Parser.window deeper operand) fun w => Sourced i (windowNodes (some w)) := by
  refine .parenthesized ?_
  refine (YieldsOn.optionalList_part (.commaSeparated (hdeep.expr 0))).bind fun keys hkeys => ?_
  refine (orderBy_sourced hdeep).bind fun order horder => ?_
  refine (YieldsOn.optional_part (windowFrame_sourced hop)).bind fun frame hframe => .pure ?_
  simp only [windowNodes, all_append]
  refine ⟨⟨all_exprNodes.mpr hkeys, horder⟩, ?_⟩
  cases frame with
  | none => simp [frameNodes]
  | some f => exact hframe f rfl

/-! ### Calls -/

theorem callArgs_sourced (hdeep : deeper.Traced i) (upper : String) :
    YieldsOn i (Parser.callArgs deeper upper) fun args => Sourced i (argNodes args) := by
  have hargs {first : Expr} (h : Sourced i first.nodes) :
      YieldsOn i (do return .expr first :: (← Parser.afterCommas (deeper.expr 0)).map Arg.expr)
        fun args => Sourced i (argNodes args) := by
    refine (YieldsOn.afterCommas (hdeep.expr 0)).bind fun rest hrest => .pure ?_
    refine all_argNodes.mpr ?_
    simpa [argNodes] using And.intro h hrest
  unfold Parser.callArgs
  dsimp only
  split
  · refine (hdeep.expr _).bind fun needle hneedle => .test ?_ (hargs hneedle)
    refine (hdeep.expr 0).bind fun haystack hhaystack => .pure ?_
    simpa [argNodes] using And.intro hhaystack hneedle
  · refine (hdeep.expr 0).bind fun first hfirst => .test ?_ (hargs hfirst)
    refine (hdeep.expr 0).bind fun start hstart => ?_
    refine (YieldsOn.optional_part (hdeep.expr 0)).bind fun length hlength => .pure ?_
    cases length with
    | none => simpa [argNodes] using And.intro hfirst hstart
    | some e => simpa [argNodes] using And.intro hfirst (And.intro hstart (hlength e rfl))

theorem callBody_sourced (hdeep : deeper.Traced i) (upper : String) :
    YieldsOn i (Parser.callBody deeper upper) fun r => Sourced i (argNodes r.2) := by
  have hstar : YieldsOn i (Pure.pure [Arg.star]) fun args => Sourced i (argNodes args) :=
    .pure (by simp [argNodes])
  refine .test (.pure (by simp [argNodes])) (.skip fun distinct => .test ?_ ?_)
  · exact hstar.bind fun args hargs => .skip fun _ => .pure hargs
  · exact (callArgs_sourced hdeep upper).bind fun args hargs => .skip fun _ => .pure hargs

theorem canonicalCall_sourced {name : String} {args : List Arg} (h : Sourced i (argNodes args))
    (position : Position) :
    YieldsOn i (Parser.canonicalCall name args position) fun r => Sourced i (argNodes r.2) := by
  refine .skip fun rules => ?_
  split
  · exact .pure h
  split
  · exact .pure h
  · exact .pure (all_swapFirst h)
  · split
    · exact .pure h
    · split
      · exact .pure h
      · exact .fail _

theorem extraction_sourced (hdeep : deeper.Traced i) (separator : Parser Unit) :
    YieldsOn i (Parser.extraction deeper separator) fun e => Sourced i e.nodes := by
  refine .parenthesized (.skip fun field => .skip fun _ => ?_)
  exact (hdeep.expr 0).bind fun e he => .pure (by simpa [Expr.nodes] using he)

theorem conditional_sourced (hdeep : deeper.Traced i) (hfunctions : i.dialect.reading.ifFunctions ≠ []) :
    YieldsOn i (Parser.conditional deeper) fun e => Sourced i e.nodes := by
  refine .parenthesized ?_
  refine (hdeep.expr 0).bind fun c hc => .skip fun _ => (hdeep.expr 0).bind fun y hy => ?_
  refine .skip fun _ => (hdeep.expr 0).bind fun n hn => .pure ?_
  simpa [Expr.nodes, hfunctions] using And.intro hc (And.intro hy hn)

theorem call_sourced (hdeep : deeper.Traced i)
    (hop : YieldsOn i operand fun e => Sourced i e.nodes) (name : String) (position : Position) :
    YieldsOn i (Parser.call deeper operand name position) fun e => Sourced i e.nodes := by
  refine .dialect ?_
  dsimp only
  split
  · exact extraction_sourced hdeep _
  split
  · exact extraction_sourced hdeep _
  split
  · next hfunction => exact conditional_sourced hdeep (List.ne_nil_of_mem (by simpa using hfunction))
  split
  · exact .skip fun _ => .skip fun _ => .pure (by simp [Expr.nodes])
  · refine .skip fun _ => (callBody_sourced hdeep _).bind fun r hargs => ?_
    refine (canonicalCall_sourced hargs position).bind fun r hargs => ?_
    refine (YieldsOn.optional_part (window_sourced hdeep hop)).bind fun w hw => .pure ?_
    simp only [Expr.nodes, Call.nodes, all_cons, all_append, Node.IsSourced, true_and]
    refine ⟨hargs, ?_⟩
    cases w with
    | none => simp [windowNodes]
    | some w => exact hw w rfl

/-! ### Primaries -/

theorem name_sourced {N : List Name → Prop} : YieldsOn (N := N) i Parser.name fun n => i.Has n.shape := by
  refine .peek fun k => ?_
  by_cases hname : (i.token k).isName = true
  · simp only [hname, if_true]
    refine .skip fun _ => .pure ⟨k, ?_⟩
    unfold Token.isName at hname
    split at hname
    case h_1 hkind => simp [Token.shape, Name.shape, hkind]
    case h_2 hkind => simp [Token.shape, Name.shape, hkind]
    case h_3 => cases hname
  · simp only [hname]
    exact .skip fun _ => .unexpected

theorem chainPart_sourced {N : List Name → Prop} :
    YieldsOn (N := N) i Parser.chainPart fun o => ∀ n ∈ o, i.Has n.shape := by
  refine .skip fun dot => .skip fun next => ?_
  split
  · exact .skip fun _ => name_sourced.bind fun n hn => .pure (by simpa using hn)
  · exact .pure (by simp)

theorem chain_sourced (hdeep : deeper.Traced i)
    (hop : YieldsOn i operand fun e => Sourced i e.nodes) :
    YieldsOn i (Parser.chain deeper operand) fun e => Sourced i e.nodes := by
  refine .skip fun t => name_sourced.bind fun first hfirst => ?_
  refine (YieldsOn.many chainPart_sourced).bind fun rest hrest => .skip fun called => ?_
  split
  · exact .skip fun _ => call_sourced hdeep hop _ _
  · refine .pure ?_
    cases rest with
    | nil => simpa [Expr.nodes] using hfirst
    | cons n ns => simpa [Expr.nodes] using And.intro hfirst hrest

theorem param_sourced : YieldsOn i Parser.param fun e => Sourced i e.nodes := by
  refine .skip fun t => .skip fun rules => ?_
  extract_lets body found
  have hfound (o : Option Param) : YieldsOn i (found o) fun e => Sourced i e.nodes := by
    cases o with
    | none => exact .skip fun _ => .unexpected
    | some p => exact .skip fun _ => .pure (by simp [Expr.nodes])
  split
  · split <;> exact .skip hfound
  · split <;> exact .skip hfound

theorem caseExpr_sourced (hdeep : deeper.Traced i) :
    YieldsOn i (Parser.caseExpr deeper) fun e => Sourced i e.nodes := by
  refine .skip fun _ => .skip fun simple => ?_
  extract_lets rest
  have hrest (o : Option Expr) (ho : ∀ e ∈ o, Sourced i e.nodes) :
      YieldsOn i (rest o) fun e => Sourced i e.nodes := by
    refine (YieldsOn.many (P := fun b => Sourced i (branchNodes [b])) (.optional_part
      ((hdeep.expr 0).bind fun c hc => .skip fun _ => (hdeep.expr 0).bind fun r hr => .pure
        (by simpa [branchNodes] using And.intro hc hr)))).bind fun branches hbranches => ?_
    extract_lets close
    have hclose (u : Unit) : YieldsOn i (close u) fun e => Sourced i e.nodes := by
      refine (YieldsOn.optional_part (hdeep.expr 0)).bind fun last hlast => .skip fun _ => .pure ?_
      simp only [Expr.nodes, all_cons, all_append, Node.IsSourced, true_and]
      exact ⟨⟨all_optionNodes.mpr ho, all_branchNodes.mpr hbranches⟩, all_optionNodes.mpr hlast⟩
    split
    · exact .skip hclose
    · exact hclose ()
  split
  · exact (YieldsOn.pure (by simp)).bind hrest
  · refine YieldsOn.bind (.map (hdeep.expr 0) fun e he => ?_) hrest
    rintro _ ⟨⟩
    exact he

theorem castExpr_sourced (hdeep : deeper.Traced i) (safe : Bool) :
    YieldsOn i (Parser.castExpr deeper safe) fun e => Sourced i e.nodes := by
  refine .skip fun _ => .parenthesized ?_
  refine (hdeep.expr 0).bind fun e he => .skip fun _ => .skip fun type => .pure ?_
  simpa [Expr.nodes] using he

theorem existsExpr_sourced (hdeep : deeper.Traced i) (negated : Bool) :
    YieldsOn i (Parser.existsExpr deeper negated) fun e => Sourced i e.nodes :=
  (YieldsOn.parenthesized hdeep.query).bind fun q hq => .pure (by simpa [Expr.nodes] using hq)

theorem intervalExpr_sourced (hop : YieldsOn i operand fun e => Sourced i e.nodes) :
    YieldsOn i (Parser.intervalExpr operand) fun e => Sourced i e.nodes := by
  refine .skip fun _ => .skip fun d => ?_
  split
  · exact hop.bind fun amount ha => .skip fun unit => .pure (by simpa [Expr.nodes] using ha)
  · refine .skip fun t => ?_
    extract_lets close
    have hclose (u : Unit) : YieldsOn i (close u) fun e => Sourced i e.nodes :=
      .skip fun _ => .skip fun unit => .pure (by simp [Expr.nodes])
    split
    · exact hclose ()
    · exact .skip fun _ => .skip hclose

theorem wordForm_sourced (hdeep : deeper.Traced i)
    (hop : YieldsOn i operand fun e => Sourced i e.nodes) {d : Dialect} {word : String}
    {called : Bool} {form : Parser Expr}
    (h : Parser.wordForm? deeper operand d word called = some form) :
    YieldsOn i form fun e => Sourced i e.nodes := by
  cases Parser.wordForm_cases h with
  | null => exact .skip fun _ => .pure (by simp [Expr.nodes])
  | truth _ => exact .skip fun _ => .pure (by simp [Expr.nodes])
  | branches => exact caseExpr_sourced hdeep
  | cast => exact castExpr_sourced hdeep false
  | existence _ => exact .skip fun _ => existsExpr_sourced hdeep false
  | interval _ => exact intervalExpr_sourced hop
  | safeCast _ => exact castExpr_sourced hdeep true
  | now _ => exact .skip fun _ => .pure (by simp [Expr.nodes])

theorem wordExpr_sourced (hdeep : deeper.Traced i)
    (hop : YieldsOn i operand fun e => Sourced i e.nodes) (t : Token) :
    YieldsOn i (Parser.wordExpr deeper operand t) fun e => Sourced i e.nodes := by
  refine .skip fun d => .skip fun next => ?_
  dsimp only
  split
  case h_1 form hform => exact wordForm_sourced hdeep hop hform
  split
  · refine .skip fun _ => .skip fun value => ?_
    split
    · exact .pure (by simp [Expr.nodes])
    · exact .skip fun _ => .pure (by simp [Expr.nodes])
  split
  · exact .skip fun _ => .skip fun _ => call_sourced hdeep hop _ _
  split
  · exact .skip fun _ => .skip fun _ => chain_sourced hdeep hop
  · exact chain_sourced hdeep hop

theorem primary_sourced (hdeep : deeper.Traced i)
    (hop : YieldsOn i operand fun e => Sourced i e.nodes) :
    YieldsOn i (Parser.primary deeper operand) fun e => Sourced i e.nodes := by
  refine .peek fun k => ?_
  split
  case h_1 hkind =>
    exact .skip fun _ => .pure (by simpa [Expr.nodes] using ⟨k, Prod.ext hkind rfl⟩)
  · exact .skip fun _ => .pure (by simp [Expr.nodes])
  · exact param_sourced
  · exact wordExpr_sourced hdeep hop _
  · exact wordExpr_sourced hdeep hop _
  · exact chain_sourced hdeep hop
  · split
    · refine .parenthesized (.test (hdeep.query.bind fun q hq => .pure ?_)
        ((hdeep.expr 0).bind fun e he => .pure ?_))
      · simpa [Expr.nodes] using hq
      · simpa [Expr.nodes] using he
    · exact .skip fun _ => .unexpected
  · exact .skip fun _ => .unexpected

theorem operandWith_sourced (hdeep : deeper.Traced i)
    (hop : YieldsOn i operand fun e => Sourced i e.nodes) :
    YieldsOn i (Parser.operandWith deeper operand) fun e => Sourced i e.nodes := by
  have hunary (op : UnaryOp) (p : Precedence) :
      YieldsOn i (do return .unary op (← deeper.expr p)) fun e => Sourced i (Expr.nodes e) :=
    (hdeep.expr p).bind fun e he => .pure (by simpa [Expr.nodes] using he)
  refine .test (.test (existsExpr_sourced hdeep true) (hunary _ _)) (.skip fun t => ?_)
  split
  · exact .skip fun _ => hunary _ _
  · exact primary_sourced hdeep hop

theorem operandUpTo_sourced (hdeep : deeper.Traced i) (n : Nat) :
    YieldsOn i (Parser.operandUpTo deeper n) fun e => Sourced i e.nodes := by
  induction n with
  | zero => exact .unexpected
  | succ n ih => exact operandWith_sourced hdeep ih

theorem operandFrom_sourced (hdeep : deeper.Traced i) :
    YieldsOn i (Parser.operandFrom deeper) fun e => Sourced i e.nodes :=
  .skip fun _ => operandUpTo_sourced hdeep _

/-! ### Operators -/

theorem membership_sourced (hdeep : deeper.Traced i) {left : Expr} (hl : Sourced i left.nodes)
    (negated : Bool) :
    YieldsOn i (Parser.membership deeper left negated) fun e => Sourced i e.nodes := by
  refine .parenthesized (.test (hdeep.query.bind fun q hq => .pure ?_)
    ((YieldsOn.commaSeparated (hdeep.expr 0)).bind fun es hes => .pure ?_))
  · simpa [Expr.nodes] using And.intro hl hq
  · simpa [Expr.nodes] using And.intro hl (all_exprNodes.mpr hes)

theorem predicate_sourced (hdeep : deeper.Traced i) {left : Expr} (hl : Sourced i left.nodes) :
    YieldsOn i (Parser.predicate deeper left) fun e => Sourced i e.nodes := by
  have hlike (negated anyCase : Bool) : YieldsOn i (do
      let pattern ← deeper.expr .comparison
      let escape ← Parser.optional (Parser.eatWord "ESCAPE") (Parser.operandFrom deeper)
      return Expr.like left pattern negated anyCase escape) fun e => Sourced i e.nodes := by
    refine (hdeep.expr _).bind fun p hp => ?_
    refine (YieldsOn.optional_part (operandFrom_sourced hdeep)).bind fun o ho => .pure ?_
    simpa [Expr.nodes] using And.intro hl (And.intro hp (all_optionNodes.mpr ho))
  refine .skip fun negated => .test ?_ (.test (membership_sourced hdeep hl negated) ?_)
  · refine (hdeep.expr _).bind fun low hlow => .skip fun _ => (hdeep.expr _).bind fun high hhigh => ?_
    exact .pure (by simpa [Expr.nodes] using And.intro hl (And.intro hlow hhigh))
  · exact .test (hlike negated false) (.skip fun _ => hlike negated true)

theorem joined_sourced (hdeep : deeper.Traced i) {left : Expr} (hl : Sourced i left.nodes)
    {c : Parser.Connective} {p : Precedence} (hc : ∀ op, c = .binary op → i.dialect.Joins op) :
    YieldsOn i (Parser.joined deeper left c p) fun e => Sourced i e.nodes := by
  cases c with
  | binary op =>
    refine .skip fun _ => (hdeep.expr p).bind fun right hr => .pure ?_
    simpa [Expr.nodes] using And.intro (hc op rfl) (And.intro hl hr)
  | doubleColon => exact .skip fun _ => .skip fun type => .pure (by simpa [Expr.nodes] using hl)
  | is =>
    exact .skip fun _ => .skip fun negated => .skip fun _ => .pure (by simpa [Expr.nodes] using hl)
  | predicate => exact predicate_sourced hdeep hl

theorem subexpr_sourced (hdeep : deeper.Traced i) (least : Precedence) :
    YieldsOn i (Parser.subexpr deeper least) fun e => Sourced i e.nodes := by
  refine (operandFrom_sourced hdeep).bind fun left hl => .iterate hl fun left hl => ?_
  refine .rules (.skip fun t => .skip fun next => ?_)
  split
  case h_1 c p hconnective =>
    split
    · exact .pure (by simp)
    · refine (joined_sourced hdeep hl ?_).bind fun e he => .pure ?_
      · rintro op rfl
        exact connective_joins hconnective
      · rintro _ ⟨⟩
        exact he
  · exact .pure (by simp)

end Expressions

/-! ## Queries -/

section Queries

variable {i : Input} {deeper : Deeper}

theorem selectItem_sourced (hdeep : deeper.Traced i) :
    YieldsOn i (Parser.selectItem deeper) fun item => Sourced i (itemNodes [item]) := by
  refine .test (.pure (by simp [itemNodes])) ?_
  refine .skip fun left => .skip fun stars => ?_
  cases stars with
  | some n => exact .skip fun parts => .skip fun _ => .pure (by simp [itemNodes])
  | none =>
    exact (hdeep.expr 0).bind fun e he => .skip fun label => .pure (by simpa [itemNodes] using he)

theorem relation_sourced (hdeep : deeper.Traced i) :
    YieldsOn i (Parser.relation deeper) fun r => Sourced i r.nodes := by
  refine .test ?_ (.skip fun t => .skip fun table => .test ?_ ?_)
  · refine hdeep.query.bind fun q hq => .skip fun _ => .skip fun label => .pure ?_
    simpa [Relation.nodes] using hq
  · refine .skip fun _ => (call_sourced hdeep (operandFrom_sourced hdeep) _ _).bind fun e he => ?_
    refine .skip fun label => ?_
    split
    · exact .pure (by simpa [Relation.nodes, Expr.nodes] using he)
    · exact .skip fun t => .unexpectedAt t _
  · exact .skip fun label => .pure (by simp [Relation.nodes])

theorem joinCondition_sourced (hdeep : deeper.Traced i) (natural : Bool) (kind : JoinKind) :
    YieldsOn i (Parser.joinCondition deeper natural kind) fun c => Sourced i c.nodes := by
  unfold Parser.joinCondition
  split
  · exact .pure (by simp [JoinCondition.nodes])
  split
  · exact .pure (by simp [JoinCondition.nodes])
  refine .test ?_ (.skip fun _ => .test (.skip fun columns => .pure (by simp [JoinCondition.nodes]))
    .unexpected)
  exact (hdeep.expr 0).bind fun e he => .pure (by simpa [JoinCondition.nodes] using he)

theorem join_sourced (hdeep : deeper.Traced i) :
    YieldsOn i (Parser.join deeper) fun o => ∀ j ∈ o, Sourced i (joinNodes [j]) := by
  refine .skip fun supported => .skip fun natural => .skip fun o => ?_
  cases o with
  | none => exact .pure (by simp)
  | some kind =>
    refine (relation_sourced hdeep).bind fun r hr => ?_
    refine (joinCondition_sourced hdeep natural kind).bind fun c hc => .pure ?_
    rintro _ ⟨⟩
    simpa [joinNodes] using And.intro hr hc

theorem source_sourced (hdeep : deeper.Traced i) :
    YieldsOn i (Parser.source deeper) fun s => Sourced i (sourceNodes [s]) := by
  refine (relation_sourced hdeep).bind fun r hr => ?_
  refine (YieldsOn.many (join_sourced hdeep)).bind fun joins hjoins => .pure ?_
  simpa [sourceNodes] using And.intro hr (all_joinNodes.mpr hjoins)

theorem distinctness_sourced (hdeep : deeper.Traced i) :
    YieldsOn i (Parser.distinctness deeper) fun o => Sourced i (distinctNodes o) := by
  refine .test (.skip fun supported => .skip fun on => .skip fun next => ?_)
    (.skip fun _ => .pure (by simp [distinctNodes]))
  dsimp only
  split
  · refine .skip fun _ => ?_
    refine (YieldsOn.parenthesized (.commaSeparated (hdeep.expr 0))).bind fun keys hkeys => .pure ?_
    simpa [distinctNodes] using all_exprNodes.mpr hkeys
  · exact .pure (by simp [distinctNodes])

theorem topCount_sourced (hdeep : deeper.Traced i) :
    YieldsOn i (Parser.topCount deeper) fun e => Sourced i e.nodes :=
  .test ((hdeep.expr 0).bind fun _ he => .skip fun _ => .pure he) (operandFrom_sourced hdeep)

theorem sources_sourced (hdeep : deeper.Traced i) :
    YieldsOn i (Parser.sources deeper) fun sources => Sourced i (sourceNodes sources) := by
  refine .test ((YieldsOn.commaSeparated (source_sourced hdeep)).mono fun _ => all_sourceNodes.mpr) ?_
  refine .skip fun rules => ?_
  dsimp only
  split
  · exact .skip fun _ => .pure (by simp [sourceNodes])
  · exact .pure (by simp [sourceNodes])

/-- An operand of a set operation and its count, which it has only where the dialect has `TOP`. -/
structure SourcedBody (i : Input) (r : Body × Option Expr) : Prop where
  nodes : Sourced i r.1.nodes
  count : ∀ e ∈ r.2, Sourced i e.nodes
  plain : i.dialect.reading.top = false → r.2 = none

theorem select_sourced (hdeep : deeper.Traced i) :
    YieldsOn i (Parser.select deeper) fun r => SourcedBody i (.select r.1, r.2) := by
  refine .skip fun _ => (distinctness_sourced hdeep).bind fun distinct hdistinct => ?_
  refine (YieldsOn.optional (.rules (.onlyIf _ _)) fun _ => topCount_sourced hdeep).bind
    fun top htop => ?_
  refine (YieldsOn.commaSeparated (selectItem_sourced hdeep)).bind fun items hitems => ?_
  refine (sources_sourced hdeep).bind fun sources hsources => ?_
  refine (YieldsOn.optional_part (hdeep.expr 0)).bind fun condition hcondition => ?_
  refine (YieldsOn.optionalList_part (.commaSeparated (hdeep.expr 0))).bind fun groups hgroups => ?_
  refine (YieldsOn.optional_part (hdeep.expr 0)).bind fun having hhaving => ?_
  refine (YieldsOn.optional_part (hdeep.expr 0)).bind fun qualify hqualify => .pure ⟨?_, ?_, ?_⟩
  · simp only [Body.nodes, Select.nodes, all_cons, all_append, Node.IsSourced, true_and]
    exact ⟨⟨⟨⟨⟨⟨hdistinct, all_itemNodes.mpr hitems⟩, hsources⟩, all_optionNodes.mpr hcondition⟩,
      all_exprNodes.mpr hgroups⟩, all_optionNodes.mpr hhaving⟩, all_optionNodes.mpr hqualify⟩
  · exact fun e he => (htop e he).2
  · intro hno
    refine Option.eq_none_iff_forall_not_mem.mpr fun e he => ?_
    exact Bool.false_ne_true (hno.symm.trans (htop e he).1)

theorem withTop_sourced {r : Body × Option Expr} (h : SourcedBody i r) :
    Sourced i (Parser.withTop r.1 r.2).nodes := by
  obtain ⟨body, top⟩ := r
  obtain ⟨hbody, hcount, hplain⟩ := h
  cases top with
  | none => exact hbody
  | some e =>
    have hquery (q : Query) : Node.IsSourced i (.query q) := fun hno => absurd (hplain hno) (by simp)
    simp only [Parser.withTop, Query.ofBody, Body.nodes, Query.nodes, withNodes, orderNodes, limitNodes,
      optionNodes, all_cons, all_append, all_nil, and_true, true_and]
    exact ⟨trivial, hquery _, hbody, hcount e rfl⟩

theorem setOperand_sourced (hdeep : deeper.Traced i) :
    YieldsOn i (Parser.setOperand deeper) (SourcedBody i) := by
  have halone {b : Body} (h : Sourced i b.nodes) : SourcedBody i (b, none) :=
    ⟨h, by simp, fun _ => rfl⟩
  refine .test ?_ (.test ?_ (.test ?_ .unexpected))
  · exact (select_sourced hdeep).bind fun r hr => .pure hr
  · refine (YieldsOn.commaSeparated (.parenthesized (.commaSeparated (hdeep.expr 0)))).bind
      fun rows hrows => .pure (halone ?_)
    simpa [Body.nodes] using all_rowNodes.mpr fun row hrow => all_exprNodes.mpr (hrows row hrow)
  · refine hdeep.query.bind fun q hq => .skip fun _ => .pure (halone ?_)
    simpa [Body.nodes] using hq

theorem body_sourced (hdeep : deeper.Traced i) :
    YieldsOn i (Parser.body deeper) (SourcedBody i) := by
  refine (setOperand_sourced hdeep).bind fun first hfirst => .iterate hfirst fun left hleft => ?_
  refine .skip fun op => ?_
  cases op with
  | none => exact .pure (by simp)
  | some op =>
    refine .skip fun quantifier => (setOperand_sourced hdeep).bind fun right hright => .pure ?_
    rintro _ ⟨⟩
    refine ⟨?_, by simp, fun _ => rfl⟩
    simpa [Body.nodes] using And.intro (withTop_sourced hleft) (withTop_sourced hright)

/-- The row limit so far was read from the input. -/
structure SourcedClauses (i : Input) (l : Parser.LimitClauses) : Prop where
  count : ∀ e ∈ l.count, Sourced i e.nodes
  offset : ∀ e ∈ l.offset, Sourced i e.nodes

theorem moreLimit_sourced (hdeep : deeper.Traced i) {l : Parser.LimitClauses}
    (hl : SourcedClauses i l) :
    YieldsOn i (Parser.moreLimit deeper l) fun o => ∀ l' ∈ o, SourcedClauses i l' := by
  have hsome {l' : Parser.LimitClauses} (h : SourcedClauses i l') :
      YieldsOn i (Pure.pure (some l')) fun o => ∀ l' ∈ o, SourcedClauses i l' :=
    .pure (by simpa using h)
  refine .skip fun rules => ?_
  extract_lets expr free fetch behind
  refine .test (.test (hsome ⟨hl.count, hl.offset⟩) ?_) (.test ?_ (.test ?_ (.pure (by simp))))
  · refine (hdeep.expr 0).bind fun first hfirst => .test ?_ ?_
    · exact (hdeep.expr 0).bind fun count hcount =>
        hsome ⟨by simpa using hcount, by simpa using hfirst⟩
    · exact hsome ⟨by simpa using hfirst, hl.offset⟩
  · refine .skip fun token => (hdeep.expr 0).bind fun offset ho => ?_
    have hoffset : SourcedClauses i { l with offset := some offset, offsetToken := some token } :=
      ⟨hl.count, by simpa using ho⟩
    exact .test (hsome hoffset) (.skip fun _ => hsome hoffset)
  · have hbehind (u : Unit) : YieldsOn i (behind u) fun o => ∀ l' ∈ o, SourcedClauses i l' := by
      refine (hdeep.expr 0).bind fun count hcount => ?_
      have hcount : SourcedClauses i { l with count := some count } :=
        ⟨by simpa using hcount, hl.offset⟩
      exact .test (.skip fun _ => hsome hcount) (.skip fun _ => .skip fun _ => hsome hcount)
    exact .test (hbehind ()) (.skip hbehind)

theorem limit_sourced (hdeep : deeper.Traced i) {top : Option Expr}
    (htop : ∀ e ∈ top, Sourced i e.nodes) (ordered : Bool) :
    YieldsOn i (Parser.limit deeper top ordered) fun o => Sourced i (limitNodes o) := by
  have hstart : SourcedClauses i { count := top } := ⟨htop, by simp⟩
  refine (YieldsOn.iterate hstart fun l hl => moreLimit_sourced hdeep hl).bind fun l hl => ?_
  refine .skip fun rules => ?_
  extract_lets close
  have hclose (u : Unit) : YieldsOn i (close u) fun o => Sourced i (limitNodes o) := by
    refine .pure ?_
    split
    · simp [limitNodes]
    · simpa [limitNodes] using
        And.intro (all_optionNodes.mpr hl.count) (all_optionNodes.mpr hl.offset)
  split
  case h_2 => exact hclose ()
  case h_1 token _ =>
    extract_lets next
    have hnext (u : Unit) : YieldsOn i (next u) fun o => Sourced i (limitNodes o) := by
      simp only [next]
      split
      · exact .skip hclose
      · exact hclose u
    split
    · exact .skip hnext
    · exact hnext ()

theorem ctes_sourced (hdeep : deeper.Traced i) :
    YieldsOn i (Parser.ctes deeper) fun w => Sourced i (withNodes (some w)) := by
  have hcte : YieldsOn i (Parser.cte deeper) fun t => Sourced i (cteNodes [t]) := by
    refine .skip fun label => .skip fun columns => .skip fun _ => ?_
    exact (YieldsOn.parenthesized hdeep.query).bind fun q hq => .pure (by simpa [cteNodes] using hq)
  refine .skip fun recursive => (YieldsOn.commaSeparated hcte).bind fun tables htables => .pure ?_
  simpa [withNodes] using all_cteNodes.mpr htables

/-- A query whose parts are read from the input is read from it as well. -/
theorem queryWith_sourced {n : Nat} (hdeep : (Parser.nested n).Traced i) :
    YieldsOn i (Parser.queryWith (Parser.nested n)) fun q => Sourced i q.nodes := by
  have hparts : YieldsOn i (Parser.queryWith (Parser.nested n)) fun q =>
      Sourced i (withNodes q.ctes ++ q.body.nodes ++ orderNodes q.orderBy ++ limitNodes q.limit) := by
    refine (YieldsOn.optional_part (ctes_sourced hdeep)).bind fun ctes hctes => ?_
    refine (body_sourced hdeep).bind fun first hfirst => ?_
    refine (orderBy_sourced hdeep).bind fun order horder => ?_
    refine (limit_sourced hdeep hfirst.count _).bind fun limit hlimit => .pure ?_
    simp only [all_append]
    refine ⟨⟨⟨?_, hfirst.nodes⟩, horder⟩, hlimit⟩
    cases ctes with
    | none => simp [withNodes]
    | some w => exact hctes w rfl
  intro c q c' hrun hnames
  have hq : Node.IsSourced i (.query q) := fun _ => ⟨n, c, c', hrun⟩
  have hbelow := hparts c q c' hrun hnames
  obtain ⟨ctes, body, order, limit⟩ := q
  exact all_cons.mpr ⟨hq, hbelow⟩

/-- The productions of every level read their nodes from the input. -/
theorem nested_traced (i : Input) (n : Nat) : (Parser.nested n).Traced i := by
  induction n with
  | zero => exact ⟨fun _ => .skip fun t => .unexpectedAt t _, .skip fun t => .unexpectedAt t _⟩
  | succ n ih => exact ⟨fun p => .level (subexpr_sourced ih p), .level (queryWith_sourced ih)⟩

end Queries

/-! ## Statements -/

section Statements

variable {i : Input}

theorem returning_sourced :
    YieldsOn i Parser.returning fun items => Sourced i (itemNodes items) :=
  .mono (.optionalList_part (.commaSeparated (selectItem_sourced (nested_traced i _))))
    fun _ => all_itemNodes.mpr

theorem insert_sourced :
    YieldsOn i Parser.insert fun x => Sourced i (Statement.nodes (.insert x)) := by
  refine .skip fun _ => .skip fun _ => .skip fun table => .skip fun listed => .skip fun next => ?_
  extract_lets columns rest
  have hrest (columns : List Name) :
      YieldsOn i (rest columns) fun x => Sourced i (Statement.nodes (.insert x)) := by
    refine (nested_traced i _).query.bind fun q hq => returning_sourced.bind ?_
    exact fun items h => .pure (by simpa [Statement.nodes] using And.intro hq h)
  split
  · exact .skip hrest
  · exact .skip hrest

theorem update_sourced :
    YieldsOn i Parser.update fun x => Sourced i (Statement.nodes (.update x)) := by
  have hexpr := (nested_traced i Parser.maxDepth).expr 0
  refine .skip fun _ => .skip fun table => .skip fun label => .skip fun _ => ?_
  refine (YieldsOn.commaSeparated (P := fun a => Sourced i a.value.nodes) ?_).bind fun as has => ?_
  · exact .skip fun first => .skip fun rest => .skip fun _ => hexpr.bind fun e he => .pure he
  refine (YieldsOn.optional_part hexpr).bind fun condition hcondition => ?_
  refine returning_sourced.bind fun items h => .pure ?_
  simp only [Statement.nodes, all_append, all_flatMap]
  exact ⟨⟨has, all_optionNodes.mpr hcondition⟩, h⟩

theorem delete_sourced :
    YieldsOn i Parser.delete fun x => Sourced i (Statement.nodes (.delete x)) := by
  refine .skip fun _ => .skip fun _ => .skip fun table => ?_
  refine (YieldsOn.optional_part ((nested_traced i Parser.maxDepth).expr 0)).bind
    fun condition hcondition => ?_
  refine returning_sourced.bind fun items h => .pure ?_
  simpa [Statement.nodes] using And.intro (all_optionNodes.mpr hcondition) h

theorem column_sourced :
    YieldsOn i Parser.column fun x => Sourced i x.nodes := by
  have hoption : YieldsOn i Parser.columnOption fun o => ∀ x ∈ o, Sourced i x.nodes := by
    have hplain {x : ColumnOption} (h : x.nodes = []) :
        YieldsOn i (Pure.pure (some x) : Parser _) fun o => ∀ x ∈ o, Sourced i x.nodes :=
      .pure (by simp [h])
    refine .test (hplain rfl) (.test (hplain rfl) (.test (hplain rfl) (.test (hplain rfl) ?_)))
    refine .test ?_ (.skip fun d => .test (hplain rfl) (.pure (by simp)))
    refine ((nested_traced i Parser.maxDepth).expr _).bind fun e he => .pure ?_
    simpa [ColumnOption.nodes] using he
  refine .skip fun _ => .skip fun _ => (YieldsOn.many hoption).bind fun options h => .pure ?_
  simpa [Column.nodes] using h

theorem createTable_sourced (temporary : Bool) :
    YieldsOn i (Parser.createTable temporary) fun x =>
      Sourced i (Statement.nodes (.createTable x)) := by
  have helement : YieldsOn i Parser.tableElement fun x =>
      ∀ column, x = .inr column → Sourced i column.nodes := by
    refine .skip fun o => ?_
    cases o with
    | some constraint => exact .pure (by simp)
    | none => exact column_sourced.bind fun column h => .pure (by simpa using h)
  refine .skip fun _ => .skip fun guarded => .skip fun table => ?_
  refine (YieldsOn.optionalList_part ((YieldsOn.commaSeparated helement).bind
    fun _ h => .skip fun _ => .pure h)).bind fun elements helements => ?_
  refine (YieldsOn.optional_part (nested_traced i Parser.maxDepth).query).bind
    fun source hsource => ?_
  extract_lets constraints columns close
  have hclose (u : Unit) :
      YieldsOn i (close u) fun x => Sourced i (Statement.nodes (.createTable x)) := by
    have hcolumns (column : Column) (h : column ∈ columns) : Sourced i column.nodes := by
      obtain ⟨x, hx, heq⟩ := List.mem_filterMap.mp h
      exact helements x hx column (Sum.getRight?_eq_some_iff.mp heq)
    refine .pure ?_
    simp only [Statement.nodes, all_append, all_flatMap]
    refine ⟨hcolumns, ?_⟩
    cases source with
    | none => simp
    | some q => exact hsource q rfl
  split
  · exact .skip hclose
  · exact hclose ()

theorem createView_sourced (orReplace : Bool) :
    YieldsOn i (Parser.createView orReplace) fun x => Sourced i (Statement.nodes (.createView x)) := by
  refine .skip fun view => .skip fun columns => .skip fun _ => ?_
  exact (nested_traced i _).query.bind fun q hq => .pure (by simpa [Statement.nodes] using hq)

theorem create_sourced :
    YieldsOn i Parser.create fun s => Sourced i s.nodes := by
  refine .skip fun _ => .test ?_ ?_
  · exact .skip fun d => .skip fun _ => .skip fun _ => (createView_sourced _).bind fun v h => .pure h
  refine .skip fun temp => ?_
  extract_lets rest
  have hrest (temporary : Bool) : YieldsOn i (rest temporary) fun s => Sourced i s.nodes := by
    refine .test ((createView_sourced _).bind fun v h => .pure h) (.skip fun _ => ?_)
    exact (createTable_sourced temporary).bind fun x h => .pure h
  split
  · exact .skip hrest
  · exact .skip hrest

theorem statement_sourced :
    YieldsOn i Parser.statement fun s => Sourced i s.nodes := by
  refine .test ?_ (.test ?_ (.test ?_ (.test ?_ (.test ?_ (.test ?_ .unexpected)))))
  · exact (nested_traced i _).query.bind fun q h => .pure h
  · exact insert_sourced.bind fun x h => .pure h
  · exact update_sourced.bind fun x h => .pure h
  · exact delete_sourced.bind fun x h => .pure h
  · exact create_sourced
  · exact .skip fun x => .pure (by simp [Statement.nodes])

theorem statements_sourced :
    YieldsOn i Parser.statements fun ss => ∀ s ∈ ss, Sourced i s.nodes := by
  refine .many (.skip fun _ => .test (.pure (by simp)) (.skip fun _ => ?_))
  refine statement_sourced.bind fun s hs => .skip fun last => ?_
  extract_lets close
  have hclose (u : Unit) : YieldsOn i (close u) fun o => ∀ s ∈ o, Sourced i s.nodes :=
    .pure (by simpa using hs)
  split
  · exact hclose ()
  · exact .test (hclose ()) (.skip hclose)

end Statements

/-- The nodes of the statements of a text, at whatever depth, were read from its tokens. -/
theorem parsed_sourced {d : Dialect} {sql : String} {ss : List Statement} (h : parse d sql = .ok ss) :
    ∃ tokens finish, tokenize d.lexical sql = .ok (tokens, finish) ∧
      ∀ s ∈ ss, Sourced (.ofTokens d tokens finish) s.nodes := by
  obtain ⟨tokens, finish, c, htokens, hrun⟩ := parse_ok h
  exact ⟨tokens, finish, htokens, statements_sourced.apply hrun⟩

end SqlDialects
