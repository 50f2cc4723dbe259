import SqlDialects.Proofs.Productions

/-!
# How deep a statement nests

* `Expr.depth`, `Query.depth`, `Statement.depth` : the greatest number of steps down into an expression
  or a query on the way to a leaf. The left operand of an operator and the operand of a cast are no step
  down. A step into the amount of an interval or the distance of a window frame counts `w`;
* `Deeper.Within`, `nested_within` : one level of nesting adds at most four steps;
* `parsed_depth_le` : a statement that is read is at most `4 * maxDepth` steps deep, if intervals and
  window frames count nothing.
-/

namespace SqlDialects

mutual

/-- The depth of an expression. -/
def Expr.depth (w : Nat) : Expr → Nat
  | .name _ | .path _ | .literal _ | .param _ | .now _ => 0
  | .binary left _ right => max (left.depth w) (right.depth w + 1)
  | .unary _ e => e.depth w + 1
  | .call f => f.depth w
  | .cast e _ _ => e.depth w
  | .case operand branches otherwise =>
    max (optionDepth w operand) (max (branchDepth w branches) (optionDepth w otherwise))
  | .cond c y n => max (c.depth w + 1) (max (y.depth w + 1) (n.depth w + 1))
  | .between e _ low high => max (e.depth w) (max (low.depth w + 1) (high.depth w + 1))
  | .inList e items _ => max (e.depth w) (exprDepth w items)
  | .inQuery e q _ => max (e.depth w) (q.depth w + 1)
  | .like e p _ _ escape => max (e.depth w) (max (p.depth w + 1) (optionDepth w escape))
  | .isNull e _ => e.depth w
  | .exists q _ => q.depth w + 1
  | .subquery q => q.depth w + 1
  | .nested e => e.depth w + 1
  | .extract _ e => e.depth w + 1
  | .interval e _ => e.depth w + w

/-- The depth of an expression below, if there is one. -/
def optionDepth (w : Nat) : Option Expr → Nat
  | none => 0
  | some e => e.depth w + 1

/-- The depth of the expressions below. -/
def exprDepth (w : Nat) : List Expr → Nat
  | [] => 0
  | e :: es => max (e.depth w + 1) (exprDepth w es)

/-- The depth of the branches below. -/
def branchDepth (w : Nat) : List Branch → Nat
  | [] => 0
  | ⟨condition, result⟩ :: rest =>
    max (max (condition.depth w + 1) (result.depth w + 1)) (branchDepth w rest)

/-- The depth of a call. -/
def Call.depth (w : Nat) : Call → Nat
  | ⟨_, args, _, window⟩ => max (argDepth w args) (windowDepth w window)

/-- The depth of the arguments below. -/
def argDepth (w : Nat) : List Arg → Nat
  | [] => 0
  | .star :: rest => argDepth w rest
  | .expr e :: rest => max (e.depth w + 1) (argDepth w rest)

/-- The depth of the window below. -/
def windowDepth (w : Nat) : Option Window → Nat
  | none => 0
  | some ⟨partitionBy, order, frame⟩ =>
    max (exprDepth w partitionBy) (max (orderDepth w order) (frameDepth w frame))

/-- The depth of the keys below. -/
def orderDepth (w : Nat) : List OrderItem → Nat
  | [] => 0
  | ⟨key, _, _⟩ :: rest => max (key.depth w + 1) (orderDepth w rest)

/-- The depth of the window frame below. -/
def frameDepth (w : Nat) : Option Frame → Nat
  | none => 0
  | some ⟨_, start, stop⟩ => max (start.depth w) (stopDepth w stop)

/-- The depth of the second end of a window frame. -/
def stopDepth (w : Nat) : Option Bound → Nat
  | none => 0
  | some b => b.depth w

/-- The depth of an end of a window frame. -/
def Bound.depth (w : Nat) : Bound → Nat
  | .unboundedPreceding | .currentRow | .unboundedFollowing => 0
  | .preceding e => e.depth w + w
  | .following e => e.depth w + w

/-- The depth of a query. -/
def Query.depth (w : Nat) : Query → Nat
  | ⟨ctes, body, order, limit⟩ =>
    max (max (withDepth w ctes) (body.depth w)) (max (orderDepth w order) (limitDepth w limit))

/-- The depth of the common table expressions below. -/
def withDepth (w : Nat) : Option With → Nat
  | none => 0
  | some ⟨_, tables⟩ => cteDepth w tables

/-- The depth of the queries of common table expressions below. -/
def cteDepth (w : Nat) : List Cte → Nat
  | [] => 0
  | ⟨_, _, query⟩ :: rest => max (query.depth w + 1) (cteDepth w rest)

/-- The depth of the row limit below. -/
def limitDepth (w : Nat) : Option Limit → Nat
  | none => 0
  | some ⟨count, offset⟩ => max (optionDepth w count) (optionDepth w offset)

/-- The depth of a body. -/
def Body.depth (w : Nat) : Body → Nat
  | .select s => s.depth w
  | .combine _ _ left right => max (left.depth w) (right.depth w + 1)
  | .query q => q.depth w + 1
  | .values rows => rowDepth w rows

/-- The depth of the rows below. -/
def rowDepth (w : Nat) : List (List Expr) → Nat
  | [] => 0
  | row :: rest => max (exprDepth w row) (rowDepth w rest)

/-- The depth of a `SELECT` block. -/
def Select.depth (w : Nat) : Select → Nat
  | ⟨distinct, items, sources, condition, groupBy, having, qualify⟩ =>
    max (max (distinctDepth w distinct) (max (itemDepth w items) (sourceDepth w sources)))
      (max (max (optionDepth w condition) (exprDepth w groupBy))
        (max (optionDepth w having) (optionDepth w qualify)))

/-- The depth of the keys of `DISTINCT` below. -/
def distinctDepth (w : Nat) : Option Distinct → Nat
  | none => 0
  | some .all => 0
  | some (.on keys) => exprDepth w keys

/-- The depth of the items below. -/
def itemDepth (w : Nat) : List SelectItem → Nat
  | [] => 0
  | .star :: rest => itemDepth w rest
  | .qualifiedStar _ :: rest => itemDepth w rest
  | .expr e _ :: rest => max (e.depth w + 1) (itemDepth w rest)

/-- The depth of the sources below. -/
def sourceDepth (w : Nat) : List Source → Nat
  | [] => 0
  | ⟨relation, joins⟩ :: rest =>
    max (max (relation.depth w) (joinDepth w joins)) (sourceDepth w rest)

/-- The depth of a relation. -/
def Relation.depth (w : Nat) : Relation → Nat
  | .table _ _ => 0
  | .derived q _ => q.depth w + 1
  | .function f _ => f.depth w

/-- The depth of the joins below. -/
def joinDepth (w : Nat) : List Join → Nat
  | [] => 0
  | ⟨relation, _, condition⟩ :: rest =>
    max (max (relation.depth w) (condition.depth w)) (joinDepth w rest)

/-- The depth of the condition of a join. -/
def JoinCondition.depth (w : Nat) : JoinCondition → Nat
  | .on e => e.depth w + 1
  | .using _ | .natural | .none => 0

end

/-- The depth of the columns of a new table. -/
def columnDepth (w : Nat) (columns : List Column) : Nat :=
  (columns.flatMap fun c => c.options.map fun
    | .default value => value.depth w + 1
    | _ => 0).foldr max 0

/-- The depth of a statement. -/
def Statement.depth (w : Nat) : Statement → Nat
  | .query q => q.depth w + 1
  | .insert i => max (i.source.depth w + 1) (itemDepth w i.returning)
  | .update u =>
    max (exprDepth w (u.assignments.map Assignment.value))
      (max (optionDepth w u.condition) (itemDepth w u.returning))
  | .delete x => max (optionDepth w x.condition) (itemDepth w x.returning)
  | .createTable c => max (columnDepth w c.columns) ((c.query.map fun q => q.depth w + 1).getD 0)
  | .createView c => c.query.depth w + 1
  | .drop _ => 0

/-! ## Lists -/

section Lists

variable {w n : Nat}

attribute [local simp] Expr.depth optionDepth exprDepth branchDepth Call.depth argDepth windowDepth
  orderDepth frameDepth stopDepth Bound.depth Query.depth withDepth cteDepth limitDepth Body.depth
  rowDepth Select.depth distinctDepth itemDepth sourceDepth Relation.depth joinDepth
  JoinCondition.depth

/-- A list is no deeper than `n` if none of its elements is. -/
theorem depth_each {α : Type} {depth : List α → Nat} (hnil : depth [] = 0)
    (hcons : ∀ a as, depth (a :: as) = max (depth [a]) (depth as)) {as : List α} :
    depth as ≤ n ↔ ∀ a ∈ as, depth [a] ≤ n := by
  induction as with
  | nil => simp [hnil]
  | cons a as ih => rw [hcons, Nat.max_le, ih, List.forall_mem_cons]

theorem optionDepth_le {o : Option Expr} :
    optionDepth w o ≤ n ↔ ∀ e ∈ o, e.depth w + 1 ≤ n := by
  cases o <;> simp

theorem exprDepth_le {es : List Expr} : exprDepth w es ≤ n ↔ ∀ e ∈ es, e.depth w + 1 ≤ n := by
  rw [depth_each rfl fun e es => by simp]
  simp

theorem rowDepth_le {rows : List (List Expr)} :
    rowDepth w rows ≤ n ↔ ∀ row ∈ rows, exprDepth w row ≤ n := by
  rw [depth_each rfl fun row rows => by simp]
  simp

theorem branchDepth_le {bs : List Branch} :
    branchDepth w bs ≤ n ↔ ∀ b ∈ bs, branchDepth w [b] ≤ n :=
  depth_each rfl fun b bs => by
    obtain ⟨condition, result⟩ := b
    simp

theorem argDepth_le {args : List Arg} : argDepth w args ≤ n ↔ ∀ a ∈ args, argDepth w [a] ≤ n :=
  depth_each rfl fun a args => by cases a <;> simp

theorem orderDepth_le {items : List OrderItem} :
    orderDepth w items ≤ n ↔ ∀ o ∈ items, o.key.depth w + 1 ≤ n := by
  have hcons (o : OrderItem) (items : List OrderItem) :
      orderDepth w (o :: items) = max (o.key.depth w + 1) (orderDepth w items) := by
    obtain ⟨key, ascending, nullsFirst⟩ := o
    simp
  rw [depth_each rfl fun o items => by simp [hcons]]
  simp [hcons]

theorem itemDepth_le {items : List SelectItem} :
    itemDepth w items ≤ n ↔ ∀ item ∈ items, itemDepth w [item] ≤ n :=
  depth_each rfl fun item items => by cases item <;> simp

theorem sourceDepth_le {sources : List Source} :
    sourceDepth w sources ≤ n ↔ ∀ s ∈ sources, sourceDepth w [s] ≤ n :=
  depth_each rfl fun s sources => by
    obtain ⟨relation, joins⟩ := s
    simp

theorem joinDepth_le {joins : List Join} :
    joinDepth w joins ≤ n ↔ ∀ j ∈ joins, joinDepth w [j] ≤ n :=
  depth_each rfl fun j joins => by
    obtain ⟨relation, kind, condition⟩ := j
    simp

theorem cteDepth_le {tables : List Cte} :
    cteDepth w tables ≤ n ↔ ∀ table ∈ tables, cteDepth w [table] ≤ n :=
  depth_each rfl fun table tables => by
    obtain ⟨name, columns, query⟩ := table
    simp

theorem columnDepth_le {columns : List Column} :
    columnDepth w columns ≤ n ↔
      ∀ c ∈ columns, ∀ e, .default e ∈ c.options → e.depth w + 1 ≤ n := by
  have hfold (ms : List Nat) : ms.foldr max 0 ≤ n ↔ ∀ m ∈ ms, m ≤ n := by
    induction ms with
    | nil => simp
    | cons m ms ih => rw [List.foldr_cons, Nat.max_le, ih, List.forall_mem_cons]
  rw [columnDepth, hfold]
  constructor
  · intro h c hc e he
    exact h _ (List.mem_flatMap.mpr ⟨c, hc, List.mem_map.mpr ⟨_, he, rfl⟩⟩)
  · intro h m hm
    obtain ⟨c, hc, hm⟩ := List.mem_flatMap.mp hm
    obtain ⟨o, ho, rfl⟩ := List.mem_map.mp hm
    cases o with
    | default e => exact h c hc e ho
    | notNull | null | primaryKey | unique | autoIncrement => exact Nat.zero_le n

end Lists

/-! ## Expressions -/

/-- A step into what the productions one level down read leads to at most `b` steps. -/
structure Deeper.Within (d : Dialect) (b : Nat) (deeper : Deeper) : Prop where
  expr : ∀ p, Yields d (deeper.expr p) fun e => e.depth 0 + 1 ≤ b
  query : Yields d deeper.query fun q => q.depth 0 + 1 ≤ b

section Expressions

variable {d : Dialect} {b : Nat} {deeper : Deeper} {operand : Parser Expr}

theorem orderBy_within (hdeep : deeper.Within d b) :
    Yields d (Parser.orderBy deeper) fun items => orderDepth 0 items ≤ b := by
  refine .mono (.optionalList_part (.commaSeparated ?_)) fun items => orderDepth_le.mpr
  exact (hdeep.expr 0).bind fun key hkey => .skip fun _ => .skip fun _ => .pure hkey

/-- The distance of a window frame is an operand without a level of its own. -/
theorem frameBound_within (hop : Yields d operand fun e => e.depth 0 ≤ b) :
    Yields d (Parser.frameBound operand) fun x => x.depth 0 ≤ b := by
  have hzero {x : Bound} (h : x.depth 0 = 0) : Yields d (Pure.pure x) fun x => x.depth 0 ≤ b :=
    .pure (by omega)
  refine .test (hzero (by simp only [Bound.depth])) ?_
  refine .test (.test (hzero (by simp only [Bound.depth])) ?_) ?_
  · exact .skip fun _ => hzero (by simp only [Bound.depth])
  · refine hop.bind fun offset h => .test (.pure ?_) (.skip fun _ => .pure ?_)
    · rw [Bound.depth]
      exact h
    · rw [Bound.depth]
      exact h

theorem windowFrame_within (hop : Yields d operand fun e => e.depth 0 ≤ b) :
    Yields d (Parser.windowFrame operand) fun f => frameDepth 0 (some f) ≤ b := by
  have hbounds (unit : FrameUnit) : Yields d (do
      if ← Parser.eatWord "BETWEEN" then
        let start ← Parser.frameBound operand
        Parser.expectWord "AND"
        let stop ← Parser.frameBound operand
        return ⟨unit, start, some stop⟩
      let start ← Parser.frameBound operand
      return ⟨unit, start, none⟩) fun f => frameDepth 0 (some f) ≤ b := by
    refine .test ?_ ?_
    · refine (frameBound_within hop).bind fun start hstart => .skip fun _ => ?_
      refine (frameBound_within hop).bind fun stop hstop => .pure ?_
      rw [frameDepth, stopDepth]
      exact Nat.max_le.mpr ⟨hstart, hstop⟩
    · refine (frameBound_within hop).bind fun start hstart => .pure ?_
      rw [frameDepth, stopDepth]
      exact Nat.max_le.mpr ⟨hstart, Nat.zero_le b⟩
  exact .test (hbounds _) (.skip fun _ => hbounds _)

theorem window_within (hdeep : deeper.Within d b) (hop : Yields d operand fun e => e.depth 0 ≤ b) :
    Yields d (Parser.window deeper operand) fun x => windowDepth 0 (some x) ≤ b := by
  refine .parenthesized ?_
  refine (Yields.optionalList_part (.commaSeparated (hdeep.expr 0))).bind fun keys hkeys => ?_
  refine (orderBy_within hdeep).bind fun order horder => ?_
  refine (Yields.optional_part (windowFrame_within hop)).bind fun frame hframe => .pure ?_
  have hframe : frameDepth 0 frame ≤ b := by
    cases frame with
    | none => exact Nat.zero_le b
    | some f => exact hframe f rfl
  rw [windowDepth]
  exact Nat.max_le.mpr ⟨exprDepth_le.mpr hkeys, Nat.max_le.mpr ⟨horder, hframe⟩⟩

/-! ### Calls -/

theorem argDepth_map_le (es : List Expr) (h : ∀ e ∈ es, e.depth 0 + 1 ≤ b) :
    argDepth 0 (es.map Arg.expr) ≤ b := by
  rw [argDepth_le]
  simpa [argDepth] using h

theorem callArgs_within (hdeep : deeper.Within d b) (upper : String) :
    Yields d (Parser.callArgs deeper upper) fun args => argDepth 0 args ≤ b := by
  have hargs {first : Expr} (h : first.depth 0 + 1 ≤ b) :
      Yields d (do return .expr first :: (← Parser.afterCommas (deeper.expr 0)).map Arg.expr)
        fun args => argDepth 0 args ≤ b := by
    refine (Yields.afterCommas (hdeep.expr 0)).bind fun rest hrest => .pure ?_
    exact argDepth_map_le (first :: rest) (List.forall_mem_cons.mpr ⟨h, hrest⟩)
  unfold Parser.callArgs
  dsimp only
  split
  · refine (hdeep.expr _).bind fun needle hneedle => .test ?_ (hargs hneedle)
    refine (hdeep.expr 0).bind fun haystack hhaystack => .pure ?_
    have hall : ∀ e ∈ [haystack, needle], e.depth 0 + 1 ≤ b :=
      List.forall_mem_cons.mpr ⟨hhaystack, List.forall_mem_singleton.mpr hneedle⟩
    exact argDepth_map_le _ hall
  · refine (hdeep.expr 0).bind fun first hfirst => .test ?_ (hargs hfirst)
    refine (hdeep.expr 0).bind fun start hstart => ?_
    refine (Yields.optional_part (hdeep.expr 0)).bind fun length hlength => .pure ?_
    have hall : ∀ e ∈ first :: start :: length.toList, e.depth 0 + 1 ≤ b :=
      List.forall_mem_cons.mpr ⟨hfirst, List.forall_mem_cons.mpr ⟨hstart, fun e he =>
        hlength e (Option.mem_toList.mp he)⟩⟩
    simpa [Option.toList_map] using argDepth_map_le _ hall

theorem callBody_within (hdeep : deeper.Within d b) (upper : String) :
    Yields d (Parser.callBody deeper upper) fun r => argDepth 0 r.2 ≤ b := by
  have hstar : Yields d (Pure.pure [Arg.star]) fun args => argDepth 0 args ≤ b :=
    .pure (by simp [argDepth])
  refine .test (.pure (by simp [argDepth])) (.skip fun distinct => .test ?_ ?_)
  · exact hstar.bind fun args hargs => .skip fun _ => .pure hargs
  · exact (callArgs_within hdeep upper).bind fun args hargs => .skip fun _ => .pure hargs

theorem argDepth_swapFirst {args : List Arg} (h : argDepth 0 args ≤ b) :
    argDepth 0 (Parser.swapFirst args) ≤ b := by
  rw [argDepth_le] at h ⊢
  unfold Parser.swapFirst
  split
  · simpa [and_left_comm] using h
  · exact h

theorem canonicalCall_within {name : String} {args : List Arg} (h : argDepth 0 args ≤ b)
    (position : Position) :
    Yields d (Parser.canonicalCall name args position) fun r => argDepth 0 r.2 ≤ b := by
  refine .rules ?_
  split
  · exact .pure h
  split
  · exact .pure h
  · exact .pure (argDepth_swapFirst h)
  · split
    · exact .pure h
    · split
      · exact .pure h
      · exact .fail _

theorem extraction_within (hdeep : deeper.Within d b) (separator : Parser Unit) :
    Yields d (Parser.extraction deeper separator) fun e => e.depth 0 ≤ b := by
  refine .parenthesized (.skip fun field => .skip fun _ => (hdeep.expr 0).bind fun e he => .pure ?_)
  rw [Expr.depth]
  exact he

theorem conditional_within (hdeep : deeper.Within d b) :
    Yields d (Parser.conditional deeper) fun e => e.depth 0 ≤ b := by
  refine .parenthesized ?_
  refine (hdeep.expr 0).bind fun c hc => .skip fun _ => (hdeep.expr 0).bind fun y hy => ?_
  refine .skip fun _ => (hdeep.expr 0).bind fun n hn => .pure ?_
  rw [Expr.depth]
  exact Nat.max_le.mpr ⟨hc, Nat.max_le.mpr ⟨hy, hn⟩⟩

/-- An expression with nothing below it. -/
theorem leaf_within {e : Expr} (h : e.depth 0 = 0) : Yields d (Pure.pure e) fun e => e.depth 0 ≤ b :=
  .pure (by omega)

theorem call_within (hdeep : deeper.Within d b) (hop : Yields d operand fun e => e.depth 0 ≤ b)
    (name : String) (position : Position) :
    Yields d (Parser.call deeper operand name position) fun e => e.depth 0 ≤ b := by
  refine .dialect ?_
  dsimp only
  split
  · exact extraction_within hdeep _
  split
  · exact extraction_within hdeep _
  split
  · exact conditional_within hdeep
  split
  · exact .skip fun _ => .skip fun _ => leaf_within (by simp only [Expr.depth])
  · refine .skip fun _ => (callBody_within hdeep _).bind fun r hargs => ?_
    refine (canonicalCall_within hargs position).bind fun r hargs => ?_
    refine (Yields.optional_part (window_within hdeep hop)).bind fun x hx => .pure ?_
    have hwindow : windowDepth 0 x ≤ b := by
      cases x with
      | none => exact Nat.zero_le b
      | some x => exact hx x rfl
    rw [Expr.depth, Call.depth]
    exact Nat.max_le.mpr ⟨hargs, hwindow⟩

/-! ### Primaries -/

theorem chain_within (hdeep : deeper.Within d b) (hop : Yields d operand fun e => e.depth 0 ≤ b) :
    Yields d (Parser.chain deeper operand) fun e => e.depth 0 ≤ b := by
  refine .skip fun t => .skip fun first => .skip fun rest => .skip fun called => ?_
  split
  · exact .skip fun _ => call_within hdeep hop _ _
  · refine leaf_within ?_
    split <;> simp only [Expr.depth]

theorem param_within : Yields d Parser.param fun e => e.depth 0 ≤ b := by
  refine .skip fun t => .rules ?_
  extract_lets body found
  have hfound (o : Option Param) : Yields d (found o) fun e => e.depth 0 ≤ b := by
    cases o with
    | none => exact .skip fun _ => .unexpected
    | some p => exact .skip fun _ => leaf_within (by simp only [Expr.depth])
  split
  · split <;> exact .skip hfound
  · split <;> exact .skip hfound

theorem caseExpr_within (hdeep : deeper.Within d b) :
    Yields d (Parser.caseExpr deeper) fun e => e.depth 0 ≤ b := by
  refine .skip fun _ => .skip fun simple => ?_
  extract_lets rest
  have hrest (o : Option Expr) (ho : ∀ e ∈ o, e.depth 0 + 1 ≤ b) :
      Yields d (rest o) fun e => e.depth 0 ≤ b := by
    refine (Yields.many (P := fun x => branchDepth 0 [x] ≤ b) (.optional_part
      ((hdeep.expr 0).bind fun c hc => .skip fun _ => (hdeep.expr 0).bind fun r hr => .pure
        (by simp only [branchDepth]; omega)))).bind fun branches hbranches => ?_
    extract_lets close
    have hclose (u : Unit) : Yields d (close u) fun e => e.depth 0 ≤ b := by
      refine (Yields.optional_part (hdeep.expr 0)).bind fun last hlast => .skip fun _ => .pure ?_
      rw [Expr.depth]
      refine Nat.max_le.mpr ⟨optionDepth_le.mpr ho, Nat.max_le.mpr ⟨?_, optionDepth_le.mpr hlast⟩⟩
      exact branchDepth_le.mpr hbranches
    split
    · exact .skip hclose
    · exact hclose ()
  split
  · exact (Yields.pure (by simp)).bind hrest
  · refine Yields.bind (.map (hdeep.expr 0) fun e he => ?_) hrest
    rintro _ ⟨⟩
    exact he

theorem castExpr_within (hdeep : deeper.Within d b) (safe : Bool) :
    Yields d (Parser.castExpr deeper safe) fun e => e.depth 0 ≤ b := by
  refine .skip fun _ => .parenthesized ?_
  refine (hdeep.expr 0).bind fun e he => .skip fun _ => .skip fun type => .pure ?_
  rw [Expr.depth]
  omega

theorem existsExpr_within (hdeep : deeper.Within d b) (negated : Bool) :
    Yields d (Parser.existsExpr deeper negated) fun e => e.depth 0 ≤ b := by
  refine (Yields.parenthesized hdeep.query).bind fun q hq => .pure ?_
  rw [Expr.depth]
  exact hq

/-- The amount of an interval is an operand without a level of its own. -/
theorem intervalExpr_within (hop : Yields d operand fun e => e.depth 0 ≤ b) :
    Yields d (Parser.intervalExpr operand) fun e => e.depth 0 ≤ b := by
  refine .skip fun _ => .dialect ?_
  split
  · refine hop.bind fun amount ha => .skip fun unit => .pure ?_
    rw [Expr.depth]
    exact ha
  · refine .skip fun t => ?_
    extract_lets close
    have hclose (u : Unit) : Yields d (close u) fun e => e.depth 0 ≤ b :=
      .skip fun _ => .skip fun unit => leaf_within (by simp only [Expr.depth])
    split
    · exact hclose ()
    · exact .skip fun _ => .skip hclose

theorem literal_within (v : Literal) : Yields d (Pure.pure (Expr.literal v)) fun e => e.depth 0 ≤ b :=
  leaf_within (by simp only [Expr.depth])

theorem wordForm_within (hdeep : deeper.Within d b)
    (hop : Yields d operand fun e => e.depth 0 ≤ b) {word : String} {called : Bool}
    {form : Parser Expr} (h : Parser.wordForm? deeper operand d word called = some form) :
    Yields d form fun e => e.depth 0 ≤ b := by
  cases Parser.wordForm_cases h with
  | null => exact .skip fun _ => literal_within _
  | truth _ => exact .skip fun _ => literal_within _
  | branches => exact caseExpr_within hdeep
  | cast => exact castExpr_within hdeep false
  | existence _ => exact .skip fun _ => existsExpr_within hdeep false
  | interval _ => exact intervalExpr_within hop
  | safeCast _ => exact castExpr_within hdeep true
  | now _ => exact .skip fun _ => leaf_within (by simp only [Expr.depth])

theorem wordExpr_within (hdeep : deeper.Within d b)
    (hop : Yields d operand fun e => e.depth 0 ≤ b) (t : Token) :
    Yields d (Parser.wordExpr deeper operand t) fun e => e.depth 0 ≤ b := by
  refine .dialect (.skip fun next => ?_)
  dsimp only
  split
  case h_1 form hform => exact wordForm_within hdeep hop hform
  split
  case h_1 kind _ =>
    refine .skip fun _ => .skip fun value => ?_
    split
    · exact literal_within _
    · exact .skip fun _ => literal_within _
  split
  · exact .skip fun _ => .skip fun _ => call_within hdeep hop _ _
  split
  · exact .skip fun _ => .skip fun _ => chain_within hdeep hop
  · exact chain_within hdeep hop

theorem primary_within (hdeep : deeper.Within d b)
    (hop : Yields d operand fun e => e.depth 0 ≤ b) :
    Yields d (Parser.primary deeper operand) fun e => e.depth 0 ≤ b := by
  refine .skip fun t => ?_
  split
  · exact .skip fun _ => literal_within _
  · exact .skip fun _ => literal_within _
  · exact param_within
  · exact wordExpr_within hdeep hop t
  · exact wordExpr_within hdeep hop t
  · exact chain_within hdeep hop
  · split
    · refine .parenthesized (.test (hdeep.query.bind fun q hq => .pure ?_)
        ((hdeep.expr 0).bind fun e he => .pure ?_))
      · rw [Expr.depth]
        exact hq
      · rw [Expr.depth]
        exact he
    · exact .skip fun _ => .unexpected
  · exact .skip fun _ => .unexpected

theorem operandWith_within (hdeep : deeper.Within d b)
    (hop : Yields d operand fun e => e.depth 0 ≤ b) :
    Yields d (Parser.operandWith deeper operand) fun e => e.depth 0 ≤ b := by
  have hunary (op : UnaryOp) (p : Precedence) :
      Yields d (do return .unary op (← deeper.expr p)) fun e => Expr.depth 0 e ≤ b := by
    refine (hdeep.expr p).bind fun e he => .pure ?_
    rw [Expr.depth]
    exact he
  refine .test (.test (existsExpr_within hdeep true) (hunary _ _)) (.skip fun t => ?_)
  split
  · exact .skip fun _ => hunary _ _
  · exact primary_within hdeep hop

/-- However many operands stand in each other without a level of their own, their depth is that of
one. -/
theorem operandUpTo_within (hdeep : deeper.Within d b) (n : Nat) :
    Yields d (Parser.operandUpTo deeper n) fun e => e.depth 0 ≤ b := by
  induction n with
  | zero => exact .unexpected
  | succ n ih => exact operandWith_within hdeep ih

theorem operandFrom_within (hdeep : deeper.Within d b) :
    Yields d (Parser.operandFrom deeper) fun e => e.depth 0 ≤ b :=
  .skip fun _ => operandUpTo_within hdeep _

/-! ### Operators -/

theorem membership_within (hdeep : deeper.Within d b) {left : Expr} (hl : left.depth 0 ≤ b + 1)
    (negated : Bool) :
    Yields d (Parser.membership deeper left negated) fun e => e.depth 0 ≤ b + 1 := by
  refine .parenthesized (.test (hdeep.query.bind fun q hq => .pure ?_)
    ((Yields.commaSeparated (hdeep.expr 0)).bind fun es hes => .pure ?_))
  · rw [Expr.depth]
    omega
  · have hlist := exprDepth_le.mpr hes
    rw [Expr.depth]
    omega

/-- The operand behind `ESCAPE` shares a level with the comparison that it is part of. -/
theorem predicate_within (hdeep : deeper.Within d b) {left : Expr} (hl : left.depth 0 ≤ b + 1) :
    Yields d (Parser.predicate deeper left) fun e => e.depth 0 ≤ b + 1 := by
  have hlike (negated anyCase : Bool) : Yields d (do
      let pattern ← deeper.expr .comparison
      let escape ← Parser.optional (Parser.eatWord "ESCAPE") (Parser.operandFrom deeper)
      return Expr.like left pattern negated anyCase escape) fun e => e.depth 0 ≤ b + 1 := by
    refine (hdeep.expr _).bind fun p hp => ?_
    refine (Yields.optional_part (operandFrom_within hdeep)).bind fun o ho => .pure ?_
    have hescape : optionDepth 0 o ≤ b + 1 :=
      optionDepth_le.mpr fun e he => Nat.succ_le_succ (ho e he)
    rw [Expr.depth]
    omega
  refine .skip fun negated => .test ?_ (.test (membership_within hdeep hl negated) ?_)
  · refine (hdeep.expr _).bind fun low hlow => .skip fun _ => (hdeep.expr _).bind fun high hhigh => ?_
    refine .pure ?_
    rw [Expr.depth]
    omega
  · exact .test (hlike negated false) (.skip fun _ => hlike negated true)

theorem joined_within (hdeep : deeper.Within d b) {left : Expr} (hl : left.depth 0 ≤ b + 1)
    (c : Parser.Connective) (p : Precedence) :
    Yields d (Parser.joined deeper left c p) fun e => e.depth 0 ≤ b + 1 := by
  cases c with
  | binary op =>
    refine .skip fun _ => (hdeep.expr p).bind fun right hr => .pure ?_
    rw [Expr.depth]
    omega
  | doubleColon =>
    refine .skip fun _ => .skip fun type => .pure ?_
    rw [Expr.depth]
    exact hl
  | is =>
    refine .skip fun _ => .skip fun negated => .skip fun _ => .pure ?_
    rw [Expr.depth]
    exact hl
  | predicate => exact predicate_within hdeep hl

/-- A left operand is no step down, so operators in a row add nothing. -/
theorem subexpr_within (hdeep : deeper.Within d b) (least : Precedence) :
    Yields d (Parser.subexpr deeper least) fun e => e.depth 0 ≤ b + 1 := by
  refine (operandFrom_within hdeep).bind fun left hl => ?_
  refine .iterate (Nat.le_succ_of_le hl) fun left hl => ?_
  refine .rules (.skip fun t => .skip fun next => ?_)
  split
  · split
    · exact .pure (by simp)
    · exact (joined_within hdeep hl _ _).bind fun e he => .pure (by simpa using he)
  · exact .pure (by simp)

end Expressions

/-! ## Queries -/

section Queries

variable {d : Dialect} {b : Nat} {deeper : Deeper}

theorem selectItem_within (hdeep : deeper.Within d b) :
    Yields d (Parser.selectItem deeper) fun item => itemDepth 0 [item] ≤ b := by
  refine .test (.pure (by simp [itemDepth])) (.skip fun n => .skip fun stars => ?_)
  cases stars with
  | some n => exact .skip fun parts => .skip fun _ => .pure (by simp [itemDepth])
  | none =>
    refine (hdeep.expr 0).bind fun e he => .skip fun label => .pure ?_
    simpa [itemDepth] using he

theorem relation_within (hdeep : deeper.Within d b) :
    Yields d (Parser.relation deeper) fun r => r.depth 0 ≤ b := by
  refine .test ?_ (.skip fun t => .skip fun table => .test ?_ ?_)
  · refine hdeep.query.bind fun q hq => .skip fun _ => .skip fun label => .pure ?_
    rw [Relation.depth]
    exact hq
  · refine .skip fun _ => (call_within hdeep (operandFrom_within hdeep) _ _).bind fun e he => ?_
    refine .skip fun label => ?_
    split
    · rw [Expr.depth] at he
      refine .pure ?_
      rw [Relation.depth]
      exact he
    · exact .skip fun t => .unexpectedAt t _
  · refine .skip fun label => .pure ?_
    rw [Relation.depth]
    exact Nat.zero_le b

theorem joinCondition_within (hdeep : deeper.Within d b) (natural : Bool) (kind : JoinKind) :
    Yields d (Parser.joinCondition deeper natural kind) fun c => c.depth 0 ≤ b := by
  have hzero {c : JoinCondition} (h : c.depth 0 = 0) :
      Yields d (Pure.pure c) fun c => c.depth 0 ≤ b :=
    .pure (by omega)
  unfold Parser.joinCondition
  split
  · exact hzero (by simp only [JoinCondition.depth])
  split
  · exact hzero (by simp only [JoinCondition.depth])
  refine .test ?_ (.supports (.test (.skip fun columns => ?_) .unexpected))
  · refine (hdeep.expr 0).bind fun e he => .pure ?_
    rw [JoinCondition.depth]
    exact he
  · exact hzero (by simp only [JoinCondition.depth])

theorem join_within (hdeep : deeper.Within d b) :
    Yields d (Parser.join deeper) fun o => ∀ j ∈ o, joinDepth 0 [j] ≤ b := by
  refine .supports (.skip fun natural => .skip fun o => ?_)
  cases o with
  | none => exact .pure (by simp)
  | some kind =>
    refine (relation_within hdeep).bind fun r hr => ?_
    refine (joinCondition_within hdeep natural kind).bind fun c hc => .pure ?_
    rintro _ ⟨⟩
    simp only [joinDepth]
    omega

theorem source_within (hdeep : deeper.Within d b) :
    Yields d (Parser.source deeper) fun s => sourceDepth 0 [s] ≤ b := by
  refine (relation_within hdeep).bind fun r hr => ?_
  refine (Yields.many (join_within hdeep)).bind fun joins hjoins => .pure ?_
  have hjoins := joinDepth_le.mpr hjoins
  simp only [sourceDepth]
  omega

theorem distinctness_within (hdeep : deeper.Within d b) :
    Yields d (Parser.distinctness deeper) fun o => distinctDepth 0 o ≤ b := by
  refine .test (.supports (.skip fun on => .skip fun next => ?_)) (.skip fun _ => .pure ?_)
  · dsimp only
    split
    · refine .skip fun _ => ?_
      refine (Yields.parenthesized (.commaSeparated (hdeep.expr 0))).bind fun keys hkeys => .pure ?_
      rw [distinctDepth]
      exact exprDepth_le.mpr hkeys
    · exact .pure (by simp [distinctDepth])
  · simp [distinctDepth]

theorem topCount_within (hdeep : deeper.Within d b) :
    Yields d (Parser.topCount deeper) fun e => e.depth 0 ≤ b := by
  refine .test ?_ (operandFrom_within hdeep)
  exact (hdeep.expr 0).bind fun e he => .skip fun _ => .pure (Nat.le_of_succ_le he)

theorem sources_within (hdeep : deeper.Within d b) :
    Yields d (Parser.sources deeper) fun sources => sourceDepth 0 sources ≤ b := by
  refine .test ((Yields.commaSeparated (source_within hdeep)).mono fun _ => sourceDepth_le.mpr)
    (.rules ?_)
  dsimp only
  split
  · exact .skip fun _ => .pure (by simp [sourceDepth])
  · exact .pure (by simp [sourceDepth])

/-- The depth of a body and of the count behind its `TOP`. A body with a count is one `SELECT`, so
nothing has been added to it yet. -/
structure BodyWithin (b : Nat) (r : Body × Option Expr) : Prop where
  body : r.1.depth 0 ≤ b + 3
  top : ∀ e ∈ r.2, e.depth 0 ≤ b
  block : r.2.isSome = true → r.1.depth 0 ≤ b

theorem select_within (hdeep : deeper.Within d b) :
    Yields d (Parser.select deeper) fun r => r.1.depth 0 ≤ b ∧ ∀ e ∈ r.2, e.depth 0 ≤ b := by
  refine .skip fun _ => (distinctness_within hdeep).bind fun distinct hdistinct => ?_
  refine (Yields.optional_part (topCount_within hdeep)).bind fun top htop => ?_
  refine (Yields.commaSeparated (selectItem_within hdeep)).bind fun items hitems => ?_
  refine (sources_within hdeep).bind fun sources hsources => ?_
  refine (Yields.optional_part (hdeep.expr 0)).bind fun condition hcondition => ?_
  refine (Yields.optionalList_part (.commaSeparated (hdeep.expr 0))).bind fun groups hgroups => ?_
  refine (Yields.optional_part (hdeep.expr 0)).bind fun having hhaving => ?_
  refine (Yields.optional_part (hdeep.expr 0)).bind fun qualify hqualify => .pure ⟨?_, htop⟩
  have hitems := itemDepth_le.mpr hitems
  have hcondition := optionDepth_le.mpr hcondition
  have hgroups := exprDepth_le.mpr hgroups
  have hhaving := optionDepth_le.mpr hhaving
  have hqualify := optionDepth_le.mpr hqualify
  rw [Select.depth]
  omega

/-! ### Set operations -/

/-- The query that a count behind `TOP` makes of an operand, the step into it and the step to its count
are three. -/
theorem withTop_within {r : Body × Option Expr} (h : BodyWithin b r) :
    (Parser.withTop r.1 r.2).depth 0 ≤ b + 3 ∧
      (r.1.depth 0 ≤ b → (Parser.withTop r.1 r.2).depth 0 ≤ b + 2) := by
  obtain ⟨body, top⟩ := r
  cases top with
  | none => exact ⟨h.body, fun hb => Nat.le_add_right_of_le hb⟩
  | some e =>
    have he := h.top e rfl
    have hb : body.depth 0 ≤ b := h.block rfl
    simp only [Parser.withTop, Query.ofBody, Body.depth, Query.depth, withDepth, orderDepth,
      limitDepth, optionDepth]
    omega

theorem setOperand_within (hdeep : deeper.Within d b) :
    Yields d (Parser.setOperand deeper) fun r => r.1.depth 0 ≤ b ∧ ∀ e ∈ r.2, e.depth 0 ≤ b := by
  refine .test ?_ (.test ?_ (.test ?_ .unexpected))
  · refine (select_within hdeep).bind fun r hr => .pure ⟨?_, hr.2⟩
    rw [Body.depth]
    exact hr.1
  · refine (Yields.commaSeparated (.parenthesized (.commaSeparated (hdeep.expr 0)))).bind
      fun rows hrows => .pure ⟨?_, by simp⟩
    rw [Body.depth]
    exact rowDepth_le.mpr fun row hrow => exprDepth_le.mpr (hrows row hrow)
  · refine hdeep.query.bind fun q hq => .skip fun _ => .pure ⟨?_, by simp⟩
    rw [Body.depth]
    exact hq

theorem body_within (hdeep : deeper.Within d b) :
    Yields d (Parser.body deeper) (BodyWithin b) := by
  have hoperand {r : Body × Option Expr} (h : r.1.depth 0 ≤ b ∧ ∀ e ∈ r.2, e.depth 0 ≤ b) :
      BodyWithin b r :=
    ⟨by omega, h.2, fun _ => h.1⟩
  refine (setOperand_within hdeep).bind fun first hfirst => ?_
  refine .iterate (hoperand hfirst) fun left hleft => .skip fun op => ?_
  cases op with
  | none => exact .pure (by simp)
  | some op =>
    refine .skip fun quantifier => (setOperand_within hdeep).bind fun right hright => .pure ?_
    have hl := (withTop_within hleft).1
    have hr := (withTop_within (hoperand hright)).2 hright.1
    rintro _ ⟨⟩
    refine ⟨?_, by simp, by simp⟩
    simp only [Body.depth]
    omega

/-! ### Row limits -/

/-- The depth of the clauses of a row limit, where the count may be that behind `TOP`. -/
structure LimitWithin (b : Nat) (l : Parser.LimitClauses) : Prop where
  count : ∀ e ∈ l.count, e.depth 0 ≤ b
  offset : ∀ e ∈ l.offset, e.depth 0 ≤ b

theorem moreLimit_within (hdeep : deeper.Within d b) {l : Parser.LimitClauses}
    (hl : LimitWithin b l) :
    Yields d (Parser.moreLimit deeper l) fun o => ∀ l' ∈ o, LimitWithin b l' := by
  have hexpr : Yields d (deeper.expr 0) fun e => e.depth 0 ≤ b :=
    (hdeep.expr 0).mono fun e => Nat.le_of_succ_le
  refine .rules ?_
  extract_lets expr free fetch behind
  refine .test (.test (.pure ?_) ?_) (.test ?_ (.test ?_ (.pure (by simp))))
  · rintro _ ⟨⟩
    exact ⟨hl.count, hl.offset⟩
  · refine hexpr.bind fun first hfirst => .test ?_ (.pure ?_)
    · refine hexpr.bind fun count hcount => .pure ?_
      rintro _ ⟨⟩
      exact ⟨by simpa using hcount, by simpa using hfirst⟩
    · rintro _ ⟨⟩
      exact ⟨by simpa using hfirst, hl.offset⟩
  · refine .skip fun token => hexpr.bind fun offset ho => .skip fun _ => ?_
    have hsome : LimitWithin b { l with offset := some offset, offsetToken := some token } :=
      ⟨hl.count, by simpa using ho⟩
    split
    · exact .pure (by simpa using hsome)
    · exact .skip fun _ => .pure (by simpa using hsome)
  · refine .skip fun first => ?_
    have hbehind (u : Unit) : Yields d (behind u) fun o => ∀ l' ∈ o, LimitWithin b l' := by
      refine hexpr.bind fun count hcount => .skip fun _ => ?_
      have hsome : LimitWithin b { l with count := some count } := ⟨by simpa using hcount, hl.offset⟩
      split
      · exact .skip fun _ => .pure (by simpa using hsome)
      · exact .skip fun _ => .skip fun _ => .pure (by simpa using hsome)
    split
    · exact hbehind ()
    · exact .skip hbehind

theorem limit_within (hdeep : deeper.Within d b) {top : Option Expr}
    (htop : ∀ e ∈ top, e.depth 0 ≤ b) (ordered : Bool) :
    Yields d (Parser.limit deeper top ordered) fun o => limitDepth 0 o ≤ b + 1 := by
  have hstart : LimitWithin b { count := top } := ⟨htop, by simp⟩
  refine (Yields.iterate hstart fun l hl => moreLimit_within hdeep hl).bind fun l hl => .rules ?_
  extract_lets close
  have hclose (u : Unit) : Yields d (close u) fun o => limitDepth 0 o ≤ b + 1 := by
    refine .pure ?_
    split
    · exact Nat.zero_le _
    · rw [limitDepth]
      refine Nat.max_le.mpr ⟨optionDepth_le.mpr fun e he => ?_, optionDepth_le.mpr fun e he => ?_⟩
      · exact Nat.succ_le_succ (hl.count e he)
      · exact Nat.succ_le_succ (hl.offset e he)
  split
  case h_2 => exact hclose ()
  case h_1 token _ =>
    extract_lets next
    have hnext (u : Unit) : Yields d (next u) fun o => limitDepth 0 o ≤ b + 1 := by
      simp only [next]
      split
      · exact .skip hclose
      · exact hclose u
    split
    · exact .skip hnext
    · exact hnext ()

/-! ### Levels -/

theorem ctes_within (hdeep : deeper.Within d b) :
    Yields d (Parser.ctes deeper) fun x => withDepth 0 (some x) ≤ b := by
  refine .skip fun recursive => ?_
  refine (Yields.commaSeparated (P := fun x => cteDepth 0 [x] ≤ b) (.skip fun label =>
    .skip fun columns => .skip fun _ => (Yields.parenthesized hdeep.query).bind fun q hq =>
      .pure (by simpa [cteDepth] using hq))).bind fun tables htables => .pure ?_
  rw [withDepth]
  exact cteDepth_le.mpr htables

theorem queryWith_within (hdeep : deeper.Within d b) :
    Yields d (Parser.queryWith deeper) fun q => q.depth 0 ≤ b + 3 := by
  refine (Yields.optional_part (ctes_within hdeep)).bind fun ctes hctes => ?_
  refine (body_within hdeep).bind fun r hr => ?_
  obtain ⟨body, top⟩ := r
  refine (orderBy_within hdeep).bind fun order horder => ?_
  refine (limit_within hdeep hr.top _).bind fun limit hlimit => .pure ?_
  have hbody : body.depth 0 ≤ b + 3 := hr.body
  have hwith : withDepth 0 ctes ≤ b := by
    cases ctes with
    | none => exact Nat.zero_le b
    | some x => exact hctes x rfl
  rw [Query.depth]
  omega

/-- Each level of nesting adds at most four steps. Without levels nothing is read at all. -/
theorem nested_within (n : Nat) : (Parser.nested n).Within d (4 * n) := by
  induction n with
  | zero => exact ⟨fun _ => .skip fun t => .unexpectedAt t _, .skip fun t => .unexpectedAt t _⟩
  | succ n ih =>
    refine ⟨fun p => .level ((subexpr_within ih p).mono fun e he => ?_),
      .level ((queryWith_within ih).mono fun q hq => ?_)⟩
    · omega
    · omega

end Queries

/-! ## Statements -/

section Statements

variable {d : Dialect}

theorem outermost_within : Parser.outermost.Within d (4 * Parser.maxDepth) :=
  nested_within Parser.maxDepth

theorem returning_within : Yields d Parser.returning fun items =>
    itemDepth 0 items ≤ 4 * Parser.maxDepth :=
  .mono (.optionalList_part (.commaSeparated (selectItem_within outermost_within))) fun _ =>
    itemDepth_le.mpr

theorem insert_within : Yields d Parser.insert fun i =>
    (Statement.insert i).depth 0 ≤ 4 * Parser.maxDepth := by
  refine .skip fun _ => .skip fun _ => .skip fun table => .skip fun listed => .skip fun next => ?_
  extract_lets columns rest
  have hrest (columns : List Name) : Yields d (rest columns) fun i =>
      (Statement.insert i).depth 0 ≤ 4 * Parser.maxDepth := by
    refine outermost_within.query.bind fun q hq => returning_within.bind fun items hitems => .pure ?_
    exact Nat.max_le.mpr ⟨hq, hitems⟩
  split
  · exact .skip hrest
  · exact .skip hrest

theorem update_within : Yields d Parser.update fun u =>
    (Statement.update u).depth 0 ≤ 4 * Parser.maxDepth := by
  have hexpr := outermost_within.expr (d := d) 0
  refine .skip fun _ => .skip fun table => .skip fun label => .skip fun _ => ?_
  refine (Yields.commaSeparated (P := fun a => a.value.depth 0 + 1 ≤ 4 * Parser.maxDepth) ?_).bind
    fun as has => ?_
  · exact .skip fun first => .skip fun rest => .skip fun _ => hexpr.bind fun e he => .pure he
  refine (Yields.optional_part hexpr).bind fun condition hcondition => ?_
  refine returning_within.bind fun items hitems => .pure ?_
  have hvalues : exprDepth 0 (as.map Assignment.value) ≤ 4 * Parser.maxDepth := by
    rw [exprDepth_le, List.forall_mem_map]
    exact has
  exact Nat.max_le.mpr ⟨hvalues, Nat.max_le.mpr ⟨optionDepth_le.mpr hcondition, hitems⟩⟩

theorem delete_within : Yields d Parser.delete fun x =>
    (Statement.delete x).depth 0 ≤ 4 * Parser.maxDepth := by
  refine .skip fun _ => .skip fun _ => .skip fun table => ?_
  refine (Yields.optional_part (outermost_within.expr 0)).bind fun condition hcondition => ?_
  refine returning_within.bind fun items hitems => .pure ?_
  exact Nat.max_le.mpr ⟨optionDepth_le.mpr hcondition, hitems⟩

theorem columnOption_within : Yields d Parser.columnOption fun o =>
    ∀ e, .default e ∈ o → e.depth 0 + 1 ≤ 4 * Parser.maxDepth := by
  refine .test (.pure (by simp)) (.test (.pure (by simp)) (.test (.pure (by simp)) ?_))
  refine .test (.pure (by simp)) (.test ?_ (.dialect (.test (.pure (by simp)) (.pure (by simp)))))
  exact (outermost_within.expr _).bind fun e he => .pure (by simpa using he)

theorem tableElement_within : Yields d Parser.tableElement fun x => ∀ column, x = .inr column →
    ∀ e, .default e ∈ column.options → e.depth 0 + 1 ≤ 4 * Parser.maxDepth := by
  refine .skip fun o => ?_
  cases o with
  | some constraint => exact .pure (by simp)
  | none =>
    refine Yields.bind (P := fun column => ∀ e, .default e ∈ column.options →
      e.depth 0 + 1 ≤ 4 * Parser.maxDepth) (.skip fun name => .skip fun type => ?_)
      fun column h => .pure (by simpa using h)
    refine (Yields.many (P := fun o => ∀ e, o = .default e → e.depth 0 + 1 ≤ 4 * Parser.maxDepth)
      (columnOption_within.mono fun o h => ?_)).bind fun options h => .pure fun e he => h _ he e rfl
    rintro x hx e rfl
    exact h e hx

theorem createTable_within (temporary : Bool) : Yields d (Parser.createTable temporary) fun c =>
    (Statement.createTable c).depth 0 ≤ 4 * Parser.maxDepth := by
  refine .supports (.skip fun guarded => .skip fun table => ?_)
  refine (Yields.optionalList_part ((Yields.commaSeparated tableElement_within).bind
    fun _ h => .skip fun _ => .pure h)).bind fun elements helements => ?_
  refine (Yields.optional_part outermost_within.query).bind fun source hsource => ?_
  extract_lets constraints columns close
  have hclose (u : Unit) : Yields d (close u) fun c =>
      (Statement.createTable c).depth 0 ≤ 4 * Parser.maxDepth := by
    refine .pure (Nat.max_le.mpr ⟨columnDepth_le.mpr fun column hcolumn => ?_, ?_⟩)
    · obtain ⟨x, hx, heq⟩ := List.mem_filterMap.mp hcolumn
      exact helements x hx column (Sum.getRight?_eq_some_iff.mp heq)
    · cases source with
      | none => exact Nat.zero_le _
      | some q => exact hsource q rfl
  split
  · exact .skip hclose
  · exact hclose ()

theorem createView_within (orReplace : Bool) : Yields d (Parser.createView orReplace) fun c =>
    (Statement.createView c).depth 0 ≤ 4 * Parser.maxDepth := by
  refine .skip fun view => .skip fun columns => .skip fun _ => ?_
  exact outermost_within.query.bind fun q hq => .pure hq

theorem create_within : Yields d Parser.create fun s => s.depth 0 ≤ 4 * Parser.maxDepth := by
  refine .skip fun _ => .test ?_ (.skip fun temp => ?_)
  · refine .dialect (.skip fun _ => .skip fun _ => ?_)
    exact (createView_within true).bind fun c hc => .pure hc
  extract_lets rest
  have hrest (temporary : Bool) : Yields d (rest temporary) fun s =>
      s.depth 0 ≤ 4 * Parser.maxDepth := by
    refine .test ((createView_within false).bind fun c hc => .pure hc) (.skip fun _ => ?_)
    exact (createTable_within temporary).bind fun c hc => .pure hc
  split
  · exact .skip hrest
  · exact .skip hrest

theorem statement_within : Yields d Parser.statement fun s => s.depth 0 ≤ 4 * Parser.maxDepth := by
  refine .test ?_ (.test ?_ (.test ?_ (.test ?_ (.test create_within (.test ?_ .unexpected)))))
  · exact outermost_within.query.bind fun q hq => .pure hq
  · exact insert_within.bind fun i hi => .pure hi
  · exact update_within.bind fun u hu => .pure hu
  · exact delete_within.bind fun x hx => .pure hx
  · exact .skip fun x => .pure (Nat.zero_le _)

theorem statements_within :
    Yields d Parser.statements fun ss => ∀ s ∈ ss, s.depth 0 ≤ 4 * Parser.maxDepth := by
  refine .many (.skip fun _ => .test (.pure (by simp)) (.skip fun _ => ?_))
  refine statement_within.bind fun s hs => .skip fun last => ?_
  extract_lets close
  have hclose (u : Unit) : Yields d (close u) fun o => ∀ s ∈ o, s.depth 0 ≤ 4 * Parser.maxDepth :=
    .pure (by simpa using hs)
  split
  · exact hclose ()
  · exact .test (hclose ()) (.skip hclose)

end Statements

/-- A statement that is read is at most `4 * maxDepth` steps deep, amounts of intervals and distances of
window frames apart. -/
theorem parsed_depth_le {d : Dialect} {sql : String} {ss : List Statement}
    (h : parse d sql = .ok ss) : ∀ s ∈ ss, s.depth 0 ≤ 4 * Parser.maxDepth := by
  obtain ⟨tokens, finish, c, -, hrun⟩ := parse_ok h
  exact (statements_within _ rfl).apply hrun

end SqlDialects
