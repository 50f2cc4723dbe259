import Mathlib.Data.Multiset.AddSub
import Mathlib.Algebra.BigOperators.Group.Multiset.Basic
import SqlDialects.Proofs.Nodes

/-!
# The values of a tree

* `Leaf` : a constant or a parameter of a tree, or a part of it that stands for several tokens;
* `leaves`, `Statement.leaves` : the leaves of nodes and of a statement;
* `Expr.fill`, `Query.fill`, `Statement.fill` : the tree with numbers for its bare parameters.
-/

namespace SqlDialects

/-! ## Leaves -/

/-- A value in a tree. Types and generated columns are here because the tokens of their arguments
are no values of their own. -/
inductive Leaf where
  | literal (l : Literal)
  | param (p : Param)
  /-- A data type with its arguments. -/
  | type (t : DataType)
  /-- The option that the values of a column are generated. -/
  | generated
deriving DecidableEq, Repr

/-- The number of a bare parameter. -/
def Leaf.ordinal? : Leaf → Option Nat
  | .param (.positional k) => some k
  | _ => none

/-- The value that a constant was read from; words such as `NULL` have none. -/
def Literal.leaves : Literal → List Leaf
  | .boolean _ | .null => []
  | l => [.literal l]

/-- The values that a node has itself. -/
def Node.leaves : Node → List Leaf
  | .expr (.literal l) => l.leaves
  | .expr (.param p) => [.param p]
  | .expr (.cast _ t _) => [.type t]
  | _ => []

/-- The values of nodes, in whatever order. -/
def leaves (ns : List Node) : Multiset Leaf := ↑(ns.flatMap Node.leaves)

@[simp] theorem leaves_nil : leaves [] = 0 := rfl

@[simp] theorem leaves_cons (n : Node) (ns : List Node) :
    leaves (n :: ns) = ↑n.leaves + leaves ns := rfl

@[simp] theorem leaves_append (ns ms : List Node) : leaves (ns ++ ms) = leaves ns + leaves ms := by
  simp [leaves]

/-- The values of a list are those of its elements. -/
theorem leaves_each {α : Type} {f : List α → List Node} (hnil : f [] = [])
    (hcons : ∀ a as, f (a :: as) = f [a] ++ f as) (as : List α) :
    leaves (f as) = (as.map fun a => leaves (f [a])).sum := by
  induction as with
  | nil => simp [hnil]
  | cons a as ih => rw [hcons, leaves_append, ih, List.map_cons, List.sum_cons]

theorem leaves_exprNodes (es : List Expr) :
    leaves (exprNodes es) = (es.map fun e => leaves e.nodes).sum := by
  simpa [exprNodes] using leaves_each (f := exprNodes) rfl (fun e es => by simp [exprNodes]) es

theorem leaves_rowNodes (rows : List (List Expr)) :
    leaves (rowNodes rows) = (rows.map fun row => leaves (exprNodes row)).sum := by
  simpa [rowNodes] using leaves_each (f := rowNodes) rfl (fun row rows => by simp [rowNodes]) rows

theorem leaves_branchNodes (bs : List Branch) :
    leaves (branchNodes bs) = (bs.map fun b => leaves (branchNodes [b])).sum :=
  leaves_each rfl (fun b bs => by obtain ⟨condition, result⟩ := b; simp [branchNodes]) bs

theorem leaves_argNodes (args : List Arg) :
    leaves (argNodes args) = (args.map fun a => leaves (argNodes [a])).sum :=
  leaves_each rfl (fun a args => by cases a <;> simp [argNodes]) args

theorem leaves_orderNodes (items : List OrderItem) :
    leaves (orderNodes items) = (items.map fun o => leaves (orderNodes [o])).sum :=
  leaves_each rfl (fun o items => by obtain ⟨key, asc, nulls⟩ := o; simp [orderNodes]) items

theorem leaves_itemNodes (items : List SelectItem) :
    leaves (itemNodes items) = (items.map fun item => leaves (itemNodes [item])).sum :=
  leaves_each rfl (fun item items => by cases item <;> simp [itemNodes]) items

theorem leaves_sourceNodes (sources : List Source) :
    leaves (sourceNodes sources) = (sources.map fun s => leaves (sourceNodes [s])).sum :=
  leaves_each rfl (fun s rest => by obtain ⟨relation, joins⟩ := s; simp [sourceNodes]) sources

theorem leaves_joinNodes (joins : List Join) :
    leaves (joinNodes joins) = (joins.map fun j => leaves (joinNodes [j])).sum :=
  leaves_each rfl (fun j joins => by obtain ⟨relation, kind, condition⟩ := j; simp [joinNodes]) joins

theorem leaves_cteNodes (tables : List Cte) :
    leaves (cteNodes tables) = (tables.map fun t => leaves (cteNodes [t])).sum :=
  leaves_each rfl (fun t tables => by obtain ⟨name, columns, query⟩ := t; simp [cteNodes]) tables

theorem leaves_optionNodes (o : Option Expr) :
    leaves (optionNodes o) = o.elim 0 fun e => leaves e.nodes := by
  cases o <;> simp [optionNodes]

theorem leaves_windowNodes (o : Option Window) :
    leaves (windowNodes o) = o.elim 0 fun w => leaves (windowNodes (some w)) := by
  cases o with
  | none => rw [windowNodes]; rfl
  | some w => rfl

theorem leaves_frameNodes (o : Option Frame) :
    leaves (frameNodes o) = o.elim 0 fun f => leaves (frameNodes (some f)) := by
  cases o with
  | none => rw [frameNodes]; rfl
  | some f => rfl

/-- The values of an option of a column. -/
def ColumnOption.leaves : ColumnOption → List Leaf
  | .default value => value.nodes.flatMap Node.leaves
  | .autoIncrement => [.generated]
  | _ => []

/-- The values of a column. -/
def Column.leaves (c : Column) : List Leaf := .type c.type :: c.options.flatMap ColumnOption.leaves

/-- The values of a statement. -/
def Statement.leaves : Statement → List Leaf
  | .createTable c =>
    c.columns.flatMap Column.leaves ++ ((c.query.map Query.nodes).getD []).flatMap Node.leaves
  | s => s.nodes.flatMap Node.leaves

/-! ## Trees with numbers for their bare parameters -/

/-- A parameter, or the number in the place of a bare one. -/
def Param.fill (v : Nat → String) : Param → Expr
  | .positional k => .literal (.number (v k))
  | p => .param p

section Fill

variable (v : Nat → String)

mutual

/-- An expression. -/
def Expr.fill : Expr → Expr
  | .name n => .name n
  | .path parts => .path parts
  | .literal l => .literal l
  | .param p => p.fill v
  | .binary left op right => .binary left.fill op right.fill
  | .unary op e => .unary op e.fill
  | .call f => .call f.fill
  | .cast e type safe => .cast e.fill type safe
  | .case operand branches otherwise =>
    .case (fillOption operand) (fillBranches branches) (fillOption otherwise)
  | .cond c y n => .cond c.fill y.fill n.fill
  | .between e negated low high => .between e.fill negated low.fill high.fill
  | .inList e items negated => .inList e.fill (fillAll items) negated
  | .inQuery e q negated => .inQuery e.fill q.fill negated
  | .like e p negated anyCase escape => .like e.fill p.fill negated anyCase (fillOption escape)
  | .isNull e negated => .isNull e.fill negated
  | .exists q negated => .exists q.fill negated
  | .subquery q => .subquery q.fill
  | .nested e => .nested e.fill
  | .extract field e => .extract field e.fill
  | .interval e unit => .interval e.fill unit
  | .now kind => .now kind

/-- An expression that may be missing. -/
def fillOption : Option Expr → Option Expr
  | none => none
  | some e => some e.fill

/-- Expressions. -/
def fillAll : List Expr → List Expr
  | [] => []
  | e :: es => e.fill :: fillAll es

/-- A branch. -/
def Branch.fill : Branch → Branch
  | ⟨condition, result⟩ => ⟨condition.fill, result.fill⟩

/-- Branches. -/
def fillBranches : List Branch → List Branch
  | [] => []
  | b :: rest => b.fill :: fillBranches rest

/-- A call. -/
def Call.fill : Call → Call
  | ⟨name, args, distinct, window⟩ => ⟨name, fillArgs args, distinct, fillWindow window⟩

/-- An argument. -/
def Arg.fill : Arg → Arg
  | .star => .star
  | .expr e => .expr e.fill

/-- Arguments. -/
def fillArgs : List Arg → List Arg
  | [] => []
  | a :: rest => a.fill :: fillArgs rest

/-- A window. -/
def Window.fill : Window → Window
  | ⟨partitionBy, order, frame⟩ => ⟨fillAll partitionBy, fillOrder order, fillFrame frame⟩

/-- A window that may be missing. -/
def fillWindow : Option Window → Option Window
  | none => none
  | some w => some w.fill

/-- A key of an ordering. -/
def OrderItem.fill : OrderItem → OrderItem
  | ⟨key, ascending, nullsFirst⟩ => ⟨key.fill, ascending, nullsFirst⟩

/-- The keys of an ordering. -/
def fillOrder : List OrderItem → List OrderItem
  | [] => []
  | o :: rest => o.fill :: fillOrder rest

/-- A window frame. -/
def Frame.fill : Frame → Frame
  | ⟨unit, start, stop⟩ => ⟨unit, start.fill, fillStop stop⟩

/-- A window frame that may be missing. -/
def fillFrame : Option Frame → Option Frame
  | none => none
  | some f => some f.fill

/-- The second end of a window frame. -/
def fillStop : Option Bound → Option Bound
  | none => none
  | some b => some b.fill

/-- An end of a window frame. -/
def Bound.fill : Bound → Bound
  | .unboundedPreceding => .unboundedPreceding
  | .preceding e => .preceding e.fill
  | .currentRow => .currentRow
  | .following e => .following e.fill
  | .unboundedFollowing => .unboundedFollowing

/-- A query. -/
def Query.fill : Query → Query
  | ⟨ctes, body, order, limit⟩ => ⟨fillWith ctes, body.fill, fillOrder order, fillLimit limit⟩

/-- The common table expressions of a query. -/
def With.fill : With → With
  | ⟨recursive, tables⟩ => ⟨recursive, fillCtes tables⟩

/-- The common table expressions of a query that may have none. -/
def fillWith : Option With → Option With
  | none => none
  | some w => some w.fill

/-- A common table expression. -/
def Cte.fill : Cte → Cte
  | ⟨name, columns, query⟩ => ⟨name, columns, query.fill⟩

/-- Common table expressions. -/
def fillCtes : List Cte → List Cte
  | [] => []
  | c :: rest => c.fill :: fillCtes rest

/-- A row limit. -/
def Limit.fill : Limit → Limit
  | ⟨count, offset⟩ => ⟨fillOption count, fillOption offset⟩

/-- A row limit that may be missing. -/
def fillLimit : Option Limit → Option Limit
  | none => none
  | some l => some l.fill

/-- The body of a query. -/
def Body.fill : Body → Body
  | .select s => .select s.fill
  | .combine op quantifier left right => .combine op quantifier left.fill right.fill
  | .query q => .query q.fill
  | .values rows => .values (fillRows rows)

/-- Rows of values. -/
def fillRows : List (List Expr) → List (List Expr)
  | [] => []
  | row :: rest => fillAll row :: fillRows rest

/-- A `SELECT` block. -/
def Select.fill : Select → Select
  | ⟨distinct, items, sources, condition, groupBy, having, qualify⟩ =>
    ⟨fillDistinct distinct, fillItems items, fillSources sources, fillOption condition,
      fillAll groupBy, fillOption having, fillOption qualify⟩

/-- How duplicates are removed. -/
def Distinct.fill : Distinct → Distinct
  | .all => .all
  | .on keys => .on (fillAll keys)

/-- How duplicates are removed, if they are. -/
def fillDistinct : Option Distinct → Option Distinct
  | none => none
  | some d => some d.fill

/-- An item of a projection. -/
def SelectItem.fill : SelectItem → SelectItem
  | .star => .star
  | .qualifiedStar table => .qualifiedStar table
  | .expr e label => .expr e.fill label

/-- The items of a projection. -/
def fillItems : List SelectItem → List SelectItem
  | [] => []
  | item :: rest => item.fill :: fillItems rest

/-- A source. -/
def Source.fill : Source → Source
  | ⟨relation, joins⟩ => ⟨relation.fill, fillJoins joins⟩

/-- Sources. -/
def fillSources : List Source → List Source
  | [] => []
  | s :: rest => s.fill :: fillSources rest

/-- A relation. -/
def Relation.fill : Relation → Relation
  | .table name label => .table name label
  | .derived q label => .derived q.fill label
  | .function f label => .function f.fill label

/-- A join. -/
def Join.fill : Join → Join
  | ⟨relation, kind, condition⟩ => ⟨relation.fill, kind, condition.fill⟩

/-- Joins. -/
def fillJoins : List Join → List Join
  | [] => []
  | j :: rest => j.fill :: fillJoins rest

/-- The condition of a join. -/
def JoinCondition.fill : JoinCondition → JoinCondition
  | .on e => .on e.fill
  | .using columns => .using columns
  | .natural => .natural
  | .none => .none

end

-- The numbers go into the parts of a tree.
attribute [simp] Expr.fill Branch.fill Call.fill Arg.fill Window.fill OrderItem.fill Frame.fill
  Bound.fill Query.fill With.fill Cte.fill Limit.fill Body.fill Select.fill Distinct.fill
  SelectItem.fill Source.fill Relation.fill Join.fill JoinCondition.fill

/-! ### Elements -/

@[simp] theorem fillOption_eq (o : Option Expr) : fillOption v o = o.map (Expr.fill v) := by
  cases o <;> simp [fillOption]

@[simp] theorem fillWindow_eq (o : Option Window) : fillWindow v o = o.map (Window.fill v) := by
  cases o <;> simp [fillWindow]

@[simp] theorem fillFrame_eq (o : Option Frame) : fillFrame v o = o.map (Frame.fill v) := by
  cases o <;> simp [fillFrame]

@[simp] theorem fillStop_eq (o : Option Bound) : fillStop v o = o.map (Bound.fill v) := by
  cases o <;> simp [fillStop]

@[simp] theorem fillWith_eq (o : Option With) : fillWith v o = o.map (With.fill v) := by
  cases o <;> simp [fillWith]

@[simp] theorem fillLimit_eq (o : Option Limit) : fillLimit v o = o.map (Limit.fill v) := by
  cases o <;> simp [fillLimit]

@[simp] theorem fillDistinct_eq (o : Option Distinct) : fillDistinct v o = o.map (Distinct.fill v) := by
  cases o <;> simp [fillDistinct]

@[simp] theorem fillAll_eq (es : List Expr) : fillAll v es = es.map (Expr.fill v) := by
  induction es with
  | nil => simp [fillAll]
  | cons a es ih => simp [fillAll, ih]

@[simp] theorem fillBranches_eq (bs : List Branch) : fillBranches v bs = bs.map (Branch.fill v) := by
  induction bs with
  | nil => simp [fillBranches]
  | cons a bs ih => simp [fillBranches, ih]

@[simp] theorem fillArgs_eq (args : List Arg) : fillArgs v args = args.map (Arg.fill v) := by
  induction args with
  | nil => simp [fillArgs]
  | cons a args ih => simp [fillArgs, ih]

@[simp] theorem fillOrder_eq (items : List OrderItem) : fillOrder v items = items.map (OrderItem.fill v) := by
  induction items with
  | nil => simp [fillOrder]
  | cons a items ih => simp [fillOrder, ih]

@[simp] theorem fillCtes_eq (tables : List Cte) : fillCtes v tables = tables.map (Cte.fill v) := by
  induction tables with
  | nil => simp [fillCtes]
  | cons a tables ih => simp [fillCtes, ih]

@[simp] theorem fillItems_eq (items : List SelectItem) : fillItems v items = items.map (SelectItem.fill v) := by
  induction items with
  | nil => simp [fillItems]
  | cons a items ih => simp [fillItems, ih]

@[simp] theorem fillJoins_eq (joins : List Join) : fillJoins v joins = joins.map (Join.fill v) := by
  induction joins with
  | nil => simp [fillJoins]
  | cons a joins ih => simp [fillJoins, ih]

@[simp] theorem fillSources_eq (sources : List Source) : fillSources v sources = sources.map (Source.fill v) := by
  induction sources with
  | nil => simp [fillSources]
  | cons a sources ih => simp [fillSources, ih]

@[simp] theorem fillRows_eq (rows : List (List Expr)) :
    fillRows v rows = rows.map (List.map (Expr.fill v)) := by
  induction rows with
  | nil => simp [fillRows]
  | cons row rows ih => simp [fillRows, ih]

/-! ### Statements -/

/-- An option of a column. -/
def ColumnOption.fill : ColumnOption → ColumnOption
  | .default value => .default (value.fill v)
  | other => other

/-- A column of a new table. -/
def Column.fill (c : Column) : Column := { c with options := c.options.map (ColumnOption.fill v) }

/-- An assignment of an update. -/
def Assignment.fill (a : Assignment) : Assignment := { a with value := a.value.fill v }

/-- A statement. -/
def Statement.fill : Statement → Statement
  | .query q => .query (q.fill v)
  | .insert i =>
    .insert { i with source := i.source.fill v, returning := i.returning.map (SelectItem.fill v) }
  | .update u =>
    .update { u with
      assignments := u.assignments.map (Assignment.fill v)
      condition := u.condition.map (Expr.fill v)
      returning := u.returning.map (SelectItem.fill v) }
  | .delete d =>
    .delete { d with
      condition := d.condition.map (Expr.fill v)
      returning := d.returning.map (SelectItem.fill v) }
  | .createTable c =>
    .createTable { c with
      columns := c.columns.map (Column.fill v)
      query := c.query.map (Query.fill v) }
  | .createView c => .createView { c with query := c.query.fill v }
  | .drop d => .drop d

end Fill

end SqlDialects
