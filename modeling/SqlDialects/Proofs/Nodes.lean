import SqlDialects.Tree.Statement

/-!
# The nodes of a tree

* `Node` : a part of a tree at which a rule can look: an expression, a call, a query, a join, ...;
* `Expr.nodes`, `Query.nodes`, `Statement.nodes` : all nodes of a tree, each before those below it;
* `AllNodes` : a property of all of them, and what it says of lists.

A property of every part of a tree is a property of each element of this list, whatever the depth at
which it stands.
-/

namespace SqlDialects

/-- A part of a tree. -/
inductive Node where
  | expr (e : Expr)
  /-- A call, in an expression or as a source of rows. -/
  | call (f : Call)
  | bound (b : Bound)
  | order (o : OrderItem)
  | query (q : Query)
  | body (b : Body)
  | select (s : Select)
  | relation (r : Relation)
  | join (j : Join)

mutual

/-- The nodes of an expression. -/
def Expr.nodes : Expr → List Node
  | .name n => [.expr (.name n)]
  | .path parts => [.expr (.path parts)]
  | .literal l => [.expr (.literal l)]
  | .param p => [.expr (.param p)]
  | .binary l op r => .expr (.binary l op r) :: (l.nodes ++ r.nodes)
  | .unary op e => .expr (.unary op e) :: e.nodes
  | .call f => .expr (.call f) :: f.nodes
  | .cast e type safe => .expr (.cast e type safe) :: e.nodes
  | .case operand branches otherwise =>
    .expr (.case operand branches otherwise) ::
      (optionNodes operand ++ branchNodes branches ++ optionNodes otherwise)
  | .cond c y n => .expr (.cond c y n) :: (c.nodes ++ y.nodes ++ n.nodes)
  | .between e negated low high =>
    .expr (.between e negated low high) :: (e.nodes ++ low.nodes ++ high.nodes)
  | .inList e items negated => .expr (.inList e items negated) :: (e.nodes ++ exprNodes items)
  | .inQuery e q negated => .expr (.inQuery e q negated) :: (e.nodes ++ q.nodes)
  | .like e p negated anyCase escape =>
    .expr (.like e p negated anyCase escape) :: (e.nodes ++ p.nodes ++ optionNodes escape)
  | .isNull e negated => .expr (.isNull e negated) :: e.nodes
  | .exists q negated => .expr (.exists q negated) :: q.nodes
  | .subquery q => .expr (.subquery q) :: q.nodes
  | .nested e => .expr (.nested e) :: e.nodes
  | .extract field e => .expr (.extract field e) :: e.nodes
  | .interval e unit => .expr (.interval e unit) :: e.nodes
  | .now kind => [.expr (.now kind)]

/-- The nodes of an expression that may be missing. -/
def optionNodes : Option Expr → List Node
  | none => []
  | some e => e.nodes

/-- The nodes of expressions. -/
def exprNodes : List Expr → List Node
  | [] => []
  | e :: es => e.nodes ++ exprNodes es

/-- The nodes of branches. -/
def branchNodes : List Branch → List Node
  | [] => []
  | ⟨condition, result⟩ :: rest => condition.nodes ++ result.nodes ++ branchNodes rest

/-- The nodes of a call. -/
def Call.nodes : Call → List Node
  | ⟨name, args, distinct, window⟩ =>
    .call ⟨name, args, distinct, window⟩ :: (argNodes args ++ windowNodes window)

/-- The nodes of arguments. -/
def argNodes : List Arg → List Node
  | [] => []
  | .star :: rest => argNodes rest
  | .expr e :: rest => e.nodes ++ argNodes rest

/-- The nodes of a window that may be missing. -/
def windowNodes : Option Window → List Node
  | none => []
  | some ⟨partitionBy, order, frame⟩ =>
    exprNodes partitionBy ++ orderNodes order ++ frameNodes frame

/-- The nodes of the keys of an ordering. -/
def orderNodes : List OrderItem → List Node
  | [] => []
  | ⟨key, ascending, nullsFirst⟩ :: rest =>
    .order ⟨key, ascending, nullsFirst⟩ :: (key.nodes ++ orderNodes rest)

/-- The nodes of a window frame that may be missing. -/
def frameNodes : Option Frame → List Node
  | none => []
  | some ⟨_, start, stop⟩ => start.nodes ++ stopNodes stop

/-- The nodes of the second end of a window frame. -/
def stopNodes : Option Bound → List Node
  | none => []
  | some b => b.nodes

/-- The nodes of an end of a window frame. -/
def Bound.nodes : Bound → List Node
  | .unboundedPreceding => [.bound .unboundedPreceding]
  | .preceding e => .bound (.preceding e) :: e.nodes
  | .currentRow => [.bound .currentRow]
  | .following e => .bound (.following e) :: e.nodes
  | .unboundedFollowing => [.bound .unboundedFollowing]

/-- The nodes of a query. -/
def Query.nodes : Query → List Node
  | ⟨ctes, body, order, limit⟩ =>
    .query ⟨ctes, body, order, limit⟩ ::
      (withNodes ctes ++ body.nodes ++ orderNodes order ++ limitNodes limit)

/-- The nodes of the common table expressions of a query. -/
def withNodes : Option With → List Node
  | none => []
  | some ⟨_, tables⟩ => cteNodes tables

/-- The nodes of common table expressions. -/
def cteNodes : List Cte → List Node
  | [] => []
  | ⟨_, _, query⟩ :: rest => query.nodes ++ cteNodes rest

/-- The nodes of a row limit. -/
def limitNodes : Option Limit → List Node
  | none => []
  | some ⟨count, offset⟩ => optionNodes count ++ optionNodes offset

/-- The nodes of the body of a query. -/
def Body.nodes : Body → List Node
  | .select s => .body (.select s) :: s.nodes
  | .combine op quantifier left right =>
    .body (.combine op quantifier left right) :: (left.nodes ++ right.nodes)
  | .query q => .body (.query q) :: q.nodes
  | .values rows => .body (.values rows) :: rowNodes rows

/-- The nodes of rows of values. -/
def rowNodes : List (List Expr) → List Node
  | [] => []
  | row :: rest => exprNodes row ++ rowNodes rest

/-- The nodes of a `SELECT` block. -/
def Select.nodes : Select → List Node
  | ⟨distinct, items, sources, condition, groupBy, having, qualify⟩ =>
    .select ⟨distinct, items, sources, condition, groupBy, having, qualify⟩ ::
      (distinctNodes distinct ++ itemNodes items ++ sourceNodes sources ++ optionNodes condition ++
        exprNodes groupBy ++ optionNodes having ++ optionNodes qualify)

/-- The nodes of the keys by which duplicates are removed. -/
def distinctNodes : Option Distinct → List Node
  | none => []
  | some .all => []
  | some (.on keys) => exprNodes keys

/-- The nodes of the items of a projection. -/
def itemNodes : List SelectItem → List Node
  | [] => []
  | .star :: rest => itemNodes rest
  | .qualifiedStar _ :: rest => itemNodes rest
  | .expr e _ :: rest => e.nodes ++ itemNodes rest

/-- The nodes of sources. -/
def sourceNodes : List Source → List Node
  | [] => []
  | ⟨relation, joins⟩ :: rest => relation.nodes ++ joinNodes joins ++ sourceNodes rest

/-- The nodes of a relation. -/
def Relation.nodes : Relation → List Node
  | .table name label => [.relation (.table name label)]
  | .derived q label => .relation (.derived q label) :: q.nodes
  | .function f label => .relation (.function f label) :: f.nodes

/-- The nodes of joins. -/
def joinNodes : List Join → List Node
  | [] => []
  | ⟨relation, kind, condition⟩ :: rest =>
    .join ⟨relation, kind, condition⟩ ::
      (relation.nodes ++ condition.nodes ++ joinNodes rest)

/-- The nodes of the condition of a join. -/
def JoinCondition.nodes : JoinCondition → List Node
  | .on e => e.nodes
  | .using _ => []
  | .natural => []
  | .none => []

end

/-- An expression is one of its nodes. -/
theorem Expr.mem_nodes (e : Expr) : .expr e ∈ e.nodes := by
  cases e <;> simp only [Expr.nodes, List.mem_cons, true_or]

/-! ## Properties of all nodes -/

/-- All of `ns` have the property `P`. -/
def AllNodes (P : Node → Prop) (ns : List Node) : Prop := ∀ x ∈ ns, P x

section AllNodes

variable {P : Node → Prop}

@[simp] theorem all_nil : AllNodes P [] := by simp [AllNodes]

@[simp] theorem all_cons {x : Node} {ns : List Node} :
    AllNodes P (x :: ns) ↔ P x ∧ AllNodes P ns :=
  List.forall_mem_cons

@[simp] theorem all_append {ns ms : List Node} : AllNodes P (ns ++ ms) ↔ AllNodes P ns ∧ AllNodes P ms :=
  List.forall_mem_append

@[simp] theorem all_flatMap {α : Type} {f : α → List Node} {as : List α} :
    AllNodes P (as.flatMap f) ↔ ∀ a ∈ as, AllNodes P (f a) := by
  simp only [AllNodes, List.mem_flatMap, forall_exists_index, and_imp]
  exact ⟨fun h a ha x hx => h x a ha hx, fun h x a ha hx => h a ha x hx⟩

theorem all_optionNodes {o : Option Expr} : AllNodes P (optionNodes o) ↔ ∀ e ∈ o, AllNodes P e.nodes := by
  cases o <;> simp [optionNodes]

/-- The nodes of a list have a property if those of each element do. -/
theorem all_each {α : Type} {nodes : List α → List Node} (hnil : nodes [] = [])
    (hcons : ∀ a as, nodes (a :: as) = nodes [a] ++ nodes as) {as : List α} :
    AllNodes P (nodes as) ↔ ∀ a ∈ as, AllNodes P (nodes [a]) := by
  induction as with
  | nil => simp [hnil]
  | cons a as ih => rw [hcons, all_append, ih, List.forall_mem_cons]

theorem all_exprNodes {es : List Expr} : AllNodes P (exprNodes es) ↔ ∀ e ∈ es, AllNodes P e.nodes := by
  rw [all_each rfl (fun e es => by simp [exprNodes])]
  simp [exprNodes]

theorem all_rowNodes {rows : List (List Expr)} :
    AllNodes P (rowNodes rows) ↔ ∀ row ∈ rows, AllNodes P (exprNodes row) := by
  rw [all_each rfl (fun row rows => by simp [rowNodes])]
  simp [rowNodes]

theorem all_branchNodes {bs : List Branch} :
    AllNodes P (branchNodes bs) ↔ ∀ b ∈ bs, AllNodes P (branchNodes [b]) :=
  all_each rfl fun b bs => by
    obtain ⟨condition, result⟩ := b
    simp [branchNodes]

theorem all_argNodes {args : List Arg} :
    AllNodes P (argNodes args) ↔ ∀ a ∈ args, AllNodes P (argNodes [a]) :=
  all_each rfl fun a args => by cases a <;> simp [argNodes]

theorem all_orderNodes {items : List OrderItem} :
    AllNodes P (orderNodes items) ↔ ∀ o ∈ items, AllNodes P (orderNodes [o]) :=
  all_each rfl fun o items => by
    obtain ⟨key, ascending, nullsFirst⟩ := o
    simp [orderNodes]

theorem all_itemNodes {items : List SelectItem} :
    AllNodes P (itemNodes items) ↔ ∀ item ∈ items, AllNodes P (itemNodes [item]) :=
  all_each rfl fun item items => by cases item <;> simp [itemNodes]

theorem all_sourceNodes {sources : List Source} :
    AllNodes P (sourceNodes sources) ↔ ∀ source ∈ sources, AllNodes P (sourceNodes [source]) :=
  all_each rfl fun source sources => by
    obtain ⟨relation, joins⟩ := source
    simp [sourceNodes]

theorem all_joinNodes {joins : List Join} :
    AllNodes P (joinNodes joins) ↔ ∀ j ∈ joins, AllNodes P (joinNodes [j]) :=
  all_each rfl fun j joins => by
    obtain ⟨relation, kind, condition⟩ := j
    simp [joinNodes]

theorem all_cteNodes {tables : List Cte} :
    AllNodes P (cteNodes tables) ↔ ∀ table ∈ tables, AllNodes P (cteNodes [table]) :=
  all_each rfl fun table tables => by
    obtain ⟨name, columns, query⟩ := table
    simp [cteNodes]

end AllNodes

/-! ## Statements -/

/-- The nodes of an option of a column. -/
def ColumnOption.nodes : ColumnOption → List Node
  | .default value => value.nodes
  | _ => []

/-- The nodes of a column. -/
def Column.nodes (c : Column) : List Node := c.options.flatMap ColumnOption.nodes

/-- The nodes of a statement. -/
def Statement.nodes : Statement → List Node
  | .query q => q.nodes
  | .insert i => i.source.nodes ++ itemNodes i.returning
  | .update u =>
    u.assignments.flatMap (·.value.nodes) ++ optionNodes u.condition ++ itemNodes u.returning
  | .delete d => optionNodes d.condition ++ itemNodes d.returning
  | .createTable c =>
    c.columns.flatMap Column.nodes ++ (c.query.map Query.nodes).getD []
  | .createView c => c.query.nodes
  | .drop _ => []

end SqlDialects
