import Mathlib.Data.List.Basic
import SqlDialects.Proofs.Nodes
import SqlDialects.Proofs.Respelling

/-!
# Trees without conditionals

* `Unconditional` : trees in which no node is a conditional;
* `Respelling.withConditional` : a respelling that spells conditionals otherwise;
* `Statement.respell_unconditional` : what becomes of such a tree does not depend on how conditionals are spelled.
-/

namespace SqlDialects

/-- Whether the node is a conditional. -/
def Node.isConditional : Node → Bool
  | .expr (.cond _ _ _) => true
  | _ => false

/-- None of the nodes is a conditional. -/
abbrev Unconditional (ns : List Node) : Prop := AllNodes (fun x => x.isConditional = false) ns

/-- The respelling with conditionals spelled by a function or not. -/
def Respelling.withConditional (r : Respelling) (b : Bool) : Respelling := { r with conditional := b }

section Trees

variable (r : Respelling) (b : Bool)

mutual

theorem Expr.respell_unconditional : ∀ e : Expr, Unconditional e.nodes →
    e.respell (r.withConditional b) = e.respell r
  | .name _, _ => rfl
  | .path _, _ => rfl
  | .literal _, _ => rfl
  | .param _, _ => rfl
  | .binary left op right, h => by
    obtain ⟨hleft, hright⟩ := all_append.mp (all_cons.mp h).2
    exact congrArg₂ (r.binary left op right) (left.respell_unconditional hleft) (right.respell_unconditional hright)
  | .unary op e, h => congrArg (Expr.unary op) (e.respell_unconditional (all_cons.mp h).2)
  | .call f, h => congrArg Expr.call (f.respell_unconditional (all_cons.mp h).2)
  | .cast e type safe, h => congrArg (Expr.cast · type safe) (e.respell_unconditional (all_cons.mp h).2)
  | .case operand branches otherwise, h => by
    obtain ⟨hbelow, hlast⟩ := all_append.mp (all_cons.mp h).2
    obtain ⟨hfirst, hmiddle⟩ := all_append.mp hbelow
    simp only [Expr.respell, respellOption_unconditional operand hfirst,
      respellBranches_unconditional branches hmiddle, respellOption_unconditional otherwise hlast]
  | .cond c y n, h => absurd (all_cons.mp h).1 (by simp [Node.isConditional])
  | .between e negated low high, h => by
    obtain ⟨hbelow, hlast⟩ := all_append.mp (all_cons.mp h).2
    obtain ⟨hfirst, hmiddle⟩ := all_append.mp hbelow
    simp only [Expr.respell, e.respell_unconditional hfirst, low.respell_unconditional hmiddle,
      high.respell_unconditional hlast]
  | .inList e items negated, h => by
    obtain ⟨he, hitems⟩ := all_append.mp (all_cons.mp h).2
    exact congrArg₂ (Expr.inList · · negated) (e.respell_unconditional he) (respellAll_unconditional items hitems)
  | .inQuery e q negated, h => by
    obtain ⟨he, hq⟩ := all_append.mp (all_cons.mp h).2
    exact congrArg₂ (Expr.inQuery · · negated) (e.respell_unconditional he) (q.respell_unconditional hq)
  | .like e p negated anyCase escape, h => by
    obtain ⟨hbelow, hlast⟩ := all_append.mp (all_cons.mp h).2
    obtain ⟨hfirst, hmiddle⟩ := all_append.mp hbelow
    simp only [Expr.respell, e.respell_unconditional hfirst, p.respell_unconditional hmiddle,
      respellOption_unconditional escape hlast]
    rfl
  | .isNull e negated, h => congrArg (Expr.isNull · negated) (e.respell_unconditional (all_cons.mp h).2)
  | .exists q negated, h => congrArg (Expr.exists · negated) (q.respell_unconditional (all_cons.mp h).2)
  | .subquery q, h => congrArg Expr.subquery (q.respell_unconditional (all_cons.mp h).2)
  | .nested e, h => e.respell_unconditional (all_cons.mp h).2
  | .extract field e, h => congrArg (Expr.extract field) (e.respell_unconditional (all_cons.mp h).2)
  | .interval e unit, h => congrArg (Expr.interval · unit) (e.respell_unconditional (all_cons.mp h).2)
  | .now _, _ => rfl

theorem respellOption_unconditional : ∀ o : Option Expr, Unconditional (optionNodes o) →
    respellOption (r.withConditional b) o = respellOption r o
  | none, _ => rfl
  | some e, h => congrArg some (e.respell_unconditional h)

theorem respellAll_unconditional : ∀ es : List Expr, Unconditional (exprNodes es) →
    respellAll (r.withConditional b) es = respellAll r es
  | [], _ => rfl
  | e :: es, h => by
    obtain ⟨he, hes⟩ := all_append.mp h
    exact congrArg₂ List.cons (e.respell_unconditional he) (respellAll_unconditional es hes)

theorem respellBranches_unconditional : ∀ bs : List Branch, Unconditional (branchNodes bs) →
    respellBranches (r.withConditional b) bs = respellBranches r bs
  | [], _ => rfl
  | ⟨condition, result⟩ :: rest, h => by
    simp only [branchNodes, all_append] at h
    simp only [respellBranches, condition.respell_unconditional h.1.1, result.respell_unconditional h.1.2,
      respellBranches_unconditional rest h.2]

theorem Call.respell_unconditional : ∀ f : Call, Unconditional f.nodes →
    f.respell (r.withConditional b) = f.respell r
  | ⟨name, args, distinct, window⟩, h => by
    obtain ⟨hargs, hwindow⟩ := all_append.mp (all_cons.mp h).2
    exact congrArg₂ (Call.mk name · distinct ·) (respellArgs_unconditional args hargs)
      (respellWindow_unconditional window hwindow)

theorem respellArgs_unconditional : ∀ args : List Arg, Unconditional (argNodes args) →
    respellArgs (r.withConditional b) args = respellArgs r args
  | [], _ => rfl
  | .star :: rest, h => congrArg (Arg.star :: ·) (respellArgs_unconditional rest h)
  | .expr e :: rest, h => by
    obtain ⟨he, hrest⟩ := all_append.mp h
    exact congrArg₂ (.expr · :: ·) (e.respell_unconditional he) (respellArgs_unconditional rest hrest)

theorem respellWindow_unconditional : ∀ w : Option Window, Unconditional (windowNodes w) →
    respellWindow (r.withConditional b) w = respellWindow r w
  | none, _ => rfl
  | some ⟨partitionBy, order, frame⟩, h => by
    simp only [windowNodes, all_append] at h
    simp only [respellWindow, respellAll_unconditional partitionBy h.1.1, respellOrder_unconditional order h.1.2,
      respellFrame_unconditional frame h.2]

theorem respellOrder_unconditional : ∀ items : List OrderItem, Unconditional (orderNodes items) →
    respellOrder (r.withConditional b) items = respellOrder r items
  | [], _ => rfl
  | ⟨key, ascending, nullsFirst⟩ :: rest, h => by
    obtain ⟨hkey, hrest⟩ := all_append.mp (all_cons.mp h).2
    exact congrArg₂ (OrderItem.mk · ascending nullsFirst :: ·) (key.respell_unconditional hkey)
      (respellOrder_unconditional rest hrest)

theorem respellFrame_unconditional : ∀ f : Option Frame, Unconditional (frameNodes f) →
    respellFrame (r.withConditional b) f = respellFrame r f
  | none, _ => rfl
  | some ⟨unit, start, stop⟩, h => by
    obtain ⟨hstart, hstop⟩ := all_append.mp h
    exact congrArg₂ (some <| Frame.mk unit · ·) (start.respell_unconditional hstart)
      (respellStop_unconditional stop hstop)

theorem respellStop_unconditional : ∀ o : Option Bound, Unconditional (stopNodes o) →
    respellStop (r.withConditional b) o = respellStop r o
  | none, _ => rfl
  | some x, h => congrArg some (x.respell_unconditional h)

theorem Bound.respell_unconditional : ∀ x : Bound, Unconditional x.nodes →
    x.respell (r.withConditional b) = x.respell r
  | .unboundedPreceding, _ => rfl
  | .preceding e, h => congrArg Bound.preceding (e.respell_unconditional (all_cons.mp h).2)
  | .currentRow, _ => rfl
  | .following e, h => congrArg Bound.following (e.respell_unconditional (all_cons.mp h).2)
  | .unboundedFollowing, _ => rfl

theorem Query.respell_unconditional : ∀ q : Query, Unconditional q.nodes →
    q.respell (r.withConditional b) = q.respell r
  | ⟨ctes, body, order, limit⟩, h => by
    simp only [Query.nodes, all_cons, all_append] at h
    simp only [Query.respell, respellWith_unconditional ctes h.2.1.1.1, body.respell_unconditional h.2.1.1.2,
      respellOrder_unconditional order h.2.1.2, respellLimit_unconditional limit h.2.2]

theorem respellWith_unconditional : ∀ w : Option With, Unconditional (withNodes w) →
    respellWith (r.withConditional b) w = respellWith r w
  | none, _ => rfl
  | some ⟨recursive, tables⟩, h => congrArg (some <| With.mk recursive ·) (respellCtes_unconditional tables h)

theorem respellCtes_unconditional : ∀ tables : List Cte, Unconditional (cteNodes tables) →
    respellCtes (r.withConditional b) tables = respellCtes r tables
  | [], _ => rfl
  | ⟨name, columns, query⟩ :: rest, h => by
    obtain ⟨hquery, hrest⟩ := all_append.mp h
    exact congrArg₂ (Cte.mk (r.name name) (columns.map r.name) · :: ·) (query.respell_unconditional hquery)
      (respellCtes_unconditional rest hrest)

theorem respellLimit_unconditional : ∀ l : Option Limit, Unconditional (limitNodes l) →
    respellLimit (r.withConditional b) l = respellLimit r l
  | none, _ => rfl
  | some ⟨count, offset⟩, h => by
    obtain ⟨hcount, hoffset⟩ := all_append.mp h
    exact congrArg₂ (some <| Limit.mk · ·) (respellOption_unconditional count hcount)
      (respellOption_unconditional offset hoffset)

theorem Body.respell_unconditional : ∀ x : Body, Unconditional x.nodes →
    x.respell (r.withConditional b) = x.respell r
  | .select s, h => congrArg Body.select (s.respell_unconditional (all_cons.mp h).2)
  | .combine op quantifier left right, h => by
    obtain ⟨hleft, hright⟩ := all_append.mp (all_cons.mp h).2
    exact congrArg₂ (Body.combine op quantifier) (left.respell_unconditional hleft)
      (right.respell_unconditional hright)
  | .query q, h => congrArg Body.query (q.respell_unconditional (all_cons.mp h).2)
  | .values rows, h => congrArg Body.values (respellRows_unconditional rows (all_cons.mp h).2)

theorem respellRows_unconditional : ∀ rows : List (List Expr), Unconditional (rowNodes rows) →
    respellRows (r.withConditional b) rows = respellRows r rows
  | [], _ => rfl
  | row :: rest, h => by
    obtain ⟨hrow, hrest⟩ := all_append.mp h
    exact congrArg₂ List.cons (respellAll_unconditional row hrow) (respellRows_unconditional rest hrest)

theorem Select.respell_unconditional : ∀ s : Select, Unconditional s.nodes →
    s.respell (r.withConditional b) = s.respell r
  | ⟨distinct, items, sources, condition, groupBy, having, qualify⟩, h => by
    simp only [Select.nodes, all_cons, all_append] at h
    obtain ⟨-, ⟨⟨⟨⟨⟨hdistinct, hitems⟩, hsources⟩, hcondition⟩, hgroups⟩, hhaving⟩, hqualify⟩ := h
    simp only [Select.respell, respellDistinct_unconditional distinct hdistinct,
      respellItems_unconditional items hitems, respellSources_unconditional sources hsources,
      respellOption_unconditional condition hcondition, respellAll_unconditional groupBy hgroups,
      respellOption_unconditional having hhaving, respellOption_unconditional qualify hqualify]

theorem respellDistinct_unconditional : ∀ o : Option Distinct, Unconditional (distinctNodes o) →
    respellDistinct (r.withConditional b) o = respellDistinct r o
  | none, _ => rfl
  | some .all, _ => rfl
  | some (.on keys), h => congrArg (some <| Distinct.on ·) (respellAll_unconditional keys h)

theorem respellItems_unconditional : ∀ items : List SelectItem, Unconditional (itemNodes items) →
    respellItems (r.withConditional b) items = respellItems r items
  | [], _ => rfl
  | .star :: rest, h => congrArg (SelectItem.star :: ·) (respellItems_unconditional rest h)
  | .qualifiedStar table :: rest, h =>
    congrArg (SelectItem.qualifiedStar (table.map r.name) :: ·) (respellItems_unconditional rest h)
  | .expr e label :: rest, h => by
    obtain ⟨he, hrest⟩ := all_append.mp h
    exact congrArg₂ (.expr · (label.map r.name) :: ·) (e.respell_unconditional he)
      (respellItems_unconditional rest hrest)

theorem respellSources_unconditional : ∀ sources : List Source, Unconditional (sourceNodes sources) →
    respellSources (r.withConditional b) sources = respellSources r sources
  | [], _ => rfl
  | ⟨relation, joins⟩ :: rest, h => by
    simp only [sourceNodes, all_append] at h
    simp only [respellSources, relation.respell_unconditional h.1.1, respellJoins_unconditional joins h.1.2,
      respellSources_unconditional rest h.2]

theorem Relation.respell_unconditional : ∀ x : Relation, Unconditional x.nodes →
    x.respell (r.withConditional b) = x.respell r
  | .table _ _, _ => rfl
  | .derived q label, h =>
    congrArg (Relation.derived · (label.map r.tableAlias)) (q.respell_unconditional (all_cons.mp h).2)
  | .function f label, h =>
    congrArg (Relation.function · (label.map r.tableAlias)) (f.respell_unconditional (all_cons.mp h).2)

theorem respellJoins_unconditional : ∀ joins : List Join, Unconditional (joinNodes joins) →
    respellJoins (r.withConditional b) joins = respellJoins r joins
  | [], _ => rfl
  | ⟨relation, kind, condition⟩ :: rest, h => by
    simp only [joinNodes, all_cons, all_append] at h
    simp only [respellJoins, relation.respell_unconditional h.2.1.1, condition.respell_unconditional h.2.1.2,
      respellJoins_unconditional rest h.2.2]

theorem JoinCondition.respell_unconditional : ∀ c : JoinCondition, Unconditional c.nodes →
    c.respell (r.withConditional b) = c.respell r
  | .on e, h => congrArg JoinCondition.on (e.respell_unconditional h)
  | .using _, _ => rfl
  | .natural, _ => rfl
  | .none, _ => rfl

end

end Trees

/-! ## Statements -/

section Statements

variable {r : Respelling} {b : Bool}

theorem ColumnOption.respell_unconditional {o : ColumnOption} (h : Unconditional o.nodes) :
    o.respell (r.withConditional b) = o.respell r := by
  cases o with
  | default e => simp only [ColumnOption.respell, e.respell_unconditional r b h]
  | notNull | null | primaryKey | unique | autoIncrement => rfl

theorem Column.respell_unconditional {c : Column} (h : Unconditional c.nodes) :
    c.respell (r.withConditional b) = c.respell r := by
  have hoptions : c.options.map (·.respell (r.withConditional b)) = c.options.map (·.respell r) :=
    List.map_congr_left fun o ho => ColumnOption.respell_unconditional (all_flatMap.mp h o ho)
  simp only [Column.respell, hoptions]
  rfl

/-- A statement without conditionals becomes the same, however conditionals are spelled. -/
theorem Statement.respell_unconditional {s : Statement} (h : Unconditional s.nodes) :
    s.respell (r.withConditional b) = s.respell r := by
  cases s with
  | query q => simp only [Statement.respell, q.respell_unconditional r b h]
  | insert x =>
    obtain ⟨hsource, hreturning⟩ := all_append.mp h
    simp only [Statement.respell, x.source.respell_unconditional r b hsource,
      respellItems_unconditional r b x.returning hreturning]
    rfl
  | update x =>
    simp only [Statement.nodes, all_append, all_flatMap] at h
    obtain ⟨⟨hvalues, hcondition⟩, hreturning⟩ := h
    have hassignments : x.assignments.map (fun a =>
        (⟨a.target.map r.name, a.value.respell (r.withConditional b)⟩ : Assignment)) =
          x.assignments.map fun a => ⟨a.target.map r.name, a.value.respell r⟩ :=
      List.map_congr_left fun a ha => by rw [a.value.respell_unconditional r b (hvalues a ha)]
    simp only [Statement.respell, respellOption_unconditional r b x.condition hcondition,
      respellItems_unconditional r b x.returning hreturning]
    exact congrArg (fun as => Statement.update ⟨_, _, as, _, _⟩) hassignments
  | delete x =>
    obtain ⟨hcondition, hreturning⟩ := all_append.mp h
    simp only [Statement.respell, respellOption_unconditional r b x.condition hcondition,
      respellItems_unconditional r b x.returning hreturning]
    rfl
  | createTable x =>
    simp only [Statement.nodes, all_append, all_flatMap] at h
    obtain ⟨hcolumns, hquery⟩ := h
    have hcolumns' : x.columns.map (·.respell (r.withConditional b)) = x.columns.map (·.respell r) :=
      List.map_congr_left fun c hc => Column.respell_unconditional (hcolumns c hc)
    have hquery' : x.query.map (·.respell (r.withConditional b)) = x.query.map (·.respell r) := by
      cases hq : x.query with
      | none => rfl
      | some q =>
        rw [hq] at hquery
        exact congrArg some (q.respell_unconditional r b hquery)
    simp only [Statement.respell, hcolumns', hquery']
    rfl
  | createView x =>
    simp only [Statement.respell, x.query.respell_unconditional r b h]
    rfl
  | drop x => rfl

end Statements

end SqlDialects
