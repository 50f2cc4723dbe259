import SqlDialects.Dialect.Builtin
import SqlDialects.Proofs.Nodes
import SqlDialects.Render.Statement

/-!
# What a tree asks of a dialect

* `Node.constructs`, `Statement.constructs` : the constructs that a tree uses, at any depth;
* `Dialect.writes` : whether the writing rules have a form for a construct;
* `Node.isSayable` : whether a dialect can write a node once its parts are written;
* `Dialect.Coherent` : the rules for reading and the rules for writing agree about what there is to
  say, and `coherent_of_mem_builtins`.
-/

namespace SqlDialects

/-! ## Constructs -/

/-- Whether duplicates are removed by keys. -/
def Distinct.isKeyed : Distinct → Bool
  | .on _ => true
  | .all => false

/-- Whether a join names the columns that both sides share. -/
def JoinCondition.isUsing : JoinCondition → Bool
  | .using _ => true
  | _ => false

/-- The constructs of which a node is an instance. -/
def Node.constructs : Node → List Construct
  | .expr (.cast _ _ safe) => if safe then [.tryCast] else []
  | .order o => if o.nullsFirst.isSome then [.nullsOrdering] else []
  | .query q => if q.limit.any (·.offset.isSome) then [.offset] else []
  | .select s =>
    (if s.distinct.any Distinct.isKeyed then [.distinctOn] else []) ++
      if s.qualify.isSome then [.qualify] else []
  | .join j =>
    (if j.condition.isNatural then [.naturalJoin] else []) ++
      (if j.kind = .full then [.fullOuterJoin] else []) ++
      if j.condition.isUsing then [.joinUsing] else []
  | _ => []

/-- The construct of a statement that returns rows. -/
def returningConstructs (items : List SelectItem) : List Construct :=
  if items.isEmpty then [] else [.returning]

/-- The construct of an option of a column. -/
def ColumnOption.constructs : ColumnOption → List Construct
  | .autoIncrement => [.autoIncrement]
  | _ => []

/-- The constructs of a statement itself. -/
def Statement.ownConstructs : Statement → List Construct
  | .insert i => returningConstructs i.returning
  | .update u => returningConstructs u.returning
  | .delete d => returningConstructs d.returning
  | .createTable c =>
    (if c.ifNotExists then [.ifNotExists] else []) ++
      c.columns.flatMap fun column => column.options.flatMap ColumnOption.constructs
  | .drop d =>
    (if d.ifExists then [.ifExists] else []) ++ if d.cascade then [.dropCascade] else []
  | .query _ | .createView _ => []

/-- The constructs that a statement uses anywhere inside it. -/
def Statement.constructs (s : Statement) : List Construct :=
  s.ownConstructs ++ s.nodes.flatMap Node.constructs

/-! ## Writing rules -/

namespace Dialect

/-- Whether the writing rules have a form for a construct. -/
def writes (d : Dialect) (c : Construct) : Bool :=
  match c with
  | .tryCast => d.writing.safeCast.isSome
  | .autoIncrement => d.autoIncrement.isSome
  | .offset => d.writing.limitStyle != .limitOnly && d.writing.limitStyle != .top false
  | other => d.supports other

/-- Whether the current time of a kind has a spelling. -/
def saysNow (d : Dialect) : TemporalKind → Bool
  | .date => d.writing.currentDate.isSome
  | .time => d.writing.currentTime.isSome
  | .timestamp => true

/-- Whether the interval of an amount and a unit has a spelling. -/
def saysInterval (d : Dialect) (amount : Expr) (unit : Option DateField) : Bool :=
  match d.writing.interval, unit, amount with
  | none, _, _ => false
  | some _, some _, _ => true
  | some .quoted, none, e => (Target.quotedAmount? e).isSome
  | some .bare, none, .literal (.string s) => (splitInterval? s).isSome
  | some .bare, none, _ => false

/-- Whether a row limit without an offset has a place: a dialect that knows `TOP` alone needs a count
and one `SELECT` that carries it. -/
def saysLimit (d : Dialect) (body : Body) (l : Limit) : Bool :=
  d.writing.limitStyle != .top false || (l.count.isSome && body.isSelect)

end Dialect

/-- Whether a dialect has a form for a node, its constructs apart. -/
def Node.isSpelled (d : Dialect) : Node → Bool
  | .expr (.param (.named _)) => d.writing.namedParamMark.isSome
  | .expr (.param _) => d.params != .question
  | .expr (.binary _ op _) => Target.binaryForm { dialect := d } op != .none
  | .expr (.extract _ _) => d.writing.extract.isSome
  | .expr (.interval e unit) => d.saysInterval e unit
  | .expr (.now kind) => d.saysNow kind
  | .query q => q.limit.all (d.saysLimit q.body)
  | _ => true

/-- Whether a dialect can write a node, its parts apart. -/
def Node.isSayable (d : Dialect) (x : Node) : Bool :=
  x.constructs.all d.writes && x.isSpelled d

/-- Whether a node is a bind parameter that is counted. -/
def Node.isCounted : Node → Bool
  | .expr (.param (.positional _)) | .expr (.param (.numbered _)) => true
  | _ => false

/-- Whether a node is a bare parameter. -/
def Node.isBareParam : Node → Bool
  | .expr (.param (.positional _)) => true
  | _ => false

theorem Node.isCounted_of_isBareParam {x : Node} (h : x.isBareParam = true) :
    x.isCounted = true := by
  unfold Node.isBareParam at h
  split at h
  · rfl
  · cases h

/-! ## Agreement of the rules -/

/-- The reading rules and the writing rules of a dialect agree about what there is to say. -/
structure Dialect.Coherent (d : Dialect) : Prop where
  refused : ∀ c ∈ d.unsupported, d.writes c = false
  operators : ∀ rule ∈ d.reading.operators, Target.binaryForm { dialect := d } rule.op ≠ .none
  nows : ∀ entry ∈ d.reading.nowWords ++ d.reading.nowFunctions, d.saysNow entry.2 = true
  numbered : d.reading.numberedParams = true → d.params ≠ .question
  named : d.reading.namedParams = true → d.writing.namedParamMark.isSome = true
  /-- An offset is read only where it is written. -/
  offset : (d.reading.offset || (d.reading.limit && d.reading.limitComma)) = true →
    d.writes .offset = true
  /-- Where `TOP` alone limits rows, nothing else is read. -/
  top : d.writing.limitStyle = .top false →
    (d.reading.limit || d.reading.offset || d.reading.fetch) = false

theorem coherent_of_mem_builtins {d : Dialect} (h : d ∈ Dialect.builtins) : d.Coherent where
  refused := by revert d; decide +kernel
  operators := by revert d; decide +kernel
  nows := by revert d; decide +kernel
  numbered := by revert d; decide +kernel
  named := by revert d; decide +kernel
  offset := by revert d; decide +kernel
  top := by revert d; decide +kernel

end SqlDialects
