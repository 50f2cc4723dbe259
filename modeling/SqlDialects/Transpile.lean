import SqlDialects.Grammar.Statement
import SqlDialects.Registry
import SqlDialects.Render.Statement

/-!
# From one dialect to another

* `Registry.parse` : the statements of a text in a dialect;
* `Registry.transpile` : the statements of a text, written in another dialect;
* `Registry.validate` : whether a text is valid: whether its dialect can write it again.

A call gives every statement or a fault, never a part of the statements.
-/

namespace SqlDialects

/-- The texts of statements in a dialect and a layout, or the first fault. -/
def renderAll (d : Dialect) (layout : Layout) : List Statement → Except Fault (List String)
  | [] => .ok []
  | s :: rest =>
    match render d layout s with
    | .error f => .error f
    | .ok text => (renderAll d layout rest).map (text :: ·)

/-- What a check of a text finds. -/
inductive Verdict where
  | valid
  /-- The wording of the fault and its line and column, if it has a place. -/
  | invalid (message : String) (line column : Option Nat)
deriving DecidableEq, Repr

/-- The verdict of a fault. -/
def Verdict.ofFault (f : Fault) : Verdict :=
  .invalid f.message (f.position?.map Position.line) (f.position?.map Position.column)

/-- Whether a verdict is good. -/
def Verdict.isValid : Verdict → Bool
  | valid => true
  | invalid .. => false

namespace Registry

/-- The statements of `sql` in the dialect named `dialect`. -/
def parse (r : Registry) (sql dialect : String) : Except Fault (List Statement) := do
  SqlDialects.parse (← r.resolve dialect) sql

/-- The statements of `sql`, read in the dialect named `read` and written in the one named
`write`. -/
def transpile (r : Registry) (sql read write : String) (layout : Layout) :
    Except Fault (List String) := do
  let source ← r.resolve read
  let target ← r.resolve write
  renderAll target layout (← SqlDialects.parse source sql)

/-- Whether the dialect named `dialect` reads `sql` and writes it again. -/
def validate (r : Registry) (sql dialect : String) : Verdict :=
  match r.transpile sql dialect dialect {} with
  | .ok _ => .valid
  | .error f => .ofFault f

end Registry

end SqlDialects
