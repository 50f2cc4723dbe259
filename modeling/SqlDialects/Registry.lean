import SqlDialects.Dialect.Builtin
import SqlDialects.Fault
import SqlDialects.Text.Blank
import SqlDialects.Text.Distance
import SqlDialects.Text.Lower

/-!
# Registries

* `Registry` : dialects by name;
* `Registry.register`, `Registry.resolve`, `Registry.contains`, `Registry.names`;
* `Registry.builtin` : the registry of the dialects that come with the library.

Names are compared without the blanks around them and in lower case. An unknown name is answered
with the closest known one, if there is one within three edits.
-/

namespace SqlDialects

/-- Dialects by name. -/
structure Registry where
  entries : Table String Dialect
deriving DecidableEq, Repr

namespace Registry

/-- The key under which a name is kept. -/
def normalize (name : String) : String := Text.lower (Text.trim name)

/-- The registry without dialects. -/
def empty : Registry := ⟨[]⟩

/-- The registry with `d` under `name`, in place of an earlier one. -/
def register (r : Registry) (name : String) (d : Dialect) : Registry :=
  let key := normalize name
  ⟨r.entries.insert key (d.named key)⟩

/-- The greatest distance of a suggestion. -/
def suggestionDistance : Nat := 3

/-- The better of two candidates: the closer one, and the first in alphabetical order among those
at one distance. -/
def closer (a b : Nat × String) : Nat × String :=
  if b.1 < a.1 || (b.1 == a.1 && b.2 < a.2) then b else a

/-- The key closest to `key` among `candidates`, within the distance of a suggestion. -/
def closest? (key : String) (candidates : List String) : Option String :=
  let near := (candidates.map fun c => (Text.editDistance key c, c)).filter
    fun e => e.1 ≤ suggestionDistance
  match near with
  | [] => none
  | first :: rest => some (rest.foldl closer first).2

/-- The dialect of a name. -/
def resolve (r : Registry) (name : String) : Except Fault Dialect :=
  let key := normalize name
  match r.entries.get? key with
  | some d => .ok d
  | none => .error (.unknownDialect name (closest? key r.entries.keys))

/-- Whether a name has a dialect. -/
def contains (r : Registry) (name : String) : Bool := (r.entries.get? (normalize name)).isSome

/-- The keys of the dialects in alphabetical order. -/
def names (r : Registry) : List String := r.entries.keys.mergeSort fun a b => a ≤ b

/-- The registry of the dialects that come with the library. -/
def builtin : Registry := Dialect.builtins.foldl (fun r d => r.register d.name d) empty

end Registry

end SqlDialects
