import SqlDialects.Proofs.Primaries

/-!
# Dialects whose operators are read back

* `Dialect.spellsBack` : the symbol of an operator is one token, and is read as the operator with
  the precedence that it is written with;
* `Dialect.callsBack` : a function is read where its name is called;
* `Dialect.Expressive` : both for all operators, with the signs, the conditional and the truth values;
* `expressive_of_mem_builtins` : the dialects of the library.
-/

namespace SqlDialects

/-- The target of a dialect in the common layout. -/
def Dialect.target (d : Dialect) : Target := { dialect := d }

/-- The operator that is read where the dialect has written `op`. -/
def Dialect.readOp (d : Dialect) (op : BinaryOp) : BinaryOp :=
  if op = .concat ∧ d.writing.concat = .plus then .plus else op

/-- Whether the symbol of `op`, if the dialect has one, is read back. -/
def Dialect.spellsBack (d : Dialect) (op : BinaryOp) : Bool :=
  match d.target.binaryForm op with
  | .symbol s =>
    op == .and || op == .or ||
      (s.toList.head?.all (fun c => d.lexical.isMark c && c != '.') &&
        d.lexical.firstOperator s.toList (some ' ') == some s &&
        !([['-', '-'], ['/', '*']].contains (s.toList.take 2)) &&
        !(s == "::") && Shape.isClear (.operator, s) &&
        ((d.reading.operator? s).map fun rule => (rule.op, rule.precedence)) ==
          some (d.readOp op, d.target.opPrecedence op) &&
        decide (0 < d.target.opPrecedence op) && decide (d.target.opPrecedence op < .not ∨
          .not < d.target.opPrecedence op ∧ d.target.opPrecedence op < .unary))
  | _ => true

/-- Whether the function `canonical` is read back where it is called. -/
def Dialect.callsBack (d : Dialect) (canonical : String) : Bool :=
  let w := d.target.functionName canonical
  d.isCallable w && d.isPlainCall w && d.resolves w canonical &&
    !(Text.upper w == "EXISTS") && !(Text.upper w == "UNBOUNDED")

/-- The functions that stand for operators. -/
def operatorFunctions : List String := ["CONCAT", "POWER", "MOD", "LOWER"]

/-- What is asked of a dialect so that its operators are read back. -/
structure Dialect.Expressive (d : Dialect) : Prop extends d.Readable where
  spellings : ∀ op ∈ BinaryOp.all, d.spellsBack op = true
  functions : ∀ c ∈ operatorFunctions, d.callsBack c = true
  lower : d.spelling? "LOWER" = none
  /-- A sign is no part of a longer operator. -/
  signs : ∀ c ∈ ['-', '+', '~'], String.ofList [c] ∈ d.lexical.operators ∧
    d.lexical.isMark c = true ∧
      ∀ op ∈ d.lexical.operators, op.toList.head? = some c → op = String.ofList [c]
  conditional : ∀ w ∈ d.writing.ifFunction, d.isCallable w = true ∧
    Text.upper w ∈ d.reading.ifFunctions ∧
      Text.upper w ∉ ["EXTRACT", "DATEPART", "EXISTS", "UNBOUNDED"]
  keywords : d.writing.booleans = .keyword → d.reading.booleanLiterals = true

theorem callsBack_of_mem_builtins {d : Dialect} (h : d ∈ Dialect.builtins) {c : String} (hc : c ∈ operatorFunctions) :
    d.callsBack c = true := by
  -- the name is looked up once, before it is tested
  have hall : ∀ d ∈ Dialect.builtins, ∀ c ∈ operatorFunctions, ∃ w ∈ ["CONCAT", "POWER", "POW", "MOD", "LOWER"],
      d.target.functionName c = w ∧ (d.isCallable w && d.isPlainCall w && d.resolves w c &&
        !(Text.upper w == "EXISTS") && !(Text.upper w == "UNBOUNDED")) = true := by decide +kernel
  obtain ⟨w, -, hname, hcalls⟩ := hall d h c hc
  rw [Dialect.callsBack, hname]
  exact hcalls

theorem expressive_of_mem_builtins {d : Dialect} (h : d ∈ Dialect.builtins) : d.Expressive where
  toReadable := readable_of_mem_builtins h
  spellings := by revert d; decide +kernel
  functions _ := callsBack_of_mem_builtins h
  lower := by revert d; decide +kernel
  signs := by revert d; decide +kernel
  conditional := by revert d; decide +kernel
  keywords := by revert d; decide +kernel

end SqlDialects
