import SqlDialects.Render.Expr

/-!
# Layout, one character at a time

`Target.indentFrom` copies a text and puts `Target.lead` before the characters that start a line. It
keeps track of quotes only. One equation for each of its moves:

* inside quotes: `indentFrom_inside`, `indentFrom_doubled`, `indentFrom_closing`;
* outside: `indentFrom_opening`, `indentFrom_naming`, `indentFrom_outside`.

`callText_eq` tells the name of a call from the order of its arguments.
-/

namespace SqlDialects

/-- A text inside an interpolated one is itself. -/
@[simp] theorem toString_text (s : String) : toString s = s := rfl

namespace Target

/-- What is put before the character `c`. -/
def lead (pad : List Char) (fresh : Bool) (c : Char) : List Char :=
  if fresh && c != '\n' then pad else []

@[simp] theorem lead_false (pad : List Char) (c : Char) : lead pad false c = [] := rfl

variable {pad : List Char} {q : Char × Char} {fresh : Bool}

@[simp] theorem indentFrom_nil (closing : Option Char) :
    indentFrom pad q closing fresh [] = [] := by
  cases closing <;> rfl

theorem indentFrom_inside {close c : Char} (h : c ≠ close) (cs : List Char) :
    indentFrom pad q (some close) fresh (c :: cs) =
      lead pad fresh c ++ c :: indentFrom pad q (some close) false cs := by
  rw [indentFrom.eq_def]
  simp [lead, h]

theorem indentFrom_doubled (close : Char) (cs : List Char) :
    indentFrom pad q (some close) fresh (close :: close :: cs) =
      lead pad fresh close ++ close :: close :: indentFrom pad q (some close) false cs := by
  rw [indentFrom.eq_def]
  simp [lead]

theorem indentFrom_closing {close : Char} {cs : List Char} (h : cs.head? ≠ some close) :
    indentFrom pad q (some close) fresh (close :: cs) =
      lead pad fresh close ++ close :: indentFrom pad q none false cs := by
  rw [indentFrom.eq_def]
  cases cs with
  | nil => simp [lead]
  | cons d ds =>
    have hd : d ≠ close := fun e => h (by rw [e]; rfl)
    simp [lead, hd]

theorem indentFrom_opening (cs : List Char) :
    indentFrom pad q none fresh ('\'' :: cs) =
      lead pad fresh '\'' ++ '\'' :: indentFrom pad q (some '\'') false cs := by
  rw [indentFrom.eq_def]
  simp [lead]

theorem indentFrom_naming (h : q.1 ≠ '\'') (cs : List Char) :
    indentFrom pad q none fresh (q.1 :: cs) =
      lead pad fresh q.1 ++ q.1 :: indentFrom pad q (some q.2) false cs := by
  rw [indentFrom.eq_def]
  simp [lead, h]

theorem indentFrom_outside {c : Char} (h1 : c ≠ '\'') (h2 : c ≠ q.1) (cs : List Char) :
    indentFrom pad q none fresh (c :: cs) =
      lead pad fresh c ++ c :: indentFrom pad q none (c == '\n') cs := by
  rw [indentFrom.eq_def]
  simp [lead, h1, h2]

/-! ## Calls -/

/-- The name under which a function is called. -/
def calledName (t : Target) (name : String) : String :=
  match t.dialect.spelling? name with
  | some (.rename other) => other
  | some (.swap other) => other
  | _ => name

/-- The arguments of a call in the order of its text. -/
def calledArgs {α : Type} (t : Target) (name : String) (args : List α) : List α :=
  match t.dialect.spelling? name, args with
  | some (.swap _), a :: b :: rest => b :: a :: rest
  | _, args => args

theorem callText_eq (t : Target) (name : String) (distinct : Bool) (args : List String) :
    t.callText name distinct args =
      t.calledName name ++ "(" ++ (if distinct then "DISTINCT " else "") ++
        String.intercalate ", " (t.calledArgs name args) ++ ")" := by
  unfold callText calledName calledArgs
  cases h : t.dialect.spelling? name with
  | none => simp
  | some spelling =>
    cases spelling with
    | rename other => simp
    | position => simp
    | swap other =>
      match args with
      | [] => simp
      | [a] => simp
      | a :: b :: rest => simp

theorem asksPosition_iff {t : Target} {name : String} {args : List Arg} {window : Option Window} :
    t.asksPosition name args window = true ↔
      t.dialect.spelling? name = some .position ∧
        ∃ haystack needle, args = [.expr haystack, .expr needle] ∧ window = none := by
  unfold asksPosition
  constructor
  · intro h
    split at h
    · next hspell => exact ⟨hspell, _, _, rfl, rfl⟩
    · cases h
  · rintro ⟨hspell, haystack, needle, rfl, rfl⟩
    rw [hspell]

theorem hasTop_iff {t : Target} {body : Body} {count offset : Option Expr} :
    t.hasTop body ⟨count, offset⟩ = true ↔
      ∃ fetch, t.dialect.writing.limitStyle = .top fetch ∧ count.isSome = true ∧ offset = none ∧
        body.isSelect = true := by
  unfold hasTop
  cases t.dialect.writing.limitStyle <;> simp [and_assoc]

end Target

end SqlDialects
