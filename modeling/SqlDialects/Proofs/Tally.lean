import SqlDialects.Grammar.Statement
import SqlDialects.Proofs.Leaves

/-!
# Tokens and the values that they stand for

* `Token.Stands` : the value that a token stands for, behind a number of bare parameters;
* `Tally` : the values for which the tokens between two places stand, in the order of the text, with
  the bare parameters counted;
* `Tally.ordinals` : the bare parameters among them are numbered in the order of the text;
* `fillTokens`, `Input.fill` : tokens with numbers in the places of the bare parameters.
-/

namespace SqlDialects

/-! ## Tokens and values -/

/-- Whether tokens of this kind have a value that a tree keeps. -/
def Token.Kind.isValue : Token.Kind → Bool
  | .number | .string | .param => true
  | _ => false

namespace Token

/-- What stands behind the mark of a parameter. -/
def body (t : Token) : String := .ofList (t.text.toList.drop 1)

/-- Whether `t` is a bare parameter. -/
def isMark (t : Token) : Bool := t.kind == .param && t.body == ""

/-- The parameter that `t` is, behind `n` bare ones. -/
def param (t : Token) (n : Nat) : Param :=
  if t.body == "" then .positional (n + 1)
  else
    match Text.natOf? (Nat.pow 2 32) t.body with
    | some k => .numbered k
    | none => .named t.body

/-- The token `t` stands for the value, behind `n` bare parameters. -/
inductive Stands (t : Token) (n : Nat) : Leaf → Prop
  | number (h : t.kind = .number) : Stands t n (.literal (.number t.text))
  | string (h : t.kind = .string) : Stands t n (.literal (.string t.text))
  | temporal (h : t.kind = .string) (kind : TemporalKind) :
    Stands t n (.literal (.temporal kind t.text))
  | param (h : t.kind = .param) : Stands t n (.param (t.param n))

/-- The token with a number in the place of a bare parameter. -/
def fill (value : String) (t : Token) : Token :=
  if t.isMark then { t with kind := .number, text := value } else t

section Fill

variable {value : String} {t : Token}

theorem isMark_of_kind (h : t.kind ≠ .param) : t.isMark = false := by simp [isMark, h]

theorem kind_of_isMark (h : t.isMark = true) : t.kind = .param := by
  simpa using (Bool.and_eq_true_iff.mp h).1

theorem fill_of_kind (h : t.kind ≠ .param) : t.fill value = t := by
  simp [fill, isMark_of_kind h]

/-- A test that numbers and parameters fail has the same result. -/
theorem test_fill {p : Token → Bool} (hparam : ∀ u : Token, u.kind = .param → p u = false)
    (hnumber : ∀ u : Token, u.kind = .number → p u = false) : p (t.fill value) = p t := by
  unfold fill
  split
  case isTrue h => rw [hparam t (kind_of_isMark h), hnumber _ rfl]
  case isFalse => rfl

@[simp] theorem isBareWord_fill : (t.fill value).isBareWord = t.isBareWord :=
  test_fill (fun u h => by simp [isBareWord, h]) fun u h => by simp [isBareWord, h]

@[simp] theorem isWord_fill (word : String) : (t.fill value).isWord word = t.isWord word :=
  test_fill (p := (isWord · word)) (fun u h => by simp [isWord, isBareWord, h])
    fun u h => by simp [isWord, isBareWord, h]

@[simp] theorem isSymbol_fill (symbol : String) : (t.fill value).isSymbol symbol = t.isSymbol symbol :=
  test_fill (p := (isSymbol · symbol)) (fun u h => by simp [isSymbol, h])
    fun u h => by simp [isSymbol, h]

@[simp] theorem isName_fill : (t.fill value).isName = t.isName :=
  test_fill (fun u h => by simp [isName, h]) fun u h => by simp [isName, h]

@[simp] theorem kind_fill_string : ((t.fill value).kind == .string) = (t.kind == .string) :=
  test_fill (p := (·.kind == .string)) (fun u h => by simp [h]) fun u h => by simp [h]

theorem position_fill : (t.fill value).position = t.position := by
  unfold fill
  split <;> rfl

end Fill

/-- Tokens that a test asks for have no value. -/
theorem isValue_of_isBareWord {t : Token} (h : t.isBareWord = true) : t.kind.isValue = false := by
  cases hk : t.kind <;> simp_all [isBareWord, Kind.isValue]

theorem isValue_of_isWord {t : Token} {word : String} (h : t.isWord word = true) :
    t.kind.isValue = false :=
  isValue_of_isBareWord (Bool.and_eq_true_iff.mp h).1

theorem isValue_of_isSymbol {t : Token} {symbol : String} (h : t.isSymbol symbol = true) :
    t.kind.isValue = false := by
  cases hk : t.kind <;> simp_all [isSymbol, Kind.isValue]

theorem isValue_of_isName {t : Token} (h : t.isName = true) : t.kind.isValue = false := by
  cases hk : t.kind <;> simp_all [isName, Kind.isValue]

end Token

/-- The tokens with numbers in the places of the bare parameters, behind `n` of them. -/
def fillTokens (v : Nat → String) (n : Nat) : List Token → List Token
  | [] => []
  | t :: ts => t.fill (v (n + 1)) :: fillTokens v (n + t.isMark.toNat) ts

@[simp] theorem length_fillTokens (v : Nat → String) (n : Nat) (ts : List Token) :
    (fillTokens v n ts).length = ts.length := by
  induction ts generalizing n with
  | nil => rfl
  | cons t ts ih => simp [fillTokens, ih]

theorem getElem?_fillTokens (v : Nat → String) (n k : Nat) (ts : List Token) :
    (fillTokens v n ts)[k]? =
      ts[k]?.map (Token.fill (v (n + (ts.take k).countP Token.isMark + 1))) := by
  induction ts generalizing n k with
  | nil => rfl
  | cons t ts ih =>
    cases k with
    | zero => simp [fillTokens]
    | succ k =>
      have hcount : n + t.isMark.toNat + (ts.take k).countP Token.isMark =
          n + ((t :: ts).take (k + 1)).countP Token.isMark := by
        rw [List.take_succ_cons, List.countP_cons]
        cases t.isMark
        · simp
        · simp only [Bool.toNat_true, if_true]
          omega
      rw [fillTokens, List.getElem?_cons_succ, List.getElem?_cons_succ, ih, hcount]

namespace Input

/-- The input with numbers in the places of the bare parameters. -/
def fill (v : Nat → String) (i : Input) : Input :=
  { i with tokens := (fillTokens v 0 i.tokens.toList).toArray }

/-- The number of bare parameters before the token `k`. -/
def marks (i : Input) (k : Nat) : Nat := (i.tokens.toList.take k).countP Token.isMark

@[simp] theorem size_fill (v : Nat → String) (i : Input) :
    (i.fill v).tokens.size = i.tokens.size := by
  simp [fill]

theorem token_fill (v : Nat → String) {i : Input} (h : i.finish.kind = .finish) (k : Nat) :
    (i.fill v).token k = (i.token k).fill (v (i.marks k + 1)) := by
  have hget : (i.fill v).tokens[k]? = i.tokens[k]?.map (Token.fill (v (i.marks k + 1))) := by
    simpa [fill, marks] using getElem?_fillTokens v 0 k i.tokens.toList
  unfold token
  rw [hget]
  cases i.tokens[k]? with
  | none => simp [fill, Token.fill_of_kind (t := i.finish) (by simp [h])]
  | some t => rfl

theorem marks_succ {i : Input} {k : Nat} (hk : k < i.tokens.size) :
    i.marks (k + 1) = i.marks k + (i.token k).isMark.toNat := by
  have htoken : i.tokens.toList[k]? = some (i.token k) := by
    simp [token, hk]
  rw [marks, List.take_add_one, htoken, List.countP_append, marks, Option.toList_some,
    List.countP_singleton]
  cases (i.token k).isMark <;> rfl

/-- The tokens from `k` up to `m` are words, with a list in parentheses behind them or without. -/
def IsWordsAndList (i : Input) (k m : Nat) : Prop :=
  ∃ l, k < l ∧ (∀ j, k ≤ j → j < l → (i.token j).isBareWord = true) ∧
    (l = m ∨ l + 1 < m ∧ (i.token l).isSymbol "(" = true ∧ (i.token (m - 1)).isSymbol ")" = true)

/-- The tokens from `k` up to `m` are a type, which has no bare parameters, or the option of a
generated column. -/
def Part (i : Input) (k m : Nat) : Leaf → Prop
  | .type t => i.IsWordsAndList k m ∧ i.marks m = i.marks k ∧
    ∃ c e, Parser.dataType i c = (.ok t, e) ∧ c.index = k ∧ e.index = m
  | .generated => i.IsWordsAndList k m ∧
    ∃ c e, Parser.autoIncrement i c = (.ok true, e) ∧ c.index = k ∧ e.index = m
  | _ => False

end Input

/-- The tokens from `k` up to `k'` stand for the values `ls`, in this order, and the bare parameters
from `n` on are counted up to `n'`. The values among the tokens of a part do not count. -/
inductive Tally (i : Input) : Nat → Nat → Nat → Nat → List Leaf → Prop
  | nil {k n : Nat} : Tally i k n k n []
  | plain {k n k' n' : Nat} {ls : List Leaf} (hk : k < i.tokens.size)
    (ht : (i.token k).kind.isValue = false) (rest : Tally i (k + 1) n k' n' ls) :
    Tally i k n k' n' ls
  | value {k n k' n' : Nat} {l : Leaf} {ls : List Leaf} (hk : k < i.tokens.size)
    (ht : (i.token k).Stands n l)
    (rest : Tally i (k + 1) (n + (i.token k).isMark.toNat) k' n' ls) : Tally i k n k' n' (l :: ls)
  | part {k n m n₁ k' n' : Nat} {l : Leaf} {inside ls : List Leaf} (inner : Tally i k n m n₁ inside)
    (hl : i.Part k m l) (rest : Tally i m n₁ k' n' ls) : Tally i k n k' n' (l :: ls)

namespace Tally

variable {i : Input} {k n m n₁ k' n' : Nat} {ls ls' : List Leaf}

theorem append (h : Tally i k n m n₁ ls) (h' : Tally i m n₁ k' n' ls') :
    Tally i k n k' n' (ls ++ ls') := by
  induction h with
  | nil => exact h'
  | plain hk ht _ ih => exact .plain hk ht (ih h')
  | value hk ht _ ih => exact .value hk ht (ih h')
  | part inner hl _ _ ih => exact .part inner hl (ih h')

/-- The bare parameters are those among the tokens. -/
theorem marks (h : Tally i k n k' n' ls) : n' + i.marks k = n + i.marks k' := by
  induction h with
  | nil => rfl
  | @plain k _ _ _ _ hk ht _ ih =>
    have hmark : (i.token k).isMark = false :=
      Token.isMark_of_kind fun h => by simp [h, Token.Kind.isValue] at ht
    rw [Input.marks_succ hk, hmark] at ih
    exact ih
  | value hk ht _ ih =>
    rw [Input.marks_succ hk] at ih
    omega
  | part _ _ _ ihi ihr => omega

theorem le (h : Tally i k n k' n' ls) : n ≤ n' := by
  induction h with
  | nil => exact Nat.le_refl _
  | plain _ _ _ ih => exact ih
  | value _ _ _ ih => omega
  | part _ _ _ ihi ihr => omega

/-- Constants are no bare parameters. -/
theorem binds_of_literals (h : Tally i k n k' n' ls) (hls : ∀ l ∈ ls, ∃ c, l = .literal c) :
    n' = n := by
  induction h with
  | nil => rfl
  | plain _ _ _ ih => exact ih hls
  | @value k _ _ _ l _ _ ht _ ih =>
    have hmark : (i.token k).isMark = false := by
      refine Token.isMark_of_kind fun hk => ?_
      obtain ⟨c, rfl⟩ := hls l (by simp)
      cases ht <;> simp_all
    rw [hmark] at ih
    exact ih fun l hl => hls l (by simp [hl])
  | @part _ _ _ _ _ _ l _ _ _ hl _ _ _ =>
    obtain ⟨c, rfl⟩ := hls l (by simp)
    exact hl.elim

/-- Bare parameters are numbered in the order of the text, where none of them stands among the tokens
of a part. -/
theorem ordinals (h : Tally i k n k' n' ls)
    (hparts : .generated ∈ ls → ∀ k m, i.Part k m .generated → i.marks m = i.marks k) :
    ls.filterMap Leaf.ordinal? = List.range' (n + 1) (n' - n) := by
  induction h with
  | nil => simp
  | plain _ _ _ ih => exact ih hparts
  | @value k n k' n' l ls hk ht rest ih =>
    have ih := ih fun h => hparts (by simp [h])
    cases ht with
    | number hkind | string hkind | temporal hkind =>
      rw [Token.isMark_of_kind (by simp [hkind])] at ih
      exact ih
    | param hkind =>
      cases hbody : (i.token k).body == "" with
      | true =>
        have hmark : (i.token k).isMark = true := by simp [Token.isMark, hkind, hbody]
        have hle := rest.le
        rw [hmark, Bool.toNat_true] at ih hle
        rw [show n' - n = n' - (n + 1) + 1 by omega, List.range'_succ, ← ih]
        simp [Token.param, hbody, Leaf.ordinal?]
      | false =>
        have hmark : (i.token k).isMark = false := by simp [Token.isMark, hbody]
        rw [hmark] at ih
        rw [← Nat.add_zero n, ← Bool.toNat_false, ← ih, Bool.toNat_false, Nat.add_zero]
        simp only [Token.param, hbody, Bool.false_eq_true, if_false]
        split <;> rfl
  | @part k n m n₁ k' n' l inside ls inner hl rest _ ih =>
    have ih := ih fun h => hparts (by simp [h])
    have hsame : i.marks m = i.marks k := by
      cases l with
      | type t => exact hl.2.1
      | generated => exact hparts (by simp) k m hl
      | literal c => exact hl.elim
      | param p => exact hl.elim
    have hnone : l.ordinal? = none := by
      cases l with
      | param p => exact hl.elim
      | _ => rfl
    have hcount := inner.marks
    obtain rfl : n₁ = n := by omega
    rw [List.filterMap_cons_none hnone, ih]

end Tally

end SqlDialects
