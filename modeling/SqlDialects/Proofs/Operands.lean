import SqlDialects.Proofs.Reading
import Mathlib.Data.List.Forall2
import Mathlib.Tactic.MkIffOfInductiveProp

/-!
# Operands and the operators between them

* `Ends` : what may follow an expression that binds as tightly as a given precedence;
* `Opens` : tokens that can start an expression and are taken for nothing else;
* `Form` : tokens that are read as an expression of a given precedence, as an operand of whatever
  stands around them;
* `Form.expr` : the expression by itself, where the grammar asks for one;
* `form_binary`, `form_unary`, `form_between`, ... : the tokens of a node from those of its parts.

An operand is read first and then joined to what follows, as long as that binds tighter than the
expression asked for. So a form is stated for every way in which the loop may go on behind it.
-/

namespace SqlDialects

/-! ## Dialects -/

/-- The words that start no name. -/
def reservedWords : List String :=
  ["NOT", "NULL", "CASE", "CAST", "EXISTS", "WHEN", "SELECT", "WITH", "DISTINCT", "ALL", "ON", "BETWEEN"]

/-- What is asked of a dialect so that the tokens of its expressions are read back. -/
@[mk_iff]
structure Dialect.Readable (d : Dialect) : Prop extends d.Legible where
  reserved : ∀ w ∈ reservedWords, w ∈ d.lexical.reserved
  booleans : d.reading.booleanLiterals = true → ∀ w ∈ ["TRUE", "FALSE"], w ∈ d.lexical.reserved
  interval : d.writing.interval.isSome = true → "INTERVAL" ∈ d.lexical.reserved
  now : ∀ w ∈ d.reading.nowWords, w.1 ∈ d.lexical.reserved
  /-- No operator is a word. -/
  symbols : ∀ rule ∈ d.reading.operators, Spelled.isPlainWord (Text.upper rule.symbol) = false

theorem readable_of_mem_builtins {d : Dialect} (h : d ∈ Dialect.builtins) : d.Readable := by
  rw [Dialect.readable_iff]
  refine ⟨legible_of_mem_builtins h, ?_⟩
  -- all at once, so that the words of a dialect are put together once
  revert d
  decide +kernel

/-! ## What follows an expression -/

/-- Whether a token can follow an expression and belongs to none that has just been read. -/
def Shape.isClear (s : Shape) : Bool :=
  !s.isSymbol "(" && !s.isSymbol "." && s.1 != .string && !s.isWord "OVER" && !s.isWord "ROW" &&
    !(s.token.isBareWord && (DateField.ofWord? s.2).isSome)

theorem Shape.isClear_iff {s : Shape} : s.isClear = true ↔
    s.isSymbol "(" = false ∧ s.isSymbol "." = false ∧ s.1 ≠ .string ∧ s.isWord "OVER" = false ∧
      s.isWord "ROW" = false ∧ (s.token.isBareWord = true → DateField.ofWord? s.2 = none) := by
  simp only [isClear, Bool.and_eq_true, Bool.not_eq_true', bne_iff_ne, Bool.and_eq_false_imp,
    Option.isSome_eq_false_iff, Option.isNone_iff_eq_none, and_assoc]

/-- Whether the bare word `w` can follow an expression. -/
def isClearWord (w : String) : Bool :=
  !Text.sameWord w "OVER" && !Text.sameWord w "ROW" && (DateField.ofWord? w).isNone

theorem Shape.isClear_bare (d : Dialect) (w : String) : (d.bare w).isClear = isClearWord w := by
  have hword : (d.bare w).token.isBareWord = true := by
    unfold Dialect.bare Dialect.wordKind
    split <;> rfl
  have hkind : ((d.bare w).1 != .string) = true := by
    unfold Dialect.bare Dialect.wordKind
    split <;> rfl
  have htext : (d.bare w).2 = w := rfl
  simp [isClear, isClearWord, hword, hkind, htext]

/-- The connective at the head of tokens. -/
def nextConnective (d : Dialect) (ts : List Shape) : Option (Parser.Connective × Precedence) :=
  Parser.connective? d.reading (headShape ts).token (nthShape ts 1).token

/-- How tightly the connective at the head of tokens binds. -/
def nextPrecedence (d : Dialect) (ts : List Shape) : Precedence :=
  ((nextConnective d ts).map Prod.snd).getD 0

/-- What may follow an expression that binds as tightly as `p`. An escape belongs to the comparison
before it. -/
structure Ends (d : Dialect) (p : Precedence) (ts : List Shape) : Prop where
  isClear : (headShape ts).isClear = true
  next : nextPrecedence d ts ≤ p
  escape : (headShape ts).isWord "ESCAPE" = true → .comparison < p

theorem Ends.mono {d : Dialect} {p q : Precedence} {ts : List Shape} (h : Ends d p ts)
    (hpq : p ≤ q) : Ends d q ts :=
  ⟨h.isClear, h.next.trans hpq, fun he => lt_of_lt_of_le (h.escape he) hpq⟩

/-- A mark other than an opening parenthesis or a dot ends every expression. -/
theorem Ends.mark (d : Dialect) (p : Precedence) {m : String} (hm : m ≠ "(" ∧ m ≠ ".")
    (ts : List Shape) : Ends d p (.mark m :: ts) := by
  have hkind : ((Shape.mark m).1 != .string) = true := rfl
  have hword : (Shape.mark m).token.isBareWord = false := rfl
  refine ⟨?_, Nat.zero_le p, fun h => by cases h⟩
  simp [Shape.isClear, hm, hkind, hword]

theorem Ends.nil (d : Dialect) (p : Precedence) : Ends d p [] :=
  ⟨rfl, Nat.zero_le p, fun h => by cases h⟩

/-! ## What starts an expression -/

/-- Words that start something else where an expression may stand. -/
def nonstarters : List String := ["WHEN", "SELECT", "WITH", "DISTINCT", "ALL", "ON", "BETWEEN"]

/-- Whether tokens start with names and dots before a star. -/
def starAhead : List Shape → Bool
  | s :: dot :: rest =>
    s.isName && dot.isSymbol "." && ((headShape rest).isSymbol "*" || starAhead rest)
  | _ => false

/-- Whether tokens start like a qualified star or like the end of a window frame. -/
def misleads (ts : List Shape) : Bool :=
  starAhead ts || (headShape ts).isWord "CURRENT" && (nthShape ts 1).isWord "ROW"

/-- Tokens that can start an expression and are taken for nothing else. -/
structure Opens (ts : List Shape) : Prop where
  ne_nil : ts ≠ []
  word : ∀ w ∈ nonstarters, (headShape ts).isWord w = false
  symbol : ∀ m ∈ [")", "*"], (headShape ts).isSymbol m = false
  ahead : ∀ rest, (headShape rest).isClear = true → misleads (ts ++ rest) = false

theorem headShape_append {ts : List Shape} (hts : ts ≠ []) (us : List Shape) :
    headShape (ts ++ us) = headShape ts := by
  cases ts with
  | nil => exact absurd rfl hts
  | cons s ts => rfl

theorem Opens.append {ts us : List Shape} (h : Opens ts) (hne : us ≠ [])
    (hus : (headShape us).isClear = true) : Opens (ts ++ us) where
  ne_nil := by simp [h.ne_nil]
  word w hw := by rw [headShape_append h.ne_nil]; exact h.word w hw
  symbol m hm := by rw [headShape_append h.ne_nil]; exact h.symbol m hm
  ahead rest hrest := by
    rw [List.append_assoc]
    exact h.ahead _ (by rwa [headShape_append hne])

/-- Tokens that start with no name and with none of the words in question. -/
theorem Opens.of_head {s : Shape} {ts : List Shape} (hname : s.isName = false)
    (hword : ∀ w ∈ "CURRENT" :: nonstarters, s.isWord w = false)
    (hsymbol : ∀ m ∈ [")", "*"], s.isSymbol m = false) : Opens (s :: ts) where
  ne_nil := by simp
  word w hw := hword w (by simp [hw])
  symbol := hsymbol
  ahead rest hrest := by
    have hcurrent : s.isWord "CURRENT" = false := hword "CURRENT" (by simp)
    rw [misleads, List.cons_append, headShape_cons, hcurrent, Bool.false_and, Bool.or_false]
    cases hlist : ts ++ rest with
    | nil => rfl
    | cons x xs => simp [starAhead, hname]

/-! ## The loop -/

section Loop

variable {F : Lapses} {d : Dialect} {deeper : Deeper} {least p : Precedence} {e e' r : Expr}
  {ts us vs : List Shape} {c : Parser.Connective}

open ReadsOr (Iterates)

theorem nextConnective_eq {t next : Token} (ht : t.shape = headShape ts)
    (hnext : next.shape = nthShape ts 1) :
    Parser.connective? d.reading t next = nextConnective d ts := by
  rw [nextConnective, ← ht, ← hnext]
  rfl

/-- The loop ends before what does not bind tight enough. -/
theorem moreOperands_stop (h : nextPrecedence d ts ≤ least) :
    ReadsOr F d (Parser.moreOperands deeper least e) ts none ts := by
  refine ReadsOr.rules (ReadsOr.peek fun t ht => ReadsOr.peekNth fun n hn => ?_)
  rw [nextConnective_eq ht hn]
  unfold nextPrecedence at h
  cases hc : nextConnective d ts with
  | none => exact .pure none
  | some cp =>
    rw [hc] at h
    simp only [Option.map_some, Option.getD_some] at h
    simp only [if_pos h]
    exact .pure none

theorem moreOperands_join (hc : nextConnective d ts = some (c, p)) (hp : least < p)
    (hjoin : ReadsOr F d (Parser.joined deeper e c p) ts e' us) :
    ReadsOr F d (Parser.moreOperands deeper least e) ts (some e') us := by
  refine ReadsOr.rules (ReadsOr.peek fun t ht => ReadsOr.peekNth fun n hn => ?_)
  rw [nextConnective_eq ht hn, hc]
  simp only [if_neg (Nat.not_le.mpr hp)]
  exact hjoin.bind (.pure _)

theorem iterates_stop (h : nextPrecedence d ts ≤ least) :
    Iterates F d (Parser.moreOperands deeper least) e ts e ts :=
  ReadsOr.iterates_stop (moreOperands_stop h)

theorem iterates_join (hc : nextConnective d ts = some (c, p)) (hp : least < p)
    (hjoin : ReadsOr F d (Parser.joined deeper e c p) ts e' us) (hlt : us.length < ts.length)
    (hrest : Iterates F d (Parser.moreOperands deeper least) e' us r vs) :
    Iterates F d (Parser.moreOperands deeper least) e ts r vs :=
  ReadsOr.iterates_step (moreOperands_join hc hp hjoin) hlt hrest

end Loop

/-! ## Forms -/

/-- The tokens `ts` are read as the operand `e`, with enough steps for the operands inside. -/
def Operand (d : Dialect) (p : Precedence) (ts : List Shape) (e : Expr) : Prop :=
  ∀ n k rest, Ends d p rest → (ts ++ rest).length < k →
    Parses d (Parser.operandUpTo (Parser.nested n) k) (ts ++ rest) e rest

/-- The tokens `ts` are read as the expression `e`, and the loop goes on behind them. -/
def Chained (d : Dialect) (p : Precedence) (ts : List Shape) (e : Expr) : Prop :=
  ∀ n least rest r us, least < p → Ends d p rest →
    ReadsOr.Iterates .deep d (Parser.moreOperands (Parser.nested n) least) e rest r us →
    Parses d (Parser.subexpr (Parser.nested n) least) (ts ++ rest) r us

/-- Whether expressions of this precedence are operands: negations, unary operators and what binds
tighter. -/
def Precedence.IsOperand (p : Precedence) : Prop := p = .not ∨ .unary ≤ p

instance (p : Precedence) : Decidable p.IsOperand :=
  inferInstanceAs (Decidable (_ ∨ _))

/-- The tokens `ts` are read as the expression `e`, which binds as tightly as `p`. -/
structure Form (d : Dialect) (p : Precedence) (ts : List Shape) (e : Expr) : Prop where
  pos : 0 < p
  opens : Opens ts
  chained : Chained d p ts e
  operand : p.IsOperand → Operand d p ts e

section Forms

variable {d : Dialect} {p q : Precedence} {ts us rest : List Shape} {e : Expr}

theorem Operand.chained (h : Operand d p ts e) {n : Nat} {least : Precedence} {r : Expr}
    (hrest : Ends d p rest)
    (hloop : ReadsOr.Iterates .deep d (Parser.moreOperands (Parser.nested n) least) e rest r us) :
    Parses d (Parser.subexpr (Parser.nested n) least) (ts ++ rest) r us := by
  refine ReadsOr.bind (ReadsOr.remaining ?_) (ReadsOr.iterate hloop)
  exact h n _ rest hrest (Nat.lt_succ_self _)

theorem Operand.form (h : Operand d p ts e) (hpos : 0 < p) (hopens : Opens ts) : Form d p ts e :=
  ⟨hpos, hopens, fun _ _ _ _ _ _ hrest hloop => h.chained hrest hloop, fun _ => h⟩

/-- Where an expression is asked for whose operators bind tighter than `least`, a form of a higher
precedence is read, and an operand also of the same. -/
theorem Form.expr (h : Form d p ts e) {least : Precedence}
    (hleast : least < p ∨ least = p ∧ p.IsOperand) (hrest : Ends d p rest)
    (hnext : nextPrecedence d rest ≤ least) (n : Nat) :
    Parses d ((Parser.nested n).expr least) (ts ++ rest) e rest := by
  cases n with
  | zero => exact .tooDeep
  | succ n =>
    have hstop : ReadsOr.Iterates .deep d (Parser.moreOperands (Parser.nested n) least) e rest e rest :=
      iterates_stop hnext
    rcases hleast with hlt | ⟨rfl, hp⟩
    · exact .level (h.chained n least rest e rest hlt hrest hstop)
    · exact .level ((h.operand hp).chained hrest hstop)

/-- An expression that binds tighter than asked for, before what ends any such. -/
theorem Form.expr_lt (h : Form d p ts e) {least : Precedence} (hleast : least < p)
    (hrest : Ends d least rest) (n : Nat) :
    Parses d ((Parser.nested n).expr least) (ts ++ rest) e rest :=
  h.expr (.inl hleast) (hrest.mono hleast.le) hrest.next n

/-- Any expression, before what ends every expression. -/
theorem Form.expr_zero (h : Form d p ts e) (hrest : Ends d 0 rest) (n : Nat) :
    Parses d ((Parser.nested n).expr 0) (ts ++ rest) e rest :=
  h.expr_lt h.pos hrest n

/-- A form and what a connective joins to it. -/
theorem form_joined {pl : Precedence} {ls us : List Shape} {l : Expr} {c : Parser.Connective}
    (hl : Form d pl ls l) (hpl : p ≤ pl) (hpos : 0 < p) (hp : ¬p.IsOperand) (hne : us ≠ [])
    (hclear : (headShape us).isClear = true) (hescape : (headShape us).isWord "ESCAPE" = false)
    (hnext : ∀ rest, nextConnective d (us ++ rest) = some (c, p))
    (hjoin : ∀ n rest, Ends d p rest →
      Parses d (Parser.joined (Parser.nested n) l c p) (us ++ rest) e rest) :
    Form d p (ls ++ us) e := by
  refine ⟨hpos, hl.opens.append hne hclear, ?_, fun h => absurd h hp⟩
  intro n least rest r vs hleast hrest hloop
  have hends : Ends d pl (us ++ rest) := by
    refine ⟨by rwa [headShape_append hne], ?_, fun h => ?_⟩
    · simpa [nextPrecedence, hnext rest] using hpl
    · rw [headShape_append hne, hescape] at h
      cases h
  have hlength : rest.length < (us ++ rest).length := by
    have := List.length_pos_iff.mpr hne
    rw [List.length_append]
    omega
  rw [List.append_assoc]
  exact hl.chained n least _ r vs (lt_of_lt_of_le hleast hpl) hends
    (iterates_join (hnext rest) hleast (hjoin n rest hrest) hlength hloop)

/-! ### Connectives -/

theorem connective_bare (d : Dialect) (w : String) (next : Token) :
    Parser.connective? d.reading (d.bare w).token next =
      Parser.connective? d.reading ⟨.word, w, .start, false⟩ next := by
  unfold Dialect.bare Dialect.wordKind
  split <;> rfl

theorem nextConnective_and (ts : List Shape) :
    nextConnective d (d.bare "AND" :: ts) = some (.binary .and, .and) :=
  connective_bare d "AND" _

theorem nextConnective_or (ts : List Shape) :
    nextConnective d (d.bare "OR" :: ts) = some (.binary .or, .or) :=
  connective_bare d "OR" _

theorem nextConnective_is (ts : List Shape) :
    nextConnective d (d.bare "IS" :: ts) = some (.is, .comparison) :=
  connective_bare d "IS" _

/-- The tokens of a negation. -/
def Dialect.negation (d : Dialect) (negated : Bool) : List Shape :=
  if negated then [d.bare "NOT"] else []

/-- The words of predicates. -/
def Dialect.predicateWords (d : Dialect) : List String :=
  ["IN", "LIKE", "BETWEEN"] ++ if d.reading.ilike then ["ILIKE"] else []

theorem mem_predicateWords {w : String} (hw : w ∈ d.predicateWords) :
    w = "IN" ∨ w = "LIKE" ∨ w = "BETWEEN" ∨ w = "ILIKE" ∧ d.reading.ilike = true := by
  unfold Dialect.predicateWords at hw
  split at hw
  · next hilike => simpa [hilike] using hw
  · simp only [List.append_nil, List.mem_cons, List.not_mem_nil, or_false] at hw
    tauto

theorem nextConnective_predicate {w : String} (hw : w ∈ d.predicateWords) (negated : Bool)
    (ts : List Shape) :
    nextConnective d (d.negation negated ++ d.bare w :: ts) = some (.predicate, .comparison) := by
  have hwords := mem_predicateWords hw
  cases negated with
  | false =>
    refine (connective_bare d w _).trans ?_
    rcases hwords with rfl | rfl | rfl | ⟨rfl, hilike⟩
    · rfl
    · rfl
    · rfl
    · show (if d.reading.ilike = true then _ else _) = _
      rw [if_pos hilike]
  | true =>
    refine (connective_bare d "NOT" _).trans ?_
    have hnext : ∀ word, (nthShape (d.bare "NOT" :: d.bare w :: ts) 1).token.isWord word =
        Text.sameWord w word := fun word => Shape.isWord_bare d w word
    simp only [Parser.connective?, Dialect.negation, if_true, List.cons_append, List.nil_append,
      hnext]
    rcases hwords with rfl | rfl | rfl | ⟨rfl, hilike⟩
    · rfl
    · rfl
    · rfl
    · simp only [hilike]
      rfl

/-- The words that join something to an expression. -/
def connectiveWords : List String := ["AND", "OR", "IS", "IN", "LIKE", "BETWEEN", "ILIKE", "NOT"]

/-- Whether the bare word `w` ends every expression. -/
def endsExpression (w : String) : Bool :=
  isClearWord w && Spelled.isPlainWord (Text.upper w) && !connectiveWords.contains (Text.upper w) &&
    !Text.sameWord w "ESCAPE"

/-- A word that is no connective joins nothing. -/
theorem nextConnective_other (hd : d.Readable) {w : String}
    (hplain : Spelled.isPlainWord (Text.upper w) = true)
    (hw : connectiveWords.contains (Text.upper w) = false) (ts : List Shape) :
    nextConnective d (d.bare w :: ts) = none := by
  have hoperator : d.reading.operator? w = none := by
    refine List.find?_eq_none.mpr fun rule hrule hsame => ?_
    rw [Text.sameWord_iff] at hsame
    have := hd.symbols rule hrule
    rw [hsame, hplain] at this
    cases this
  refine (connective_bare d w _).trans ?_
  simp only [connectiveWords, List.contains_eq_mem, List.mem_cons, List.not_mem_nil, or_false,
    decide_eq_false_iff_not, not_or] at hw
  simp [Parser.connective?, Token.isBareWord, Parser.operatorAt, hw, hoperator]

theorem Ends.bare (hd : d.Readable) (p : Precedence) {w : String} (hw : endsExpression w = true)
    (ts : List Shape) : Ends d p (d.bare w :: ts) := by
  simp only [endsExpression, Bool.and_eq_true, Bool.not_eq_true'] at hw
  refine ⟨(Shape.isClear_bare d w).trans hw.1.1.1, ?_, fun h => ?_⟩
  · simp [nextPrecedence, nextConnective_other hd hw.1.1.2 hw.1.2]
  · rw [headShape_cons, Shape.isWord_bare, hw.2] at h
    cases h

/-! ### Nodes -/

theorem comparison_not_operand : ¬Precedence.comparison.IsOperand := by decide

/-- Two operands and a binary operator between them. -/
theorem form_binary {pl pr : Precedence} {ls rs : List Shape} {l r : Expr} {op : BinaryOp}
    {s : Shape} (hl : Form d pl ls l) (hr : Form d pr rs r) (hpl : p ≤ pl) (hpr : p < pr)
    (hpos : 0 < p) (hp : ¬p.IsOperand) (hclear : s.isClear = true)
    (hescape : s.isWord "ESCAPE" = false)
    (hnext : ∀ rest, nextConnective d (s :: rest) = some (.binary op, p)) :
    Form d p (ls ++ s :: rs) (.binary l op r) := by
  refine form_joined hl hpl hpos hp (by simp) hclear hescape (fun rest => hnext _) ?_
  intro n rest hrest
  exact .advance fun _ _ => (hr.expr_lt hpr hrest n).bind (.pure _)

theorem form_isNull {pl : Precedence} {ls : List Shape} {l : Expr} (negated : Bool)
    (hl : Form d pl ls l) (hpl : .comparison ≤ pl) :
    Form d .comparison (ls ++ d.bare "IS" :: (d.negation negated ++ [d.bare "NULL"]))
      (.isNull l negated) := by
  refine form_joined hl hpl (by decide) comparison_not_operand (by simp)
    (Shape.isClear_bare d "IS") (Shape.isWord_bare d "IS" "ESCAPE") (fun rest => nextConnective_is _)
    fun n rest hrest => ?_
  refine .advance fun _ _ => ?_
  cases negated with
  | false =>
    refine ReadsOr.bind (ReadsOr.eatWord_no (Shape.isWord_bare d "NULL" "NOT")) ?_
    exact (ReadsOr.expectWord (Shape.isWord_bare d "NULL" "NULL")).bind (.pure _)
  | true =>
    refine ReadsOr.bind (ReadsOr.eatWord (Shape.isWord_bare d "NOT" "NOT")) ?_
    exact (ReadsOr.expectWord (Shape.isWord_bare d "NULL" "NULL")).bind (.pure _)

/-- The negation of a predicate. -/
theorem eatNegation {w : String} (hw : Text.sameWord w "NOT" = false) (negated : Bool) :
    Parses d (Parser.eatWord "NOT") (d.negation negated ++ d.bare w :: ts) negated
      (d.bare w :: ts) := by
  cases negated with
  | false => exact ReadsOr.eatWord_no ((Shape.isWord_bare d w "NOT").trans hw)
  | true => exact ReadsOr.eatWord (Shape.isWord_bare d "NOT" "NOT")

/-- A form and a predicate on it. -/
theorem form_predicate {pl : Precedence} {ls us : List Shape} {l : Expr} {w : String}
    (negated : Bool) (hw : w ∈ d.predicateWords) (hl : Form d pl ls l) (hpl : .comparison ≤ pl)
    (hjoin : ∀ n rest, Ends d .comparison rest →
      Parses d (Parser.predicate (Parser.nested n) l)
        (d.negation negated ++ d.bare w :: (us ++ rest)) e rest) :
    Form d .comparison (ls ++ (d.negation negated ++ d.bare w :: us)) e := by
  refine form_joined (c := .predicate) hl hpl (by decide) comparison_not_operand (by simp) ?_ ?_
    (fun rest => ?_) fun n rest hrest => ?_
  · cases negated with
    | false =>
      refine (Shape.isClear_bare d w).trans ?_
      rcases mem_predicateWords hw with rfl | rfl | rfl | ⟨rfl, -⟩ <;> rfl
    | true => exact Shape.isClear_bare d "NOT"
  · cases negated with
    | false =>
      refine (Shape.isWord_bare d w "ESCAPE").trans ?_
      rcases mem_predicateWords hw with rfl | rfl | rfl | ⟨rfl, -⟩ <;> rfl
    | true => exact Shape.isWord_bare d "NOT" "ESCAPE"
  · rw [List.append_assoc, List.cons_append]
    exact nextConnective_predicate hw negated _
  · rw [List.append_assoc, List.cons_append]
    exact hjoin n rest hrest

theorem form_between {pe pl ph : Precedence} {es ls hs : List Shape} {e low high : Expr}
    (negated : Bool) (he : Form d pe es e) (hl : Form d pl ls low) (hh : Form d ph hs high)
    (hpe : .comparison ≤ pe) (hpl : .comparison < pl) (hph : .comparison < ph) :
    Form d .comparison
      (es ++ (d.negation negated ++ d.bare "BETWEEN" :: (ls ++ d.bare "AND" :: hs)))
      (.between e negated low high) := by
  refine form_predicate negated (by simp [Dialect.predicateWords]) he hpe fun n rest hrest => ?_
  refine (eatNegation rfl negated).bind ?_
  refine ReadsOr.yes (ReadsOr.eatWord (Shape.isWord_bare d "BETWEEN" "BETWEEN")) ?_
  rw [List.append_assoc, List.cons_append]
  have hand : Ends d .comparison (d.bare "AND" :: (hs ++ rest)) := by
    refine ⟨Shape.isClear_bare d "AND", ?_, fun h => ?_⟩
    · simp only [nextPrecedence, nextConnective_and]
      decide
    · cases (Shape.isWord_bare d "AND" "ESCAPE").symm.trans h
  refine (hl.expr_lt hpl hand n).bind ?_
  refine (ReadsOr.expectWord (Shape.isWord_bare d "AND" "AND")).bind ?_
  exact (hh.expr_lt hph hrest n).bind (.pure _)

/-- The tokens of expressions as elements of a list. -/
def Elements (d : Dialect) (tss : List (List Shape)) (es : List Expr) : Prop :=
  List.Forall₂ (fun ts e => ∃ p, Form d p ts e) tss es

theorem Elements.parses {tss : List (List Shape)} {es : List Expr} (h : Elements d tss es)
    (n : Nat) : List.Forall₂ (fun ts e => ∀ us, Ends d 0 us →
      Parses d ((Parser.nested n).expr 0) (ts ++ us) e us) tss es :=
  h.imp fun _ _ ⟨_, hform⟩ _ hus => hform.expr_zero hus n

theorem Elements.commaSeparated {tss : List (List Shape)} {es : List Expr} (h : Elements d tss es)
    (hne : es ≠ []) (n : Nat) (hrest : Ends d 0 rest)
    (hstop : (headShape rest).isSymbol "," = false) :
    Parses d (Parser.commaSeparated ((Parser.nested n).expr 0)) (betweenCommas tss ++ rest) es
      rest :=
  ReadsOr.commaSeparated hne (h.parses n) (fun us => .mark d 0 (by decide) us) hrest hstop

/-- A query is not next where a form opens. -/
theorem peekQuery_no (h : Opens ts) (us : List Shape) :
    Parses d Parser.peekQuery (ts ++ us) false (ts ++ us) := by
  refine .peek fun t ht => ?_
  rw [headShape_append h.ne_nil] at ht
  have hselect := h.word "SELECT" (by decide)
  have hwith := h.word "WITH" (by decide)
  rw [← ht, Token.isWord_shape] at hselect hwith
  rw [hselect, hwith]
  exact .pure _

theorem form_inList {pe : Precedence} {es : List Shape} {tss : List (List Shape)} {e : Expr}
    {items : List Expr} (negated : Bool) (he : Form d pe es e) (hpe : .comparison ≤ pe)
    (hitems : Elements d tss items) (hne : items ≠ []) :
    Form d .comparison
      (es ++ (d.negation negated ++ d.bare "IN" :: inParens (betweenCommas tss)))
      (.inList e items negated) := by
  refine form_predicate negated (by simp [Dialect.predicateWords]) he hpe fun n rest hrest => ?_
  refine (eatNegation rfl negated).bind ?_
  refine ReadsOr.no (ReadsOr.eatWord_no (Shape.isWord_bare d "IN" "BETWEEN")) ?_
  refine ReadsOr.yes (ReadsOr.eatWord (Shape.isWord_bare d "IN" "IN")) ?_
  rw [inParens, List.cons_append, List.append_assoc, List.singleton_append]
  refine ReadsOr.parenthesized ?_
  cases hitems with
  | nil => exact absurd rfl hne
  | @cons ts e tss items hfirst htail =>
    obtain ⟨p, hform⟩ := hfirst
    have hopens := hform.opens
    have hlist : Elements d (ts :: tss) (e :: items) := .cons ⟨p, hform⟩ htail
    have hquery : Parses d Parser.peekQuery (betweenCommas (ts :: tss) ++ .mark ")" :: rest) false
        (betweenCommas (ts :: tss) ++ .mark ")" :: rest) := by
      rw [betweenCommas, List.append_assoc]
      exact peekQuery_no hopens _
    exact hquery.no ((hlist.commaSeparated (by simp) n (.mark d 0 (by decide) _) rfl).bind (.pure _))

/-- The tokens of an escape clause. -/
def Escape (d : Dialect) (ts : List Shape) : Option Expr → Prop
  | none => ts = []
  | some e => ∃ p us, Form d p us e ∧ .unary ≤ p ∧ ts = d.bare "ESCAPE" :: us

theorem Form.operandFrom (h : Form d p ts e) (hp : p.IsOperand) (hrest : Ends d p rest) (n : Nat) :
    Parses d (Parser.operandFrom (Parser.nested n)) (ts ++ rest) e rest :=
  .remaining (h.operand hp n _ rest hrest (Nat.lt_succ_self _))

/-- What follows a pattern: its escape, or what follows the whole comparison. -/
theorem Escape.ends (hd : d.Readable) {cs : List Shape} {escape : Option Expr}
    (hc : Escape d cs escape) (hp : .comparison < p) (hrest : Ends d .comparison rest) :
    Ends d p (cs ++ rest) ∧ nextPrecedence d (cs ++ rest) ≤ .comparison := by
  cases escape with
  | none =>
    obtain rfl : cs = [] := hc
    exact ⟨hrest.mono hp.le, hrest.next⟩
  | some e =>
    obtain ⟨q, us, -, -, rfl⟩ := hc
    have hnone : nextPrecedence d (d.bare "ESCAPE" :: us ++ rest) = 0 := by
      rw [List.cons_append]
      simp only [nextPrecedence, nextConnective_other hd (w := "ESCAPE") rfl rfl]
      rfl
    rw [hnone]
    exact ⟨⟨Shape.isClear_bare d "ESCAPE", hnone ▸ Nat.zero_le p, fun _ => hp⟩, Nat.zero_le _⟩

theorem Escape.parses {cs : List Shape} {escape : Option Expr} (hc : Escape d cs escape)
    (hrest : Ends d .comparison rest) (n : Nat) :
    Parses d (Parser.optional (Parser.eatWord "ESCAPE") (Parser.operandFrom (Parser.nested n)))
      (cs ++ rest) escape rest := by
  cases escape with
  | none =>
    obtain rfl : cs = [] := hc
    have hno : (headShape rest).isWord "ESCAPE" = false := by
      by_contra h
      exact absurd (hrest.escape (by simpa using h)) (lt_irrefl _)
    exact .optional_no (ReadsOr.eatWord_no hno)
  | some e =>
    obtain ⟨q, us, hform, hq, rfl⟩ := hc
    have hrest' : Ends d q rest := hrest.mono (le_trans (by decide) hq)
    exact .optional (ReadsOr.eatWord (Shape.isWord_bare d "ESCAPE" "ESCAPE"))
      (hform.operandFrom (.inr hq) hrest' n)

theorem form_like (hd : d.Readable) {pe pp : Precedence} {es ps cs : List Shape}
    {e pattern : Expr} {anyCase : Bool} {escape : Option Expr} (negated : Bool)
    (hcase : anyCase = true → d.reading.ilike = true)
    (he : Form d pe es e) (hp : Form d pp ps pattern) (hpe : .comparison ≤ pe)
    (hpp : .comparison < pp) (hc : Escape d cs escape) :
    Form d .comparison
      (es ++ (d.negation negated ++ d.bare (if anyCase then "ILIKE" else "LIKE") :: (ps ++ cs)))
      (.like e pattern negated anyCase escape) := by
  have hword : (if anyCase then "ILIKE" else "LIKE") ∈ d.predicateWords := by
    cases anyCase with
    | false => simp [Dialect.predicateWords]
    | true => simp [Dialect.predicateWords, hcase rfl]
  refine form_predicate negated hword he hpe fun n rest hrest => ?_
  have hrun : Parses d (do
      let pattern ← (Parser.nested n).expr .comparison
      let escape ← Parser.optional (Parser.eatWord "ESCAPE") (Parser.operandFrom (Parser.nested n))
      return Expr.like e pattern negated anyCase escape) (ps ++ cs ++ rest)
      (.like e pattern negated anyCase escape) rest := by
    rw [List.append_assoc]
    obtain ⟨hends, hnext⟩ := hc.ends hd hpp hrest
    exact (hp.expr (.inl hpp) hends hnext n).bind ((hc.parses hrest n).bind (.pure _))
  cases anyCase with
  | false =>
    refine (eatNegation (w := "LIKE") rfl negated).bind ?_
    refine ReadsOr.no (ReadsOr.eatWord_no (Shape.isWord_bare d "LIKE" "BETWEEN")) ?_
    refine ReadsOr.no (ReadsOr.eatWord_no (Shape.isWord_bare d "LIKE" "IN")) ?_
    refine ReadsOr.yes (ReadsOr.eatWord (Shape.isWord_bare d "LIKE" "LIKE")) ?_
    exact (ReadsOr.pure false).bind hrun
  | true =>
    refine (eatNegation (w := "ILIKE") rfl negated).bind ?_
    refine ReadsOr.no (ReadsOr.eatWord_no (Shape.isWord_bare d "ILIKE" "BETWEEN")) ?_
    refine ReadsOr.no (ReadsOr.eatWord_no (Shape.isWord_bare d "ILIKE" "IN")) ?_
    refine ReadsOr.no (ReadsOr.eatWord_no (Shape.isWord_bare d "ILIKE" "LIKE")) ?_
    refine (ReadsOr.expectWord (Shape.isWord_bare d "ILIKE" "ILIKE")).bind ?_
    exact (ReadsOr.pure true).bind hrun

end Forms

end SqlDialects
