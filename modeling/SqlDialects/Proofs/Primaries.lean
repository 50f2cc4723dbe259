import SqlDialects.Proofs.Operands

/-!
# Expressions without operators around them

* `Primary` : tokens that are read as an expression by themselves, `Primary.form` as a form;
* `form_names`, `form_number`, `form_string`, `form_null`, `form_boolean` : the leaves;
* `form_nested`, `form_unary` : parentheses and unary operators;
* `form_case`, `form_cond` : conditionals;
* `Dialect.meaning?`, `canonicalCall_eq` : the function that a name means;
* `Enclosed`, `form_enclosed`, `form_call` : calls of functions by a word.
-/

namespace SqlDialects

section Primaries

variable {F : Lapses} {d : Dialect} {p : Precedence} {ts us rest : List Shape} {e : Expr}
  {s : Shape}

/-- The tokens `ts` are read as the expression `e` by themselves, with enough steps for the operands
inside. -/
def Primary (d : Dialect) (ts : List Shape) (e : Expr) : Prop :=
  ∀ n k rest, (headShape rest).isClear = true → (ts ++ rest).length ≤ k →
    Parses d (Parser.primary (Parser.nested n) (Parser.operandUpTo (Parser.nested n) k))
      (ts ++ rest) e rest

/-- An operand that starts with no unary operator is an expression by itself. -/
theorem operandWith_primary {deeper : Deeper} {operand : Parser Expr}
    (hnot : (headShape ts).isWord "NOT" = false)
    (hunary : Parser.unaryOp? (headShape ts).token = none)
    (h : ReadsOr F d (Parser.primary deeper operand) ts e us) :
    ReadsOr F d (Parser.operandWith deeper operand) ts e us := by
  refine ReadsOr.no (ReadsOr.eatWord_no hnot) (.peek fun t ht => ?_)
  have hop : Parser.unaryOp? t = none := by
    rw [← hunary, ← ht]
    rfl
  rw [hop]
  exact h

theorem Primary.form (h : Primary d ts e) (hopens : Opens ts)
    (hnot : (headShape ts).isWord "NOT" = false)
    (hunary : Parser.unaryOp? (headShape ts).token = none) : Form d .atom ts e := by
  refine Operand.form (fun n k rest hrest hk => ?_) (by decide) hopens
  cases k with
  | zero => cases hk
  | succ k =>
    have hhead := headShape_append hopens.ne_nil rest
    exact operandWith_primary (by rwa [hhead]) (by rwa [hhead])
      (h n k rest hrest.isClear (Nat.le_of_lt_succ hk))

theorem unaryOp_bare (d : Dialect) (w : String) : Parser.unaryOp? (d.bare w).token = none := by
  unfold Dialect.bare Dialect.wordKind
  split <;> rfl

/-! ### Constants -/

/-- A token that is an expression. -/
theorem primary_token (h : ∀ n k rest, Parses d
      (Parser.primary (Parser.nested n) (Parser.operandUpTo (Parser.nested n) k)) (s :: rest) e rest) :
    Primary d [s] e :=
  fun n k rest _ _ => h n k rest

theorem shape_eq {t : Token} {kind : Token.Kind} {text : String} (h : t.shape = (kind, text)) :
    t.kind = kind ∧ t.text = text :=
  Prod.mk.inj h

/-- A token that is neither a word nor a mark opens an expression. -/
theorem Opens.of_kind {kind : Token.Kind} {text : String}
    (hkind : kind = .number ∨ kind = .string ∨ kind = .param) : Opens ((kind, text) :: ts) := by
  rcases hkind with rfl | rfl | rfl <;>
    exact .of_head rfl (fun _ _ => rfl) (fun _ _ => rfl)

theorem primary_number (w : String) (deeper : Deeper) (operand : Parser Expr) :
    ReadsOr F d (Parser.primary deeper operand) ((.number, w) :: rest) (.literal (.number w))
      rest := by
  refine .peek fun t ht => ?_
  obtain ⟨hkind, htext⟩ := shape_eq ht
  rw [hkind, htext]
  exact .advance fun _ _ => .pure _

theorem form_number (w : String) : Form d .atom [(.number, w)] (.literal (.number w)) :=
  Primary.form (primary_token fun _ _ _ => primary_number w _ _) (.of_kind (.inl rfl)) rfl rfl

theorem form_string (v : String) : Form d .atom [(.string, v)] (.literal (.string v)) := by
  refine Primary.form (primary_token fun n k rest => .peek fun t ht => ?_)
    (.of_kind (.inr (.inl rfl))) rfl rfl
  obtain ⟨hkind, htext⟩ := shape_eq ht
  rw [hkind, htext]
  exact .advance fun _ _ => .pure _

/-! ### Words -/

section Words

variable {deeper : Deeper} {operand : Parser Expr} {w : String} {vs : List Shape}

/-- An expression that starts with a bare word. -/
theorem primary_bare (h : ∀ t : Token, t.shape = d.bare w →
      ReadsOr F d (Parser.wordExpr deeper operand t) (d.bare w :: us) e vs) :
    ReadsOr F d (Parser.primary deeper operand) (d.bare w :: us) e vs := by
  refine .peek fun t ht => ?_
  have hshape : t.shape = d.bare w := ht
  obtain ⟨hkind, -⟩ := shape_eq hshape
  unfold Dialect.wordKind at hkind
  split at hkind <;> · rw [hkind]; exact h t hshape

/-- A form that the word introduces by itself. -/
theorem wordExpr_form {t : Token} {form : Parser Expr} {called : Bool} (ht : t.shape = d.bare w)
    (hcalled : (headShape us).isSymbol "(" = called)
    (hform : Parser.wordForm? deeper operand d (Text.upper w) called = some form)
    (h : ReadsOr F d form (d.bare w :: us) e vs) :
    ReadsOr F d (Parser.wordExpr deeper operand t) (d.bare w :: us) e vs := by
  obtain ⟨-, htext⟩ := shape_eq ht
  refine .dialect (.peekNth fun next hnext => ?_)
  have hopen : next.isSymbol "(" = called := by
    rw [← hcalled, ← Token.isSymbol_shape, hnext]
    rfl
  simp only [htext, hopen, hform]
  exact h

/-- A call of a function by a word. -/
theorem wordExpr_call {t : Token} (ht : t.shape = d.bare w)
    (hform : Parser.wordForm? deeper operand d (Text.upper w) true = none)
    (hname : d.wordKind w = .word ∨ Text.upper w ∈ Parser.keywordFunctions)
    (h : ∀ position, ReadsOr F d (Parser.call deeper operand w position) (.mark "(" :: us) e vs) :
    ReadsOr F d (Parser.wordExpr deeper operand t) (d.bare w :: .mark "(" :: us) e vs := by
  obtain ⟨hkind, htext⟩ := shape_eq ht
  refine .dialect (.peekNth fun next hnext => ?_)
  obtain ⟨hnextKind, hnextText⟩ := shape_eq hnext
  have hopen : next.isSymbol "(" = true := by simp [Token.isSymbol, hnextKind, hnextText]
  have htyped : (next.kind == .string) = false := by rw [hnextKind]; rfl
  have hcall : (t.kind == .word || Parser.keywordFunctions.contains (Text.upper w)) = true := by
    simpa [hkind] using hname
  simp only [htext, hopen, hform, htyped, Bool.and_false, Bool.false_eq_true, if_false, hcall,
    Bool.true_and, if_true]
  exact .advance fun _ _ => .nameFunction (h t.position)

/-- A name, maybe dotted. -/
theorem wordExpr_chain {t : Token} (ht : t.shape = (.word, w))
    (hform : Parser.wordForm? deeper operand d (Text.upper w) false = none)
    (hopen : (headShape us).isSymbol "(" = false) (hstring : (headShape us).1 ≠ .string)
    (h : ReadsOr F d (Parser.chain deeper operand) ((.word, w) :: us) e vs) :
    ReadsOr F d (Parser.wordExpr deeper operand t) ((.word, w) :: us) e vs := by
  obtain ⟨hkind, htext⟩ := shape_eq ht
  refine .dialect (.peekNth fun next hnext => ?_)
  have hnextOpen : next.isSymbol "(" = false := by
    rw [← hopen, ← Token.isSymbol_shape, hnext]
    rfl
  have htyped : (next.kind == .string) = false := by
    have : next.kind = (headShape us).1 := congrArg Prod.fst hnext
    rw [this]
    simpa using hstring
  simp only [htext, hnextOpen, hform, htyped, Bool.and_false, Bool.false_eq_true, if_false,
    Bool.false_and, hkind]
  exact h

/-- Words that introduce nothing by themselves. -/
theorem wordForm_eq_none {word : String} {called : Bool} (hnull : word ≠ "NULL")
    (hbool : d.reading.booleanLiterals = true → word ≠ "TRUE" ∧ word ≠ "FALSE")
    (hcase : word ≠ "CASE") (hinterval : d.writing.interval.isSome = true → word ≠ "INTERVAL")
    (hcalled : called = true → word ≠ "CAST" ∧ word ≠ "EXISTS" ∧ d.writing.safeCast ≠ some word)
    (hnow : called = false → ∀ x ∈ d.reading.nowWords, x.1 ≠ word) :
    Parser.wordForm? deeper operand d word called = none := by
  have hbool' : ((word == "TRUE" || word == "FALSE") && d.reading.booleanLiterals) = false := by
    cases hb : d.reading.booleanLiterals with
    | false => simp
    | true => simp [hbool hb]
  have hinterval' : (word == "INTERVAL" && d.writing.interval.isSome) = false := by
    cases hi : d.writing.interval.isSome with
    | false => simp
    | true => simp [hinterval hi]
  unfold Parser.wordForm?
  cases called with
  | false =>
    have hfind : d.reading.nowWords.find? (·.1 == word) = none := by
      refine List.find?_eq_none.mpr fun x hx => ?_
      simpa using hnow rfl x hx
    simp [hnull, hbool', hcase, hinterval', hfind]
  | true => simp [hnull, hbool', hcase, hinterval', hcalled rfl]

theorem isReserved_of_mem (hw : Text.upper w ∈ d.lexical.reserved) :
    d.lexical.isReserved w = true := by
  simpa [LexicalRules.isReserved] using hw

/-- A word that is not reserved differs from all that are. -/
theorem upper_ne_of_free {x : String} (hw : d.lexical.isReserved w = false)
    (hx : x ∈ d.lexical.reserved) : Text.upper w ≠ x := by
  rintro rfl
  simp [LexicalRules.isReserved, hx] at hw

theorem isWord_free {x : String} (hw : d.lexical.isReserved w = false)
    (hx : Text.upper x ∈ d.lexical.reserved) : Shape.isWord (.word, w) x = false := by
  by_contra h
  rw [Bool.not_eq_false] at h
  exact upper_ne_of_free hw hx ((Text.sameWord_iff w x).mp h)

/-- An unreserved word that is not called introduces nothing. -/
theorem wordForm_free (hd : d.Readable) (hw : d.lexical.isReserved w = false) :
    Parser.wordForm? deeper operand d (Text.upper w) false = none := by
  have hne : ∀ x ∈ d.lexical.reserved, Text.upper w ≠ x := fun x hx => upper_ne_of_free hw hx
  refine wordForm_eq_none (hne _ (hd.reserved _ (by decide))) (fun hb => ?_)
    (hne _ (hd.reserved _ (by decide))) (fun hi => hne _ (hd.interval hi)) (fun h => by cases h)
    fun _ x hx => (hne _ (hd.now x hx)).symm
  exact ⟨hne _ (hd.booleans hb _ (by decide)), hne _ (hd.booleans hb _ (by decide))⟩

end Words

/-- A word that stands for a constant. -/
theorem form_constant {w : String}
    (hstart : ∀ x ∈ "NOT" :: "CURRENT" :: nonstarters, Text.sameWord w x = false)
    (hreserved : d.lexical.isReserved w = true)
    (hform : ∀ deeper operand, ∃ form, Parser.wordForm? deeper operand d (Text.upper w) false =
      some form ∧ ∀ us, Parses d form (d.bare w :: us) e us) :
    Form d .atom [d.bare w] e := by
  have hkind : d.bare w = (.keyword, w) := by simp [Dialect.bare, Dialect.wordKind, hreserved]
  refine Primary.form (fun n k rest hrest _ => ?_) (.of_head ?_ (fun x hx => ?_) fun m _ => ?_) ?_ ?_
  · refine primary_bare fun t ht => ?_
    obtain ⟨form, hsome, hparse⟩ := hform (Parser.nested n) (Parser.operandUpTo (Parser.nested n) k)
    refine wordExpr_form ht ?_ hsome (hparse rest)
    exact (Shape.isClear_iff.mp hrest).1
  · rw [hkind]
    rfl
  · exact (Shape.isWord_bare d w x).trans (hstart x (by simp [hx]))
  · exact Shape.isSymbol_bare d w m
  · exact (Shape.isWord_bare d w "NOT").trans (hstart "NOT" (by simp))
  · exact unaryOp_bare d w

theorem form_null (hd : d.Readable) : Form d .atom [d.bare "NULL"] (.literal .null) := by
  refine form_constant (by decide) (isReserved_of_mem (hd.reserved "NULL" (by decide)))
    fun deeper operand => ⟨_, rfl, fun us => ?_⟩
  exact .advance fun _ _ => .pure _

theorem form_boolean (hd : d.Readable) (hb : d.reading.booleanLiterals = true) (b : Bool) :
    Form d .atom [d.bare (if b then "TRUE" else "FALSE")] (.literal (.boolean b)) := by
  cases b with
  | false =>
    refine form_constant (by decide) (isReserved_of_mem (hd.booleans hb "FALSE" (by decide)))
      fun deeper operand => ⟨_, ?_, fun us => .advance fun _ _ => .pure _⟩
    simp [Parser.wordForm?, hb, show Text.upper "FALSE" = "FALSE" from rfl]
  | true =>
    refine form_constant (by decide) (isReserved_of_mem (hd.booleans hb "TRUE" (by decide)))
      fun deeper operand => ⟨_, ?_, fun us => .advance fun _ _ => .pure _⟩
    simp [Parser.wordForm?, hb, show Text.upper "TRUE" = "TRUE" from rfl]

/-! ### Names -/

/-- A name that is read where an expression stands: in quotes, or not reserved. -/
def Name.IsFree (d : Dialect) (n : Name) : Prop :=
  n.quoted = true ∨ d.lexical.isReserved n.text = false

theorem Name.isName_shape (n : Name) : n.shape.isName = true := by
  unfold Name.shape
  split <;> rfl

theorem Name.isSymbol_shape (n : Name) (m : String) : n.shape.isSymbol m = false := by
  unfold Name.shape
  split <;> rfl

theorem Name.isWord_shape {n : Name} (hn : n.IsFree d) {x : String}
    (hx : Text.upper x ∈ d.lexical.reserved) : n.shape.isWord x = false := by
  unfold Name.shape
  split
  · rfl
  · next hq => exact isWord_free (hn.resolve_left hq) hx

theorem Name.unaryOp_shape (n : Name) : Parser.unaryOp? n.shape.token = none := by
  unfold Name.shape
  split <;> rfl

theorem chainParts {ns : List Name} (hstop : (headShape ts).isSymbol "." = false) :
    ReadsOr F d (Parser.many Parser.chainPart) (behindDots (ns.map Name.shape) ++ ts) ns ts := by
  refine .many ?_
  induction ns with
  | nil =>
    refine ReadsOr.repeats_nil (ReadsOr.bind (ReadsOr.peekSymbol hstop) (.peekNth fun t _ => ?_))
    exact .pure none
  | cons n ns ih =>
    rw [List.map_cons, behindDots_cons, List.cons_append, List.cons_append]
    have hstep : ReadsOr F d Parser.chainPart
        (.mark "." :: n.shape :: (behindDots (ns.map Name.shape) ++ ts)) (some n)
        (behindDots (ns.map Name.shape) ++ ts) := by
      refine ReadsOr.bind (ReadsOr.peekSymbol rfl) (.peekNth fun t ht => ?_)
      have hstar : t.isSymbol "*" = false := by
        rw [← Token.isSymbol_shape, ht]
        exact Name.isSymbol_shape n "*"
      rw [hstar]
      exact .advance fun _ _ => (ReadsOr.name n).bind (.pure (some n))
    refine ReadsOr.repeats_cons hstep ?_ ih
    simp only [List.length_cons]
    omega

/-- Dotted names are taken for no star. -/
theorem starAhead_dots (n : Name) (ns : List Name) (hrest : (headShape rest).isSymbol "." = false) :
    starAhead (n.shape :: (behindDots (ns.map Name.shape) ++ rest)) = false := by
  induction ns generalizing n with
  | nil =>
    cases rest with
    | nil => rfl
    | cons s rest => simp [starAhead, show s.isSymbol "." = false from hrest]
  | cons m ns ih =>
    rw [List.map_cons, behindDots_cons, List.cons_append, List.cons_append, starAhead, ih m]
    simp [Name.isSymbol_shape]

/-- The expression that a name is, or a dotted one. -/
def Expr.ofNames : List Name → Expr
  | [n] => .name n
  | ns => .path ns

theorem reserved_of_mem_nonstarters (hd : d.Readable) {x : String} (hx : x ∈ nonstarters) :
    Text.upper x ∈ d.lexical.reserved := by
  have hsub : ∀ x ∈ nonstarters, Text.upper x ∈ reservedWords := by decide
  exact hd.reserved _ (hsub x hx)

theorem opens_dots (hd : d.Readable) {n : Name} (hn : n.IsFree d) (ns : List Name) :
    Opens (betweenDots ((n :: ns).map Name.shape)) where
  ne_nil := by simp [betweenDots]
  word x hx := Name.isWord_shape hn (reserved_of_mem_nonstarters hd hx)
  symbol m _ := Name.isSymbol_shape n m
  ahead rest hrest := by
    obtain ⟨-, hdot, -, -, hrow, -⟩ := Shape.isClear_iff.mp hrest
    have hstar := starAhead_dots n ns hdot
    have hsecond : (nthShape (n.shape :: (behindDots (ns.map Name.shape) ++ rest)) 1).isWord "ROW" =
        false := by
      cases ns with
      | nil => exact hrow
      | cons m ns => rfl
    simp only [misleads, betweenDots, List.map_cons, List.cons_append, hstar, hsecond,
      Bool.and_false, Bool.or_false]

/-- A name or a dotted name is read where an expression stands. -/
theorem primary_names (hd : d.Readable) {n : Name} (hn : n.IsFree d) (ns : List Name)
    {deeper : Deeper} {operand : Parser Expr} (hrest : (headShape rest).isClear = true) :
    ReadsOr F d (Parser.primary deeper operand) (betweenDots ((n :: ns).map Name.shape) ++ rest)
      (.ofNames (n :: ns)) rest := by
  obtain ⟨hopen, hdot, hstring, -⟩ := Shape.isClear_iff.mp hrest
  have hchain : ReadsOr F d (Parser.chain deeper operand)
      (n.shape :: (behindDots (ns.map Name.shape) ++ rest)) (.ofNames (n :: ns)) rest := by
    refine .peek fun _ _ => (ReadsOr.name n).bind ((chainParts hdot).bind ?_)
    refine (ReadsOr.peekSymbol hopen).bind ?_
    simp only [Bool.false_and, Bool.false_eq_true, if_false]
    cases ns with
    | nil => exact .pure _
    | cons x ns => exact .pure _
  have hnext : (headShape (behindDots (ns.map Name.shape) ++ rest)).isSymbol "(" = false ∧
      (headShape (behindDots (ns.map Name.shape) ++ rest)).1 ≠ .string := by
    cases ns with
    | nil => exact ⟨hopen, hstring⟩
    | cons x ns => exact ⟨rfl, by simp [behindDots, Shape.mark]⟩
  obtain ⟨text, quoted⟩ := n
  cases quoted with
  | true =>
    refine .peek fun t ht => ?_
    obtain ⟨hkind, -⟩ := shape_eq ht
    rw [hkind]
    exact hchain
  | false =>
    refine .peek fun t ht => ?_
    have hshape : t.shape = (.word, text) := ht
    have hfree : d.lexical.isReserved text = false := hn.resolve_left (by simp)
    rw [(shape_eq hshape).1]
    exact wordExpr_chain hshape (wordForm_free hd hfree) hnext.1 hnext.2 hchain

/-- A name or a dotted name as an expression. -/
theorem form_names (hd : d.Readable) {n : Name} (hn : n.IsFree d) (ns : List Name) :
    Form d .atom (betweenDots ((n :: ns).map Name.shape)) (.ofNames (n :: ns)) :=
  Primary.form (fun _ _ _ hrest _ => primary_names hd hn ns hrest) (opens_dots hd hn ns)
    (Name.isWord_shape hn (hd.reserved "NOT" (by decide))) (Name.unaryOp_shape n)

/-! ### Parentheses and unary operators -/

theorem opens_paren (ts : List Shape) : Opens (.mark "(" :: ts) :=
  .of_head rfl (fun _ _ => rfl) (by decide)

/-- An expression in parentheses of its own. -/
theorem form_nested (h : Form d p ts e) : Form d .atom (inParens ts) (.nested e) := by
  refine Primary.form (fun n k rest hrest _ => ?_) (opens_paren _) rfl rfl
  rw [inParens, List.cons_append, List.append_assoc, List.singleton_append]
  refine .peek fun t ht => ?_
  have hshape : t.shape = (.punctuation, "(") := ht
  obtain ⟨hkind, htext⟩ := shape_eq hshape
  rw [hkind]
  simp only [htext, beq_self_eq_true, if_true]
  refine ReadsOr.parenthesized (ReadsOr.no (peekQuery_no h.opens _) ?_)
  exact (h.expr_zero (.mark d 0 (by decide) _) n).bind (.pure _)

/-- The token of a unary operator. -/
def Dialect.unaryShape (d : Dialect) : UnaryOp → Shape
  | .not => d.bare "NOT"
  | .minus => (.operator, "-")
  | .plus => (.operator, "+")
  | .bitNot => (.operator, "~")

theorem isName_bare {w : String} (hw : d.lexical.isReserved w = true) : (d.bare w).isName = false := by
  simp only [Dialect.bare, Dialect.wordKind, hw, if_true]
  rfl

/-- Tokens that start with a reserved word. -/
theorem Opens.bare {w : String} (hw : d.lexical.isReserved w = true)
    (hstart : ∀ x ∈ "CURRENT" :: nonstarters, Text.sameWord w x = false) (ts : List Shape) :
    Opens (d.bare w :: ts) :=
  .of_head (isName_bare hw) (fun x hx => (Shape.isWord_bare d w x).trans (hstart x hx))
    fun m _ => Shape.isSymbol_bare d w m

theorem opens_unary (hd : d.Readable) (op : UnaryOp) (ts : List Shape) :
    Opens (d.unaryShape op :: ts) := by
  cases op with
  | not =>
    have hupper : Text.upper "NOT" = "NOT" := by decide +kernel
    have hreserved : Text.upper "NOT" ∈ d.lexical.reserved := by
      rw [hupper]
      exact hd.reserved "NOT" (by decide +kernel)
    exact .bare (isReserved_of_mem hreserved) (by decide +kernel) ts
  | minus => exact .of_head rfl (fun _ _ => rfl) (by simp only [Dialect.unaryShape]; decide)
  | plus => exact .of_head rfl (fun _ _ => rfl) (by simp only [Dialect.unaryShape]; decide)
  | bitNot => exact .of_head rfl (fun _ _ => rfl) (by simp only [Dialect.unaryShape]; decide)

/-- A unary operator and its operand. Behind a negation a test for rows would be negated itself. -/
theorem form_unary (hd : d.Readable) (op : UnaryOp) (h : Form d p ts e)
    (hp : Target.unaryPrecedence op ≤ p)
    (hexists : op = .not → (headShape ts).isWord "EXISTS" = false) :
    Form d (Target.unaryPrecedence op) (d.unaryShape op :: ts) (.unary op e) := by
  have hoperand : (Target.unaryPrecedence op).IsOperand := by cases op <;> decide
  have hleast : Target.unaryPrecedence op < p ∨ Target.unaryPrecedence op = p ∧ p.IsOperand := by
    rcases Nat.lt_or_eq_of_le hp with hlt | heq
    · exact .inl hlt
    · exact .inr ⟨heq, heq ▸ hoperand⟩
  refine Operand.form (fun n k rest hrest hk => ?_) (by cases op <;> decide) (opens_unary hd op ts)
  cases k with
  | zero => cases hk
  | succ k =>
    have hinner : Parses d ((Parser.nested n).expr (Target.unaryPrecedence op)) (ts ++ rest) e rest :=
      h.expr hleast (hrest.mono hp) hrest.next n
    have hsymbol (hunary : Parser.unaryOp? (d.unaryShape op).token = some op)
        (hu : Target.unaryPrecedence op = .unary) (hnot : (d.unaryShape op).isWord "NOT" = false) :
        Parses d (Parser.operandUpTo (Parser.nested n) (k + 1)) (d.unaryShape op :: ts ++ rest)
          (.unary op e) rest := by
      refine ReadsOr.no (ReadsOr.eatWord_no hnot) (.peek fun t ht => ?_)
      have hop : Parser.unaryOp? t = some op := by
        rw [← hunary, show d.unaryShape op = t.shape from ht.symm]
        rfl
      rw [hop]
      rw [hu] at hinner
      exact .advance fun _ _ => hinner.bind (.pure _)
    cases op with
    | not =>
      refine ReadsOr.yes (ReadsOr.eatWord (Shape.isWord_bare d "NOT" "NOT")) ?_
      have hno : (headShape (ts ++ rest)).isWord "EXISTS" = false := by
        rw [headShape_append h.opens.ne_nil]
        exact hexists rfl
      exact ReadsOr.no (ReadsOr.eatWord_no hno) (hinner.bind (.pure _))
    | minus => exact hsymbol rfl rfl rfl
    | plus => exact hsymbol rfl rfl rfl
    | bitNot => exact hsymbol rfl rfl rfl

/-! ### Conditionals -/

/-- The tokens of an expression that may be missing, behind those of `head`. -/
def Clause (d : Dialect) (head : List Shape) (ts : List Shape) : Option Expr → Prop
  | none => ts = []
  | some e => ∃ p us, Form d p us e ∧ ts = head ++ us

/-- The tokens of the branches of a `CASE` expression. -/
inductive Branches (d : Dialect) : List Shape → List Branch → Prop where
  | nil : Branches d [] []
  | cons {p q : Precedence} {cs rs ts : List Shape} {condition result : Expr} {bs : List Branch}
    (hc : Form d p cs condition) (hr : Form d q rs result) (hrest : Branches d ts bs) :
    Branches d (d.bare "WHEN" :: (cs ++ d.bare "THEN" :: (rs ++ ts))) (⟨condition, result⟩ :: bs)

/-- Behind a result stands a further branch, an alternative or the end. -/
theorem Branches.ends (hd : d.Readable) {bs : List Branch} (h : Branches d ts bs)
    (hrest : Ends d 0 rest) : Ends d 0 (ts ++ rest) := by
  cases h with
  | nil => exact hrest
  | cons => exact .bare hd 0 rfl _

theorem Branches.parses (hd : d.Readable) {bs : List Branch} (h : Branches d ts bs)
    (hrest : Ends d 0 rest) (hwhen : (headShape rest).isWord "WHEN" = false) (n : Nat) :
    Parses d (Parser.many (Parser.optional (Parser.eatWord "WHEN") do
        let condition ← (Parser.nested n).expr 0
        Parser.expectWord "THEN"
        let result ← (Parser.nested n).expr 0
        return (⟨condition, result⟩ : Branch))) (ts ++ rest) bs rest := by
  refine .many ?_
  induction h with
  | nil => exact ReadsOr.repeats_nil (.optional_no (ReadsOr.eatWord_no hwhen))
  | @cons p q cs rs ts condition result bs hc hr htail ih =>
    simp only [List.cons_append, List.append_assoc]
    refine ReadsOr.repeats_cons (ReadsOr.optional (ReadsOr.eatWord (Shape.isWord_bare d "WHEN" "WHEN"))
      ((hc.expr_zero (.bare hd 0 rfl _) n).bind ((ReadsOr.expectWord
        (Shape.isWord_bare d "THEN" "THEN")).bind ((hr.expr_zero (htail.ends hd hrest) n).bind
          (.pure _))))) ?_ ih
    simp only [List.length_cons, List.length_append]
    omega

theorem Clause.ends {head : List Shape} {o : Option Expr} (h : Clause d head ts o)
    (hrest : Ends d 0 rest) (hhead : ∀ us, Ends d 0 (head ++ us)) : Ends d 0 (ts ++ rest) := by
  cases o with
  | none =>
    obtain rfl : ts = [] := h
    exact hrest
  | some e =>
    obtain ⟨p, us, -, rfl⟩ := h
    rw [List.append_assoc]
    exact hhead _

/-- An expression that may be missing, behind a word. -/
theorem Clause.optional {w : String} {o : Option Expr} (h : Clause d [d.bare w] ts o)
    (hrest : Ends d 0 rest) (hno : (headShape rest).isWord w = false) (n : Nat) :
    Parses d (Parser.optional (Parser.eatWord w) ((Parser.nested n).expr 0)) (ts ++ rest) o rest := by
  cases o with
  | none =>
    obtain rfl : ts = [] := h
    exact .optional_no (ReadsOr.eatWord_no hno)
  | some e =>
    obtain ⟨p, us, hform, rfl⟩ := h
    refine .optional (ReadsOr.eatWord ?_) (hform.expr_zero hrest n)
    rw [Shape.isWord_bare, Text.sameWord_refl]

theorem form_case (hd : d.Readable) {ss bs os : List Shape} {subject otherwise : Option Expr}
    {branches : List Branch} (hs : Clause d [] ss subject) (hb : Branches d bs branches)
    (hne : branches ≠ []) (ho : Clause d [d.bare "ELSE"] os otherwise) :
    Form d .atom (d.bare "CASE" :: (ss ++ (bs ++ (os ++ [d.bare "END"]))))
      (.case subject branches otherwise) := by
  have hcase : d.lexical.isReserved "CASE" = true := isReserved_of_mem (hd.reserved "CASE" (by decide))
  refine Primary.form (fun n k rest hrest _ => ?_) (.bare hcase (by decide) _)
    (Shape.isWord_bare d "CASE" "NOT") (unaryOp_bare d "CASE")
  simp only [List.cons_append, List.append_assoc, List.nil_append]
  -- what follows a branch and what follows the alternative
  have hend : Ends d 0 (d.bare "END" :: rest) := .bare hd 0 rfl _
  have helse : Ends d 0 (os ++ d.bare "END" :: rest) := ho.ends hend fun us => .bare hd 0 rfl _
  have hwhen : (headShape (os ++ d.bare "END" :: rest)).isWord "WHEN" = false := by
    cases otherwise with
    | none =>
      obtain rfl : os = [] := ho
      exact Shape.isWord_bare d "END" "WHEN"
    | some e =>
      obtain ⟨p, us, -, rfl⟩ := ho
      exact Shape.isWord_bare d "ELSE" "WHEN"
  have hrun : Parses d (do
      let branches ← Parser.many (Parser.optional (Parser.eatWord "WHEN") do
        let condition ← (Parser.nested n).expr 0
        Parser.expectWord "THEN"
        let result ← (Parser.nested n).expr 0
        return (⟨condition, result⟩ : Branch))
      if branches.isEmpty then Parser.unexpected
      let otherwise ← Parser.optional (Parser.eatWord "ELSE") ((Parser.nested n).expr 0)
      Parser.expectWord "END"
      return Expr.case subject branches otherwise) (bs ++ (os ++ d.bare "END" :: rest))
      (.case subject branches otherwise) rest := by
    refine (hb.parses hd helse hwhen n).bind ?_
    simp only [List.isEmpty_iff, hne, if_false]
    refine (ho.optional hend (Shape.isWord_bare d "END" "ELSE") n).bind ?_
    exact (ReadsOr.expectWord (Shape.isWord_bare d "END" "END")).bind (.pure _)
  refine primary_bare fun t ht => wordExpr_form ht rfl rfl ?_
  refine (ReadsOr.expectWord (Shape.isWord_bare d "CASE" "CASE")).bind ?_
  cases subject with
  | none =>
    obtain rfl : ss = [] := hs
    have hfirst : (headShape (bs ++ (os ++ d.bare "END" :: rest))).isWord "WHEN" = true := by
      cases hb with
      | nil => exact absurd rfl hne
      | cons => exact Shape.isWord_bare d "WHEN" "WHEN"
    exact ReadsOr.yes (ReadsOr.checkWord hfirst) ((ReadsOr.pure none).bind hrun)
  | some e =>
    obtain ⟨p, us, hform, heq⟩ := hs
    obtain rfl : ss = us := heq
    have hfirst : (headShape (ss ++ (bs ++ (os ++ d.bare "END" :: rest)))).isWord "WHEN" = false := by
      rw [headShape_append hform.opens.ne_nil]
      exact hform.opens.word "WHEN" (by decide)
    refine ReadsOr.no (ReadsOr.checkWord hfirst) ?_
    exact (ReadsOr.map some (hform.expr_zero (hb.ends hd helse) n)).bind hrun

/-! ### Calls -/

/-- The words that are no names of functions. -/
def Dialect.formWords (d : Dialect) : List String :=
  reservedWords ++ (if d.reading.booleanLiterals then ["TRUE", "FALSE"] else []) ++
    (if d.writing.interval.isSome then ["INTERVAL"] else []) ++ d.writing.safeCast.toList

/-- Whether the word `w` before a parenthesis names a function. -/
def Dialect.isCallable (d : Dialect) (w : String) : Bool :=
  d.isBare w && !d.formWords.contains (Text.upper w) &&
    (!d.lexical.isReserved w || Parser.keywordFunctions.contains (Text.upper w))

section Calls

variable {deeper : Deeper} {operand : Parser Expr} {w : String} {vs : List Shape}

theorem isWord_bare_callable (hw : d.isCallable w = true) {x : String}
    (hx : Text.upper x ∈ reservedWords) : (d.bare w).isWord x = false := by
  rw [Shape.isWord_bare]
  by_contra h
  rw [Bool.not_eq_false, Text.sameWord_iff] at h
  simp [Dialect.isCallable, Dialect.formWords, h, hx] at hw

theorem wordForm_callable (hw : d.isCallable w = true) :
    Parser.wordForm? deeper operand d (Text.upper w) true = none := by
  simp only [Dialect.isCallable, Bool.and_eq_true, Bool.not_eq_true', List.contains_eq_mem,
    decide_eq_false_iff_not] at hw
  have hne : ∀ x ∈ d.formWords, Text.upper w ≠ x := by
    rintro x hx rfl
    exact hw.1.2 hx
  have hreserved : ∀ x ∈ reservedWords, Text.upper w ≠ x := fun x hx =>
    hne x (by simp [Dialect.formWords, hx])
  refine wordForm_eq_none (hreserved _ (by decide)) (fun hb => ?_) (hreserved _ (by decide))
    (fun hi => ?_) (fun _ => ⟨hreserved _ (by decide), hreserved _ (by decide), fun hs => ?_⟩)
    (fun h => by cases h)
  · exact ⟨hne _ (by simp [Dialect.formWords, hb]), hne _ (by simp [Dialect.formWords, hb])⟩
  · exact hne _ (by simp [Dialect.formWords, hi])
  · exact hne _ (by simp [Dialect.formWords, hs]) rfl

theorem opens_called (hw : d.isCallable w = true) (ts : List Shape) :
    Opens (d.bare w :: .mark "(" :: ts) where
  ne_nil := by simp
  word x hx := isWord_bare_callable hw ((by decide : ∀ x ∈ nonstarters, Text.upper x ∈ reservedWords) x hx)
  symbol m _ := Shape.isSymbol_bare d w m
  ahead rest _ := by simp [misleads, starAhead]

/-- A callable word before a parenthesis is called. -/
theorem primary_called (hw : d.isCallable w = true)
    (h : ∀ position, ReadsOr F d (Parser.call deeper operand w position) (.mark "(" :: us) e vs) :
    ReadsOr F d (Parser.primary deeper operand) (d.bare w :: .mark "(" :: us) e vs := by
  have hname : d.wordKind w = .word ∨ Text.upper w ∈ Parser.keywordFunctions := by
    simp only [Dialect.isCallable, Bool.and_eq_true, Bool.or_eq_true, Bool.not_eq_true',
      List.contains_eq_mem, decide_eq_true_eq] at hw
    rcases hw.2 with hfree | hkey
    · exact .inl (by simp [Dialect.wordKind, hfree])
    · exact .inr hkey
  exact primary_bare fun t ht => wordExpr_call ht (wordForm_callable hw) hname h

/-- A call by a word is an expression by itself. -/
theorem form_called (hw : d.isCallable w = true)
    (h : ∀ n k rest position, (headShape rest).isClear = true →
      (d.bare w :: .mark "(" :: (ts ++ rest)).length ≤ k →
      Parses d (Parser.call (Parser.nested n) (Parser.operandUpTo (Parser.nested n) k) w position)
        (.mark "(" :: (ts ++ rest)) e rest) :
    Form d .atom (d.bare w :: .mark "(" :: ts) e := by
  refine Primary.form (fun n k rest hrest hk => ?_) (opens_called hw ts)
    (isWord_bare_callable hw (by decide)) (unaryOp_bare d w)
  exact primary_called hw fun position => h n k rest position hrest hk

/-- Whether a call of `name` has the common form. -/
def Dialect.isPlainCall (d : Dialect) (name : String) : Bool :=
  let upper := Text.upper name
  !(upper == "EXTRACT" && d.writing.extract == some .standard) &&
    !(upper == "DATEPART" && d.writing.extract == some .datePart) &&
    !d.reading.ifFunctions.contains upper && (d.reading.nowFunctions.find? (·.1 == upper)).isNone

/-- The function that a call of `name` means, and whether its first two arguments are exchanged. -/
def Dialect.meaning? (d : Dialect) (name : String) : Option (String × Bool) :=
  let upper := Text.upper name
  if upper == "POSITION" then some ("STRPOS", false)
  else
    match d.reading.functionAliases.get? upper with
    | some (.rename canonical) => some (canonical, false)
    | some (.swap canonical) => some (canonical, true)
    | none =>
      if knownFunctions.contains upper then some (upper, false)
      else
        match d.reading.unknownFunctions with
        | .accept => some (name, false)
        | .reject => none

/-- The elements of a list with the first two exchanged, or as they are. -/
def swapFirstIf {α : Type} (swapped : Bool) (xs : List α) : List α :=
  if swapped then Parser.swapFirst xs else xs

/-- The meaning of a name is all that is asked of it. -/
theorem canonicalCall_eq (name : String) (args : List Arg) (position : Position) :
    Parser.canonicalCall name args position = (do
      match (← Parser.dialect).meaning? name with
      | some (canonical, swapped) => return (canonical, swapFirstIf swapped args)
      | none => Parser.fail (.unexpected position ["known function"] s!"function '{name}'")) := by
  refine Parser.ext_run fun i c => ?_
  by_cases hposition : (Text.upper name == "POSITION") = true
  · simp [Parser.canonicalCall, Parser.rules, Parser.dialect, Parser.look, Bind.bind, Dialect.meaning?, hposition,
      swapFirstIf]
  cases hget : i.dialect.reading.functionAliases.get? (Text.upper name) with
  | some other =>
    cases other <;> simp [Parser.canonicalCall, Parser.rules, Parser.dialect, Parser.look, Bind.bind,
      Dialect.meaning?, hposition, hget, swapFirstIf]
  | none =>
    by_cases hknown : Text.upper name ∈ knownFunctions
    · simp [Parser.canonicalCall, Parser.rules, Parser.dialect, Parser.look, Bind.bind, Dialect.meaning?, hposition,
        hget, hknown, swapFirstIf]
    · cases hunknown : i.dialect.reading.unknownFunctions <;>
        simp [Parser.canonicalCall, Parser.rules, Parser.dialect, Parser.look, Bind.bind, Dialect.meaning?,
          hposition, hget, hknown, hunknown, swapFirstIf]

theorem canonicalCall_reads {name canonical : String} {swapped : Bool}
    (h : d.meaning? name = some (canonical, swapped)) (args : List Arg) (position : Position) :
    Parses d (Parser.canonicalCall name args position) ts (canonical, swapFirstIf swapped args) ts := by
  rw [canonicalCall_eq]
  refine .dialect ?_
  rw [h]
  exact .pure _

/-- Whether a call of `name` means the function `canonical` with the same arguments. -/
def Dialect.resolves (d : Dialect) (name canonical : String) : Bool :=
  let upper := Text.upper name
  upper != "POSITION" &&
    match d.reading.functionAliases.get? upper with
    | some (.rename other) => other == canonical
    | some (.swap _) => false
    | none =>
      if knownFunctions.contains upper then upper == canonical
      else d.reading.unknownFunctions == .accept && name == canonical

theorem meaning_of_resolves {name canonical : String} (h : d.resolves name canonical = true) :
    d.meaning? name = some (canonical, false) := by
  simp only [Dialect.resolves, Bool.and_eq_true, bne_iff_ne] at h
  obtain ⟨hposition, h⟩ := h
  simp only [Dialect.meaning?, beq_iff_eq, hposition, if_false]
  cases hget : d.reading.functionAliases.get? (Text.upper name) with
  | some other =>
    rw [hget] at h
    cases other with
    | rename other =>
      simp only [beq_iff_eq] at h
      rw [h]
    | swap other => cases h
  | none =>
    rw [hget] at h
    simp only at h ⊢
    split
    · next hknown =>
      simp only [hknown, if_true, beq_iff_eq] at h
      rw [h]
    · next hknown =>
      simp only [hknown, Bool.false_eq_true, if_false, Bool.and_eq_true, beq_iff_eq] at h
      rw [h.1, h.2]

/-- A call of the common form. -/
theorem call_plain {name canonical : String} {position : Position} {distinct swapped : Bool}
    {args : List Arg} {window : Option Window} (hplain : d.isPlainCall name = true)
    (hname : d.meaning? name = some (canonical, swapped))
    (hbody : Parses d (Parser.callBody deeper (Text.upper name)) ts (distinct, args) us)
    (hover : Parses d (Parser.optional (Parser.eatWord "OVER") (Parser.window deeper operand)) us
      window vs) :
    Parses d (Parser.call deeper operand name position) (.mark "(" :: ts)
      (.call ⟨canonical, swapFirstIf swapped args, distinct, window⟩) vs := by
  simp only [Dialect.isPlainCall, Bool.and_eq_true, Bool.not_eq_true', Option.isNone_iff_eq_none]
    at hplain
  obtain ⟨⟨⟨hextract, hdatePart⟩, hif⟩, hnow⟩ := hplain
  refine .dialect ?_
  simp only [hextract, hdatePart, hif, hnow, Bool.false_eq_true, if_false]
  refine (ReadsOr.expectSymbol rfl).bind (hbody.bind ?_)
  exact (canonicalCall_reads hname args position).bind (hover.bind (.pure _))

/-- The tokens `ts` are read as what stands between the parentheses of a call of `upper`. -/
def Enclosed (d : Dialect) (upper : String) (ts : List Shape) (distinct : Bool) (args : List Arg) :
    Prop :=
  ∀ n rest, Parses d (Parser.callBody (Parser.nested n) upper) (ts ++ .mark ")" :: rest)
    (distinct, args) rest

/-- A call of the common form without a window. -/
theorem Enclosed.call {name canonical : String} {distinct swapped : Bool} {args : List Arg}
    (h : Enclosed d (Text.upper name) ts distinct args) (hplain : d.isPlainCall name = true)
    (hname : d.meaning? name = some (canonical, swapped)) (n : Nat) (operand : Parser Expr)
    (position : Position) {rest : List Shape} (hrest : (headShape rest).isClear = true) :
    Parses d (Parser.call (Parser.nested n) operand name position) (inParens ts ++ rest)
      (.call ⟨canonical, swapFirstIf swapped args, distinct, none⟩) rest := by
  rw [inParens, List.cons_append, List.append_assoc, List.singleton_append]
  refine call_plain hplain hname (h n rest) (.optional_no (ReadsOr.eatWord_no ?_))
  exact (Shape.isClear_iff.mp hrest).2.2.2.1

/-- Plain arguments of a call. -/
theorem callArgs_elements {tss : List (List Shape)} {es : List Expr} {upper : String}
    (hes : Elements d tss es) (hne : es ≠ []) (hposition : upper ≠ "POSITION") (n : Nat)
    (rest : List Shape) :
    Parses d (Parser.callArgs (Parser.nested n) upper) (betweenCommas tss ++ .mark ")" :: rest)
      (es.map .expr) (.mark ")" :: rest) := by
  cases hes with
  | nil => exact absurd rfl hne
  | @cons ts e tss es hfirst htail =>
    obtain ⟨p, hform⟩ := hfirst
    have hrest : Elements d tss es := htail
    have hends : Ends d 0 (behindCommas tss ++ .mark ")" :: rest) := by
      cases htail with
      | nil => exact .mark d 0 (by decide) _
      | cons => exact .mark d 0 (by decide) _
    have hfrom : (headShape (behindCommas tss ++ .mark ")" :: rest)).isWord "FROM" = false := by
      cases htail with
      | nil => rfl
      | cons => rfl
    rw [betweenCommas, List.append_assoc]
    unfold Parser.callArgs
    simp only [beq_iff_eq, hposition, if_false]
    refine (hform.expr_zero hends n).bind ?_
    refine ReadsOr.no (ReadsOr.onlyIf (fun _ => ReadsOr.eatWord_no hfrom) fun _ => ⟨rfl, rfl⟩) ?_
    refine (ReadsOr.afterCommas (hrest.parses n) (fun us => .mark d 0 (by decide) us)
      (.mark d 0 (by decide) _) rfl).bind ?_
    exact .pure _

/-- The tokens between the parentheses of a call. -/
inductive CallBody (d : Dialect) : List Shape → Bool → List Arg → Prop where
  | empty : CallBody d [] false []
  | star (distinct : Bool) :
    CallBody d ((if distinct then [d.bare "DISTINCT"] else []) ++ [(.operator, "*")]) distinct [.star]
  | exprs (distinct : Bool) {tss : List (List Shape)} {es : List Expr} (hes : Elements d tss es)
    (hne : es ≠ []) :
    CallBody d ((if distinct then [d.bare "DISTINCT"] else []) ++ betweenCommas tss) distinct
      (es.map .expr)

/-- The word that removes duplicates. -/
theorem eatDistinct (distinct : Bool) (hts : (headShape ts).isWord "DISTINCT" = false) :
    Parses d (Parser.eatWord "DISTINCT") ((if distinct then [d.bare "DISTINCT"] else []) ++ ts)
      distinct ts := by
  cases distinct with
  | false => exact ReadsOr.eatWord_no hts
  | true => exact ReadsOr.eatWord (Shape.isWord_bare d "DISTINCT" "DISTINCT")

/-- Arguments behind the word that removes duplicates, if it is there. -/
theorem enclosed_args (distinct : Bool) {args : List Arg} {upper : String} (hopens : Opens us)
    (h : ∀ n rest, Parses d (Parser.callArgs (Parser.nested n) upper) (us ++ .mark ")" :: rest) args
      (.mark ")" :: rest)) :
    Enclosed d upper ((if distinct then [d.bare "DISTINCT"] else []) ++ us) distinct args := by
  intro n rest
  have hhead := headShape_append hopens.ne_nil (.mark ")" :: rest)
  rw [List.append_assoc]
  refine ReadsOr.no (ReadsOr.eatSymbol_no ?_) ((eatDistinct distinct ?_).bind ?_)
  · cases distinct with
    | false =>
      refine (congrArg (Shape.isSymbol · ")") hhead).trans ?_
      exact hopens.symbol ")" (by decide)
    | true => exact Shape.isSymbol_bare d "DISTINCT" ")"
  · rw [hhead]
    exact hopens.word "DISTINCT" (by decide)
  · refine ReadsOr.no (ReadsOr.eatSymbol_no ?_) ((h n rest).bind ?_)
    · rw [hhead]
      exact hopens.symbol "*" (by decide)
    · exact (ReadsOr.expectSymbol rfl).bind (.pure _)

theorem enclosed_empty (upper : String) : Enclosed d upper [] false [] :=
  fun _ _ => ReadsOr.yes (ReadsOr.eatSymbol rfl) (.pure _)

theorem enclosed_star (upper : String) (distinct : Bool) :
    Enclosed d upper ((if distinct then [d.bare "DISTINCT"] else []) ++ [(.operator, "*")]) distinct
      [.star] := by
  intro n rest
  rw [List.append_assoc]
  refine ReadsOr.no (ReadsOr.eatSymbol_no ?_) ((eatDistinct distinct rfl).bind ?_)
  · cases distinct with
    | false => rfl
    | true => exact Shape.isSymbol_bare d "DISTINCT" ")"
  · refine ReadsOr.yes (ReadsOr.eatSymbol rfl) ?_
    exact (ReadsOr.pure _).bind ((ReadsOr.expectSymbol rfl).bind (.pure _))

/-- A list starts like its first element. -/
theorem Elements.opens {tss : List (List Shape)} {es : List Expr} (h : Elements d tss es)
    (hne : es ≠ []) : Opens (betweenCommas tss) := by
  cases h with
  | nil => exact absurd rfl hne
  | @cons ts e tss es hfirst htail =>
    obtain ⟨p, hform⟩ := hfirst
    cases htail with
    | nil => simpa [betweenCommas] using hform.opens
    | cons => exact hform.opens.append (by simp) rfl

theorem CallBody.enclosed {distinct : Bool} {args : List Arg} {upper : String}
    (h : CallBody d ts distinct args) (hposition : upper ≠ "POSITION") :
    Enclosed d upper ts distinct args := by
  cases h with
  | empty => exact enclosed_empty upper
  | star => exact enclosed_star upper distinct
  | exprs _ hes hne =>
    exact enclosed_args distinct (hes.opens hne) (callArgs_elements hes hne hposition)

/-- A call by a word, without a window. -/
theorem form_enclosed {canonical : String} {distinct swapped : Bool} {args : List Arg}
    (hw : d.isCallable w = true) (hplain : d.isPlainCall w = true)
    (hname : d.meaning? w = some (canonical, swapped))
    (hbody : Enclosed d (Text.upper w) ts distinct args) :
    Form d .atom (d.bare w :: inParens ts)
      (.call ⟨canonical, swapFirstIf swapped args, distinct, none⟩) := by
  refine form_called hw fun n k rest position hrest _ => ?_
  exact hbody.call hplain hname n _ position hrest

theorem form_call {canonical : String} {distinct : Bool} {args : List Arg}
    (hw : d.isCallable w = true) (hplain : d.isPlainCall w = true)
    (hname : d.resolves w canonical = true) (hbody : CallBody d ts distinct args) :
    Form d .atom (d.bare w :: inParens ts) (.call ⟨canonical, args, distinct, none⟩) := by
  have hposition : Text.upper w ≠ "POSITION" := by
    simp only [Dialect.resolves, Bool.and_eq_true, bne_iff_ne] at hname
    exact hname.1
  exact form_enclosed hw hplain (meaning_of_resolves hname) (hbody.enclosed hposition)

/-- The conditional function. -/
theorem form_cond {pc py pn : Precedence} {cs ys ns : List Shape} {condition yes no : Expr}
    (hw : d.isCallable w = true) (hif : Text.upper w ∈ d.reading.ifFunctions)
    (hextract : Text.upper w ≠ "EXTRACT" ∧ Text.upper w ≠ "DATEPART")
    (hc : Form d pc cs condition) (hy : Form d py ys yes) (hn : Form d pn ns no) :
    Form d .atom (d.bare w :: inParens (betweenCommas [cs, ys, ns])) (.cond condition yes no) := by
  refine form_called hw fun n k rest position hrest _ => ?_
  refine .dialect ?_
  have hcontains : d.reading.ifFunctions.contains (Text.upper w) = true := by simpa using hif
  have hfirst : (Text.upper w == "EXTRACT") = false := by simpa using hextract.1
  have hsecond : (Text.upper w == "DATEPART") = false := by simpa using hextract.2
  simp only [hfirst, hsecond, Bool.false_and, Bool.false_eq_true, if_false, hcontains, if_true,
    betweenCommas, behindCommas_cons, behindCommas_nil, List.append_nil, List.append_assoc,
    List.cons_append, List.nil_append]
  refine ReadsOr.parenthesized ?_
  refine (hc.expr_zero (.mark d 0 (by decide) _) n).bind ((ReadsOr.expectSymbol rfl).bind ?_)
  refine (hy.expr_zero (.mark d 0 (by decide) _) n).bind ((ReadsOr.expectSymbol rfl).bind ?_)
  exact (hn.expr_zero (.mark d 0 (by decide) _) n).bind (.pure _)

end Calls

end Primaries

end SqlDialects
