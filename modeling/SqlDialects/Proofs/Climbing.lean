import SqlDialects.Proofs.Primaries

/-!
# Operators grouped by precedence

* `Dialect.infixOp?`, `Infix` : the tokens that join two operands, with what they mean;
* `InfixTree` : numbers joined by such tokens;
* `InfixTree.Grouped` : the trees in which operators that bind tighter stand inside, and of equal ones
  the first;
* `InfixTree.group`, `InfixTree.eq_group` : a text has one grouped tree;
* `Continues` : a parser that has read a left operand and goes on with the loop over operators, if enough
  levels of nesting are left;
* `Exhausts` : a parser that finds that the levels that are left do not suffice;
* `continues_subexpr`, `exhausts_subexpr` : an expression is read as its grouped tree, unless that
  takes more levels of nesting than are left;
* `expr_groups` : the same of a whole text.

The invariant of the loop is that what has been read binds tighter than the loop was asked for, and
what stands behind it does not bind tighter than it.
-/

namespace SqlDialects

/-! ## Tokens that join operands -/

/-- Words that join an operand to something else than another operand. -/
def predicateStarts : List String := ["IS", "IN", "LIKE", "BETWEEN", "ILIKE", "NOT"]

/-- The binary operator that a token is between two operands, and how tightly it binds: `AND`, `OR`,
or what the table of the dialect says, but for the sign of a cast. -/
def Dialect.infixOp? (d : Dialect) (t : Token) : Option (BinaryOp × Precedence) :=
  if t.isWord "AND" then some (.and, .and)
  else if t.isWord "OR" then some (.or, .or)
  else
    let sign := t.kind == .operator && !(t.text == "::" && d.reading.doubleColonCast)
    let word := t.isBareWord && !predicateStarts.contains (Text.upper t.text)
    if sign || word then
      (d.reading.operator? t.text).map fun rule => (rule.op, rule.precedence)
    else none

/-- A token that joins two operands, with its operator and its precedence. -/
structure Infix (d : Dialect) where
  token : Token
  op : BinaryOp
  precedence : Precedence
  means : d.infixOp? token = some (op, precedence)

/-- The token tells what it means. -/
theorem Infix.eq_of_token {d : Dialect} {o o' : Infix d} (h : o.token = o'.token) : o = o' := by
  obtain ⟨t, op, p, hmeans⟩ := o
  obtain ⟨t', op', p', hmeans'⟩ := o'
  obtain rfl : t = t' := h
  have heq : (op, p) = (op', p') := Option.some.inj (hmeans.symm.trans hmeans')
  cases heq
  rfl

/-- A token that is a number. -/
abbrev Numeral := { t : Token // t.kind = .number }

section Connectives

variable {d : Dialect} {t : Token} {op : BinaryOp} {p : Precedence}

/-- A token that joins two operands is read as their operator, whatever follows it. -/
theorem connective_of_infixOp (h : d.infixOp? t = some (op, p)) (next : Token) :
    Parser.connective? d.reading t next = some (.binary op, p) := by
  have hword (w : String) (hw : Text.upper w = w) :
      t.isWord w = (t.isBareWord && Text.upper t.text == w) := by
    rw [Token.isWord, Bool.eq_iff_iff]
    simp [Text.sameWord_iff, hw]
  have htable (h : ((d.reading.operator? t.text).map fun rule => (rule.op, rule.precedence)) =
      some (op, p)) : Parser.operatorAt d.reading t = some (.binary op, p) := by
    obtain ⟨rule, hrule, heq⟩ := Option.map_eq_some_iff.mp h
    cases heq
    rw [Parser.operatorAt, hrule]
    rfl
  unfold Dialect.infixOp? at h
  rw [hword "AND" (by decide +kernel), hword "OR" (by decide +kernel)] at h
  unfold Parser.connective?
  by_cases hbare : t.isBareWord = true
  · have hkind : (t.kind == .operator) = false := by
      cases hk : t.kind <;> simp_all [Token.isBareWord]
    simp only [hbare, hkind, Bool.true_and, Bool.false_and, Bool.false_or, if_true] at h ⊢
    by_cases hand : (Text.upper t.text == "AND") = true
    · rw [if_pos hand] at h ⊢
      cases h
      rfl
    by_cases hor : (Text.upper t.text == "OR") = true
    · rw [if_neg hand, if_pos hor] at h ⊢
      cases h
      rfl
    rw [if_neg hand, if_neg hor] at h ⊢
    split at h
    · next hother =>
      simp only [predicateStarts, List.contains_cons, List.contains_nil, Bool.or_false,
        Bool.not_eq_true', Bool.or_eq_false_iff] at hother
      obtain ⟨his, hin, hlike, hbetween, hilike, hnot⟩ := hother
      simp only [his, hin, hlike, hbetween, hilike, hnot, Bool.or_self, Bool.false_and,
        Bool.false_eq_true, if_false]
      exact htable h
    · cases h
  · rw [Bool.not_eq_true] at hbare
    simp only [hbare, Bool.false_and, Bool.false_eq_true, if_false, Bool.or_false] at h ⊢
    split at h
    · next hsign =>
      simp only [Bool.and_eq_true, Bool.not_eq_true'] at hsign
      simp only [hsign.1, hsign.2, if_true, Bool.false_eq_true, if_false]
      exact htable h
    · cases h

/-- What joins two operands binds at all if every operator of the dialect does. -/
theorem infix_pos (hpos : ∀ rule ∈ d.reading.operators, 1 ≤ rule.precedence)
    (h : d.infixOp? t = some (op, p)) : 0 < p := by
  unfold Dialect.infixOp? at h
  split at h
  · cases h
    decide
  · split at h
    · cases h
      decide
    · dsimp only at h
      split at h
      · obtain ⟨rule, hrule, heq⟩ := Option.map_eq_some_iff.mp h
        cases heq
        exact hpos rule (List.mem_of_find?_eq_some hrule)
      · cases h

end Connectives

/-! ## Trees -/

/-- Numbers joined by binary operators. -/
inductive InfixTree (d : Dialect) where
  | leaf (a : Numeral)
  | node (left : InfixTree d) (o : Infix d) (right : InfixTree d)

namespace InfixTree

variable {d : Dialect}

/-- The first number. -/
def first : InfixTree d → Numeral
  | leaf a => a
  | node l _ _ => l.first

/-- The operators and the numbers behind them, in the order of the text. -/
def links : InfixTree d → List (Infix d × Numeral)
  | leaf _ => []
  | node l o r => l.links ++ (o, r.first) :: r.links

/-- The expression that a tree stands for. -/
def expr : InfixTree d → Expr
  | leaf a => .literal (.number a.1.text)
  | node l o r => .binary l.expr o.op r.expr

/-- How many levels of nesting reading a tree takes: a right operand is one level further down. -/
def levels : InfixTree d → Nat
  | leaf _ => 1
  | node l _ r => max l.levels (r.levels + 1)

/-- A tree that is a number or binds at least as tightly as `p`. -/
def AtLeast (p : Precedence) : InfixTree d → Prop
  | leaf _ => True
  | node _ o _ => p ≤ o.precedence

/-- A tree that is a number or binds tighter than `p`. -/
def Over (p : Precedence) : InfixTree d → Prop
  | leaf _ => True
  | node _ o _ => p < o.precedence

/-- A tree in which every left operand binds at least as tightly as its operator, and every right
operand tighter. -/
def Grouped : InfixTree d → Prop
  | leaf _ => True
  | node l o r => l.Grouped ∧ r.Grouped ∧ l.AtLeast o.precedence ∧ r.Over o.precedence

instance decidableAtLeast (p : Precedence) : (T : InfixTree d) → Decidable (T.AtLeast p)
  | leaf _ => inferInstanceAs (Decidable True)
  | node _ o _ => inferInstanceAs (Decidable (p ≤ o.precedence))

instance decidableOver (p : Precedence) : (T : InfixTree d) → Decidable (T.Over p)
  | leaf _ => inferInstanceAs (Decidable True)
  | node _ o _ => inferInstanceAs (Decidable (p < o.precedence))

instance decidableGrouped : (T : InfixTree d) → Decidable T.Grouped
  | leaf _ => inferInstanceAs (Decidable True)
  | node l _ r =>
    have := decidableGrouped l
    have := decidableGrouped r
    inferInstanceAs (Decidable (_ ∧ _ ∧ _ ∧ _))

/-! ### The grouped tree of a text -/

/-- The tree with one more operator and number behind it. They go to the right operand of operators
that bind less tightly. -/
def extend : InfixTree d → Infix d → Numeral → InfixTree d
  | leaf a, o, b => node (leaf a) o (leaf b)
  | node l o' r, o, b =>
    if o'.precedence < o.precedence then node l o' (r.extend o b)
    else node (node l o' r) o (leaf b)

/-- The tree with more operators and numbers behind it. -/
def extendAll (T : InfixTree d) (links : List (Infix d × Numeral)) : InfixTree d :=
  links.foldl (fun T link => T.extend link.1 link.2) T

/-- The grouped tree of a text. -/
def group (a : Numeral) (links : List (Infix d × Numeral)) : InfixTree d := (leaf a).extendAll links

variable {T l r : InfixTree d} {o : Infix d} {b : Numeral} {p q : Precedence}

theorem Over.mono (h : T.Over q) (hpq : p ≤ q) : T.Over p := by
  cases T with
  | leaf a => trivial
  | node l o r => exact lt_of_le_of_lt hpq h

theorem Over.atLeast (h : T.Over q) (hpq : p ≤ q) : T.AtLeast p := by
  cases T with
  | leaf a => trivial
  | node l o r => exact hpq.trans (Nat.le_of_lt h)

theorem AtLeast.over (h : T.AtLeast q) (hpq : p < q) : T.Over p := by
  cases T with
  | leaf a => trivial
  | node l o r => exact lt_of_lt_of_le hpq h

/-- An operator that binds less tightly than a tree, or as tightly, takes all of it. -/
theorem extend_of_atLeast (h : T.AtLeast o.precedence) : T.extend o b = node T o (leaf b) := by
  cases T with
  | leaf a => rfl
  | node l o' r => exact if_neg (Nat.not_lt.mpr h)

theorem first_extend (T : InfixTree d) (o : Infix d) (b : Numeral) :
    (T.extend o b).first = T.first := by
  cases T with
  | leaf a => rfl
  | node l o' r =>
    unfold extend
    split <;> rfl

theorem links_extend (T : InfixTree d) (o : Infix d) (b : Numeral) :
    (T.extend o b).links = T.links ++ [(o, b)] := by
  induction T with
  | leaf a => rfl
  | node l o' r _ ih =>
    unfold extend
    split
    · simp [links, ih, first_extend]
    · simp [links, first]

theorem over_extend (h : T.Over p) (ho : p < o.precedence) : (T.extend o b).Over p := by
  cases T with
  | leaf a => exact ho
  | node l o' r =>
    unfold extend
    split
    · exact h
    · exact ho

theorem grouped_extend (h : T.Grouped) (o : Infix d) (b : Numeral) : (T.extend o b).Grouped := by
  induction T with
  | leaf a => exact ⟨trivial, trivial, trivial, trivial⟩
  | node l o' r _ ih =>
    obtain ⟨hl, hr, hleft, hright⟩ := h
    by_cases hlt : o'.precedence < o.precedence
    · rw [extend, if_pos hlt]
      exact ⟨hl, ih hr, hleft, over_extend hright hlt⟩
    · rw [extend, if_neg hlt]
      exact ⟨⟨hl, hr, hleft, hright⟩, trivial, Nat.not_lt.mp hlt, trivial⟩

theorem extendAll_spec (T : InfixTree d) (hT : T.Grouped) (links : List (Infix d × Numeral)) :
    (T.extendAll links).Grouped ∧ (T.extendAll links).first = T.first ∧
      (T.extendAll links).links = T.links ++ links := by
  induction links generalizing T with
  | nil => exact ⟨hT, rfl, (List.append_nil _).symm⟩
  | cons link links ih =>
    obtain ⟨hgrouped, hfirst, hlinks⟩ := ih (T.extend link.1 link.2) (grouped_extend hT _ _)
    refine ⟨hgrouped, hfirst.trans (first_extend _ _ _), hlinks.trans ?_⟩
    rw [links_extend, List.append_assoc, List.singleton_append]

/-- All operators of a grouped tree bind as tightly as its root, or tighter. -/
theorem Grouped.links_over (hT : T.Grouped) (h : T.Over p) :
    ∀ link ∈ T.links, p < link.1.precedence := by
  induction T with
  | leaf a => simp [links]
  | node l o r ihl ihr =>
    obtain ⟨hl, hr, hleft, hright⟩ := hT
    have ho : p < o.precedence := h
    intro link hlink
    simp only [links, List.mem_append, List.mem_cons] at hlink
    rcases hlink with hlink | rfl | hlink
    · exact ihl hl (hleft.over ho) link hlink
    · exact ho
    · exact ihr hr (hright.mono ho.le) link hlink

/-- Operators that bind tighter than the root go to its right operand. -/
theorem extendAll_node (l r : InfixTree d) {o : Infix d} {links : List (Infix d × Numeral)}
    (h : ∀ link ∈ links, o.precedence < link.1.precedence) :
    (node l o r).extendAll links = node l o (r.extendAll links) := by
  induction links generalizing r with
  | nil => rfl
  | cons link links ih =>
    have hlink : (node l o r).extend link.1 link.2 = node l o (r.extend link.1 link.2) :=
      if_pos (h link (by simp))
    unfold extendAll at ih ⊢
    rw [List.foldl_cons, List.foldl_cons, hlink]
    exact ih _ fun link hlink => h link (by simp [hlink])

/-- A text has no other grouped tree than the one built from left to right. -/
theorem eq_group (hT : T.Grouped) : T = group T.first T.links := by
  induction T with
  | leaf a => rfl
  | node l o r ihl ihr =>
    obtain ⟨hl, hr, hleft, hright⟩ := hT
    have hsplit : group l.first (l.links ++ (o, r.first) :: r.links) =
        ((group l.first l.links).extend o r.first).extendAll r.links := by
      simp [group, extendAll, List.foldl_append]
    calc node l o r = node l o (group r.first r.links) := by rw [← ihr hr]
      _ = (node l o (leaf r.first)).extendAll r.links :=
        (extendAll_node l _ (hr.links_over hright)).symm
      _ = (l.extend o r.first).extendAll r.links := by rw [extend_of_atLeast hleft]
      _ = group l.first (l.links ++ (o, r.first) :: r.links) := by rw [hsplit, ← ihl hl]

/-! ### The text of a tree -/

/-- The tokens of a tree. -/
def tokens : InfixTree d → List Token
  | leaf a => [a.1]
  | node l o r => l.tokens ++ o.token :: r.tokens

/-- The tokens of a tree without their places. -/
def shapes (T : InfixTree d) : List Shape := T.tokens.map Token.shape

theorem shapes_node (l r : InfixTree d) (o : Infix d) :
    (node l o r).shapes = l.shapes ++ o.token.shape :: r.shapes := by
  simp [shapes, tokens]

theorem levels_pos (T : InfixTree d) : 0 < T.levels := by
  cases T with
  | leaf a => exact Nat.one_pos
  | node l o r => exact lt_of_lt_of_le (Nat.succ_pos _) (Nat.le_max_right _ _)

end InfixTree

/-- The tokens of a number and of the operators and numbers behind it. -/
def infixChain {d : Dialect} (a : Numeral) (links : List (Infix d × Numeral)) : List Token :=
  a.1 :: links.flatMap fun link => [link.1.token, link.2.1]

theorem infixChain_inj {d : Dialect} {a b : Numeral} {links more : List (Infix d × Numeral)}
    (h : infixChain a links = infixChain b more) : a = b ∧ links = more := by
  induction links generalizing a b more with
  | nil =>
    cases more with
    | nil => exact ⟨Subtype.ext (List.cons.inj h).1, rfl⟩
    | cons link more => cases (List.cons.inj h).2
  | cons link links ih =>
    cases more with
    | nil => cases (List.cons.inj h).2
    | cons link' more =>
      obtain ⟨hfirst, hbehind⟩ := List.cons.inj h
      obtain ⟨hsign, hrest⟩ := List.cons.inj hbehind
      obtain ⟨hnumber, rfl⟩ := ih (a := link.2) (b := link'.2) hrest
      exact ⟨Subtype.ext hfirst, by rw [Prod.ext (Infix.eq_of_token hsign) hnumber]⟩

theorem InfixTree.tokens_eq {d : Dialect} (T : InfixTree d) :
    T.tokens = infixChain T.first T.links := by
  induction T with
  | leaf a => rfl
  | node l o r ihl ihr => simp [tokens, ihl, ihr, infixChain, first, links]

/-! ## The loop over operators -/

/-- The parser `p` has read `x` from the tokens `ts` and goes on at `us` as the loop of `step`, with steps
enough. It may fail where fewer than `n` levels of nesting are left. -/
def Continues {σ : Type} (n : Nat) (d : Dialect) (p : Parser σ) (ts : List Shape)
    (step : σ → Parser (Option σ)) (x : σ) (us : List Shape) : Prop :=
  ∀ i c, At d ts i c →
    (∃ c' k, us.length < k ∧ At d us i c' ∧ c'.depth = c.depth ∧ p i c = Parser.iterateUpTo step x k i c') ∨
      ∃ f c', p i c = (.error f, c') ∧ Lapses.short n c.depth f

/-- Where just `n` levels of nesting are left, the parser `p` finds that the tokens `ts` nest too deep. -/
def Exhausts {α : Type} (n : Nat) (d : Dialect) (p : Parser α) (ts : List Shape) : Prop :=
  ∀ i c, At d ts i c → c.depth + n = Parser.maxDepth → ∃ f c', p i c = (.error f, c') ∧ f.TooDeep

section Loops

variable {α β σ : Type} {n : Nat} {d : Dialect} {ts us vs : List Shape} {step : σ → Parser (Option σ)}
  {x y : σ}

theorem Exhausts.bind {p : Parser α} (hp : Exhausts n d p ts) (f : α → Parser β) :
    Exhausts n d (p >>= f) ts := by
  intro i c hat hleft
  obtain ⟨e, c', heq, he⟩ := hp i c hat hleft
  exact ⟨e, c', by simp only [Bind.bind, heq], he⟩

theorem exhausts_rules {f : ReadingRules → Parser β} (hf : Exhausts n d (f d.reading) ts) :
    Exhausts n d (Parser.rules >>= f) ts := by
  rintro i c ⟨rfl, hfinish, hrest⟩
  exact hf i c ⟨rfl, hfinish, hrest⟩

theorem exhausts_peekNth {k : Nat} {f : Token → Parser β}
    (hf : ∀ t : Token, t.shape = nthShape ts k → Exhausts n d (f t) ts) :
    Exhausts n d (Parser.peekNth k >>= f) ts :=
  fun i c hat => hf (i.token (c.index + k)) (hat.token k) i c hat

theorem exhausts_advance {s : Shape} {f : Token → Parser β} (hf : ∀ t, Exhausts n d (f t) ts) :
    Exhausts n d (Parser.advance >>= f) (s :: ts) := by
  intro i c hat hleft
  obtain ⟨c', t, heq, -, hat'⟩ := ReadsOr.advance_at hat
  obtain ⟨e, c'', heq', he⟩ := hf t i c' hat' (by rwa [Parser.depth_of_run heq])
  exact ⟨e, c'', by simp only [Bind.bind, heq, heq'], he⟩

theorem exhausts_tooDeep : Exhausts n d (Parser.tooDeep : Parser α) ts :=
  fun _ c _ _ => ⟨_, c, rfl, _, _, rfl⟩

/-- The levels that do not suffice one level down do not suffice with that level. -/
theorem Exhausts.level {p : Parser α} (hp : Exhausts n d p ts) : Exhausts (n + 1) d (Parser.level p) ts := by
  intro i c hat hleft
  obtain ⟨f, c', heq, hf⟩ := hp i c.down ⟨hat.dialect, hat.finish, hat.rest⟩
    (by simp only [Cursor.down]; omega)
  refine ⟨f, c'.up, ?_, hf⟩
  exact Parser.level_of_lt (by omega) heq

theorem continues_of_reads {p : Parser σ} (hp : Reads d p ts x us) :
    Continues n d (p >>= Parser.iterate step) ts step x us := by
  intro i c hat
  obtain ⟨c', heq, hat'⟩ := reads_iff.mp hp i c hat
  refine .inl ⟨c', us.length + 1, Nat.lt_succ_self _, hat', Parser.depth_of_run heq, ?_⟩
  simp only [Bind.bind, heq, Parser.iterate, Parser.remaining, Parser.look, hat'.length]

/-- One more step of the loop. -/
theorem Continues.again {p : Parser σ} (hp : Continues n d p ts step x us)
    (hstep : ReadsWith n d (step x) us (some y) vs) (hlt : vs.length < us.length) :
    Continues n d p ts step y vs := by
  intro i c hat
  rcases hp i c hat with ⟨c', k, hk, hat', hdepth, heq⟩ | hshort
  · obtain ⟨k, rfl⟩ := Nat.exists_eq_add_one_of_ne_zero (Nat.ne_zero_of_lt hk)
    rcases hstep i c' hat' with ⟨c'', heq', hat''⟩ | ⟨f, c'', heq', hf⟩
    · refine .inl ⟨c'', k, by omega, hat'', (Parser.depth_of_run heq').trans hdepth, heq.trans ?_⟩
      simp only [Parser.iterateUpTo, Bind.bind, heq']
    · refine .inr ⟨f, c'', heq.trans ?_, hdepth ▸ hf⟩
      simp only [Parser.iterateUpTo, Bind.bind, heq']
  · exact .inr hshort

/-- The end of the loop. -/
theorem Continues.stop {p : Parser σ} (hp : Continues n d p ts step x us)
    (hstep : Reads d (step x) us none us) : ReadsWith n d p ts x us := by
  intro i c hat
  rcases hp i c hat with ⟨c', k, hk, hat', -, heq⟩ | hshort
  · obtain ⟨k, rfl⟩ := Nat.exists_eq_add_one_of_ne_zero (Nat.ne_zero_of_lt hk)
    obtain ⟨c'', heq', hat''⟩ := reads_iff.mp hstep i c' hat'
    refine .inl ⟨c'', heq.trans ?_, hat''⟩
    simp only [Parser.iterateUpTo, Bind.bind, heq']
    rfl
  · exact .inr hshort

/-- A step of the loop that finds too many levels. -/
theorem Continues.exhausts {p : Parser σ} (hp : Continues n d p ts step x us)
    (hstep : Exhausts n d (step x) us) : Exhausts n d p ts := by
  intro i c hat hleft
  rcases hp i c hat with ⟨c', k, hk, hat', hdepth, heq⟩ | ⟨f, c', -, hshort⟩
  · obtain ⟨k, rfl⟩ := Nat.exists_eq_add_one_of_ne_zero (Nat.ne_zero_of_lt hk)
    obtain ⟨f, c'', heq', hf⟩ := hstep i c' hat' (by rwa [hdepth])
    refine ⟨f, c'', heq.trans ?_, hf⟩
    simp only [Parser.iterateUpTo, Bind.bind, heq']
  · exact absurd hshort (Nat.not_lt.mpr hleft.le)

end Loops

section Reading

variable {d : Dialect} {rest : List Shape}

/-- A number is an operand, whatever levels are left. -/
theorem reads_numeral (deeper : Deeper) (a : Numeral) :
    Reads d (Parser.operandFrom deeper) (a.1.shape :: rest) (.literal (.number a.1.text)) rest := by
  obtain ⟨a, ha⟩ := a
  have hshape : a.shape = (.number, a.text) := by rw [Token.shape, ha]
  rw [hshape]
  exact .remaining (operandWith_primary rfl rfl (primary_number a.text _ _))

theorem nextConnective_infixOp (o : Infix d) (rest : List Shape) :
    nextConnective d (o.token.shape :: rest) = some (.binary o.op, o.precedence) := by
  have hnext : Parser.connective? d.reading o.token (nthShape (o.token.shape :: rest) 1).token =
      nextConnective d (o.token.shape :: rest) := nextConnective_eq rfl rfl
  rw [← hnext]
  exact connective_of_infixOp o.means _

/-- The loop finds too many levels in a right operand. -/
theorem exhausts_moreOperands {n : Nat} {deeper : Deeper} {least : Precedence} {e : Expr} {o : Infix d}
    (ho : least < o.precedence) (hright : Exhausts n d (deeper.expr o.precedence) rest) :
    Exhausts n d (Parser.moreOperands deeper least e) (o.token.shape :: rest) := by
  refine exhausts_rules (exhausts_peekNth fun t ht => exhausts_peekNth fun next hnext => ?_)
  rw [nextConnective_eq ht hnext, nextConnective_infixOp]
  simp only [if_neg (Nat.not_le.mpr ho)]
  exact Exhausts.bind (exhausts_advance fun _ => hright.bind _) _

namespace InfixTree

variable {T : InfixTree d} {least : Precedence} {n : Nat}

/-- A grouped tree that binds tighter than the loop is asked for is read first, and the loop goes on
behind it, if the levels of nesting that are left suffice. -/
theorem continues_subexpr (hT : T.Grouped) (hlevels : T.levels ≤ n + 1) (hover : T.Over least)
    (rest : List Shape) (hrest : T.AtLeast (nextPrecedence d rest)) :
    Continues n d (Parser.subexpr (Parser.nested n) least) (T.shapes ++ rest)
      (Parser.moreOperands (Parser.nested n) least) T.expr rest := by
  induction T generalizing n least rest with
  | leaf a => exact continues_of_reads (reads_numeral _ a)
  | node l o r ihl ihr =>
    obtain ⟨hl, hr, hleft, hright⟩ := hT
    have ho : least < o.precedence := hover
    have hdepth : l.levels ≤ n + 1 ∧ r.levels + 1 ≤ n + 1 := by
      unfold levels at hlevels
      omega
    have hloop := ihl hl hdepth.1 (hleft.over ho) (o.token.shape :: r.shapes ++ rest)
      (by simpa [nextPrecedence, nextConnective_infixOp] using hleft)
    have hexpr : ReadsWith n d ((Parser.nested n).expr o.precedence) (r.shapes ++ rest) r.expr rest := by
      have hpos := r.levels_pos
      obtain ⟨m, rfl⟩ := Nat.exists_eq_add_one_of_ne_zero (show n ≠ 0 by omega)
      have hbehind : nextPrecedence d rest ≤ o.precedence := hrest
      have hinner := (ihr (n := m) hr (by omega) hright rest (hright.atLeast hbehind)).stop
        (moreOperands_stop hbehind)
      exact hinner.level
    rw [shapes_node, List.append_assoc]
    refine hloop.again (moreOperands_join (nextConnective_infixOp o _) ho ?_) ?_
    · exact .advance fun _ _ => hexpr.bind (.pure _)
    · simp only [List.cons_append, List.length_cons, List.length_append]
      omega

/-- A grouped tree that takes more levels than are left is not read. -/
theorem exhausts_subexpr (hT : T.Grouped) (hlevels : n + 1 < T.levels) (hover : T.Over least)
    (rest : List Shape) :
    Exhausts n d (Parser.subexpr (Parser.nested n) least) (T.shapes ++ rest) := by
  induction T generalizing n least rest with
  | leaf a =>
    have : n + 1 < 1 := hlevels
    omega
  | node l o r ihl ihr =>
    obtain ⟨hl, hr, hleft, hright⟩ := hT
    have ho : least < o.precedence := hover
    rw [shapes_node, List.append_assoc, List.cons_append]
    by_cases hdeep : n + 1 < l.levels
    · exact ihl hl hdeep (hleft.over ho) _
    · have hexpr : Exhausts n d ((Parser.nested n).expr o.precedence) (r.shapes ++ rest) := by
        cases n with
        | zero => exact exhausts_tooDeep
        | succ m =>
          have hlevels : m + 1 + 1 < max l.levels (r.levels + 1) := hlevels
          exact (ihr hr (by omega) hright rest).level
      have hloop := continues_subexpr hl (Nat.not_lt.mp hdeep) (hleft.over ho)
        (o.token.shape :: (r.shapes ++ rest)) (by simpa [nextPrecedence, nextConnective_infixOp] using hleft)
      exact hloop.exhausts (exhausts_moreOperands ho hexpr)

theorem over_zero (hpos : ∀ rule ∈ d.reading.operators, 1 ≤ rule.precedence) (T : InfixTree d) :
    T.Over 0 := by
  cases T with
  | leaf a => trivial
  | node l o r => exact infix_pos hpos o.means

end InfixTree

end Reading

/-! ## Whole texts -/

/-- In a dialect whose operators all bind, numbers with operators between them have one grouped tree.
It is what is read from them, to the end of the text, if it takes no more levels of nesting than there
are; else that is the fault. -/
theorem expr_groups {d : Dialect} (hpos : ∀ rule ∈ d.reading.operators, 1 ≤ rule.precedence)
    (a : Numeral) (links : List (Infix d × Numeral)) {finish : Token}
    (hfinish : finish.shape = .finish) :
    ∃ T : InfixTree d, (T.Grouped ∧ T.tokens = infixChain a links) ∧
      (∀ U : InfixTree d, U.Grouped → U.tokens = infixChain a links → U = T) ∧
      let input := Input.ofTokens d (infixChain a links) finish
      if T.levels ≤ Parser.maxDepth then
        ∃ c, Parser.expr input {} = (.ok T.expr, c) ∧ (infixChain a links).length ≤ c.index
      else ∃ f c, Parser.expr input {} = (.error f, c) ∧ f.TooDeep := by
  obtain ⟨hgrouped, hfirst, hlinks⟩ := InfixTree.extendAll_spec (.leaf a) trivial links
  have htokens : (InfixTree.group a links).tokens = infixChain a links := by
    rw [InfixTree.tokens_eq, InfixTree.group, hfirst, hlinks]
    rfl
  refine ⟨.group a links, ⟨hgrouped, htokens⟩, ?_, ?_⟩
  · intro U hU hUtokens
    obtain ⟨rfl, rfl⟩ := infixChain_inj (U.tokens_eq.symm.trans hUtokens)
    exact InfixTree.eq_group hU
  · have hat : At d ((InfixTree.group a links).shapes ++ [])
        (.ofTokens d (infixChain a links) finish) {} := by
      refine ⟨rfl, hfinish, ?_⟩
      simp [Input.ofTokens, InfixTree.shapes, htokens]
    have hover := InfixTree.over_zero hpos (InfixTree.group a links)
    dsimp only
    split
    · next hlevels =>
      have hloop := InfixTree.continues_subexpr (n := 127) hgrouped hlevels hover []
        (hover.atLeast (Nat.le_refl 0))
      obtain ⟨c, hrun, hend⟩ := (hloop.stop (moreOperands_stop (Nat.le_refl 0))).level.run hat (Nat.le_refl 128)
      have hsize := hend.length
      simp only [Input.ofTokens, List.size_toArray, List.length_nil] at hsize
      exact ⟨c, hrun, Nat.sub_eq_zero_iff_le.mp hsize⟩
    · next hlevels =>
      exact (InfixTree.exhausts_subexpr (n := 127) hgrouped (Nat.not_le.mp hlevels) hover []).level _ _ hat rfl

/-- `1 - 2 - 3 * 4 OR 5`: the first difference is the left operand of the second, and the product its
right operand. -/
theorem expr_groups_differences :
    let number (n : String) : Token := ⟨.number, n, .start, false⟩
    let sign (s : String) : Token := ⟨.operator, s, .start, false⟩
    let literal (n : String) : Expr := .literal (.number n)
    let tokens := [number "1", sign "-", number "2", sign "-", number "3", sign "*", number "4",
      ⟨.keyword, "OR", .start, false⟩, number "5"]
    ∃ c, Parser.expr (.ofTokens .ansi tokens ⟨.finish, "", .start, false⟩) {} =
      (.ok (.binary (.binary (.binary (literal "1") .minus (literal "2")) .minus
        (.binary (literal "3") .multiply (literal "4"))) .or (literal "5")), c) ∧ 9 ≤ c.index := by
  let number (n : String) : Numeral := ⟨⟨.number, n, .start, false⟩, rfl⟩
  let minus : Infix .ansi := ⟨⟨.operator, "-", .start, false⟩, .minus, .additive, by decide +kernel⟩
  let times : Infix .ansi :=
    ⟨⟨.operator, "*", .start, false⟩, .multiply, .multiplicative, by decide +kernel⟩
  let or : Infix .ansi := ⟨⟨.keyword, "OR", .start, false⟩, .or, .or, by decide +kernel⟩
  let tree : InfixTree .ansi := .node (.node (.node (.leaf (number "1")) minus (.leaf (number "2")))
    minus (.node (.leaf (number "3")) times (.leaf (number "4")))) or (.leaf (number "5"))
  obtain ⟨T, -, hunique, hrun⟩ := expr_groups (d := .ansi) (by decide +kernel) (number "1")
    [(minus, number "2"), (minus, number "3"), (times, number "4"), (or, number "5")]
    (rfl : Token.shape ⟨.finish, "", .start, false⟩ = .finish)
  have hgrouped : tree.Grouped := by decide
  obtain rfl : tree = T := hunique tree hgrouped rfl
  rw [if_pos (show tree.levels ≤ Parser.maxDepth by decide)] at hrun
  simpa [infixChain, tree, InfixTree.expr, number, minus, times, or] using hrun

end SqlDialects
