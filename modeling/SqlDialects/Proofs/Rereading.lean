import SqlDialects.Proofs.Expressive
import SqlDialects.Proofs.Respelling

/-!
# Written expressions are read back

* `Renders` : what holds of every text that is written; where it is `total`, a text is written;
* `Rereads` : the text of an expression is read as another one, and `Regains` : as the respelled one
  up to parentheses;
* `binary_regains`, `unary_regains`, `case_regains`, ... : one step for each kind of node.
-/

namespace SqlDialects

open Render

/-! ## Writing -/

/-- Every result of `p` in the target `t` satisfies `Q`; where `total` holds there is one. -/
def Renders {α : Type} (total : Bool) (t : Target) (p : Render α) (Q : α → Prop) : Prop :=
  ∀ n, (∃ a m, p t n = .ok (a, m) ∧ Q a) ∨ total = false ∧ ∃ f, p t n = .error f

namespace Renders

variable {α β : Type} {total : Bool} {t : Target} {p : Render α} {g : α → Render β}
  {P : α → Prop} {Q : β → Prop} {a : α}

theorem pure (h : P a) : Renders total t (pure a) P := fun n => .inl ⟨a, n, rfl, h⟩

theorem bind (hp : Renders total t p P) (hg : ∀ a, P a → Renders total t (g a) Q) :
    Renders total t (p >>= g) Q := by
  intro n
  rcases hp n with ⟨a, m, heq, ha⟩ | ⟨htotal, f, heq⟩
  · rcases hg a ha m with ⟨b, k, heq', hb⟩ | ⟨htotal, f, heq'⟩
    · exact .inl ⟨b, k, by simp only [Bind.bind, heq, heq'], hb⟩
    · exact .inr ⟨htotal, f, by simp only [Bind.bind, heq, heq']⟩
  · exact .inr ⟨htotal, f, by simp only [Bind.bind, heq]⟩

theorem target {g : Target → Render β} (h : Renders total t (g t) Q) :
    Renders total t (Render.target >>= g) Q :=
  fun n => h n

theorem mono {P' : α → Prop} (h : Renders total t p P) (himp : ∀ a, P a → P' a) :
    Renders total t p P' := by
  intro n
  rcases h n with ⟨a, m, heq, ha⟩ | hfail
  · exact .inl ⟨a, m, heq, himp a ha⟩
  · exact .inr hfail

theorem unsupported {construct : String} (h : total = false) :
    Renders total t (Render.unsupported construct) P :=
  fun _ => .inr ⟨h, _, rfl⟩

theorem require {c : Construct} {g : Unit → Render β}
    (hc : total = true → t.dialect.supports c = true) (h : Renders total t (g ()) Q) :
    Renders total t (Render.require c >>= g) Q := by
  intro n
  by_cases hs : t.dialect.supports c = true
  · have hreq : Render.require c t n = .ok ((), n) := by
      simp [Render.require, Bind.bind, Render.target, hs, Pure.pure]
    rcases h n with ⟨b, m, heq, hb⟩ | ⟨htotal, f, heq⟩
    · exact .inl ⟨b, m, by simp only [Bind.bind, hreq, heq], hb⟩
    · exact .inr ⟨htotal, f, by simp only [Bind.bind, hreq, heq]⟩
  · have hreq : ∃ f, Render.require c t n = .error f := by
      simp [Render.require, Bind.bind, Render.target, hs, Render.unsupported]
    obtain ⟨f, hreq⟩ := hreq
    exact .inr ⟨by simpa using mt hc hs, f, by simp only [Bind.bind, hreq]⟩

theorem orElse {q : Render α} (h : Renders true t p P) : Renders true t (Render.orElse p q) P := by
  intro n
  rcases h n with ⟨a, m, heq, ha⟩ | ⟨htotal, -⟩
  · exact .inl ⟨a, m, by simp only [Render.orElse, heq], ha⟩
  · cases htotal

/-- What is written satisfies the property. -/
theorem run (h : Renders total t p P) (heq : p.run t = .ok a) : P a := by
  rcases h 0 with ⟨b, m, hb, hP⟩ | ⟨-, f, hf⟩
  · rw [Render.run, hb] at heq
    obtain rfl := Except.ok.inj heq
    exact hP
  · rw [Render.run, hf] at heq
    cases heq

end Renders

/-- A text that spells tokens is cut into them, and the parser starts before them. -/
theorem Spelled.tokenize {d : Dialect} {s : String} {ts : List Shape} (h : Spelled d s ts) :
    ∃ tokens finish, tokenize d.lexical s = .ok (tokens, finish) ∧
      At d ts (.ofTokens d tokens finish) {} := by
  obtain ⟨hshapes, finish, hstop, hfinish⟩ := (h none (by simp [closers])).scan .start false
  refine ⟨(scanFrom d.lexical false .start false s.toList).tokens, finish, ?_, rfl, hfinish, ?_⟩
  · rw [SqlDialects.tokenize, scan, hstop]
    rfl
  · simpa [Input.ofTokens] using hshapes

/-! ## Reading back -/

/-- The expression with which the text of an expression starts. -/
def Expr.leftmost : Expr → Expr
  | .binary l _ _ => l.leftmost
  | .between e _ _ _ => e.leftmost
  | .inList e _ _ => e.leftmost
  | .inQuery e _ _ => e.leftmost
  | .like e _ _ _ _ => e.leftmost
  | .isNull e _ => e.leftmost
  | other => other

/-- Whether the text of an expression starts with a test for rows. -/
def Expr.startsExists (e : Expr) : Bool :=
  match e.leftmost with
  | .exists _ negated => !negated
  | _ => false

/-- Whether the name `n` is the bare word that opens the end of a window frame. -/
def Name.isUnbounded (n : Name) : Bool := !n.quoted && Text.sameWord n.text "UNBOUNDED"

/-- Whether the text of an expression starts with a name that opens the end of a window frame. -/
def Expr.startsUnbounded (e : Expr) : Bool :=
  match e.leftmost with
  | .name n => n.isUnbounded
  | .path (n :: _) => n.isUnbounded
  | .call f => Text.sameWord (.ofList (f.name.toList.takeWhile (· != '.'))) "UNBOUNDED"
  | _ => false

/-- The tokens of the text of `e` start with a word of their own only if `e` does. -/
structure Starts (e : Expr) (ts : List Shape) : Prop where
  rows : (headShape ts).isWord "EXISTS" = true → e.startsExists = true
  unbounded : (headShape ts).isWord "UNBOUNDED" = true → e.startsUnbounded = true

/-- The text `text` of `e` is read back as `e'`, which binds as tightly as `p`. -/
def Rereads (t : Target) (e : Expr) (p : Precedence) (text : String) (e' : Expr) : Prop :=
  ∃ ts, Spelled t.dialect text ts ∧ Form t.dialect p ts e' ∧ Starts e ts

/-- The text `text` of `e` is read back as `e₀` up to parentheses and names. -/
def Regains (t : Target) (f : Name → Name) (e : Expr) (p : Precedence) (text : String)
    (e₀ : Expr) : Prop :=
  ∃ e', Rereads t e p text e' ∧ e'.respell (.plain f) = e₀

section Steps

variable {total : Bool} {t : Target} {f : Name → Name} {e e₀ : Expr} {p : Precedence}
  {text : String}

theorem Starts.of_head {s : Shape} {ts : List Shape} (hrows : s.isWord "EXISTS" = false)
    (hunbounded : s.isWord "UNBOUNDED" = false) : Starts e (s :: ts) :=
  ⟨fun h => absurd h (by simp [hrows]), fun h => absurd h (by simp [hunbounded])⟩

theorem Starts.bare {d : Dialect} {w : String} {ts : List Shape}
    (hw : Text.sameWord w "EXISTS" = false ∧ Text.sameWord w "UNBOUNDED" = false) :
    Starts e (d.bare w :: ts) :=
  .of_head ((Shape.isWord_bare d w _).trans hw.1) ((Shape.isWord_bare d w _).trans hw.2)

/-- What follows the tokens of the leftmost operand does not matter. -/
theorem Starts.append {l : Expr} {ts us : List Shape} (h : Starts l ts) (hne : ts ≠ [])
    (hleft : e.leftmost = l.leftmost) : Starts e (ts ++ us) := by
  refine ⟨fun hw => ?_, fun hw => ?_⟩
  · rw [headShape_append hne] at hw
    simpa [Expr.startsExists, hleft] using h.rows hw
  · rw [headShape_append hne] at hw
    simpa [Expr.startsUnbounded, hleft] using h.unbounded hw

/-! ### Operands -/

/-- Parentheses are put where an operand would be regrouped. -/
theorem Regains.wrap (hd : t.dialect.Expressive) (h : Regains t f e (t.precedence e) text e₀)
    (parent : Precedence) (right : Bool) (hparent : parent < .atom) :
    ∃ p, Regains t f e p (t.wrap e parent right text) e₀ ∧ parent ≤ p ∧
      (right = true → parent < p) := by
  obtain ⟨e', ⟨ts, hspelled, hform, hstarts⟩, heq⟩ := h
  simp only [Target.wrap]
  split
  · refine ⟨.atom, ⟨.nested e', ⟨inParens ts, ?_, form_nested hform, ?_⟩, ?_⟩, hparent.le,
      fun _ => hparent⟩
    · simpa using hspelled.parens hd.toLegible
    · exact .of_head rfl rfl
    · rw [Expr.respell, heq]
  · next hno =>
    simp only [Bool.or_eq_true, decide_eq_true_eq, Bool.and_eq_true, beq_iff_eq, not_or, not_and,
      not_lt] at hno
    refine ⟨t.precedence e, ⟨e', ⟨ts, hspelled, hform, hstarts⟩, heq⟩, hno.1, fun hright => ?_⟩
    exact lt_of_le_of_ne hno.1 (Ne.symm (hno.2 hright))

theorem operand_regains (hd : t.dialect.Expressive) {q : Render (List String)}
    (h : Renders total t (whole q) fun text => Regains t f e (t.precedence e) text e₀)
    {parent : Precedence} (right : Bool) (hparent : parent < .atom) :
    Renders total t (operand e parent right q) fun text =>
      ∃ p, Regains t f e p text e₀ ∧ parent ≤ p ∧ (right = true → parent < p) :=
  h.bind fun _ htext => .target (.pure (htext.wrap hd parent right hparent))

/-! ### Lists of operands -/

/-- The text is that of some expression, and is read back as `e₀` up to parentheses and names. -/
def RegainsSome (t : Target) (f : Name → Name) (text : String) (e₀ : Expr) : Prop :=
  ∃ e p, Regains t f e p text e₀

theorem respellAll_eq_map (r : Respelling) (es : List Expr) :
    respellAll r es = es.map (·.respell r) := by
  induction es with
  | nil => rw [respellAll, List.map_nil]
  | cons e es ih => rw [respellAll, List.map_cons, ih]

theorem respellArgs_map (r : Respelling) (es : List Expr) :
    respellArgs r (es.map .expr) = (respellAll r es).map .expr := by
  induction es with
  | nil => simp only [List.map_nil, respellArgs, respellAll]
  | cons e es ih => simp only [List.map_cons, respellArgs, respellAll, ih]

/-- The elements of a list are read back one by one. -/
theorem elements_of_regains {texts : List String} {es₀ : List Expr}
    (h : List.Forall₂ (RegainsSome t f) texts es₀) :
    ∃ tss es, List.Forall₂ (Spelled t.dialect) texts tss ∧ Elements t.dialect tss es ∧
      respellAll (.plain f) es = es₀ := by
  induction h with
  | nil => exact ⟨[], [], .nil, .nil, by rw [respellAll]⟩
  | cons hfirst _ ih =>
    obtain ⟨-, p, e', ⟨ts, hspelled, hform, -⟩, heq⟩ := hfirst
    obtain ⟨tss, es, hall, helements, hrest⟩ := ih
    exact ⟨ts :: tss, e' :: es, .cons hspelled hall, .cons ⟨p, hform⟩ helements, by
      rw [respellAll, heq, hrest]⟩

/-- A call of a function that stands for an operator. -/
theorem function_regains (hd : t.dialect.Expressive) {canonical : String}
    (hc : canonical ∈ operatorFunctions) {texts : List String} {es₀ : List Expr}
    (hne : texts ≠ []) (h : List.Forall₂ (RegainsSome t f) texts es₀) (e : Expr) :
    Regains t f e .atom
      (t.functionName canonical ++ "(" ++ String.intercalate ", " texts ++ ")")
      (.callOf canonical es₀) := by
  have hback := hd.functions canonical hc
  simp only [Dialect.callsBack, Bool.and_eq_true, Bool.not_eq_true', beq_eq_false_iff_ne] at hback
  obtain ⟨⟨⟨⟨hcall, hplain⟩, hname⟩, hrows⟩, hunbounded⟩ := hback
  have hbare : t.dialect.isBare (t.dialect.target.functionName canonical) = true := by
    simp only [Dialect.isCallable, Bool.and_eq_true] at hcall
    exact hcall.1.1
  have hword {w : String} (hw : Text.upper (t.dialect.target.functionName canonical) ≠ Text.upper w) :
      Text.sameWord (t.dialect.target.functionName canonical) w = false := by
    rw [← Bool.not_eq_true, Text.sameWord_iff]
    exact hw
  obtain ⟨tss, es, hall, helements, heq⟩ := elements_of_regains h
  have hes : es ≠ [] := by
    rintro rfl
    cases helements
    cases hall
    exact hne rfl
  refine ⟨_, ⟨_, Spelled.called hd.toLegible hbare (Spelled.commaList hd.toLegible
    (by simp [Spelled.listGaps]) hall), form_call hcall hplain hname (.exprs false helements hes),
    .bare ⟨hword hrows, hword hunbounded⟩⟩, ?_⟩
  rw [Expr.respell, Call.respell, respellArgs_map, heq, respellWindow]
  rfl

/-- The texts of `e` are those of the operands of a chain that is written by one call, or the text of
`e` itself. -/
inductive Gains (t : Target) (f : Name → Name) (e : Expr) : List String → Prop where
  | single {text : String}
    (hargs : Respelling.chainArgs e (e.respell (t.dialect.respelling f)) =
      [.expr (e.respell (t.dialect.respelling f))])
    (h : Regains t f e (t.precedence e) text (e.respell (t.dialect.respelling f))) :
    Gains t f e [text]
  | chain {texts : List String} {es₀ : List Expr} (hlength : 2 ≤ texts.length)
    (hprecedence : t.precedence e = .atom)
    (hargs : Respelling.chainArgs e (e.respell (t.dialect.respelling f)) = es₀.map .expr)
    (hcall : e.respell (t.dialect.respelling f) = .callOf "CONCAT" es₀)
    (h : List.Forall₂ (RegainsSome t f) texts es₀) : Gains t f e texts

theorem Gains.args {texts : List String} (h : Gains t f e texts) :
    ∃ es₀, Respelling.chainArgs e (e.respell (t.dialect.respelling f)) = es₀.map .expr ∧
      List.Forall₂ (RegainsSome t f) texts es₀ ∧ texts ≠ [] := by
  cases h with
  | single hargs h => exact ⟨[_], hargs, .cons ⟨e, _, h⟩ .nil, by simp⟩
  | chain hlength _ hargs _ h =>
    exact ⟨_, hargs, h, by rintro rfl; simp at hlength⟩

theorem Gains.whole (hd : t.dialect.Expressive) {texts : List String} (h : Gains t f e texts) :
    Regains t f e (t.precedence e) (t.whole texts) (e.respell (t.dialect.respelling f)) := by
  cases h with
  | single _ h => exact h
  | @chain texts es₀ hlength hprecedence hargs hcall h =>
    have htext : t.whole texts =
        t.functionName "CONCAT" ++ "(" ++ String.intercalate ", " texts ++ ")" := by
      match texts, hlength with
      | a :: b :: rest, _ => rfl
    rw [htext, hprecedence, hcall]
    exact function_regains hd (by decide) (by rintro rfl; simp at hlength) h e

/-- What is asked of the texts of an expression. -/
def Rewrites (total : Bool) (t : Target) (f : Name → Name) (e : Expr) : Prop :=
  Renders total t e.texts (Gains t f e)

theorem Rewrites.whole (hd : t.dialect.Expressive) (h : Rewrites total t f e) :
    Renders total t (whole e.texts) fun text =>
      Regains t f e (t.precedence e) text (e.respell (t.dialect.respelling f)) :=
  h.bind fun _ htexts => .target (.pure (htexts.whole hd))

theorem Rewrites.operand (hd : t.dialect.Expressive) (h : Rewrites total t f e) {parent : Precedence}
    (right : Bool) (hparent : parent < .atom) :
    Renders total t (operand e parent right e.texts) fun text =>
      ∃ p, Regains t f e p text (e.respell (t.dialect.respelling f)) ∧ parent ≤ p ∧
        (right = true → parent < p) :=
  operand_regains hd (h.whole hd) right hparent

/-! ### Leaves -/

theorem reread_isFree (t : Target) (n : Name) : (t.reread n).IsFree t.dialect :=
  Spelled.reread_free t n

theorem starts_names (hd : t.dialect.Expressive) (n : Name) (ns : List Name)
    (he : e.leftmost = .name n ∨ e.leftmost = .path (n :: ns)) (ts : List Shape) :
    Starts e ((t.reread n).shape :: ts) := by
  refine ⟨fun h => ?_, fun h => ?_⟩
  · have hfree : (t.reread n).shape.isWord "EXISTS" = false :=
      Name.isWord_shape (reread_isFree t n) (hd.reserved "EXISTS" (by decide))
    rw [headShape_cons, hfree] at h
    cases h
  · have hbare : n.isUnbounded = true := by
      rw [headShape_cons, Name.shape] at h
      cases hq : (t.reread n).quoted with
      | true =>
        rw [hq] at h
        cases h
      | false =>
        rw [hq] at h
        simp only [Target.reread, Bool.or_eq_false_iff] at hq
        simp only [Name.isUnbounded, hq.1.1, Bool.not_false, Bool.true_and]
        exact h
    rcases he with he | he <;> simp [Expr.startsUnbounded, he, hbare]

theorem name_regains (hd : t.dialect.Expressive) {n : Name} (hn : f (t.reread n) = f n) :
    Rewrites total t f (.name n) := by
  unfold Rewrites
  simp only [Expr.texts]
  refine .target (.pure (.single rfl ?_))
  refine ⟨_, ⟨_, Spelled.name hd.toLegible rfl n,
    form_names hd.toReadable (reread_isFree t n) [], starts_names hd n [] (.inl rfl) []⟩, ?_⟩
  simp only [Expr.ofNames, Expr.respell]
  exact congrArg Expr.name hn

theorem path_regains (hd : t.dialect.Expressive) {ns : List Name} (hlength : 2 ≤ ns.length)
    (hns : ∀ n ∈ ns, f (t.reread n) = f n) : Rewrites total t f (.path ns) := by
  unfold Rewrites
  simp only [Expr.texts]
  refine .target (.pure (.single rfl ?_))
  match ns, hlength with
  | n :: m :: rest, _ =>
    have hform := form_names hd.toReadable (reread_isFree t n) ((m :: rest).map t.reread)
    refine ⟨.path ((n :: m :: rest).map t.reread), ⟨_, Spelled.path hd.toLegible rfl _, hform,
      starts_names hd n (m :: rest) (.inr rfl) _⟩, ?_⟩
    simp only [Expr.respell, List.map_map]
    exact congrArg Expr.path (List.map_congr_left fun x hx => hns x hx)

theorem literal_regains (hd : t.dialect.Expressive) {l : Literal}
    (hnumber : ∀ w, l = .number w → Lexer.number w.toList = some w.toList.length)
    (htemporal : ∀ kind v, l ≠ .temporal kind v) : Rewrites total t f (.literal l) := by
  have hsingle {text : String} {ts : List Shape} {l' : Literal}
      (hspelled : Spelled t.dialect text ts) (hform : Form t.dialect .atom ts (.literal l'))
      (hstarts : Starts (.literal l) ts)
      (hl : (Respelling.plain f).literal l' = (t.dialect.respelling f).literal l) :
      Gains t f (.literal l) [text] := by
    refine .single rfl ⟨.literal l', ⟨ts, hspelled, hform, hstarts⟩, ?_⟩
    simp only [Expr.respell, hl]
  unfold Rewrites
  simp only [Expr.texts, single]
  refine Renders.bind (P := fun text => Gains t f (.literal l) [text]) ?_ fun _ h => .pure h
  refine .target ?_
  cases l with
  | number w =>
    refine .pure (hsingle ?_ (form_number w) (.of_head rfl rfl) rfl)
    exact fun h hh => .single (isToken_number hd.toLegible (hnumber w rfl) hh)
  | string v =>
    refine .pure (hsingle ?_ (form_string v) (.of_head rfl rfl) rfl)
    exact fun h hh => .single (isToken_string hd.toLegible rfl v (by rintro rfl; revert hh; decide))
  | null => exact .pure (hsingle (.word hd.toLegible rfl) (form_null hd.toReadable) (.bare ⟨rfl, rfl⟩) rfl)
  | boolean b =>
    cases hb : t.dialect.writing.booleans with
    | keyword =>
      have hform := form_boolean hd.toReadable (hd.keywords hb) b
      cases b with
      | false => exact .pure (hsingle (.word hd.toLegible rfl) hform (.bare ⟨rfl, rfl⟩) (by
          simp [Respelling.literal, Dialect.respelling, hb, Respelling.plain]))
      | true => exact .pure (hsingle (.word hd.toLegible rfl) hform (.bare ⟨rfl, rfl⟩) (by
          simp [Respelling.literal, Dialect.respelling, hb, Respelling.plain]))
    | integer =>
      refine .pure (hsingle (fun h hh => .single (isToken_number hd.toLegible ?_ hh))
        (form_number (if b then "1" else "0")) (.of_head rfl rfl) (by
          simp [Respelling.literal, Dialect.respelling, hb]))
      cases b <;> rfl
  | temporal kind v => exact absurd rfl (htemporal kind v)

/-! ### Binary operators -/

/-- The token of the symbol `s` of the operator `op`. -/
def symbolShape (d : Dialect) (op : BinaryOp) (s : String) : Shape :=
  if op = .and ∨ op = .or then d.bare s else (.operator, s)

/-- What is known of an operator that is written by a symbol. -/
structure SymbolFacts (d : Dialect) (op : BinaryOp) (s : String) (p : Precedence) : Prop where
  spelled : ∀ {text : String} {ts : List Shape}, Spelled d text ts →
    Spelled d (s ++ " " ++ text) (symbolShape d op s :: ts)
  isClear : (symbolShape d op s).isClear = true
  escape : (symbolShape d op s).isWord "ESCAPE" = false
  next : ∀ ts, nextConnective d (symbolShape d op s :: ts) = some (.binary (d.readOp op), p)
  pos : 0 < p
  operand : ¬p.IsOperand
  atom : p < .atom

theorem spelled_operator {d : Dialect} (hd : d.Legible) {s : String}
    (hmark : ∀ c ∈ s.toList.head?, d.lexical.isMark c = true ∧ c ≠ '.')
    (hfirst : d.lexical.firstOperator s.toList (some ' ') = some s)
    (hcomment : s.toList.take 2 ∉ [['-', '-'], ['/', '*']]) {text : String} {ts : List Shape}
    (h : Spelled d text ts) : Spelled d (s ++ " " ++ text) ((.operator, s) :: ts) := by
  intro b hb
  rw [String.append_assoc, String.toList_append]
  refine .token ?_ ((h.behindGap Spelled.blank_mem) b hb)
  refine isToken_operator hd hmark ?_ hcomment ?_ ?_
  · simpa using hfirst
  · simp
  · simp

theorem nextConnective_operator {d : Dialect} {s : String} {rule : OperatorRule}
    (hcolons : s ≠ "::") (hrule : d.reading.operator? s = some rule) (ts : List Shape) :
    nextConnective d ((.operator, s) :: ts) = some (.binary rule.op, rule.precedence) := by
  simp [nextConnective, Parser.connective?, Shape.token, Token.isBareWord, Parser.operatorAt, hcolons,
    hrule]

theorem symbolFacts (hd : t.dialect.Expressive) {op : BinaryOp} {s : String}
    (hform : t.binaryForm op = .symbol s) : SymbolFacts t.dialect op s (t.opPrecedence op) := by
  by_cases hword : op = .and ∨ op = .or
  · rcases hword with rfl | rfl
    · obtain rfl : "AND" = s := BinaryForm.symbol.inj hform
      exact {
        spelled := (Spelled.word (w := "AND") hd.toLegible rfl).join Spelled.blank_mem
        isClear := Shape.isClear_bare _ "AND"
        escape := Shape.isWord_bare _ "AND" "ESCAPE"
        next := nextConnective_and
        pos := show 0 < Precedence.and by decide
        operand := show ¬Precedence.and.IsOperand by decide
        atom := show Precedence.and < .atom by decide }
    · obtain rfl : "OR" = s := BinaryForm.symbol.inj hform
      exact {
        spelled := (Spelled.word (w := "OR") hd.toLegible rfl).join Spelled.blank_mem
        isClear := Shape.isClear_bare _ "OR"
        escape := Shape.isWord_bare _ "OR" "ESCAPE"
        next := nextConnective_or
        pos := show 0 < Precedence.or by decide
        operand := show ¬Precedence.or.IsOperand by decide
        atom := show Precedence.or < .atom by decide }
  · have hback := hd.spellings op (BinaryOp.mem_all op)
    have hform' : t.dialect.target.binaryForm op = .symbol s := hform
    have hne : (op == .and) = false ∧ (op == .or) = false := by simpa [not_or] using hword
    simp only [Dialect.spellsBack, hform', hne, Bool.false_or, Bool.and_eq_true, Bool.not_eq_true',
      decide_eq_true_eq, beq_iff_eq, beq_eq_false_iff_ne, Option.map_eq_some_iff, Prod.mk.injEq]
      at hback
    obtain ⟨⟨⟨⟨⟨⟨⟨hmark, hfirst⟩, hcomment⟩, hcolons⟩, hclear⟩, rule, hrule, hop, hprec⟩, hpos⟩, hlevel⟩ :=
      hback
    have hshape : symbolShape t.dialect op s = (.operator, s) := if_neg hword
    have hprec' : rule.precedence = t.opPrecedence op := hprec
    refine ⟨fun h => ?_, ?_, ?_, fun ts => ?_, hpos, ?_, ?_⟩
    · rw [hshape]
      refine spelled_operator hd.toLegible (fun c hc => ?_) hfirst ?_ h
      · rw [Option.mem_def.mp hc] at hmark
        simpa using hmark
      · simpa using hcomment
    · rwa [hshape]
    · rw [hshape]
      rfl
    · rw [hshape, nextConnective_operator hcolons hrule, hop, hprec']
    · have hlevel' : t.opPrecedence op < .not ∨ .not < t.opPrecedence op ∧
          t.opPrecedence op < .unary := hlevel
      have hnot : Precedence.not < .unary := by decide
      rintro (h | h) <;> rcases hlevel' with hlow | ⟨hhigh, hunary⟩
      · exact hlow.ne h
      · exact hhigh.ne h.symm
      · exact lt_irrefl _ (lt_of_le_of_lt h (hlow.trans hnot))
      · exact absurd h (not_le.mpr hunary)
    · rcases hlevel with h | h
      · exact h.trans (by decide)
      · exact h.2.trans (by decide)

theorem plain_binary (l : Expr) (op : BinaryOp) (r l' r' : Expr) :
    (Respelling.plain f).binary l op r l' r' = .binary l' op r' := by
  cases op <;> rfl

/-- What the dialect makes of an operator that it writes by a symbol. -/
theorem respell_symbol {op : BinaryOp} {s : String} (hform : t.binaryForm op = .symbol s)
    (l r l' r' : Expr) :
    (t.dialect.respelling f).binary l op r l' r' = .binary l' (t.dialect.readOp op) r' := by
  have hplain (hop : op ≠ .concat) : t.dialect.readOp op = op := by simp [Dialect.readOp, hop]
  cases op
  case concat =>
    cases hc : t.dialect.writing.concat with
    | operator => simp [Respelling.binary, Dialect.respelling, Dialect.readOp, hc]
    | function => simp [Target.binaryForm, hc] at hform
    | plus => simp [Respelling.binary, Dialect.respelling, Dialect.readOp, hc]
  case power =>
    cases hp : t.dialect.reading.spelling? .power with
    | none => simp [Target.binaryForm, hp] at hform
    | some rule => simp [Respelling.binary, Dialect.respelling, Dialect.readOp, hp]
  case modulo =>
    cases hp : t.dialect.reading.spelling? .modulo with
    | none => simp [Target.binaryForm, hp] at hform
    | some rule => simp [Respelling.binary, Dialect.respelling, Dialect.readOp, hp]
  all_goals
    rw [hplain (by decide)]
    rfl

/-- What the dialect makes of an operator that it writes by a function. -/
theorem respell_function {op : BinaryOp} {canonical : String}
    (hform : t.binaryForm op = .function canonical) :
    canonical ∈ operatorFunctions ∧ op ≠ .concat ∧ t.opPrecedence op = .atom ∧
      ∀ l r l' r', (t.dialect.respelling f).binary l op r l' r' = .callOf canonical [l', r'] := by
  cases op
  case concat =>
    cases hc : t.dialect.writing.concat with
    | operator =>
      cases hs : t.dialect.reading.spelling? .concat <;> simp [Target.binaryForm, hc, hs] at hform
    | function => simp [Target.binaryForm, hc] at hform
    | plus => simp [Target.binaryForm, hc] at hform
  case and => cases hform
  case or => cases hform
  case power =>
    cases hp : t.dialect.reading.spelling? .power with
    | none =>
      simp only [Target.binaryForm, hp, BinaryForm.function.injEq] at hform
      subst hform
      simp [operatorFunctions, Target.opPrecedence, Respelling.binary, Dialect.respelling, hp]
    | some rule => simp [Target.binaryForm, hp] at hform
  case modulo =>
    cases hp : t.dialect.reading.spelling? .modulo with
    | none =>
      simp only [Target.binaryForm, hp, BinaryForm.function.injEq] at hform
      subst hform
      simp [operatorFunctions, Target.opPrecedence, Respelling.binary, Dialect.respelling, hp]
    | some rule => simp [Target.binaryForm, hp] at hform
  all_goals
    simp only [Target.binaryForm] at hform
    split at hform <;> cases hform

/-- Only concatenations are written by one call for a whole chain. -/
theorem binaryForm_chain {op : BinaryOp} (hform : t.binaryForm op = .chain) :
    op = .concat ∧ t.dialect.writing.concat = .function := by
  cases op
  case concat =>
    refine ⟨rfl, ?_⟩
    cases hc : t.dialect.writing.concat with
    | operator =>
      cases hs : t.dialect.reading.spelling? .concat <;> simp [Target.binaryForm, hc, hs] at hform
    | function => rfl
    | plus => simp [Target.binaryForm, hc] at hform
  case and => cases hform
  case or => cases hform
  all_goals
    simp only [Target.binaryForm] at hform
    split at hform <;> cases hform

theorem chainArgs_binary (e l : Expr) (op : BinaryOp) (r : Expr) :
    Respelling.chainArgs e (.binary l op r) = [.expr (.binary l op r)] := by
  unfold Respelling.chainArgs
  split
  · next h => cases h
  · rfl

theorem binary_regains (hd : t.dialect.Expressive) {l r : Expr} (op : BinaryOp)
    (htotal : total = true → t.binaryForm op ≠ .none) (hl : Rewrites total t f l)
    (hr : Rewrites total t f r) : Rewrites total t f (.binary l op r) := by
  unfold Rewrites
  simp only [Expr.texts, Render.binary]
  refine .target ?_
  cases hform : t.binaryForm op with
  | symbol s =>
    have hfacts := symbolFacts hd hform
    have hrespell : (Expr.binary l op r).respell (t.dialect.respelling f) = .binary
        (l.respell (t.dialect.respelling f)) (t.dialect.readOp op)
        (r.respell (t.dialect.respelling f)) := by
      rw [Expr.respell, respell_symbol hform]
    refine (hl.operand hd false hfacts.atom).bind ?_
    rintro ltext ⟨pl, ⟨l', ⟨ls, hls, hlform, hstarts⟩, hleq⟩, hpl, -⟩
    refine (hr.operand hd true hfacts.atom).bind ?_
    rintro rtext ⟨pr, ⟨r', ⟨rs, hrs, hrform, -⟩, hreq⟩, -, hpr⟩
    refine .pure (.single (by rw [hrespell]; exact chainArgs_binary _ _ _ _) ?_)
    refine ⟨.binary l' (t.dialect.readOp op) r', ⟨ls ++ symbolShape t.dialect op s :: rs, ?_,
      form_binary hlform hrform hpl (hpr rfl) hfacts.pos hfacts.operand hfacts.isClear hfacts.escape
        hfacts.next, hstarts.append hlform.opens.ne_nil rfl⟩, ?_⟩
    · exact (hls.join Spelled.blank_mem (hfacts.spelled hrs)).of_eq (by simp)
    · rw [hrespell, Expr.respell, plain_binary, hleq, hreq]
  | function canonical =>
    obtain ⟨hmem, hop, hprecedence, hbinary⟩ := respell_function (f := f) hform
    have hrespell : (Expr.binary l op r).respell (t.dialect.respelling f) = .callOf canonical
        [l.respell (t.dialect.respelling f), r.respell (t.dialect.respelling f)] := by
      rw [Expr.respell, hbinary]
    refine (hl.whole hd).bind fun ltext hltext => (hr.whole hd).bind fun rtext hrtext => ?_
    refine .pure (.single ?_ ?_)
    · cases op <;> first | rfl | exact absurd rfl hop
    · rw [hrespell, show t.precedence (.binary l op r) = .atom from hprecedence]
      have hargs : List.Forall₂ (RegainsSome t f) [ltext, rtext] [l.respell (t.dialect.respelling f),
        r.respell (t.dialect.respelling f)] := .cons ⟨l, _, hltext⟩ (.cons ⟨r, _, hrtext⟩ .nil)
      simpa [String.append_assoc] using function_regains hd hmem (by simp) hargs (.binary l op r)
  | chain =>
    obtain ⟨rfl, hconcat⟩ := binaryForm_chain hform
    refine hl.bind fun ltexts hltexts => hr.bind fun rtexts hrtexts => .pure ?_
    obtain ⟨ls, hlargs, hlall, hlne⟩ := hltexts.args
    obtain ⟨rs, hrargs, hrall, hrne⟩ := hrtexts.args
    have hrespell : (Expr.binary l .concat r).respell (t.dialect.respelling f) =
        .callOf "CONCAT" (ls ++ rs) := by
      have hfunction : (t.dialect.respelling f).concat = .function := hconcat
      rw [Expr.respell, Respelling.binary, hfunction, hlargs, hrargs, ← List.map_append]
      rfl
    refine .chain ?_ ?_ ?_ hrespell (List.rel_append hlall hrall)
    · have := List.length_pos_iff.mpr hlne
      have := List.length_pos_iff.mpr hrne
      simp only [List.length_append]
      omega
    · simp [Target.precedence, Target.opPrecedence, hconcat]
    · rw [hrespell]
      rfl
  | none =>
    refine .unsupported ?_
    by_contra h
    exact htotal (by simpa using h) hform

/-! ### Unary operators and predicates -/

/-- A sign is a token before any text that does not make it a comment. -/
theorem spelled_sign {d : Dialect} (hd : d.Expressive) {c : Char} (hc : c ∈ ['-', '+', '~'])
    {ts : List Shape} (h : Spelled d text ts) (hdash : c = '-' → text.toList.head? ≠ some '-') :
    Spelled d (String.ofList [c] ++ text) ((.operator, String.ofList [c]) :: ts) := by
  intro b hb
  obtain ⟨hmem, hmark, honly⟩ := hd.signs c hc
  have hfirst (x : Option Char) :
      d.lexical.firstOperator (String.ofList [c]).toList x = some (String.ofList [c]) := by
    rw [LexicalRules.firstOperator]
    cases hfind : d.lexical.operators.find? fun op => op != "" &&
        LexicalRules.mayStart op.toList (String.ofList [c]).toList x with
    | none =>
      have := List.find?_eq_none.mp hfind _ hmem
      simp [LexicalRules.mayStart] at this
    | some op =>
      have hop := List.find?_some hfind
      have hhead : op.toList.head? = some c := by
        simp only [Bool.and_eq_true, bne_iff_ne, LexicalRules.mayStart, String.toList_ofList,
          Bool.or_eq_true] at hop
        cases hlist : op.toList with
        | nil => exact absurd (by simpa using hlist) hop.1
        | cons x xs =>
          rw [hlist] at hop
          rcases hop.2 with hstart | hstart
          · obtain ⟨rest, hrest⟩ := List.isPrefixOf_iff_prefix.mp hstart
            simpa using congrArg List.head? hrest
          · obtain ⟨rest, hrest⟩ := List.isPrefixOf_iff_prefix.mp hstart.1
            simpa using congrArg List.head? hrest.symm
      rw [honly op (List.mem_of_find?_eq_some hfind) hhead]
  rw [String.toList_append]
  refine .token (isToken_operator hd.toLegible ?_ (hfirst _) ?_ ?_ ?_) (h b hb)
  · rintro x hx
    obtain rfl : c = x := by simpa using hx
    refine ⟨hmark, ?_⟩
    rintro rfl
    revert hc
    decide
  · simp
  · rintro ⟨hone, htwo⟩
    have hsign : c = '-' := by simpa using congrArg String.toList hone
    cases hlist : text.toList with
    | nil =>
      rw [hlist] at htwo
      obtain rfl : b = some '-' := by simpa using htwo
      revert hb
      decide
    | cons x xs => exact hdash hsign (by simpa [hlist] using htwo)
  · rintro ⟨hone, -⟩
    obtain rfl : c = '/' := by simpa using congrArg String.toList hone
    revert hc
    decide

theorem unary_regains (hd : t.dialect.Expressive) {op : UnaryOp}
    (hexists : op = .not → e.startsExists = false) (he : Rewrites total t f e) :
    Rewrites total t f (.unary op e) := by
  have hparent : Target.unaryPrecedence op < .atom := by cases op <;> decide
  have hprecedence : t.precedence (.unary op e) = Target.unaryPrecedence op := by cases op <;> rfl
  unfold Rewrites
  simp only [Expr.texts]
  refine (he.operand hd false hparent).bind ?_
  rintro text ⟨p, ⟨e', ⟨ts, hspelled, hform, hstarts⟩, heq⟩, hp, -⟩
  refine .pure (.single rfl ?_)
  rw [hprecedence]
  refine ⟨.unary op e', ⟨t.dialect.unaryShape op :: ts, ?_, form_unary hd.toReadable op hform hp ?_,
    ?_⟩, ?_⟩
  · cases op with
    | not =>
      exact ((Spelled.word (w := "NOT") hd.toLegible rfl).join Spelled.blank_mem hspelled).of_eq
        (by simp [Target.unaryText])
    | minus =>
      simp only [Target.unaryText]
      split
      · exact (spelled_sign hd (c := '-') (by decide) (hspelled.behindGap Spelled.blank_mem)
          (by simp)).of_eq (by simp)
      · next hno => exact (spelled_sign hd (c := '-') (by decide) hspelled (by simpa using hno)).of_eq (by simp)
    | plus => exact (spelled_sign hd (c := '+') (by decide) hspelled (by simp)).of_eq (by simp [Target.unaryText])
    | bitNot => exact (spelled_sign hd (c := '~') (by decide) hspelled (by simp)).of_eq (by simp [Target.unaryText])
  · intro hop
    by_contra h
    have := hstarts.rows (by simpa using h)
    rw [hexists hop] at this
    cases this
  · cases op with
    | not => exact .bare ⟨rfl, rfl⟩
    | minus => exact .of_head rfl rfl
    | plus => exact .of_head rfl rfl
    | bitNot => exact .of_head rfl rfl
  · rw [Expr.respell, Expr.respell, heq]

/-- The negation of a predicate. -/
theorem spelled_negation {d : Dialect} (hd : d.Legible) (negated : Bool) {ts : List Shape}
    (h : Spelled d text ts) : Spelled d (negation negated ++ text) (d.negation negated ++ ts) := by
  cases negated with
  | false => exact h.of_eq (by simp [negation])
  | true =>
    exact ((Spelled.word (w := "NOT") hd rfl).join Spelled.blank_mem h).of_eq (by simp [negation])

theorem isNull_regains (hd : t.dialect.Expressive) (negated : Bool) (he : Rewrites total t f e) :
    Rewrites total t f (.isNull e negated) := by
  unfold Rewrites
  simp only [Expr.texts]
  refine (he.operand hd false (by decide)).bind ?_
  rintro text ⟨p, ⟨e', ⟨ts, hspelled, hform, hstarts⟩, heq⟩, hp, -⟩
  refine .pure (.single rfl ⟨_, ⟨_, ?_, form_isNull negated hform hp,
    hstarts.append hform.opens.ne_nil rfl⟩, ?_⟩)
  · have hnull : Spelled t.dialect "NULL" [t.dialect.bare "NULL"] := .word hd.toLegible rfl
    have his : Spelled t.dialect "IS" [t.dialect.bare "IS"] := .word hd.toLegible rfl
    exact (hspelled.join Spelled.blank_mem (his.join Spelled.blank_mem
      (spelled_negation hd.toLegible negated hnull))).of_eq (by simp)
  · rw [Expr.respell, Expr.respell, heq]

theorem between_regains (hd : t.dialect.Expressive) (negated : Bool) {low high : Expr}
    (he : Rewrites total t f e) (hlow : Rewrites total t f low) (hhigh : Rewrites total t f high) :
    Rewrites total t f (.between e negated low high) := by
  unfold Rewrites
  simp only [Expr.texts]
  refine (he.operand hd false (by decide)).bind ?_
  rintro text ⟨p, ⟨e', ⟨ts, hspelled, hform, hstarts⟩, heq⟩, hp, -⟩
  refine (hlow.operand hd true (by decide)).bind ?_
  rintro ltext ⟨pl, ⟨l', ⟨ls, hls, hlform, -⟩, hleq⟩, -, hpl⟩
  refine (hhigh.operand hd true (by decide)).bind ?_
  rintro htext ⟨ph, ⟨h', ⟨hs, hhs, hhform, -⟩, hheq⟩, -, hph⟩
  refine .pure (.single rfl ⟨_, ⟨_, ?_, form_between negated hform hlform hhform hp (hpl rfl)
    (hph rfl), hstarts.append hform.opens.ne_nil rfl⟩, ?_⟩)
  · have hbetween : Spelled t.dialect "BETWEEN" [t.dialect.bare "BETWEEN"] := .word hd.toLegible rfl
    have hand : Spelled t.dialect "AND" [t.dialect.bare "AND"] := .word hd.toLegible rfl
    have hends := hls.join Spelled.blank_mem (hand.join Spelled.blank_mem hhs)
    exact (hspelled.join Spelled.blank_mem (spelled_negation hd.toLegible negated
      (hbetween.join Spelled.blank_mem hends))).of_eq (by simp)
  · rw [Expr.respell, Expr.respell, heq, hleq, hheq]

theorem nested_regains (hd : t.dialect.Expressive) (he : Rewrites total t f e) :
    Rewrites total t f (.nested e) := by
  unfold Rewrites
  simp only [Expr.texts]
  refine (he.whole hd).bind ?_
  rintro text ⟨e', ⟨ts, hspelled, hform, -⟩, heq⟩
  refine .pure (.single (by rfl) ⟨.nested e', ⟨inParens ts, ?_, form_nested hform, .of_head rfl rfl⟩, ?_⟩)
  · simpa using hspelled.parens hd.toLegible
  · rw [Expr.respell, Expr.respell, heq]

/-- The texts of expressions are read back one by one. -/
theorem exprTexts_gains (hd : t.dialect.Expressive) {es : List Expr}
    (hes : ∀ e ∈ es, Rewrites total t f e) :
    Renders total t (exprTexts es) fun texts =>
      List.Forall₂ (RegainsSome t f) texts (respellAll (t.dialect.respelling f) es) := by
  induction es with
  | nil =>
    simp only [exprTexts, respellAll]
    exact .pure .nil
  | cons e es ih =>
    simp only [exprTexts, respellAll]
    refine ((hes e (by simp)).whole hd).bind fun text htext => ?_
    refine (ih fun x hx => hes x (by simp [hx])).bind fun texts htexts => ?_
    exact .pure (.cons ⟨e, _, htext⟩ htexts)

theorem inList_regains (hd : t.dialect.Expressive) (negated : Bool) {items : List Expr}
    (hne : items ≠ []) (he : Rewrites total t f e) (hitems : ∀ x ∈ items, Rewrites total t f x) :
    Rewrites total t f (.inList e items negated) := by
  unfold Rewrites
  simp only [Expr.texts]
  refine (exprTexts_gains hd hitems).bind fun texts htexts => ?_
  refine (he.operand hd false (by decide)).bind ?_
  rintro text ⟨p, ⟨e', ⟨ts, hspelled, hform, hstarts⟩, heq⟩, hp, -⟩
  obtain ⟨tss, es, hall, helements, hrespell⟩ := elements_of_regains htexts
  have hes : es ≠ [] := by
    rintro rfl
    rw [respellAll, respellAll_eq_map] at hrespell
    exact hne (List.map_eq_nil_iff.mp hrespell.symm)
  refine .pure (.single rfl ⟨_, ⟨_, ?_, form_inList negated hform hp helements hes,
    hstarts.append hform.opens.ne_nil rfl⟩, ?_⟩)
  · have hin : Spelled t.dialect "IN" [t.dialect.bare "IN"] := .word hd.toLegible rfl
    have hlist := Spelled.commaList hd.toLegible (Spelled.mem_listGaps.mpr (.inl rfl)) hall
    exact (hspelled.join Spelled.blank_mem (spelled_negation hd.toLegible negated
      (hin.join Spelled.blank_mem (hlist.parens hd.toLegible)))).of_eq (by simp)
  · rw [Expr.respell, Expr.respell, heq, hrespell]

/-! ### Patterns -/

theorem pattern_regains (hd : t.dialect.Expressive) {pattern : Expr} (negated anyCase : Bool)
    (he : Rewrites total t f e) (hp : Rewrites total t f pattern) :
    Renders total t (Render.pattern e pattern negated anyCase e.texts pattern.texts) fun text =>
      ∃ (es ps : List Shape) (pe pp : Precedence) (e' p' : Expr) (any : Bool),
        Spelled t.dialect text (es ++ (t.dialect.negation negated ++
          t.dialect.bare (if any then "ILIKE" else "LIKE") :: ps)) ∧
        Form t.dialect pe es e' ∧ Form t.dialect pp ps p' ∧ .comparison ≤ pe ∧ .comparison < pp ∧
        (any = true → t.dialect.reading.ilike = true) ∧ Starts e es ∧
        ∀ c, Expr.like (e'.respell (.plain f)) (p'.respell (.plain f)) negated any c =
          (t.dialect.respelling f).like (e.respell (t.dialect.respelling f))
            (pattern.respell (t.dialect.respelling f)) negated anyCase c := by
  unfold Render.pattern
  refine .target ?_
  by_cases hcase : (!anyCase || t.dialect.reading.ilike) = true
  · simp only [hcase, if_true]
    refine (he.operand hd false (by decide)).bind ?_
    rintro text ⟨pe, ⟨e', ⟨es, hspelled, hform, hstarts⟩, heq⟩, hpe, -⟩
    refine (hp.operand hd true (by decide)).bind ?_
    rintro ptext ⟨pp, ⟨p', ⟨ps, hps, hpform, -⟩, hpeq⟩, -, hpp⟩
    refine .pure ⟨es, ps, pe, pp, e', p', anyCase, ?_, hform, hpform, hpe, hpp rfl, ?_, hstarts, ?_⟩
    · have hword : Spelled t.dialect (if anyCase then "ILIKE" else "LIKE")
          [t.dialect.bare (if anyCase then "ILIKE" else "LIKE")] := by
        cases anyCase <;> exact .word hd.toLegible rfl
      exact (hspelled.join Spelled.blank_mem (spelled_negation hd.toLegible negated
        (hword.join Spelled.blank_mem hps))).of_eq (by simp)
    · intro hany
      simpa [hany] using hcase
    · intro c
      rw [heq, hpeq, Respelling.like, if_neg]
      revert hcase
      simp only [Dialect.respelling]
      cases anyCase <;> cases t.dialect.reading.ilike <;> decide
  · simp only [hcase]
    refine (he.whole hd).bind fun text htext => (hp.whole hd).bind fun ptext hptext => ?_
    have hlower {x : Expr} {xtext : String} {x₀ : Expr} (h : Regains t f x (t.precedence x) xtext x₀) :
        Regains t f x .atom (t.callText "LOWER" false [xtext]) (.callOf "LOWER" [x₀]) := by
      have hlower : "LOWER" ∈ operatorFunctions := by decide
      have hcall := function_regains hd hlower (by simp) (.cons ⟨x, _, h⟩ .nil) x
      have htext : t.callText "LOWER" false [xtext] =
          t.functionName "LOWER" ++ "(" ++ String.intercalate ", " [xtext] ++ ")" := by
        simp [Target.callText, Target.functionName, hd.lower]
      rwa [htext]
    obtain ⟨e', ⟨es, hspelled, hform, hstarts⟩, heq⟩ := hlower htext
    obtain ⟨p', ⟨ps, hps, hpform, -⟩, hpeq⟩ := hlower hptext
    refine .pure ⟨es, ps, .atom, .atom, e', p', false, ?_, hform, hpform, by decide, by decide,
      by simp, hstarts, ?_⟩
    · have hword : Spelled t.dialect "LIKE" [t.dialect.bare "LIKE"] := .word hd.toLegible rfl
      exact (hspelled.join Spelled.blank_mem (spelled_negation hd.toLegible negated
        (hword.join Spelled.blank_mem hps))).of_eq (by simp [Render.pattern.lowerName])
    · intro c
      rw [heq, hpeq, Respelling.like, if_pos]
      revert hcase
      simp only [Dialect.respelling]
      cases anyCase <;> cases t.dialect.reading.ilike <;> decide

theorem escapeText_gains (hd : t.dialect.Expressive) {o : Option Expr}
    (ho : ∀ e ∈ o, Rewrites total t f e) :
    Renders total t (escapeText o) fun text => ∃ cs o', Escape t.dialect cs o' ∧
      respellOption (.plain f) o' = respellOption (t.dialect.respelling f) o ∧
      ∀ s ts, Spelled t.dialect s ts → Spelled t.dialect (s ++ text) (ts ++ cs) := by
  cases o with
  | none =>
    simp only [escapeText]
    refine .pure ⟨[], none, rfl, by simp only [respellOption], fun s ts hs => ?_⟩
    simpa using hs
  | some e =>
    simp only [escapeText]
    refine ((ho e rfl).operand hd false (by decide)).bind ?_
    rintro text ⟨p, ⟨e', ⟨ts, hspelled, hform, -⟩, heq⟩, hp, -⟩
    refine .pure ⟨_, some e', ⟨p, ts, hform, hp, rfl⟩, by simp only [respellOption, heq],
      fun s us hs => ?_⟩
    have hword : Spelled t.dialect "ESCAPE" [t.dialect.bare "ESCAPE"] := .word hd.toLegible rfl
    exact (hs.join Spelled.blank_mem (hword.join Spelled.blank_mem hspelled)).of_eq (by simp)

theorem like_regains (hd : t.dialect.Expressive) {pattern : Expr} (negated anyCase : Bool)
    {escape : Option Expr} (he : Rewrites total t f e) (hp : Rewrites total t f pattern)
    (hescape : ∀ x ∈ escape, Rewrites total t f x) :
    Rewrites total t f (.like e pattern negated anyCase escape) := by
  unfold Rewrites
  simp only [Expr.texts]
  refine (pattern_regains hd negated anyCase he hp).bind ?_
  rintro text ⟨es, ps, pe, pp, e', p', any, hspelled, hform, hpform, hpe, hpp, hany, hstarts, hlike⟩
  refine (escapeText_gains hd hescape).bind ?_
  rintro escapeText ⟨cs, o', hesc, hoeq, happend⟩
  refine .pure (.single ?_ ⟨_, ⟨_, ?_, form_like hd.toReadable negated hany hform hpform hpe hpp hesc,
    hstarts.append hform.opens.ne_nil rfl⟩, ?_⟩)
  · rfl
  · simpa using happend _ _ hspelled
  · rw [Expr.respell, Expr.respell, hoeq, ← hlike]
    simp [Respelling.like, Respelling.plain]

/-! ### Conditionals -/

/-- An expression that may be missing is read back behind the words `words`. -/
def OptionGains (t : Target) (f : Name → Name) (words : List Shape) (texts : List String)
    (o₀ : Option Expr) : Prop :=
  ∃ tss o, List.Forall₂ (Spelled t.dialect) texts tss ∧ Clause t.dialect words tss.flatten o ∧
    respellOption (.plain f) o = o₀

theorem optionTexts_gains (hd : t.dialect.Expressive) {o : Option Expr} {words : List Shape}
    {write : String → String} (ho : ∀ e ∈ o, Rewrites total t f e)
    (hwrite : ∀ s ts, Spelled t.dialect s ts → Spelled t.dialect (write s) (words ++ ts)) :
    Renders total t (optionTexts o) fun texts =>
      OptionGains t f words (texts.map write) (respellOption (t.dialect.respelling f) o) := by
  cases o with
  | none =>
    simp only [optionTexts, respellOption]
    exact .pure ⟨[], none, .nil, rfl, by rw [respellOption]⟩
  | some e =>
    simp only [optionTexts, respellOption]
    refine ((ho e rfl).whole hd).bind ?_
    rintro text ⟨e', ⟨ts, hspelled, hform, -⟩, heq⟩
    refine .pure ⟨[words ++ ts], some e', .cons (hwrite _ _ hspelled) .nil,
      ⟨_, ts, hform, by simp⟩, ?_⟩
    rw [respellOption, heq]

theorem branchTexts_gains (hd : t.dialect.Expressive) {bs : List Branch}
    (hbs : ∀ b ∈ bs, Rewrites total t f b.condition ∧ Rewrites total t f b.result) :
    Renders total t (branchTexts bs) fun texts =>
      ∃ tss bs', List.Forall₂ (Spelled t.dialect) texts tss ∧ Branches t.dialect tss.flatten bs' ∧
        respellBranches (.plain f) bs' = respellBranches (t.dialect.respelling f) bs := by
  induction bs with
  | nil =>
    simp only [branchTexts, respellBranches]
    exact .pure ⟨[], [], .nil, .nil, by rw [respellBranches]⟩
  | cons b bs ih =>
    obtain ⟨condition, result⟩ := b
    obtain ⟨hcondition, hresult⟩ := hbs ⟨condition, result⟩ (by simp)
    simp only [branchTexts, respellBranches]
    refine (hcondition.whole hd).bind ?_
    rintro ctext ⟨c', ⟨cs, hcs, hcform, -⟩, hceq⟩
    refine (hresult.whole hd).bind ?_
    rintro rtext ⟨r', ⟨rs, hrs, hrform, -⟩, hreq⟩
    refine (ih fun b hb => hbs b (by simp [hb])).bind ?_
    rintro texts ⟨tss, bs', hall, hbranches, heq⟩
    refine .pure ⟨(t.dialect.bare "WHEN" :: (cs ++ t.dialect.bare "THEN" :: rs)) :: tss,
      ⟨c', r'⟩ :: bs', .cons ?_ hall, ?_, ?_⟩
    · have hwhen : Spelled t.dialect "WHEN" [t.dialect.bare "WHEN"] := .word hd.toLegible rfl
      have hthen : Spelled t.dialect "THEN" [t.dialect.bare "THEN"] := .word hd.toLegible rfl
      exact (hwhen.join Spelled.blank_mem (hcs.join Spelled.blank_mem (hthen.join Spelled.blank_mem
        hrs))).of_eq (by simp)
    · simpa using Branches.cons hcform hrform hbranches
    · rw [respellBranches, hceq, hreq, heq]

theorem case_regains (hd : t.dialect.Expressive) {subject otherwise : Option Expr}
    {branches : List Branch} (hne : branches ≠ []) (hs : ∀ e ∈ subject, Rewrites total t f e)
    (hb : ∀ b ∈ branches, Rewrites total t f b.condition ∧ Rewrites total t f b.result)
    (ho : ∀ e ∈ otherwise, Rewrites total t f e) :
    Rewrites total t f (.case subject branches otherwise) := by
  have hcase : Spelled t.dialect "CASE" [t.dialect.bare "CASE"] := .word hd.toLegible rfl
  have helse : Spelled t.dialect "ELSE" [t.dialect.bare "ELSE"] := .word hd.toLegible rfl
  have hend : Spelled t.dialect "END" [t.dialect.bare "END"] := .word hd.toLegible rfl
  unfold Rewrites
  simp only [Expr.texts]
  have hplain : ∀ s ts, Spelled t.dialect s ts → Spelled t.dialect s ([] ++ ts) := fun _ _ h => h
  refine (optionTexts_gains hd hs hplain).bind ?_
  rintro stexts ⟨sss, s', hsall, hsclause, hseq⟩
  refine (branchTexts_gains hd hb).bind ?_
  rintro btexts ⟨bss, bs', hball, hbranches, hbeq⟩
  refine (optionTexts_gains hd ho fun s ts h =>
    (helse.join Spelled.blank_mem h).of_eq (r := "ELSE" ++ " " ++ s) rfl).bind ?_
  rintro otexts ⟨oss, o', hoall, hoclause, hoeq⟩
  have hne' : bs' ≠ [] := by
    rintro rfl
    cases branches with
    | nil => exact hne rfl
    | cons b bs =>
      obtain ⟨condition, result⟩ := b
      simp only [respellBranches] at hbeq
      cases hbeq
  refine .pure (.single rfl ⟨_, ⟨_, ?_, form_case hd.toReadable hsclause hbranches hne' hoclause,
    .bare ⟨rfl, rfl⟩⟩, ?_⟩)
  · have hall := List.Forall₂.cons hcase (List.rel_append hsall (List.rel_append hball
      (List.rel_append hoall (List.Forall₂.cons hend .nil))))
    have hlist := Spelled.gapList Spelled.blank_mem hall
    simpa using hlist
  · rw [Expr.respell, Expr.respell, hseq, hbeq, hoeq]

theorem cond_regains (hd : t.dialect.Expressive) {condition yes no : Expr}
    (hc : Rewrites total t f condition) (hy : Rewrites total t f yes) (hn : Rewrites total t f no) :
    Rewrites total t f (.cond condition yes no) := by
  unfold Rewrites
  simp only [Expr.texts]
  refine (hc.whole hd).bind ?_
  rintro ctext ⟨c', ⟨cs, hcs, hcform, -⟩, hceq⟩
  refine (hy.whole hd).bind ?_
  rintro ytext ⟨y', ⟨ys, hys, hyform, -⟩, hyeq⟩
  refine (hn.whole hd).bind ?_
  rintro ntext ⟨n', ⟨ns, hns, hnform, -⟩, hneq⟩
  refine .target ?_
  cases hif : t.dialect.writing.ifFunction with
  | some w =>
    obtain ⟨hcallable, hmem, hwords⟩ := hd.conditional w hif
    have hbare : t.dialect.isBare w = true := by
      simp only [Dialect.isCallable, Bool.and_eq_true] at hcallable
      exact hcallable.1.1
    have hword {x : String} (hx : Text.upper w ≠ Text.upper x) : Text.sameWord w x = false := by
      rw [← Bool.not_eq_true, Text.sameWord_iff]
      exact hx
    simp only [List.mem_cons, List.not_mem_nil, or_false, not_or] at hwords
    obtain ⟨hextract, hdatePart, hrows, hunbounded⟩ := hwords
    refine .pure (.single rfl ⟨_, ⟨_, ?_, form_cond hcallable hmem ⟨hextract, hdatePart⟩ hcform
      hyform hnform, .bare ⟨hword hrows, hword hunbounded⟩⟩, ?_⟩)
    · have hlist := Spelled.commaList hd.toLegible (Spelled.mem_listGaps.mpr (.inl rfl))
        (.cons hcs (.cons hys (.cons hns .nil)))
      exact (Spelled.called hd.toLegible hbare hlist).of_eq (by simp)
    · simp [Expr.respell, Respelling.cond, Respelling.plain, Dialect.respelling, hif] at hceq hyeq hneq ⊢
      exact ⟨hceq, hyeq, hneq⟩
  | none =>
    have hbranches := Branches.cons hcform hyform .nil
    have helse : Clause t.dialect [t.dialect.bare "ELSE"] _ (some n') := ⟨_, ns, hnform, rfl⟩
    have hsubject : Clause t.dialect [] [] none := rfl
    refine .pure (.single rfl ⟨_, ⟨_, ?_, form_case hd.toReadable hsubject hbranches
      (by simp) helse, .bare ⟨rfl, rfl⟩⟩, ?_⟩)
    · have hword {w : String} (hw : Spelled.isPlainWord w = true) : Spelled t.dialect w
          [t.dialect.bare w] := .word hd.toLegible hw
      have hlast := hns.join Spelled.blank_mem (hword (w := "END") rfl)
      have hsecond := hys.join Spelled.blank_mem ((hword (w := "ELSE") rfl).join Spelled.blank_mem hlast)
      have hfirst := hcs.join Spelled.blank_mem ((hword (w := "THEN") rfl).join Spelled.blank_mem hsecond)
      have hall := (hword (w := "CASE") rfl).join Spelled.blank_mem
        ((hword (w := "WHEN") rfl).join Spelled.blank_mem hfirst)
      simpa using hall.of_eq (s := s!"CASE WHEN {ctext} THEN {ytext} ELSE {ntext} END") (by simp)
    · have hnone : (t.dialect.respelling f).conditional = false := by simp [Dialect.respelling, hif]
      simp only [Expr.respell, respellOption, respellBranches, Respelling.cond, hnone, hceq, hyeq,
        hneq]
      rfl

end Steps

end SqlDialects
