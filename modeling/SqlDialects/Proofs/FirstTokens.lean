import SqlDialects.Proofs.FunctionNames
import SqlDialects.Proofs.OffsetClauses

/-!
# The tokens at which expressions and queries start

* `Expr.LedBy` : an expression that starts with a word of its own only where the token does;
* `operandWith_led`, `subexpr_led` : the expressions that are read at a token;
* `Input.OpensAt`, `Deeper.Opened`, `nested_opened` : the words and marks with which the queries that are
  read at a token open;
* `ctes_plain` : the name of the first common table expression.
-/

namespace SqlDialects

open SqlDialects.Parser

/-! ## Results at a token -/

theorem eatWord_run (word : String) (i : Input) (c : Cursor) :
    ∃ e, eatWord word i c = (.ok ((i.token c.index).isWord word), e) ∧
      ((i.token c.index).isWord word = false → e.index = c.index) := by
  obtain ⟨e, he, hrun⟩ := checkWord_run word i c
  rw [eatWord, Parser.bind_ok hrun]
  cases (i.token c.index).isWord word with
  | true => exact ⟨_, rfl, by simp⟩
  | false => exact ⟨e, rfl, fun _ => he⟩

/-- A mark is taken unless the text has ended. -/
theorem eatSymbol_run (symbol : String) (i : Input) (c : Cursor) :
    ∃ e, eatSymbol symbol i c = (.ok ((i.token c.index).isSymbol symbol), e) ∧
      ((i.token c.index).isSymbol symbol = false → e.index = c.index) ∧
        ((i.token c.index).isSymbol symbol = true → c.index < i.tokens.size → e.index = c.index + 1) := by
  cases hsymbol : (i.token c.index).isSymbol symbol with
  | true =>
    have hcheck : checkSymbol symbol i c = (.ok true, c) := by
      simp [checkSymbol, Parser.peekSymbol, Parser.peek, Parser.peekNth, look, Bind.bind, Pure.pure, hsymbol]
    rw [eatSymbol, Parser.bind_ok hcheck]
    exact ⟨_, rfl, by simp, fun _ hlt => by simp [hlt]⟩
  | false =>
    have hcheck : ∃ e, e.index = c.index ∧ checkSymbol symbol i c = (.ok false, e) := by
      refine ⟨c.note c.index s!"'{symbol}'", c.note_index _ _, ?_⟩
      simp [checkSymbol, Parser.peekSymbol, Parser.peek, Parser.peekNth, expectHere, expectNth, look, Bind.bind,
        Pure.pure, hsymbol]
    obtain ⟨e, he, hcheck⟩ := hcheck
    rw [eatSymbol, Parser.bind_ok hcheck]
    exact ⟨e, rfl, fun _ => he, by simp⟩

/-- What holds of the results at every token holds of all results. -/
theorem YieldsOn.of_at {α : Type} {i : Input} {p : Parser α} {P : α → Prop} {N : List Name → Prop}
    (h : ∀ k, YieldsAt i k p P N) : YieldsOn i p P N :=
  fun c a c' heq => h c.index c a c' rfl heq

namespace YieldsAt

variable {α β : Type} {i : Input} {k : Nat} {p : Parser α} {P Q : α → Prop} {R : β → Prop} {N : List Name → Prop}

theorem mono (h : YieldsAt i k p P N) (himp : ∀ a, P a → Q a) : YieldsAt i k p Q N :=
  fun c a c' hk heq hnames => himp a (h c a c' hk heq hnames)

/-- What holds whatever functions are called. -/
theorem given (h : YieldsAt i k p P) : YieldsAt i k p P N :=
  fun c a c' hk heq _ => h c a c' hk heq fun _ _ => trivial

theorem and (hp : YieldsAt i k p P N) (hq : YieldsAt i k p Q N) : YieldsAt i k p (fun a => P a ∧ Q a) N :=
  fun c a c' hk heq hnames => ⟨hp c a c' hk heq hnames, hq c a c' hk heq hnames⟩

theorem pure {a : α} (h : P a) : YieldsAt i k (Pure.pure a) P N := .of_yieldsOn (.pure h)

theorem bind {f : α → Parser β} (hp : YieldsAt i k p P N) (hf : ∀ a, P a → YieldsOn i (f a) R N) :
    YieldsAt i k (p >>= f) R N := by
  intro c b c' hk heq hnames
  obtain ⟨a, e, hrun, hrest⟩ := Parser.of_bind_ok heq
  have hkept := Parser.functions_of_run hrest
  exact hf a (hp c a e hk hrun fun ns hns => hnames ns (hkept hns)) e b c' hrest hnames

/-- What is read behind a parser that takes no token. -/
theorem still {f : α → Parser β} (hp : ∀ c, (p i c).2 = c) (hf : ∀ a, YieldsAt i k (f a) R N) :
    YieldsAt i k (p >>= f) R N := by
  intro c b c' hk heq
  obtain ⟨a, e, hrun, hrest⟩ := Parser.of_bind_ok heq
  obtain rfl : e = c := by rw [← hp c, hrun]
  exact hf a e b c' hk hrest

theorem peekNth {n : Nat} {f : Token → Parser β} (h : YieldsAt i k (f (i.token (k + n))) R N) :
    YieldsAt i k (Parser.peekNth n >>= f) R N := by
  rintro c b c' rfl heq
  exact h c b c' rfl heq

theorem peek {f : Token → Parser β} (h : YieldsAt i k (f (i.token k)) R N) : YieldsAt i k (Parser.peek >>= f) R N :=
  peekNth h

theorem peekSymbol {symbol : String} {f : Bool → Parser β}
    (h : YieldsAt i k (f ((i.token k).isSymbol symbol)) R N) :
    YieldsAt i k (Parser.peekSymbol symbol >>= f) R N := by
  rintro c b c' rfl heq
  exact h c b c' rfl heq

theorem peekQuery {f : Bool → Parser β}
    (h : YieldsAt i k (f ((i.token k).isWord "SELECT" || (i.token k).isWord "WITH")) R N) :
    YieldsAt i k (Parser.peekQuery >>= f) R N := by
  rintro c b c' rfl heq
  exact h c b c' rfl heq

theorem dialect {f : Dialect → Parser β} (h : YieldsAt i k (f i.dialect) R N) :
    YieldsAt i k (Parser.dialect >>= f) R N := h

/-- A production one level down yields what it yields. -/
theorem level (hp : YieldsAt i k p P N) : YieldsAt i k (Parser.level p) P N := by
  intro c a c' hk heq hnames
  rcases Parser.level_cases heq with ⟨-, hrefused⟩ | ⟨-, e, hrun, rfl⟩
  · cases hrefused
  · exact hp c.down a e hk hrun hnames

/-- What is read behind a word, and where the word does not stand. -/
theorem word {w : String} {f : Bool → Parser β} (hyes : (i.token k).isWord w = true → YieldsOn i (f true) R N)
    (hno : (i.token k).isWord w = false → YieldsAt i k (f false) R N) :
    YieldsAt i k (Parser.eatWord w >>= f) R N := by
  rintro c b c' rfl heq
  obtain ⟨e, hrun, hstill⟩ := eatWord_run w i c
  replace heq := (Parser.bind_ok hrun).symm.trans heq
  cases hword : (i.token c.index).isWord w with
  | true =>
    rw [hword] at heq
    exact hyes hword e b c' heq
  | false =>
    rw [hword] at heq
    exact hno hword e b c' (hstill hword) heq

/-- What is read behind a part that a word introduces, and where the word does not stand. -/
theorem optionalWord {w : String} {f : Option α → Parser β}
    (hyes : (i.token k).isWord w = true → ∀ a, YieldsOn i (f (some a)) R N)
    (hno : (i.token k).isWord w = false → YieldsAt i k (f none) R N) :
    YieldsAt i k (Parser.optional (Parser.eatWord w) p >>= f) R N := by
  rintro c b c' rfl heq
  obtain ⟨o, e, hpart, hrest⟩ := Parser.of_bind_ok heq
  obtain ⟨e', hrun, hstill⟩ := eatWord_run w i c
  replace hpart := (Parser.bind_ok hrun).symm.trans hpart
  cases hword : (i.token c.index).isWord w with
  | true =>
    rw [hword] at hpart
    obtain ⟨a, e₁, -, hlast⟩ := Parser.of_bind_ok hpart
    cases hlast
    exact hyes hword a _ b c' hrest
  | false =>
    rw [hword] at hpart
    cases hpart
    exact hno hword _ b c' (hstill hword) hrest

/-- What is read behind a mark, and where the mark does not stand. -/
theorem symbol {s : String} {f : Bool → Parser β} (hfinish : i.finish.isStop = true) (hs : s ≠ ";")
    (hyes : (i.token k).isSymbol s = true → YieldsAt i (k + 1) (f true) R N)
    (hno : (i.token k).isSymbol s = false → YieldsAt i k (f false) R N) :
    YieldsAt i k (Parser.eatSymbol s >>= f) R N := by
  rintro c b c' rfl heq
  obtain ⟨e, hrun, hstill, hmoves⟩ := eatSymbol_run s i c
  replace heq := (Parser.bind_ok hrun).symm.trans heq
  cases hsymbol : (i.token c.index).isSymbol s with
  | true =>
    rw [hsymbol] at heq
    have hlt : c.index < i.tokens.size := by
      by_contra hge
      have htoken : i.token c.index = i.finish := by
        rw [Input.token, Array.getElem?_eq_none (Nat.le_of_not_lt hge), Option.getD_none]
      rw [htoken] at hsymbol
      exact Bool.false_ne_true ((Token.isSymbol_of_isStop hfinish hs).symm.trans hsymbol)
    exact hyes hsymbol e b c' (hmoves hsymbol hlt) heq
  | false =>
    rw [hsymbol] at heq
    exact hno hsymbol e b c' (hstill hsymbol) heq

end YieldsAt

/-! ## Expressions -/

/-- The expression starts with a test for rows only where `t` is its word, and with a name that opens the end of
a window frame only where `t` is this name. -/
structure Expr.LedBy (e : Expr) (t : Token) : Prop where
  rows : e.startsExists = true → t.isWord "EXISTS" = true
  unbounded : e.startsUnbounded = true → t.isWord "UNBOUNDED" = true

namespace Expr.LedBy

variable {e e' : Expr} {t : Token}

theorem of_plain (hrows : e.startsExists = false) (hunbounded : e.startsUnbounded = false) : e.LedBy t :=
  ⟨fun h => absurd h (by simp [hrows]), fun h => absurd h (by simp [hunbounded])⟩

theorem of_call {f : Call} (h : (Expr.call f).startsUnbounded = true → t.isWord "UNBOUNDED" = true) :
    (Expr.call f).LedBy t :=
  ⟨fun hrows => (Bool.false_ne_true hrows).elim, h⟩

/-- What is joined to an operand does not matter. -/
theorem of_leftmost (h : e.LedBy t) (hleft : e'.leftmost = e.leftmost) : e'.LedBy t := by
  refine ⟨fun hrows => h.rows ?_, fun hunbounded => ?_⟩
  · simpa [Expr.startsExists, hleft] using hrows
  · exact h.unbounded (by simpa [Expr.startsUnbounded, hleft] using hunbounded)

end Expr.LedBy

section Expressions

variable {i : Input} {k : Nat} {deeper : Deeper} {operand : Parser Expr} {t : Token} {g : Target} {N : List Name → Prop}

/-- A call starts as what its name means does. -/
theorem call_led {name : String} (position : Position)
    (h : ∀ f, i.dialect.Means name f → (Expr.call f).startsUnbounded = true → t.isWord "UNBOUNDED" = true) :
    YieldsOn (N := N) i (call deeper operand name position) (·.LedBy t) := by
  have hother : YieldsOn i (call deeper operand name position) fun e => (∀ f, e ≠ .call f) → e.LedBy t := by
    refine .skip fun d => ?_
    dsimp only
    split
    · exact .parenthesized (.skip fun _ => .skip fun _ => .skip fun _ => .pure fun _ => .of_plain rfl rfl)
    split
    · exact .parenthesized (.skip fun _ => .skip fun _ => .skip fun _ => .pure fun _ => .of_plain rfl rfl)
    split
    · exact .parenthesized (.skip fun _ => .skip fun _ => .skip fun _ => .skip fun _ => .skip fun _ =>
        .pure fun _ => .of_plain rfl rfl)
    split
    · exact .skip fun _ => .skip fun _ => .pure fun _ => .of_plain rfl rfl
    · exact .skip fun _ => .skip fun _ => .skip fun _ => .skip fun _ => .pure fun hno => absurd rfl (hno _)
  refine (((call_means name position).and hother).mono fun e he => ?_).given
  by_cases hcall : ∃ f, e = .call f
  · obtain ⟨f, rfl⟩ := hcall
    exact .of_call (h f (he.1 f rfl))
  · exact he.2 fun f hf => hcall ⟨f, hf⟩

theorem name_at : YieldsAt (N := N) i k name fun n => (i.token k).shape = n.shape := by
  refine .peek ?_
  by_cases hname : (i.token k).isName = true
  · simp only [hname, if_true]
    refine .of_yieldsOn (.skip fun _ => .pure ?_)
    unfold Token.isName at hname
    split at hname
    case h_1 hkind => simp [Token.shape, Name.shape, hkind]
    case h_2 hkind => simp [Token.shape, Name.shape, hkind]
    case h_3 => cases hname
  · simp only [hname]
    exact .of_yieldsOn (.skip fun _ => .unexpected)

/-- A name that opens the end of a window frame is the word of its token. -/
theorem isWord_of_isUnbounded {n : Name} (ht : t.shape = n.shape) (h : n.isUnbounded = true) :
    t.isWord "UNBOUNDED" = true := by
  rw [Name.isUnbounded, Bool.and_eq_true, Bool.not_eq_true'] at h
  rw [← Token.isWord_shape, ht, Name.shape, h.1]
  exact h.2

theorem chain_led (hs : i.Suits g) :
    YieldsAt (N := Unquoted) i k (chain deeper operand) (·.LedBy (i.token k)) := by
  refine .peek ((name_at.and (.of_yieldsOn name_sourced)).bind fun n hn => ?_)
  refine (YieldsOn.many chainPart_sourced).bind fun rest hrest => .skip fun called => ?_
  split
  · refine .nameFunction fun hunquoted => call_led _ fun f hmeans hstarts => ?_
    have hnamed : f.NamedBy i (n :: rest) :=
      ⟨by simp, hunquoted, List.forall_mem_cons.mpr ⟨hn.2, hrest⟩, hmeans⟩
    exact isWord_of_isUnbounded hn.1 (hnamed.starts hs hstarts)
  · refine .pure ?_
    split
    · exact ⟨fun h => (Bool.false_ne_true h).elim, fun h => isWord_of_isUnbounded hn.1 h⟩
    · exact ⟨fun h => (Bool.false_ne_true h).elim, fun h => isWord_of_isUnbounded hn.1 h⟩

theorem param_led : YieldsOn (N := N) i param (·.LedBy t) := by
  refine .skip fun s => .skip fun rules => ?_
  extract_lets body found
  have hfound (o : Option Param) : YieldsOn (N := N) i (found o) (·.LedBy t) := by
    cases o with
    | none => exact .skip fun _ => .unexpected
    | some p => exact .skip fun _ => .pure (.of_plain rfl rfl)
  split
  · split <;> exact .skip hfound
  · split <;> exact .skip hfound

theorem caseExpr_led : YieldsOn (N := N) i (caseExpr deeper) (·.LedBy t) := by
  refine .skip fun _ => .skip fun simple => ?_
  extract_lets rest
  have hrest (o : Option Expr) : YieldsOn (N := N) i (rest o) (·.LedBy t) := by
    refine .skip fun branches => ?_
    extract_lets close
    have hclose (u : Unit) : YieldsOn (N := N) i (close u) (·.LedBy t) :=
      .skip fun last => .skip fun _ => .pure (.of_plain rfl rfl)
    split
    · exact .skip hclose
    · exact hclose ()
  split
  · exact .skip hrest
  · exact .skip hrest

theorem castExpr_led (safe : Bool) : YieldsOn (N := N) i (castExpr deeper safe) (·.LedBy t) :=
  .skip fun _ => .parenthesized (.skip fun _ => .skip fun _ => .skip fun _ => .pure (.of_plain rfl rfl))

theorem intervalExpr_led : YieldsOn (N := N) i (intervalExpr operand) (·.LedBy t) := by
  refine .skip fun _ => .skip fun d => ?_
  split
  · exact .skip fun _ => .skip fun _ => .pure (.of_plain rfl rfl)
  · refine .skip fun s => ?_
    extract_lets close
    have hclose (u : Unit) : YieldsOn (N := N) i (close u) (·.LedBy t) :=
      .skip fun _ => .skip fun unit => .pure (.of_plain rfl rfl)
    split
    · exact hclose ()
    · exact .skip fun _ => .skip hclose

/-- Only the word `EXISTS` introduces a test for rows. -/
theorem wordForm_led {d : Dialect} {called : Bool} {form : Parser Expr} (hkind : t.isBareWord = true)
    (h : wordForm? deeper operand d (Text.upper t.text) called = some form) :
    YieldsOn (N := N) i form (·.LedBy t) := by
  cases wordForm_cases h with
  | null => exact .skip fun _ => .pure (.of_plain rfl rfl)
  | truth _ => exact .skip fun _ => .pure (.of_plain rfl rfl)
  | branches => exact caseExpr_led
  | cast => exact castExpr_led false
  | existence hword =>
    refine .skip fun _ => .skip fun q => .pure ⟨fun _ => ?_, fun hunbounded => (Bool.false_ne_true hunbounded).elim⟩
    rw [Token.isWord, hkind, Bool.true_and, Text.sameWord_iff]
    exact hword
  | interval _ => exact intervalExpr_led
  | safeCast _ => exact castExpr_led true
  | now _ => exact .skip fun _ => .pure (.of_plain rfl rfl)

theorem wordExpr_led (hs : i.Suits g) (hkind : (i.token k).isBareWord = true) :
    YieldsAt (N := Unquoted) i k (wordExpr deeper operand (i.token k)) (·.LedBy (i.token k)) := by
  refine .dialect (.peekNth ?_)
  dsimp only
  split
  case h_1 form hform => exact .of_yieldsOn (wordForm_led hkind hform)
  split
  · refine .of_yieldsOn (.skip fun _ => .skip fun value => ?_)
    split
    · exact .pure (.of_plain rfl rfl)
    · exact .skip fun _ => .pure (.of_plain rfl rfl)
  split
  · refine .of_yieldsOn (.skip fun _ => .skip fun _ => call_led _ fun f hmeans hstarts => ?_)
    rw [Token.isWord, hkind, Bool.true_and]
    rw [hs.dialect] at hmeans
    exact hmeans.starts hs.stable (hs.isBare ⟨k, rfl⟩ hkind) hstarts
  split
  · refine .of_yieldsOn (.skip fun _ => ?_)
    exact YieldsOn.bind (P := fun _ => False) .unexpected fun _ h => h.elim
  · exact chain_led hs

theorem primary_led (hs : i.Suits g) : YieldsAt (N := Unquoted) i k (primary deeper operand) (·.LedBy (i.token k)) := by
  refine .peek ?_
  split
  · exact .of_yieldsOn (.skip fun _ => .pure (.of_plain rfl rfl))
  · exact .of_yieldsOn (.skip fun _ => .pure (.of_plain rfl rfl))
  · exact .of_yieldsOn param_led
  case h_4 hkind => exact wordExpr_led hs (by simp [Token.isBareWord, hkind])
  case h_5 hkind => exact wordExpr_led hs (by simp [Token.isBareWord, hkind])
  · exact chain_led hs
  · split
    · refine .of_yieldsOn (.parenthesized (.test (.skip fun q => .pure ?_) (.skip fun e => .pure ?_)))
      · exact .of_plain rfl rfl
      · exact .of_plain rfl rfl
    · exact .of_yieldsOn (.skip fun _ => .unexpected)
  · exact .of_yieldsOn (.skip fun _ => .unexpected)

theorem operandWith_led (hs : i.Suits g) :
    YieldsAt (N := Unquoted) i k (operandWith deeper operand) (·.LedBy (i.token k)) := by
  refine .word (fun _ => .test (.skip fun q => .pure (.of_plain rfl rfl)) (.skip fun e => .pure (.of_plain rfl rfl)))
    fun _ => .peek ?_
  split
  · exact .of_yieldsOn (.skip fun _ => .skip fun e => .pure (.of_plain rfl rfl))
  · exact primary_led hs

theorem operandUpTo_led (hs : i.Suits g) (n : Nat) :
    YieldsAt (N := Unquoted) i k (operandUpTo deeper n) (·.LedBy (i.token k)) := by
  cases n with
  | zero => exact .of_yieldsOn .unexpected
  | succ n => exact operandWith_led hs

theorem operandFrom_led (hs : i.Suits g) :
    YieldsAt (N := Unquoted) i k (operandFrom deeper) (·.LedBy (i.token k)) :=
  .still (fun _ => rfl) fun _ => operandUpTo_led hs _

/-- What is joined to an operand starts as the operand does, or as no word of its own. -/
theorem joined_led {left : Expr} (hleft : left.LedBy t) (c : Connective) (p : Precedence) :
    YieldsOn (N := N) i (joined deeper left c p) (·.LedBy t) := by
  cases c with
  | binary op => exact .skip fun _ => .skip fun right => .pure (hleft.of_leftmost rfl)
  | doubleColon => exact .skip fun _ => .skip fun type => .pure (.of_plain rfl rfl)
  | is => exact .skip fun _ => .skip fun negated => .skip fun _ => .pure (hleft.of_leftmost rfl)
  | predicate =>
    have hlike (negated anyCase : Bool) : YieldsOn (N := N) i (do
        let pattern ← deeper.expr .comparison
        let escape ← Parser.optional (eatWord "ESCAPE") (operandFrom deeper)
        return Expr.like left pattern negated anyCase escape) (·.LedBy t) :=
      .skip fun _ => .skip fun _ => .pure (hleft.of_leftmost rfl)
    refine .skip fun negated => .test ?_ (.test ?_ (.test (hlike negated false) (.skip fun _ => hlike negated true)))
    · exact .skip fun _ => .skip fun _ => .skip fun _ => .pure (hleft.of_leftmost rfl)
    · refine .parenthesized (.test (.skip fun q => .pure ?_) (.skip fun es => .pure ?_))
      · exact hleft.of_leftmost rfl
      · exact hleft.of_leftmost rfl

theorem subexpr_led (hs : i.Suits g) (least : Precedence) :
    YieldsAt (N := Unquoted) i k (subexpr deeper least) (·.LedBy (i.token k)) := by
  refine YieldsAt.bind (operandFrom_led hs) fun left hleft => .iterate hleft fun e he => ?_
  refine .rules (.skip fun t => .skip fun next => ?_)
  split
  · split
    · exact .pure (by simp)
    · refine (joined_led he _ _).bind fun e' he' => .pure ?_
      rintro _ ⟨⟩
      exact he'
  · exact .pure (by simp)

theorem nested_led (hs : i.Suits g) (n : Nat) (p : Precedence) :
    YieldsAt (N := Unquoted) i k ((nested n).expr p) (·.LedBy (i.token k)) := by
  cases n with
  | zero => exact .of_yieldsOn (.skip fun t => .unexpectedAt t _)
  | succ n => exact .level (subexpr_led hs p)

end Expressions

/-! ## Queries -/

/-- The words and marks `ws` stand at the token `k` and behind it. -/
def Input.OpensAt (i : Input) : Nat → List String → Prop
  | _, [] => True
  | k, w :: ws => (i.token k).shape.isLead w = true ∧ i.OpensAt (k + 1) ws

/-- The queries one level down open with the words and marks at the token at which they are read. -/
def Deeper.Opened (i : Input) (deeper : Deeper) : Prop :=
  ∀ k, YieldsAt i k deeper.query fun q => i.OpensAt k q.opening

section Queries

variable {i : Input} {k : Nat} {deeper : Deeper}

theorem isLead_of_isWord {t : Token} {w : String} (hw : w ≠ "(") (h : t.isWord w = true) :
    t.shape.isLead w = true := by
  rwa [Shape.isLead, if_neg hw, Token.isWord_shape]

theorem setOperand_opened (hdeep : deeper.Opened i) (hfinish : i.finish.isStop = true) :
    YieldsAt i k (setOperand deeper) fun r => i.OpensAt k r.1.opening := by
  refine .checkWord (b := true) ?_
  split
  · next hselect => exact .of_yieldsOn (.skip fun r => .pure ⟨isLead_of_isWord (by decide) hselect, trivial⟩)
  refine .word (fun hvalues => ?_) fun _ => .symbol hfinish (by decide) (fun hopen => ?_) fun _ =>
    .of_yieldsOn .unexpected
  · exact .skip fun rows => .pure ⟨isLead_of_isWord (by decide) hvalues, trivial⟩
  · refine (hdeep (k + 1)).bind fun q hq => .skip fun _ => .pure ⟨?_, hq⟩
    rwa [Shape.isLead, if_pos rfl, Token.isSymbol_shape]

theorem body_opened (hdeep : deeper.Opened i) (hfinish : i.finish.isStop = true) (htraced : deeper.Traced i)
    (htop : i.dialect.reading.top = false) :
    YieldsAt i k (body deeper) fun r => i.OpensAt k r.1.opening := by
  have hoperand : YieldsAt i k (setOperand deeper) fun r => r.2 = none ∧ i.OpensAt k r.1.opening :=
    ((YieldsAt.of_yieldsOn (setOperand_sourced htraced)).and (setOperand_opened hdeep hfinish)).mono
      fun r hr => ⟨hr.1.plain htop, hr.2⟩
  refine (hoperand.bind (R := fun r => r.2 = none ∧ i.OpensAt k r.1.opening) fun first hfirst =>
    .iterate hfirst fun left hleft => .skip fun op => ?_).mono fun r hr => hr.2
  cases op with
  | none => exact .pure (by simp)
  | some op =>
    refine .skip fun quantifier => .skip fun right => .pure ?_
    rintro _ ⟨⟩
    refine ⟨rfl, ?_⟩
    rw [Body.opening, hleft.1]
    exact hleft.2

theorem queryWith_opened (hdeep : deeper.Opened i) (hfinish : i.finish.isStop = true) (htraced : deeper.Traced i)
    (htop : i.dialect.reading.top = false) :
    YieldsAt i k (queryWith deeper) fun q => i.OpensAt k q.opening := by
  refine .optionalWord (fun hwith ctes => .skip fun first => .skip fun order => .skip fun limit => .pure ?_)
    fun _ => (body_opened hdeep hfinish htraced htop).bind fun first hfirst => .skip fun order =>
      .skip fun limit => .pure ?_
  · exact ⟨isLead_of_isWord (by decide) hwith, trivial⟩
  · exact hfirst

/-- The queries of every level open with the words and marks at the token at which they are read. -/
theorem nested_opened (hfinish : i.finish.isStop = true) (htop : i.dialect.reading.top = false) (n : Nat) :
    (nested n).Opened i := by
  induction n with
  | zero => exact fun k => .of_yieldsOn (.skip fun t => .unexpectedAt t _)
  | succ n ih => exact fun k => .level (queryWith_opened ih hfinish (nested_traced i n) htop)

theorem Input.OpensAt.next {q : Query} (h : i.OpensAt k q.opening)
    (hnext : ((i.token k).isWord "SELECT" || (i.token k).isWord "WITH") = true) : q.IsNextQuery := by
  obtain ⟨w, ws, heq, hw⟩ := q.opening_eq
  rw [heq] at h
  have hno (v : String) (hsame : w = "(" ∨ Text.sameWord w v = false) : (i.token k).isWord v = false := by
    rw [← Token.isWord_shape]
    exact Shape.isWord_of_isLead h.1 hsame
  refine ⟨w, ?_, ws, heq⟩
  simp only [List.mem_cons, List.not_mem_nil, or_false] at hw
  rcases hw with rfl | rfl | rfl | rfl
  · simp
  · simp
  · rw [hno "SELECT" (.inr rfl), hno "WITH" (.inr rfl)] at hnext
    cases hnext
  · rw [hno "SELECT" (.inl rfl), hno "WITH" (.inl rfl)] at hnext
    cases hnext

theorem cte_at (k : Nat) : YieldsAt i k (cte deeper) fun c => (i.token k).shape = c.name.shape :=
  name_at.bind fun _ hlabel => .skip fun _ => .skip fun _ => .skip fun _ => .pure hlabel

/-- Where `RECURSIVE` is not taken the first common table expression does not start with it. -/
theorem ctes_plain : YieldsOn i (ctes deeper) fun w =>
    w.recursive = false → ∀ c ∈ w.tables.head?, c.name.shape.isWord "RECURSIVE" = false := by
  refine .of_at fun k => .word (fun _ => .skip fun tables => .pure (by simp)) fun hno => ?_
  have hfirst : YieldsAt i k (commaSeparated (cte deeper)) fun tables =>
      ∀ c ∈ tables.head?, c.name.shape.isWord "RECURSIVE" = false := by
    refine (cte_at k).bind fun c hc => .skip fun rest => .pure ?_
    rintro _ ⟨⟩
    rw [← hc, Token.isWord_shape]
    exact hno
  exact hfirst.bind fun tables htables => .pure fun _ => htables

end Queries

end SqlDialects
