import SqlDialects.Proofs.CallTexts

/-!
# Calls whose texts do not stand for them

* `Call.isGarbled` : the two forms of a call that do not;
* `Breaks` : tokens of which only a part is read where operators must bind tighter than a comparison;
  `flat_breaks` : such are the tokens of an operator that binds no tighter;
* `callBody_refuses` : they do not open the arguments of `POSITION`.

The form `POSITION(a IN b)` has no place for `DISTINCT`, and where a function is written as `position`, its
first argument ends at the first comparison.
-/

namespace SqlDialects

open Render

/-- Whether the call `f` is written as a call of `POSITION` of which the first argument is cut short. -/
def Call.isCutShort (t : Target) (f : Call) : Bool :=
  Text.upper (t.dialect.saying f.name).1 == "POSITION" &&
    (swapFirstIf (t.dialect.saying f.name).2 f.args).head?.any fun
      | .expr e => decide (t.precedence e ≤ .comparison)
      | .star => false

/-- Whether the text of the call `f` does not stand for it: it is written with `IN` and loses its
`DISTINCT`, or its first argument is cut short. -/
def Call.isGarbled (t : Target) (f : Call) : Bool :=
  (t.asksPosition f.name f.args f.window && f.distinct) || f.isCutShort t

/-! ## Operators that end an operand -/

section Tokens

variable {d : Dialect} {ts us vs rest : List Shape} {e : Expr} {p : Precedence} {op : BinaryOp}

/-- What joins two operands is neither the word `IN` nor a mark. -/
theorem nextConnective_binary_head (h : nextConnective d ts = some (.binary op, p)) :
    (headShape ts).isWord "IN" = false ∧
      ∀ m, d.reading.operator? m = none → (headShape ts).isSymbol m = false := by
  unfold nextConnective at h
  generalize hnext : (nthShape ts 1).token = next at h
  constructor
  · by_contra hin
    rw [Bool.not_eq_false] at hin
    obtain ⟨hbare, hword⟩ := Bool.and_eq_true_iff.mp hin
    have hupper : Text.upper (headShape ts).token.text = "IN" :=
      ((Text.sameWord_iff _ _).mp hword).trans (by decide +kernel)
    simp [Parser.connective?, hbare, hupper] at h
  · intro m hm
    by_contra hsymbol
    rw [Bool.not_eq_false] at hsymbol
    unfold Shape.isSymbol Token.isSymbol at hsymbol
    split at hsymbol
    · next hkind =>
      obtain rfl : (headShape ts).token.text = m := beq_iff_eq.mp hsymbol
      have hbare : (headShape ts).token.isBareWord = false := by simp [Token.isBareWord, hkind]
      unfold Parser.connective? at h
      rw [hbare, hkind] at h
      simp only [Bool.false_eq_true, if_false, beq_self_eq_true, if_true] at h
      split at h
      · simp at h
      · simp [Parser.operatorAt, hm] at h
    · next hkind => simp [Parser.connective?, Token.isBareWord, hkind] at h
    · cases hsymbol

/-- The tokens start with an operator that binds no tighter than a comparison. -/
structure Loose (d : Dialect) (vs : List Shape) : Prop where
  ne_nil : vs ≠ []
  isClear : (headShape vs).isClear = true
  escape : (headShape vs).isWord "ESCAPE" = false
  next : ∀ rest, ∃ op p, nextConnective d (vs ++ rest) = some (.binary op, p) ∧ p ≤ .comparison

theorem Loose.append (h : Loose d vs) (rest : List Shape) : Loose d (vs ++ rest) where
  ne_nil := by simp [h.ne_nil]
  isClear := by rw [headShape_append h.ne_nil]; exact h.isClear
  escape := by rw [headShape_append h.ne_nil]; exact h.escape
  next us := by rw [List.append_assoc]; exact h.next _

theorem Loose.ends (h : Loose d vs) : Ends d .comparison vs := by
  obtain ⟨op, p, hnext, hp⟩ := h.next []
  rw [List.append_nil] at hnext
  refine ⟨h.isClear, by simpa [nextPrecedence, hnext] using hp, fun hescape => ?_⟩
  cases h.escape.symm.trans hescape

theorem Loose.head (h : Loose d vs) : (headShape vs).isWord "IN" = false ∧
    ∀ m, d.reading.operator? m = none → (headShape vs).isSymbol m = false := by
  obtain ⟨op, p, hnext, -⟩ := h.next []
  rw [List.append_nil] at hnext
  exact nextConnective_binary_head hnext

/-- The tokens start with an expression that binds tighter than a comparison, and go on with an operator
that does not. -/
def Breaks (d : Dialect) (ts : List Shape) : Prop :=
  ∃ us vs q e, ts = us ++ vs ∧ Form d q us e ∧ .comparison < q ∧ Loose d vs

theorem Breaks.append (h : Breaks d ts) (rest : List Shape) : Breaks d (ts ++ rest) := by
  obtain ⟨us, vs, q, e, rfl, hform, hq, hvs⟩ := h
  exact ⟨us, vs ++ rest, q, e, List.append_assoc .., hform, hq, hvs.append rest⟩

/-! ## Refusals -/

/-- The first argument of `POSITION` ends where the operator starts. -/
theorem callArgs_loose (hform : Form d p us e) (hp : .comparison < p) (hvs : Loose d vs)
    (hcomma : d.reading.operator? "," = none) (n : Nat) :
    Parses d (Parser.callArgs (Parser.nested n) "POSITION") (us ++ vs) [.expr e] vs := by
  refine (hform.expr_lt hp hvs.ends n).bind (ReadsOr.no (ReadsOr.eatWord_no hvs.head.1) ?_)
  exact (ReadsOr.many (ReadsOr.repeats_nil
    (ReadsOr.optional_no (ReadsOr.eatSymbol_no (hvs.head.2 "," hcomma))))).bind (.pure _)

/-- What breaks does not open the arguments of `POSITION`. -/
theorem callBody_refuses (hd : d.Fluent) (h : Breaks d ts) (distinct : Bool) (n : Nat) :
    Refuses d (Parser.callBody (Parser.nested n) "POSITION")
      ((if distinct then [d.bare "DISTINCT"] else []) ++ ts) := by
  obtain ⟨us, vs, q, e, rfl, hform, hq, hvs⟩ := h
  have hhead := headShape_append hform.opens.ne_nil vs
  have hword : (headShape (us ++ vs)).isWord "DISTINCT" = false := by
    rw [hhead]
    exact hform.opens.word "DISTINCT" (by decide)
  have hsymbol (m : String) (hm : m ∈ [")", "*"]) : (headShape (us ++ vs)).isSymbol m = false := by
    rw [hhead]
    exact hform.opens.symbol m hm
  refine Refuses.no (F := .deep) (ReadsOr.eatSymbol_no ?_) ?_
  · cases distinct with
    | false => exact hsymbol ")" (by decide)
    | true => exact Shape.isSymbol_bare d "DISTINCT" ")"
  refine .after (eatDistinct distinct hword) ?_
  refine Refuses.no (F := .deep) (ReadsOr.eatSymbol_no (hsymbol "*" (by decide))) ?_
  refine .after (callArgs_loose hform hq hvs (hd.marks "," (by decide)) n) ?_
  exact .before (.expectSymbol (hvs.head.2 ")" (hd.marks ")" (by decide))))

/-- A call is refused with its arguments. -/
theorem expr_refuses_called {w : String} (hw : d.isCallable w = true) (hplain : d.isPlainCall w = true)
    (h : ∀ n, Refuses d (Parser.callBody (Parser.nested n) (Text.upper w)) ts) :
    Refuses d Parser.expr (d.bare w :: .mark "(" :: ts) := by
  simp only [Dialect.isPlainCall, Bool.and_eq_true, Bool.not_eq_true', Option.isNone_iff_eq_none]
    at hplain
  obtain ⟨⟨⟨hextract, hdatePart⟩, hif⟩, hnow⟩ := hplain
  refine .level (.before (.of_reads (a := .literal .null) fun us => .remaining ?_))
  refine operandWith_primary (isWord_bare_callable hw (by decide)) (unaryOp_bare d w) ?_
  refine primary_called hw fun position => .dialect ?_
  simp only [hextract, hdatePart, hif, hnow, Bool.false_eq_true, if_false]
  exact (ReadsOr.expectSymbol rfl).bind (Refuses.before (h _)).reads

end Tokens

/-! ## Arguments that are cut short -/

section Texts

variable {t : Target} {i : Input}

/-- The text is cut into tokens that break. -/
def IsBroken (d : Dialect) (text : String) : Prop := ∃ ts, Spelled d text ts ∧ Breaks d ts

/-- A left operand before an operator that binds no tighter than a comparison. -/
theorem operand_breaks (hd : t.dialect.Expressive) {l : Expr} (parent : Precedence)
    (hwrites : Rewrites true t id l)
    (hbroken : t.precedence l ≤ .comparison →
      Renders true t (whole l.texts) (IsBroken t.dialect)) :
    Renders true t (operand l parent false l.texts) fun text => ∃ ts, Spelled t.dialect text ts ∧
      ∀ vs, Loose t.dialect vs → Breaks t.dialect (ts ++ vs) := by
  by_cases hopen : parent ≤ t.precedence l ∧ t.precedence l ≤ .comparison
  · refine (hbroken hopen.2).bind fun text htext => .target (.pure ?_)
    obtain ⟨ts, hspelled, hbreaks⟩ := htext
    refine ⟨ts, ?_, fun vs _ => hbreaks.append vs⟩
    simpa [Target.wrap, Nat.not_lt.mpr hopen.1] using hspelled
  · refine (hwrites.whole hd).bind fun text htext => .target (.pure ?_)
    obtain ⟨l', ⟨ts, hspelled, hform, -⟩, -⟩ := htext
    by_cases hlt : t.precedence l < parent
    · refine ⟨inParens ts, ?_, fun vs hvs => ⟨_, vs, _, _, rfl, form_nested hform, by decide, hvs⟩⟩
      simpa [Target.wrap, hlt] using hspelled.parens hd.toLegible
    · have hle : parent ≤ t.precedence l := Nat.not_lt.mp hlt
      have htight : .comparison < t.precedence l := not_le.mp fun h => hopen ⟨hle, h⟩
      refine ⟨ts, ?_, fun vs hvs => ⟨ts, vs, _, _, rfl, hform, htight, hvs⟩⟩
      simpa [Target.wrap, hlt] using hspelled

/-- A flat expression that binds no tighter than a comparison is written in tokens that break. -/
theorem flat_breaks (hd : t.dialect.Fluent) (hidentify : t.layout.identify = false) (hi : i.IsLexed)
    (hdialect : i.dialect = t.dialect) : (e : Expr) → e.isFlat = true → Sourced i e.nodes →
      t.precedence e ≤ .comparison → Renders true t (whole e.texts) (IsBroken t.dialect)
  | .name _, _, _, h | .path _, _, _, h | .literal _, _, _, h | .nested _, _, _, h =>
    absurd (show Precedence.atom ≤ .comparison from h) (by decide)
  | .binary l op r, he, hs, h => by
    simp only [Expr.isFlat, Bool.and_eq_true] at he
    simp only [Expr.nodes, all_cons, all_append, Node.IsSourced, hdialect] at hs
    obtain ⟨hop, hl, hr⟩ := hs
    obtain ⟨s, hform, -⟩ := joins_symbol hd hop
    have hfacts := symbolFacts hd.toExpressive hform
    have hleft := operand_breaks hd.toExpressive (t.opPrecedence op)
      (flat_rewrites hd hidentify hi hdialect l he.1 hl).1 (flat_breaks hd hidentify hi hdialect l he.1 hl)
    have hright := (flat_rewrites hd hidentify hi hdialect r he.2 hr).1.operand hd.toExpressive true
      hfacts.atom
    refine Renders.bind (P := fun texts => ∃ text, texts = [text] ∧ IsBroken t.dialect text) ?_ ?_
    · simp only [Expr.texts, Render.binary]
      refine .target ?_
      simp only [hform]
      refine hleft.bind ?_
      rintro ltext ⟨ls, hls, hbreaks⟩
      refine hright.bind ?_
      rintro rtext ⟨-, ⟨r', ⟨rs, hrs, -, -⟩, -⟩, -, -⟩
      refine .pure ⟨_, rfl, ls ++ symbolShape t.dialect op s :: rs, ?_, hbreaks _ ?_⟩
      · exact (hls.join Spelled.blank_mem (hfacts.spelled hrs)).of_eq (by simp)
      · exact ⟨by simp, hfacts.isClear, hfacts.escape, fun rest => ⟨_, _, hfacts.next _, h⟩⟩
    · rintro _ ⟨text, rfl, htext⟩
      exact .target (.pure htext)

/-- The expression is read back as it is, up to parentheses, and its tokens break if it binds no tighter
than a comparison. -/
structure Faithful (t : Target) (e : Expr) : Prop where
  rewrites : Rewrites true t id e
  same : e.respell (t.dialect.respelling id) = e.respell (.plain id)
  broken : t.precedence e ≤ .comparison → Renders true t (whole e.texts) (IsBroken t.dialect)

theorem flat_faithful (hd : t.dialect.Fluent) (hidentify : t.layout.identify = false) (hi : i.IsLexed)
    (hdialect : i.dialect = t.dialect) {e : Expr} (he : e.isFlat = true) (hs : Sourced i e.nodes) :
    Faithful t e where
  rewrites := (flat_rewrites hd hidentify hi hdialect e he hs).1
  same := (flat_rewrites hd hidentify hi hdialect e he hs).2
  broken := flat_breaks hd hidentify hi hdialect e he hs

theorem Renders.and {α : Type} {p : Render α} {P Q : α → Prop} (hp : Renders true t p P)
    (hq : Renders true t p Q) : Renders true t p fun a => P a ∧ Q a := by
  intro n
  obtain ⟨a, m, heq, ha⟩ := (hp n).resolve_right fun h => nomatch h.1
  obtain ⟨b, k, heq', hb⟩ := (hq n).resolve_right fun h => nomatch h.1
  cases heq.symm.trans heq'
  exact .inl ⟨a, m, heq, ha, hb⟩

/-- The text is read back as the expression, and breaks if this binds no tighter than a comparison. -/
def Reflects (t : Target) (text : String) (e : Expr) : Prop :=
  RegainsItself t text e ∧ (t.precedence e ≤ .comparison → IsBroken t.dialect text)

theorem Faithful.whole (hd : t.dialect.Expressive) {e : Expr} (h : Faithful t e) :
    Renders true t (whole e.texts) fun text => Reflects t text e := by
  have hregains : Renders true t (Render.whole e.texts) fun text => RegainsItself t text e := by
    have hwhole := h.rewrites.whole hd
    rwa [h.same] at hwhole
  by_cases hloose : t.precedence e ≤ .comparison
  · exact (hregains.and (h.broken hloose)).mono fun text htext => ⟨htext.1, fun _ => htext.2⟩
  · exact hregains.mono fun text htext => ⟨htext, fun hle => absurd hle hloose⟩

/-- Written arguments of which the first is cut short do not open those of `POSITION`. -/
theorem args_refused (hd : t.dialect.Fluent) (distinct : Bool) {texts : List String} {e : Expr}
    {es : List Expr} (h : List.Forall₂ (Reflects t) texts (e :: es)) (he : t.precedence e ≤ .comparison) :
    ∃ ts, Spelled t.dialect
        ((if distinct then "DISTINCT " else "") ++ String.intercalate ", " texts) ts ∧
      ∀ n rest, Refuses t.dialect (Parser.callBody (Parser.nested n) "POSITION") (ts ++ rest) := by
  cases h with
  | @cons text _ texts _ hfirst hrest =>
    obtain ⟨ts, hspelled, hbreaks⟩ := hfirst.2 he
    obtain ⟨tss, -, hall, -⟩ := elements_of_regainsItself (hrest.imp fun _ _ h => h.1)
    refine ⟨_, spelled_distinct hd.toLegible distinct
      (Spelled.commaList hd.toLegible (by simp [Spelled.listGaps]) (.cons hspelled hall)), ?_⟩
    intro n rest
    rw [List.append_assoc]
    exact callBody_refuses hd ((hbreaks.append _).append rest) distinct n

end Texts

/-! ## Calls -/

section Calls

variable {t : Target} {ss : List Shape} {f : Call}

/-- What is written with `IN` is no call of the common form. -/
theorem isCutShort_of_asksPosition (hd : t.dialect.Fluent)
    (h : t.asksPosition f.name f.args f.window = true) : f.isCutShort t = false := by
  unfold Target.asksPosition at h
  split at h
  · next hspelling _ _ =>
    have hname : f.name = "STRPOS" := hd.position _ (Table.mem_of_get? hspelling) rfl
    have hsaying : (t.dialect.saying f.name).1 = "STRPOS" := by
      rw [Dialect.saying, hspelling, hname]
    rw [Call.isCutShort, hsaying, show Text.upper "STRPOS" = "STRPOS" by decide +kernel]
    rfl
  · cases h

/-- A call whose first argument is cut short is refused. -/
theorem callText_refused (hd : t.dialect.Fluent) (hsaid : t.dialect.Says f.name ss) (hcommon : f.IsCommon)
    (hargs : ∀ e, .expr e ∈ f.args → Faithful t e) (hcut : f.isCutShort t = true) :
    Renders true t (argTexts f.args) fun texts =>
      ∃ ts, Spelled t.dialect (t.callText f.name f.distinct texts) ts ∧ Refuses t.dialect Parser.expr ts := by
  obtain ⟨hposition, hfirst⟩ := Bool.and_eq_true_iff.mp hcut
  rw [beq_iff_eq] at hposition
  -- Only one function is written as `POSITION`.
  have hname : f.name = "STRPOS" := by
    have hmeaning := hsaid.meaning
    rw [Dialect.meaning?, hposition] at hmeaning
    simpa using (congrArg Prod.fst (Option.some.inj hmeaning)).symm
  have hback := hd.canonical "STRPOS" (by simp [Dialect.canonicalNames])
  rw [← hname] at hback
  simp only [Dialect.saysBack, Bool.and_eq_true] at hback
  rcases hcommon with ⟨hempty, -⟩ | hstar | ⟨es, hne, hes⟩
  · rw [hempty] at hfirst
    cases hswap : (t.dialect.saying f.name).2 <;> · rw [hswap] at hfirst; cases hfirst
  · rw [hstar] at hfirst
    cases hswap : (t.dialect.saying f.name).2 <;> · rw [hswap] at hfirst; cases hfirst
  · rw [hes, argTexts_map]
    refine (exprTexts_all fun e he => (hargs e (by simpa [hes] using he)).whole hd.toExpressive).mono
      fun texts htexts => ?_
    rw [hes, swapFirstIf_map] at hfirst
    have hswapped := forall₂_swapFirstIf htexts (t.dialect.saying f.name).2
    rw [callText_eq]
    cases hlist : swapFirstIf (t.dialect.saying f.name).2 es with
    | nil => exact absurd hlist (swapFirstIf_ne_nil hne)
    | cons e rest =>
      rw [hlist] at hfirst hswapped
      have hloose : t.precedence e ≤ .comparison := by simpa using hfirst
      obtain ⟨ts, hspelled, hrefuses⟩ := args_refused hd f.distinct hswapped hloose
      refine ⟨_, (callee_bare hd.toLegible hback.1.1 hback.1.2).spelled hspelled, ?_⟩
      refine expr_refuses_called hback.1.1 hback.1.2 fun n => ?_
      rw [hposition]
      exact hrefuses n _

end Calls

end SqlDialects
