import SqlDialects.Proofs.IntervalChains
import SqlDialects.Proofs.Restoring

/-!
# Expressions of one form

* `isToken_param` : the text of a numbered parameter is one token;
* `form_param`, `form_temporal`, `form_now`, `form_interval`, `form_cast`, `form_extract` : the tokens of
  the expressions that have a form of their own;
* `param_regains`, `temporal_regains`, ... : the texts of these expressions are read back.
-/

namespace SqlDialects

open Render Text

/-! ## Tokens -/

section Tokens

variable {d : Dialect}

theorem dollarTag_digit {c : Char} (hc : c.isDigit = true) (cs : List Char) :
    Lexer.dollarTag (c :: cs) = none := by
  have hbounds : 48 ≤ c.toNat ∧ c.toNat ≤ 57 := by
    simp only [Char.isDigit, Bool.and_eq_true, decide_eq_true_eq, ge_iff_le,
      UInt32.le_iff_toNat_le] at hc
    exact hc
  have halphabetic : isAlphabetic c = false := by
    have hle : c.val ≤ 127 := UInt32.le_iff_toNat_le.mpr (hbounds.2.trans (by decide))
    rw [isAlphabetic_of_isAscii (Spelled.isAscii_of_le hle)]
    have hupper : c.isUpper = false := by
      simp only [Char.isUpper, decide_eq_false_iff_not, ge_iff_le, UInt32.le_iff_toNat_le, not_and]
      exact fun h => absurd (h.trans hbounds.2) (by decide)
    have hlower : c.isLower = false := by
      simp only [Char.isLower, decide_eq_false_iff_not, ge_iff_le, UInt32.le_iff_toNat_le,
        Bool.and_eq_false_iff]
      exact .inl fun h => absurd (h.trans hbounds.2) (by decide)
    rw [Char.isAlpha, hupper, hlower]
    rfl
  have hdollar : c ≠ '$' := by
    rintro rfl
    revert hc
    decide
  have hunderscore : (c == '_') = false := by
    rw [beq_eq_false_iff_ne]
    rintro rfl
    revert hc
    decide
  unfold Lexer.dollarTag
  split
  · next heq => exact absurd (List.cons.inj heq).1 hdollar
  · next heq =>
    obtain ⟨rfl, rfl⟩ := List.cons.inj heq
    rw [halphabetic, hunderscore]
    rfl
  · next heq => cases heq

/-- A number behind a dollar sign is one token. -/
theorem isToken_param (hd : d.Stable) (k : Nat) {h : Option Char} (hh : h ∈ closers) :
    IsToken d h ("$" ++ toString k).toList (.param, "$" ++ toString k) := by
  have hends : ∀ x ∈ h, x.isDigit = false := by
    rintro x rfl
    revert hh
    simp only [closers, List.mem_cons, Option.some.injEq, reduceCtorEq, List.not_mem_nil, or_false,
      false_or]
    rintro (rfl | rfl | rfl | rfl) <;> decide
  obtain ⟨hmarks, hstrings, hnames, hquote⟩ := hd.dollar
  have hlist : ("$" ++ toString k).toList = '$' :: (toString k).toList := by
    rw [String.toList_append]
    rfl
  have hdigits : ∀ c ∈ (toString k).toList, c.isDigit = true := Relaid.isDigit_of_toString
  have hne : (toString k).toList ≠ [] := toList_toString_ne_nil k
  generalize htext : "$" ++ toString k = text at hlist ⊢
  generalize (toString k).toList = cs at hlist hdigits hne
  rw [hlist]
  refine ⟨fun rest hrest => ⟨'$', cs, ⟨.param, cs.length, none⟩, rfl, ?_, rfl, rfl, ?_⟩,
    fun pad fresh rest _ => ?_⟩
  · have hlength : Lexer.digits (cs ++ rest) = cs.length := by
      rw [Lexer.digits_append (by simpa [hrest] using hends), Lexer.digits,
        List.takeWhile_eq_self_iff.mpr hdigits]
    have htrivia : Lexer.trivia d.lexical '$' (cs ++ rest) = .ok none :=
      Lexer.trivia_eq_none (by decide) (by simp) (by simp) (by simp)
    have htag : Lexer.dollarTag (cs ++ rest) = none := by
      cases cs with
      | nil => exact absurd rfl hne
      | cons c cs => exact dollarTag_digit (hdigits c (by simp)) _
    have hquotation : Lexer.quotation d.lexical '$' (cs ++ rest) = none := by
      simp [Lexer.quotation, hstrings, hnames, htag]
    have hparam : Lexer.param d.lexical '$' (cs ++ rest) = some ⟨.param, cs.length, none⟩ := by
      simp [Lexer.param, hmarks, Lexer.paramLength, hlength, List.length_pos_iff.mpr hne]
    simp [Lexer.lexeme, htrivia, hquotation, Lexer.plain, hparam]
  · exact Prod.ext rfl (by rw [Option.getD_none, ← hlist, String.ofList_toList])
  · refine indentFrom_quiet pad rest (fun c hc => ?_) (by simp) fresh
    rcases List.mem_cons.mp hc with rfl | hc
    · simpa using hquote.symm
    · refine quiet_of_numberChars hd.toLegible (w := [c]) (fun x hx => ?_) c (by simp)
      obtain rfl := List.mem_singleton.mp hx
      exact List.mem_append_right _ (Lexer.mem_digits_of_isDigit (hdigits x hc))

end Tokens

/-! ## Forms -/

theorem inParens_append (ts rest : List Shape) :
    inParens ts ++ rest = .mark "(" :: (ts ++ .mark ")" :: rest) := by
  rw [inParens, List.cons_append, List.append_assoc, List.singleton_append]

section Forms

variable {d : Dialect} {p : Precedence} {ts us : List Shape} {e : Expr}

theorem form_param (hd : d.Stable) {k : Nat} (hk : k < Nat.pow 2 32) :
    Form d .atom [(.param, "$" ++ toString k)] (.param (.numbered k)) := by
  refine Primary.form (primary_token fun n j rest => .peek fun t ht => ?_) (.of_kind (.inr (.inr rfl)))
    rfl rfl
  obtain ⟨hkind, htext⟩ := shape_eq ht
  have hbody : String.ofList (t.text.toList.drop 1) = toString k := by
    rw [htext, String.toList_append]
    exact String.ofList_toList
  have hne : (toString k == "") = false := by
    rw [beq_eq_false_iff_ne]
    exact fun h => toList_toString_ne_nil k (by rw [h]; rfl)
  rw [hkind]
  refine .peek fun u hu => .rules ?_
  have hsame : u.text = t.text := (congrArg Prod.snd hu).trans (congrArg Prod.snd ht).symm
  simp only [hsame, hbody, hne, Bool.false_eq_true, if_false, natOf?_toString hk, hd.params.2.2.1, if_true]
  exact (ReadsOr.pure _).bind (.advance fun _ _ => .pure _)

/-- A typed constant. -/
theorem form_temporal (hd : d.Stable) {kind : TemporalKind} {v : String}
    (hvalid : Temporal.isValid kind v = true) :
    Form d .atom [d.bare kind.keyword, (.string, v)] (.literal (.temporal kind v)) := by
  have hfree : d.lexical.isReserved kind.keyword = false :=
    hd.words.2 kind.keyword (by cases kind <;> simp [TemporalKind.keyword])
  have hbare : d.bare kind.keyword = (.word, kind.keyword) := by
    simp [Dialect.bare, Dialect.wordKind, hfree]
  have hkeyword : TemporalKind.ofKeyword? (upper kind.keyword) = some kind := by
    cases kind <;> decide +kernel
  have hstart {x : String} (hx : x ∈ "NOT" :: "CURRENT" :: nonstarters) :
      (d.bare kind.keyword).isWord x = false := by
    rw [Shape.isWord_bare]
    revert x
    cases kind <;> decide +kernel
  refine Primary.form (fun n j rest _ _ => primary_bare fun t ht => ?_)
    ⟨by simp, fun x hx => hstart (by simp [hx]), fun m _ => Shape.isSymbol_bare d _ m, fun rest _ => ?_⟩
    (hstart (by simp)) (unaryOp_bare d _)
  · obtain ⟨-, htext⟩ := shape_eq ht
    refine .dialect (.peekNth fun next hnext => ?_)
    obtain ⟨hkind', -⟩ := shape_eq hnext
    have hopen : next.isSymbol "(" = false := by simp [Token.isSymbol, hkind']
    have hword : t.kind = .word := by
      rw [hbare] at ht
      exact (shape_eq ht).1
    simp only [htext, hopen, wordForm_free hd.toReadable hfree, hd.temporals.2, hword, hkind', beq_self_eq_true,
      Bool.and_self, if_true, hkeyword]
    refine .advance fun _ _ => .advance fun value hvalue => ?_
    obtain ⟨-, hv⟩ := shape_eq hvalue
    rw [hv, hvalid]
    exact .pure _
  · have hcurrent : (d.bare kind.keyword).isWord "CURRENT" = false := hstart (by simp)
    simp [misleads, hcurrent, starAhead, Shape.isSymbol, Token.isSymbol, Shape.token]

theorem form_now (hd : d.Stable) {w : String} {kind : TemporalKind} (hw : (w, kind) ∈ standardNowWords) :
    Form d .atom [d.bare w] (.now kind) := by
  have hwords : ∀ x ∈ standardNowWords, upper x.1 = x.1 ∧
      ∀ y ∈ "NOT" :: "CURRENT" :: nonstarters, sameWord x.1 y = false := by decide +kernel
  obtain ⟨hupper, hstart⟩ := hwords _ hw
  have hnow := hd.times.2.2.2
  have hreserved : upper w ∈ d.lexical.reserved := by
    rw [hupper]
    exact hd.now (w, kind) (hnow ▸ hw)
  refine form_constant hstart (isReserved_of_mem hreserved) fun deeper operand => ⟨_, ?_, fun us =>
    .advance fun _ _ => .pure _⟩
  simp only [standardNowWords, List.mem_cons, Prod.mk.injEq, List.not_mem_nil, or_false] at hw
  rcases hw with ⟨rfl, rfl⟩ | ⟨rfl, rfl⟩ | ⟨rfl, rfl⟩ <;>
    simp [Parser.wordForm?, hnow, hupper, standardNowWords]

/-- The unit of an interval, if it has one. -/
def Dialect.unitShapes (d : Dialect) (unit : Option DateField) : List Shape :=
  (unit.map fun u => d.bare u.keyword).toList

theorem unit_reads (hrest : (headShape ts).isClear = true) (unit : Option DateField) :
    Parses d (Parser.optional Parser.peekDateField Parser.dateField) (d.unitShapes unit ++ ts) unit ts := by
  cases unit with
  | none =>
    refine .optional_no (.peek fun t ht => ?_)
    have hnone := (Shape.isClear_iff.mp hrest).2.2.2.2.2
    have hno : (t.isBareWord && (DateField.ofWord? t.text).isSome) = false := by
      rw [Bool.and_eq_false_imp]
      intro hbare
      have hhead : t.shape = headShape ts := ht
      rw [← hhead] at hnone
      rw [show DateField.ofWord? t.text = none from hnone hbare]
      rfl
    rw [hno]
    exact .pure false
  | some u =>
    refine .optional (.peek fun t ht => ?_) (reads_field u)
    obtain ⟨-, htext⟩ := shape_eq ht
    have hbare : t.isBareWord = true := by
      rcases kind_bare d u.keyword with hk | hk <;>
        simp [Token.isBareWord, show t.kind = (d.bare u.keyword).1 from congrArg Prod.fst ht, hk]
    have hfield : (DateField.ofWord? u.keyword).isSome = true := by cases u <;> decide +kernel
    rw [hbare, htext, hfield]
    exact .pure true

/-- An interval whose amount is a string. -/
theorem form_interval (hd : d.Stable) (v : String) (unit : Option DateField) :
    Form d .atom (d.bare "INTERVAL" :: (.string, v) :: d.unitShapes unit)
      (.interval (.literal (.string v)) unit) := by
  have hreserved : d.lexical.isReserved "INTERVAL" = true := by
    refine isReserved_of_mem (?_ : "INTERVAL" ∈ d.lexical.reserved)
    exact hd.interval (by rw [hd.intervals]; rfl)
  refine Primary.form (fun n j rest hrest _ => primary_bare fun t ht => ?_) (.bare hreserved (by decide) _)
    (Shape.isWord_bare d "INTERVAL" "NOT") (unaryOp_bare d _)
  have hform : Parser.wordForm? (Parser.nested n) (Parser.operandUpTo (Parser.nested n) j) d
      (upper "INTERVAL") false = some (Parser.intervalExpr (Parser.operandUpTo (Parser.nested n) j)) := by
    simp [Parser.wordForm?, hd.intervals, show upper "INTERVAL" = "INTERVAL" from rfl]
  refine wordExpr_form ht rfl hform ?_
  refine (ReadsOr.expectWord (Shape.isWord_bare d "INTERVAL" "INTERVAL")).bind (.dialect ?_)
  rw [hd.intervals]
  refine .peek fun u hu => ?_
  obtain ⟨hkind, htext⟩ := shape_eq hu
  simp only [hkind, htext, beq_self_eq_true, if_true]
  exact .advance fun _ _ => (unit_reads hrest unit).bind (.pure _)

/-- A cast. -/
theorem form_cast (hd : d.Readable) {type : DataType} (h : Form d p ts e)
    (htype : ∀ {F : Lapses} (rest : List Shape), EndsType d rest →
      ReadsOr F d Parser.dataType (us ++ rest) type rest) :
    Form d .atom (d.bare "CAST" :: inParens (ts ++ d.bare "AS" :: us)) (.cast e type false) := by
  have hreserved : d.lexical.isReserved "CAST" = true := isReserved_of_mem (hd.reserved "CAST" (by decide))
  refine Primary.form (fun n j rest hrest _ => ?_) (.bare hreserved (by decide) _)
    (Shape.isWord_bare d "CAST" "NOT") (unaryOp_bare d _)
  have hform : Parser.wordForm? (Parser.nested n) (Parser.operandUpTo (Parser.nested n) j) d
      (upper "CAST") true = some (Parser.castExpr (Parser.nested n) false) := by
    simp [Parser.wordForm?, show upper "CAST" = "CAST" from rfl]
  rw [List.cons_append, inParens_append, List.append_assoc, List.cons_append]
  refine primary_bare fun t ht => wordExpr_form ht rfl hform (.advance fun _ _ => ?_)
  refine ReadsOr.parenthesized ((h.expr_zero (.bare hd 0 rfl _) n).bind ?_)
  refine (ReadsOr.expectWord (Shape.isWord_bare d "AS" "AS")).bind ?_
  exact (htype _ (.mark (by decide) _)).bind (.pure _)

theorem form_extract (hd : d.Stable) (field : DateField) (h : Form d p ts e) :
    Form d .atom (d.bare "EXTRACT" :: inParens (d.bare field.keyword :: d.bare "FROM" :: ts))
      (.extract field e) := by
  refine form_called hd.extract.2 fun n k rest position hrest _ => .dialect ?_
  simp only [show upper "EXTRACT" = "EXTRACT" from rfl, hd.extract.1, beq_self_eq_true, Bool.and_self, if_true,
    List.cons_append, List.append_assoc, List.nil_append]
  refine ReadsOr.parenthesized ((reads_field field).bind ?_)
  refine (ReadsOr.expectWord (Shape.isWord_bare d "FROM" "FROM")).bind ?_
  exact (h.expr_zero (.mark d 0 (by decide) _) n).bind (.pure _)

end Forms

/-! ## Texts -/

section Texts

variable {total : Bool} {t : Target} {f : Name → Name} {e : Expr}

/-- An expression that is written as one text. -/
theorem rewrites_single {q : Render String} (htexts : e.texts = single q)
    (hargs : Respelling.chainArgs e (e.respell (t.dialect.respelling f)) =
      [.expr (e.respell (t.dialect.respelling f))])
    (h : Renders total t q fun text =>
      Regains t f e (t.precedence e) text (e.respell (t.dialect.respelling f))) : Rewrites total t f e := by
  unfold Rewrites
  rw [htexts]
  exact h.bind fun text htext => .pure (.single hargs htext)

theorem param_regains (hd : t.dialect.Stable) {k : Nat} (hk : k < Nat.pow 2 32) :
    Rewrites total t f (.param (.numbered k)) := by
  refine rewrites_single (by rw [Expr.texts]) (by rfl) ?_
  have hstep : Renders total t (bindInSequence k) fun _ => True := fun n => .inl ⟨_, _, rfl, trivial⟩
  refine hstep.bind fun inSequence _ => .target ?_
  rw [hd.params.1]
  refine .pure ⟨_, ⟨_, ?_, form_param hd hk, .of_head rfl rfl⟩, rfl⟩
  exact fun h hh => .single (isToken_param hd k hh)

theorem temporal_regains (hd : t.dialect.Stable) {kind : TemporalKind} {v : String}
    (hvalid : Temporal.isValid kind v = true) : Rewrites total t f (.literal (.temporal kind v)) := by
  refine rewrites_single (by rw [Expr.texts]) (by rfl) ?_
  refine .target ?_
  simp only [hd.temporals.1]
  refine .pure ⟨_, ⟨_, ?_, form_temporal hd hvalid, .bare ?_⟩, rfl⟩
  · have hkeyword : Spelled t.dialect kind.keyword [t.dialect.bare kind.keyword] :=
      .word hd.toLegible (by cases kind <;> rfl)
    have hstring : Spelled t.dialect (t.string v) [(.string, v)] := fun h hh =>
      .single (isToken_string hd.toLegible rfl v (by rintro rfl; revert hh; decide))
    exact (hkeyword.join Spelled.blank_mem hstring).of_eq (by simp)
  · cases kind <;> decide +kernel

theorem now_regains (hd : t.dialect.Stable) (kind : TemporalKind) : Rewrites total t f (.now kind) := by
  have hnow {w : String} (hw : (w, kind) ∈ standardNowWords) :
      Regains t f (.now kind) .atom w (.now kind) := by
    have hwords : ∀ x ∈ standardNowWords, Spelled.isPlainWord x.1 = true ∧
        sameWord x.1 "EXISTS" = false ∧ sameWord x.1 "UNBOUNDED" = false := by decide +kernel
    obtain ⟨hplain, hstarts⟩ := hwords _ hw
    exact ⟨_, ⟨_, .word hd.toLegible hplain, form_now hd hw, .bare hstarts⟩, rfl⟩
  refine rewrites_single (by rw [Expr.texts]) (by rfl) ?_
  refine .target ?_
  obtain ⟨hdate, htime, htimestamp, -⟩ := hd.times
  cases kind with
  | date =>
    simp only [hdate]
    exact .pure (hnow (by simp [standardNowWords]))
  | time =>
    simp only [htime]
    exact .pure (hnow (by simp [standardNowWords]))
  | timestamp =>
    simp only [htimestamp]
    exact .pure (hnow (by simp [standardNowWords]))

theorem interval_regains (hd : t.dialect.Stable) (v : String) (unit : Option DateField) :
    Rewrites total t f (.interval (.literal (.string v)) unit) := by
  refine rewrites_single (by rw [Expr.texts]) (by rfl) ?_
  refine .target ?_
  have hprecedence : t.precedence (.interval (.literal (.string v)) unit) = .atom := by
    simp [Target.precedence, Target.quotedAmount?]
  have hword : Spelled t.dialect "INTERVAL" [t.dialect.bare "INTERVAL"] := .word hd.toLegible rfl
  have hstring : Spelled t.dialect (t.string v) [(.string, v)] := fun h hh =>
    .single (isToken_string hd.toLegible rfl v (by rintro rfl; revert hh; decide))
  have hamount := hword.join Spelled.blank_mem hstring
  rw [hprecedence]
  simp only [hd.intervals, Target.quotedAmount?]
  cases unit with
  | none =>
    refine .pure ⟨_, ⟨_, ?_, form_interval hd v none, .bare ⟨rfl, rfl⟩⟩, rfl⟩
    exact hamount.of_eq (by simp)
  | some u =>
    have hunit : Spelled t.dialect u.keyword [t.dialect.bare u.keyword] :=
      .word hd.toLegible (by cases u <;> rfl)
    refine .pure ⟨_, ⟨_, ?_, form_interval hd v (some u), .bare ⟨rfl, rfl⟩⟩, rfl⟩
    exact (hamount.join Spelled.blank_mem hunit).of_eq (by simp)

theorem cast_regains (hd : t.dialect.Expressive) {type : DataType} (htype : type.Restored t)
    (he : Rewrites total t f e) : Rewrites total t f (.cast e type false) := by
  unfold Rewrites
  simp only [Expr.texts]
  refine .target ((he.whole hd).bind ?_)
  rintro text ⟨e', ⟨ts, hspelled, hform, -⟩, heq⟩
  obtain ⟨us, hus, hreads⟩ := htype
  refine .pure (.single rfl ⟨_, ⟨_, ?_, form_cast hd.toReadable hform hreads, .bare ⟨rfl, rfl⟩⟩, ?_⟩)
  · have has : Spelled t.dialect "AS" [t.dialect.bare "AS"] := .word hd.toLegible rfl
    have hbody := hspelled.join Spelled.blank_mem (has.join Spelled.blank_mem hus)
    exact (Spelled.called (w := "CAST") hd.toLegible (Spelled.isBare_of_isPlainWord rfl) hbody).of_eq (by simp)
  · rw [Expr.respell, Expr.respell, heq]

theorem extract_regains (hd : t.dialect.Stable) (field : DateField) (he : Rewrites total t f e) :
    Rewrites total t f (.extract field e) := by
  unfold Rewrites
  simp only [Expr.texts]
  refine .target ?_
  simp only [hd.extract.1]
  refine (he.whole hd.toExpressive).bind ?_
  rintro text ⟨e', ⟨ts, hspelled, hform, -⟩, heq⟩
  refine .pure (.single rfl ⟨_, ⟨_, ?_, form_extract hd field hform, .bare ⟨rfl, rfl⟩⟩, ?_⟩)
  · have hfield : Spelled t.dialect field.keyword [t.dialect.bare field.keyword] :=
      .word hd.toLegible (by cases field <;> rfl)
    have hfrom : Spelled t.dialect "FROM" [t.dialect.bare "FROM"] := .word hd.toLegible rfl
    have hbody := hfield.join Spelled.blank_mem (hfrom.join Spelled.blank_mem hspelled)
    exact (Spelled.called (w := "EXTRACT") hd.toLegible (Spelled.isBare_of_isPlainWord rfl) hbody).of_eq
      (by simp)
  · rw [Expr.respell, Expr.respell, heq]

end Texts

end SqlDialects
