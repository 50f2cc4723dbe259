import SqlDialects.Proofs.WrittenTexts

/-!
# Layout changes no token

* `Echoes` : a writer that writes twin texts in two layouts;
* `Expr.texts_echoes`, `Query.text_echoes`, `Statement.text_echoes` : so does writing a tree;
* `layout_keeps_tokens` : a statement has the same tokens in every layout, but for the quotes of names
  that one layout adds.
-/

theorem Option.Rel.toList_map {α β γ δ : Type} {R : α → β → Prop} {S : γ → δ → Prop} {a : Option α}
    {b : Option β} {f : α → γ} {g : β → δ} (h : Option.Rel R a b)
    (hfg : ∀ x y, R x y → S (f x) (g y)) : List.Forall₂ S (a.map f).toList (b.map g).toList := by
  cases h with
  | none => exact .nil
  | some h => exact .cons (hfg _ _ h) .nil

theorem Option.Rel.getD {α β : Type} {R : α → β → Prop} {a : Option α} {b : Option β} {x : α} {y : β}
    (h : Option.Rel R a b) (hxy : R x y) : R (a.getD x) (b.getD y) := by
  cases h with
  | none => exact hxy
  | some h => exact h

namespace SqlDialects

open Render Text

/-- `p` fails by one fault in both layouts, or writes twin texts. -/
abbrev Echoes (t : Target) (l : Layout) (turned : Bool) (p : Render String) : Prop :=
  Alike t l p p (Twin t.dialect turned)

/-- `p` fails by one fault in both layouts, or writes as many texts, and they are twins. -/
abbrev EchoesAll (t : Target) (l : Layout) (turned : Bool) (p : Render (List String)) : Prop :=
  Alike t l p p (List.Forall₂ (Twin t.dialect turned))

/-- `p` fails by one fault in both layouts, or writes twin texts, or nothing in both. -/
abbrev EchoesOption (t : Target) (l : Layout) (turned : Bool) (p : Render (Option String)) : Prop :=
  Alike t l p p (Option.Rel (Twin t.dialect turned))

/-- `p` fails by one fault in both layouts, or writes what follows twin texts. -/
abbrev EchoesTail (t : Target) (l : Layout) (turned : Bool) (p : Render String) : Prop :=
  Alike t l p p (Tail t.dialect turned)

/-! ## Parts with their operands written -/

section Parts

variable {t : Target} {l : Layout} {turned : Bool}

theorem whole_echoes (hx : Relaid t l turned) {p : Render (List String)} (h : EchoesAll t l turned p) :
    Echoes t l turned (whole p) :=
  h.bind fun _ _ hab => .target (.pure (hx.whole hab))

theorem single_echoes {p : Render String} (h : Echoes t l turned p) : EchoesAll t l turned (single p) :=
  h.bind fun _ _ hab => .pure hab.singleton

theorem operand_echoes (hx : Relaid t l turned) {p : Render (List String)} (h : EchoesAll t l turned p)
    (e : Expr) (parent : Precedence) (right : Bool) :
    Echoes t l turned (operand e parent right p) :=
  (whole_echoes hx h).bind fun _ _ hab => .target (.pure (hx.wrap hab e parent right))

theorem block_echoes (hx : Relaid t l turned) {p : Render String} (h : Echoes t l turned p) :
    Echoes t l turned (block p) :=
  h.bind fun _ _ hab => .target (.pure (hx.block hab))

/-! ### Constants and parameters -/

theorem literal_echoes (hx : Relaid t l turned) {v : Literal}
    (hv : Node.IsLexical t.dialect (.expr (.literal v))) : Echoes t l turned (literal v) := by
  refine .target ?_
  cases v with
  | number digits => exact .pure (hx.number hv)
  | string value => exact .pure (hx.string value)
  | null => exact .pure (.text hx.tidy "NULL" rfl)
  | boolean b =>
    rw [Target.laid_dialect]
    cases t.dialect.writing.booleans <;> cases b
    · exact .pure (.text hx.tidy "FALSE" rfl)
    · exact .pure (.text hx.tidy "TRUE" rfl)
    · exact .pure (.text hx.tidy "0" rfl)
    · exact .pure (.text hx.tidy "1" rfl)
  | temporal kind value =>
    have hvalue := hx.string value
    rw [Target.laid_dialect]
    cases t.dialect.writing.temporals with
    | keyword =>
      have hword : Lead t.dialect turned (kind.keyword ++ " ") (kind.keyword ++ " ") := by
        cases kind <;> exact .text hx.tidy _ rfl
      exact .pure (hword.then hvalue)
    | cast =>
      have hlexical : kind.dataType.IsLexical t.dialect := by cases kind <;> trivial
      have htype := hx.dataType hlexical
      have hcast := (Lead.text hx.tidy "CAST(" rfl).then hvalue
      exact .pure (((hcast.lead hx.tidy " AS " rfl).then htype).close hx.tidy)
    | function =>
      cases kind with
      | date => exact .pure (((Lead.text hx.tidy "DATE(" rfl).then hvalue).close hx.tidy)
      | time => exact .pure (((Lead.text hx.tidy "TIME(" rfl).then hvalue).close hx.tidy)
      | timestamp => exact .pure (((Lead.text hx.tidy "DATETIME(" rfl).then hvalue).close hx.tidy)

theorem ordinal_echoes (hx : Relaid t l turned) (k : Nat) (positional : Bool) :
    Echoes t l turned (ordinal k positional) := by
  have hmarked {c : Char} (hc : c ∈ ['$', '@', ':', '?']) := hx.markedNumeral hc k
  have hbare : Twin t.dialect turned (t.bare k) ((t.laid l).bare k) := by
    rw [show (t.laid l).bare k = t.bare k from rfl, hx.bare]
    exact .phrase hx.tidy (hx.tidy.marks "?" (by simp))
  refine Alike.bind (R := Eq) ⟨fun n => .inr ⟨_, _, _, rfl, rfl, rfl⟩⟩ ?_
  rintro inSequence _ rfl
  refine .target ?_
  rw [Target.laid_dialect]
  cases t.dialect.params with
  | dollar => exact .pure (hmarked (by decide))
  | atName =>
    have hletters : ∀ c ∈ ("p" ++ toString k).toList,
        Lexer.continuesWord t.dialect.lexical c = true ∧ c ≠ '$' := by
      intro c hc
      rw [String.toList_append, List.mem_append] at hc
      rcases hc with hc | hc
      · obtain rfl : c = 'p' := by simpa using hc
        exact ⟨by simp [Lexer.continuesWord, show isAlphanumeric 'p' = true by decide], by decide⟩
      · have hdigit := Relaid.isDigit_of_toString c hc
        refine ⟨by simp [Lexer.continuesWord, isAlphanumeric, Spelled.isNumeric_of_isDigit hdigit], ?_⟩
        rintro rfl
        revert hdigit
        decide
    have hrun := Lexer.isRun_of_continuesWord hx.tidy.plain hx.tidy.parted
      (fun c hc => (hletters c hc).1) fun _ hmem => (hletters _ hmem).2 rfl
    have hmark := hx.marked (c := '@') (by decide) hrun fun _ hmem => (hletters _ hmem).2 rfl
    rw [← String.append_assoc] at hmark
    exact .pure hmark
  | colon => exact .pure (hmarked (by decide))
  | question =>
    cases inSequence with
    | true => exact .pure hbare
    | false => exact .unsupported _
  | questionNumbered =>
    dsimp only
    split
    · exact .pure hbare
    · exact .pure (hmarked (by decide))

theorem param_echoes (hx : Relaid t l turned) {p : Param}
    (hp : Node.IsLexical t.dialect (.expr (.param p)))
    (hfree : Node.IsDollarFree t.dialect (.expr (.param p))) : Echoes t l turned (param p) := by
  cases p with
  | positional k => exact ordinal_echoes hx k true
  | numbered k => exact ordinal_echoes hx k false
  | named name =>
    refine .target ?_
    rw [Target.laid_dialect]
    have hmark := hx.tidy.named
    cases hnamed : t.dialect.writing.namedParamMark with
    | some mark =>
      have hc : mark ∈ ['$', '@', ':', '?'] := by simpa [hnamed] using hmark
      have hrun := Lexer.isRun_of_continuesWord hx.tidy.plain hx.tidy.parted
        (Dialect.continuesWord_of_isWord hp) hfree
      exact .pure (hx.marked hc hrun hfree)
    | none => exact .unsupported _

theorem now_echoes (hx : Relaid t l turned) (kind : TemporalKind) : Echoes t l turned (now kind) := by
  have hphrase := hx.tidy.phrases
  refine .target ?_
  rw [Target.laid_dialect]
  cases kind with
  | timestamp => exact .pure (hx.keyword (by simp))
  | date =>
    dsimp only
    cases hdate : t.dialect.writing.currentDate with
    | some text => exact .pure (.phrase hx.tidy (hphrase text (by simp [WritingRules.phrases, hdate])))
    | none => exact .unsupported _
  | time =>
    dsimp only
    cases htime : t.dialect.writing.currentTime with
    | some text => exact .pure (.phrase hx.tidy (hphrase text (by simp [WritingRules.phrases, htime])))
    | none => exact .unsupported _

/-! ### Operators -/

/-- An operator is written as a word, as a plus sign or as the dialect spells it. -/
theorem binaryForm_symbol {op : BinaryOp} {s : String} (h : t.binaryForm op = .symbol s) :
    s = "AND" ∨ s = "OR" ∨ s = "+" ∨
      ∃ rule, t.dialect.reading.spelling? op = some rule ∧ rule.symbol = s := by
  cases hspelling : t.dialect.reading.spelling? op with
  | some rule =>
    simp only [Target.binaryForm, hspelling] at h
    split at h
    · exact .inl (BinaryForm.symbol.inj h).symm
    · exact .inr (.inl (BinaryForm.symbol.inj h).symm)
    · split at h
      · cases h
      · exact .inr (.inr (.inl (BinaryForm.symbol.inj h).symm))
      · exact .inr (.inr (.inr ⟨rule, rfl, BinaryForm.symbol.inj h⟩))
    all_goals exact .inr (.inr (.inr ⟨rule, rfl, BinaryForm.symbol.inj h⟩))
  | none =>
    simp only [Target.binaryForm, hspelling] at h
    split at h
    · exact .inl (BinaryForm.symbol.inj h).symm
    · exact .inr (.inl (BinaryForm.symbol.inj h).symm)
    · split at h
      · cases h
      · exact .inr (.inr (.inl (BinaryForm.symbol.inj h).symm))
      · cases h
    all_goals cases h

theorem isPhrase_symbol (hd : t.dialect.Tidy) {op : BinaryOp} {s : String}
    (h : t.binaryForm op = .symbol s) : t.dialect.isPhrase s = true := by
  have hword {w : String} (hw : isTemplate w.toList = true) : t.dialect.isPhrase w = true := by
    rw [Dialect.isPhrase, hw, Bool.true_or]
  obtain rfl | rfl | rfl | ⟨rule, hspelling, rfl⟩ := binaryForm_symbol h
  · exact hword (by decide)
  · exact hword (by decide)
  · exact hd.marks "+" (by simp)
  · exact hd.symbols rule (List.mem_of_find?_eq_some hspelling)

/-- The functions that operators are written as. -/
theorem isTemplate_operatorFunction {op : BinaryOp} {name : String}
    (h : t.binaryForm op = .function name) : isTemplate name.toList = true := by
  unfold Target.binaryForm at h
  dsimp only at h
  repeat' split at h
  all_goals cases h <;> decide

theorem binary_echoes (hx : Relaid t l turned) {p q : Render (List String)} (left right : Expr)
    (op : BinaryOp) (hp : EchoesAll t l turned p) (hq : EchoesAll t l turned q) :
    EchoesAll t l turned (binary left op right p q) := by
  have hsame : (t.laid l).binaryForm op = t.binaryForm op := rfl
  refine .target ?_
  rw [hsame]
  cases hform : t.binaryForm op with
  | symbol s =>
    have hs : Twin t.dialect turned s s := .phrase hx.tidy (isPhrase_symbol hx.tidy hform)
    refine (operand_echoes hx hp ..).bind fun _ _ ha => (operand_echoes hx hq ..).bind fun _ _ hb => ?_
    exact .pure ((((ha.lead hx.tidy " " rfl).then hs).lead hx.tidy " " rfl).then hb).singleton
  | function name =>
    have hname := hx.functionName name (isTemplate_operatorFunction hform)
    refine (whole_echoes hx hp).bind fun _ _ ha => (whole_echoes hx hq).bind fun _ _ hb => ?_
    exact .pure ((((hname.then ha).lead hx.tidy ", " rfl).then hb).close hx.tidy).singleton
  | chain => exact hp.bind fun _ _ ha => hq.bind fun _ _ hb => .pure (List.rel_append ha hb)
  | none => exact .unsupported _

theorem Relaid.unit (hx : Relaid t l turned) (u : DateField) :
    Twin t.dialect turned u.keyword u.keyword := by
  cases u <;> exact .text hx.tidy _ rfl

theorem Relaid.star (hx : Relaid t l turned) : Twin t.dialect turned "*" "*" :=
  .phrase hx.tidy (hx.tidy.marks "*" (by simp))

theorem Relaid.one (hx : Relaid t l turned) : Twin t.dialect turned "'1'" "'1'" := by
  have hone := hx.string "1"
  have htext (t : Target) : t.string "1" = "'1'" := by
    unfold Target.string
    cases t.dialect.lexical.backslashEscapes <;> rfl
  rwa [htext, htext] at hone

theorem interval_echoes (hx : Relaid t l turned) {p : Render (List String)} (e : Expr)
    (unit : Option DateField) (hp : EchoesAll t l turned p) :
    Echoes t l turned (interval e unit p) := by
  have hword : Lead t.dialect turned "INTERVAL " "INTERVAL " := .text hx.tidy _ rfl
  refine .target ?_
  rw [Target.laid_dialect]
  cases t.dialect.writing.interval with
  | none => exact .unsupported _
  | some style =>
    cases style with
    | quoted =>
      dsimp only
      split
      · exact .pure (hword.then (hx.string _))
      · exact .pure (((hword.then (hx.string _)).lead hx.tidy " " rfl).then (hx.unit _))
      · refine (operand_echoes hx hp ..).bind fun _ _ ha => .pure ?_
        have hone := (((ha.lead hx.tidy " " rfl).then hx.star).lead hx.tidy " INTERVAL " rfl).then hx.one
        have htext := (hone.lead hx.tidy " " rfl).then (hx.unit ‹DateField›)
        simpa [String.append_assoc] using htext
      · exact .unsupported _
    | bare =>
      dsimp only
      split
      · split
        · next hsplit =>
          exact .pure (((hword.then (hx.amount hsplit)).lead hx.tidy " " rfl).then (hx.unit _))
        · exact .unsupported _
      · refine (operand_echoes hx hp ..).bind fun _ _ ha => .pure ?_
        exact ((hword.then ha).lead hx.tidy " " rfl).then (hx.unit _)
      · exact .unsupported _

theorem Relaid.negation (hx : Relaid t l turned) (negated : Bool) :
    Lead t.dialect turned (negation negated) (negation negated) := by
  cases negated with
  | true => exact .text hx.tidy "NOT " rfl
  | false => exact .empty

theorem pattern_echoes (hx : Relaid t l turned) {p q : Render (List String)} (left right : Expr)
    (negated anyCase : Bool) (hp : EchoesAll t l turned p) (hq : EchoesAll t l turned q) :
    Echoes t l turned (pattern left right negated anyCase p q) := by
  refine .target ?_
  rw [Target.laid_dialect]
  dsimp only
  split
  · refine (operand_echoes hx hp ..).bind fun _ _ ha => (operand_echoes hx hq ..).bind fun _ _ hb => ?_
    have hword : Twin t.dialect turned (if anyCase then "ILIKE" else "LIKE")
        (if anyCase then "ILIKE" else "LIKE") := by
      cases anyCase <;> exact .text hx.tidy _ rfl
    have hleft := ((ha.lead hx.tidy " " rfl).then (hx.negation negated)).then hword
    exact .pure ((hleft.lead hx.tidy " " rfl).then hb)
  · have hlower {a b : String} (hab : Twin t.dialect turned a b) :
        Twin t.dialect turned (t.callText pattern.lowerName false [a])
          ((t.laid l).callText pattern.lowerName false [b]) :=
      hx.callText (.called hx.tidy (by rw [Dialect.isPhrase]; rfl)) false hab.singleton
    refine (whole_echoes hx hp).bind fun _ _ ha => (whole_echoes hx hq).bind fun _ _ hb => ?_
    have hword := (((hlower ha).lead hx.tidy " " rfl).then (hx.negation negated)).then
      (Lead.text hx.tidy "LIKE " rfl)
    exact .pure (hword.then (hlower hb))

theorem aliased_echoes (hx : Relaid t l turned) {a b : String} (h : Twin t.dialect turned a b)
    (label : Option TableAlias) :
    Alike t l (aliased a label) (aliased b label) (Twin t.dialect turned) := by
  refine .target ?_
  cases label with
  | none => exact .pure h
  | some x =>
    have hsame : (t.laid l).aliasWord = t.aliasWord := rfl
    dsimp only
    rw [hsame]
    exact .pure (((h.lead hx.tidy t.aliasWord (Relaid.aliasWord t)).then (hx.name x.name)).tail
      (hx.columns x.columns))

theorem requireIf_alike {α : Type} {S : α → α → Prop} {g h : Unit → Render α} (b : Bool)
    (c : Construct) (hg : Alike t l (g ()) (h ()) S) :
    Alike t l (if b then Render.require c >>= g else g ())
      (if b then Render.require c >>= h else h ()) S := by
  cases b with
  | false => exact hg
  | true => exact (Even.require c).bind fun _ _ => hg

theorem joinWords_echoes (hx : Relaid t l turned) (natural : Bool) (kind : JoinKind) :
    Echoes t l turned (joinWords natural kind) := by
  unfold joinWords
  refine requireIf_alike natural .naturalJoin ?_
  refine requireIf_alike (kind == .full) .fullOuterJoin (.pure ?_)
  cases natural <;> cases kind <;> exact .text hx.tidy _ rfl

/-! ### Orderings and row limits -/

theorem Relaid.dummy (hx : Relaid t l turned) :
    List.Forall₂ (Twin t.dialect turned)
      (t.dialect.writing.dummyTable.map fun d => s!"FROM {d}").toList
      (t.dialect.writing.dummyTable.map fun d => s!"FROM {d}").toList := by
  refine List.forall₂_same.mpr fun text htext => ?_
  obtain ⟨d, hd, rfl⟩ := Option.map_eq_some_iff.mp (Option.mem_toList.mp htext)
  have hphrase := hx.tidy.phrases d (by simp [WritingRules.phrases, hd])
  exact (Lead.text hx.tidy "FROM " rfl).then (Twin.phrase hx.tidy hphrase)

theorem arbitraryOrder_echoes (hx : Relaid t l turned) : Echoes t l turned arbitraryOrder := by
  refine .target (.pure (hx.block (Relaid.clauses (.cons ?_ hx.dummy))))
  exact hx.listClause (.text hx.tidy "SELECT" rfl) (Twin.text hx.tidy "NULL" rfl).singleton

theorem ordering_echoes (hx : Relaid t l turned) (needed : Bool) {as bs : List String}
    (h : List.Forall₂ (Twin t.dialect turned) as bs) :
    Alike t l (ordering needed as) (ordering needed bs) (List.Forall₂ (Twin t.dialect turned)) := by
  have hempty : as.isEmpty = bs.isEmpty := by cases h <;> rfl
  unfold ordering
  rw [hempty]
  split
  · exact single_echoes (arbitraryOrder_echoes hx)
  · exact .pure h

/-- The greatest count of a dialect, if it has one. -/
theorem Relaid.most (hx : Relaid t l turned) :
    Option.Rel (Twin t.dialect turned) t.dialect.writing.maxLimit t.dialect.writing.maxLimit := by
  cases hmost : t.dialect.writing.maxLimit with
  | none => exact .none
  | some most =>
    exact .some (.phrase hx.tidy (hx.tidy.phrases most (by simp [WritingRules.phrases, hmost])))

theorem limitOffset_echoes (hx : Relaid t l turned) {count offset : Render (Option String)}
    (hc : EchoesOption t l turned count) (ho : EchoesOption t l turned offset) :
    EchoesAll t l turned (limitOffset count offset) := by
  refine hc.bind fun a b hab => ho.bind fun c d hcd => .target (.pure ?_)
  have hmost : Option.Rel (Twin t.dialect turned) (a <|> if c.isSome then t.dialect.writing.maxLimit
      else none) (b <|> if d.isSome then (t.laid l).dialect.writing.maxLimit else none) := by
    cases hab with
    | some h => exact .some h
    | none =>
      cases hcd with
      | none => exact .none
      | some _ => exact hx.most
  exact List.rel_append (hmost.toList_map fun _ _ h => (Lead.text hx.tidy "LIMIT " rfl).then h)
    (hcd.toList_map fun _ _ h => (Lead.text hx.tidy "OFFSET " rfl).then h)

theorem limitComma_echoes (hx : Relaid t l turned) {count offset : Render (Option String)}
    (hc : EchoesOption t l turned count) (ho : EchoesOption t l turned offset) :
    EchoesAll t l turned (limitComma count offset) := by
  refine ho.bind fun _ _ hab => hc.bind fun _ _ hcd => .pure ?_
  have hfirst := ((Lead.text hx.tidy "LIMIT " rfl).then (hab.getD Lead.empty.twin)).lead hx.tidy ", " rfl
  exact (hfirst.then (hcd.getD Lead.empty.twin)).singleton

theorem limitClauses_echoes (hx : Relaid t l turned) {count offset : Render (Option String)}
    (hasCount hasOffset : Bool) (hc : EchoesOption t l turned count)
    (ho : EchoesOption t l turned offset) :
    EchoesAll t l turned (limitClauses hasCount hasOffset count offset) := by
  have hd := hx.tidy
  refine .target ?_
  rw [Target.laid_dialect]
  dsimp only
  cases t.dialect.writing.limitStyle with
  | limitOffset =>
    dsimp only
    split
    · exact .orElse (limitOffset_echoes hx hc ho) (limitComma_echoes hx hc ho)
    · exact limitOffset_echoes hx hc ho
  | offsetLimit =>
    refine ho.bind fun _ _ hab => hc.bind fun _ _ hcd => .pure ?_
    exact List.rel_append (hab.toList_map fun _ _ h => (Lead.text hd "OFFSET " rfl).then h)
      (hcd.toList_map fun _ _ h => (Lead.text hd "LIMIT " rfl).then h)
  | fetchFirst =>
    refine ho.bind fun _ _ hab => hc.bind fun _ _ hcd => .pure ?_
    exact List.rel_append
      (hab.toList_map fun _ _ h => ((Lead.text hd "OFFSET " rfl).then h).tail (.text hd " ROWS" rfl))
      (hcd.toList_map fun _ _ h => ((Lead.text hd "FETCH FIRST " rfl).then h).tail
        (.text hd " ROWS ONLY" rfl))
  | limitOnly =>
    cases hasOffset with
    | true => exact .unsupported _
    | false =>
      exact hc.bind fun _ _ hcd =>
        .pure (hcd.toList_map fun _ _ h => (Lead.text hd "LIMIT " rfl).then h)
  | top fetch =>
    cases fetch with
    | false => exact .unsupported _
    | true =>
      refine ho.bind fun _ _ hab => hc.bind fun _ _ hcd => .pure (.cons ?_ ?_)
      · exact ((Lead.text hd "OFFSET " rfl).then (hab.getD (.text hd "0" rfl))).tail
          (.text hd " ROWS" rfl)
      · exact hcd.toList_map fun _ _ h => ((Lead.text hd "FETCH NEXT " rfl).then h).tail
          (.text hd " ROWS ONLY" rfl)

/-- A count is carried by the `SELECT` in both layouts or in neither. -/
theorem topText_echoes (hx : Relaid t l turned) (body : Body) {limit : Option Limit}
    (hcount : ∀ x ∈ limit, ∀ e ∈ x.count, EchoesAll t l turned e.texts ∧
      Node.IsLexical t.dialect (.expr e)) :
    EchoesOption t l turned (topText body limit) := by
  rw [topText.eq_def]
  cases limit with
  | none => exact .pure .none
  | some x =>
    obtain ⟨count, offset⟩ := x
    have hsame : (t.laid l).hasTop body ⟨count, offset⟩ = t.hasTop body ⟨count, offset⟩ := rfl
    refine .target ?_
    rw [hsame]
    split
    · split
      · have hdigits : Twin t.dialect turned _ _ := hx.number (hcount _ rfl _ rfl).2
        exact .pure (.some ((Lead.text hx.tidy "TOP " rfl).then hdigits))
      · refine (whole_echoes hx (hcount _ rfl _ rfl).1).bind fun _ _ h => .pure (.some ?_)
        exact ((Lead.text hx.tidy "TOP (" rfl).then h).close hx.tidy
      · exact .pure .none
    · exact .pure .none

/-! ### Queries -/

theorem Relaid.listOrNothing (hx : Relaid t l turned) {as bs : List String} (keyword : String)
    (hkey : isTemplate keyword.toList = true) (h : List.Forall₂ (Twin t.dialect turned) as bs) :
    List.Forall₂ (Twin t.dialect turned) (if as.isEmpty then [] else [t.listClause keyword as])
      (if bs.isEmpty then [] else [(t.laid l).listClause keyword bs]) := by
  have hempty : as.isEmpty = bs.isEmpty := by cases h <;> rfl
  rw [hempty]
  split
  · exact .nil
  · exact (hx.listClause (.text hx.tidy keyword hkey) h).singleton

theorem Relaid.behindWord (hx : Relaid t l turned) {as bs : List String} (keyword : String)
    (hkey : isOpenTemplate keyword.toList = true) (h : List.Forall₂ (Twin t.dialect turned) as bs) :
    List.Forall₂ (Twin t.dialect turned) (as.map fun text => keyword ++ text)
      (bs.map fun text => keyword ++ text) := by
  rw [List.forall₂_map_left_iff, List.forall₂_map_right_iff]
  exact h.imp fun _ _ hab => (Lead.text hx.tidy keyword hkey).then hab

theorem Relaid.keyed (hx : Relaid t l turned) {as bs : List String} (keyword : String)
    (hkey : isOpenTemplate keyword.toList = true) (h : List.Forall₂ (Twin t.dialect turned) as bs) :
    List.Forall₂ (Twin t.dialect turned)
      (if as.isEmpty then [] else [keyword ++ String.intercalate ", " as])
      (if bs.isEmpty then [] else [keyword ++ String.intercalate ", " bs]) := by
  have hempty : as.isEmpty = bs.isEmpty := by cases h <;> rfl
  rw [hempty]
  split
  · exact .nil
  · exact ((Lead.text hx.tidy keyword hkey).then (Twin.list hx.tidy h)).singleton

theorem Relaid.setWord (hx : Relaid t l turned) (op : SetOp) (quantifier : SetQuantifier) :
    Twin t.dialect turned (t.setWord op quantifier) ((t.laid l).setWord op quantifier) := by
  have hlaid : (t.laid l).setWord op quantifier = t.setWord op quantifier := by
    simp only [Target.setWord, Target.laid_dialect]
  have hword {word text : String} (h : Twin t.dialect turned word word)
      (htext : text = word ∨ text = word ++ " ALL" ∨ text = word ++ " DISTINCT") :
      Twin t.dialect turned text text := by
    obtain rfl | rfl | rfl := htext
    · exact h
    · exact h.tail (.text hx.tidy " ALL" rfl)
    · exact h.tail (.text hx.tidy " DISTINCT" rfl)
  rw [hlaid]
  cases op with
  | union =>
    exact hword (.text hx.tidy "UNION" rfl) (by cases quantifier <;> simp [Target.setWord])
  | intersect =>
    exact hword (.text hx.tidy "INTERSECT" rfl) (by cases quantifier <;> simp [Target.setWord])
  | except =>
    have hexcept : Twin t.dialect turned t.dialect.writing.exceptKeyword
        t.dialect.writing.exceptKeyword := hx.keyword (by simp)
    exact hword hexcept (by cases quantifier <;> simp [Target.setWord])

theorem Relaid.pathStar (hx : Relaid t l turned) (ns : List Name) :
    Twin t.dialect turned (t.path ns ++ ".*") ((t.laid l).path ns ++ ".*") := by
  have hstar : Twin t.dialect turned ".*" ".*" := .phrase hx.tidy (hx.tidy.marks ".*" (by simp))
  refine (hx.dotted ns).append hstar (fun _ _ => ?_) fun _ _ => ?_ <;>
    exact (by decide : some '.' ∈ wordEnds)

theorem query_echoes (hx : Relaid t l turned) {ctes : Option With} {body : Body}
    {order : List OrderItem} {limit : Option Limit} (hw : EchoesAll t l turned (withTexts ctes))
    (htop : EchoesOption t l turned (topText body limit))
    (hb : ∀ top top', Option.Rel (Twin t.dialect turned) top top' →
      Alike t l (body.text top) (body.text top') (Twin t.dialect turned))
    (ho : EchoesAll t l turned (orderTexts order)) (hl : EchoesAll t l turned (limitTexts limit)) :
    Echoes t l turned (Query.text ⟨ctes, body, order, limit⟩) := by
  simp only [Query.text]
  refine .target (hw.bind fun _ _ hctes => htop.bind fun top top' hrel => ?_)
  refine (hb top top' hrel).bind fun _ _ hbody => ho.bind fun _ _ hkeys => ?_
  have hnone : top'.isNone = top.isNone := by cases hrel <;> rfl
  have hsome : top'.isSome = top.isSome := by cases hrel <;> rfl
  rw [hnone, hsome]
  refine (ordering_echoes hx _ hkeys).bind fun _ _ horder => ?_
  have hclauses {as bs : List String} (h : List.Forall₂ (Twin t.dialect turned) as bs) :=
    Relaid.clauses (l := l) (List.rel_append (List.rel_append hctes
      (.cons hbody (hx.listOrNothing "ORDER BY" rfl horder))) h)
  split
  · exact .pure (hclauses .nil)
  · exact hl.bind fun _ _ hlimit => .pure (hclauses hlimit)

theorem Relaid.topOf (hx : Relaid t l turned) {top top' : Option String}
    (h : Option.Rel (Twin t.dialect turned) top top') :
    Tail t.dialect turned ((top.map fun text => s!" {text}").getD "")
      ((top'.map fun text => s!" {text}").getD "") := by
  cases h with
  | none => exact .empty
  | some h => exact h.behind hx.tidy " " rfl

theorem select_echoes (hx : Relaid t l turned) {distinct : Option Distinct} {items : List SelectItem}
    {sources : List Source} {condition : Option Expr} {groupBy : List Expr}
    {having qualify : Option Expr} (hdistinct : EchoesTail t l turned (distinctText distinct))
    (hi : EchoesAll t l turned (itemTexts items)) (hs : EchoesAll t l turned (sourceTexts sources))
    (hc : EchoesAll t l turned (optionTexts condition)) (hg : EchoesAll t l turned (exprTexts groupBy))
    (hh : EchoesAll t l turned (optionTexts having)) (hq : EchoesAll t l turned (optionTexts qualify))
    {top top' : Option String} (htop : Option.Rel (Twin t.dialect turned) top top') :
    Alike t l (Select.text ⟨distinct, items, sources, condition, groupBy, having, qualify⟩ top)
      (Select.text ⟨distinct, items, sources, condition, groupBy, having, qualify⟩ top')
      (Twin t.dialect turned) := by
  simp only [Select.text]
  refine .target (hdistinct.bind fun _ _ hd => hi.bind fun _ _ hi => hs.bind fun _ _ hs => ?_)
  refine hc.bind fun _ _ hc => hg.bind fun _ _ hg => hh.bind fun _ _ hh => ?_
  have hselect := hx.listClause (((Twin.text hx.tidy "SELECT" rfl).tail hd).tail (hx.topOf htop)) hi
  have htables {as bs : List String} (h : List.Forall₂ (Twin t.dialect turned) as bs) :
      List.Forall₂ (Twin t.dialect turned)
        (if as.isEmpty then (t.dialect.writing.dummyTable.map fun d => s!"FROM {d}").toList
          else [t.listClause "FROM" as])
        (if bs.isEmpty then (t.dialect.writing.dummyTable.map fun d => s!"FROM {d}").toList
          else [(t.laid l).listClause "FROM" bs]) := by
    cases h with
    | nil => exact hx.dummy
    | cons h hs => exact (hx.listClause (.text hx.tidy "FROM" rfl) (.cons h hs)).singleton
  have hlast {as bs : List String} (hq : List.Forall₂ (Twin t.dialect turned) as bs) :=
    Relaid.clauses (l := l) (List.rel_append (List.rel_append (List.rel_append (List.rel_append
      (List.Forall₂.cons hselect (htables hs)) (hx.behindWord "WHERE " rfl hc))
      (hx.listOrNothing "GROUP BY" rfl hg)) (hx.behindWord "HAVING " rfl hh))
      (hx.behindWord "QUALIFY " rfl hq))
  cases qualify with
  | none => exact hq.bind fun _ _ hq => .pure (hlast hq)
  | some e => exact (Even.require _).bind fun _ _ => hq.bind fun _ _ hq => .pure (hlast hq)

end Parts

/-! ## Trees -/

/-- The texts of all nodes are texts of the dialect, and no parameter starts a string. -/
abbrev AllLexical (d : Dialect) (nodes : List Node) : Prop :=
  ∀ x ∈ nodes, x.IsLexical d ∧ x.IsDollarFree d

section Trees

set_option linter.unusedSectionVars false

variable {t : Target} {l : Layout} {turned : Bool} (hx : Relaid t l turned)
include hx

mutual

theorem Expr.texts_echoes : ∀ e : Expr, AllLexical t.dialect e.nodes → EchoesAll t l turned e.texts
  | .name n, _ => by
    simp only [Expr.texts]
    exact .target (.pure (hx.name n).singleton)
  | .path parts, _ => by
    simp only [Expr.texts]
    exact .target (.pure (hx.path parts).singleton)
  | .literal v, h => by
    simp only [Expr.texts]
    exact single_echoes (literal_echoes hx (h _ (Expr.mem_nodes _)).1)
  | .param p, h => by
    simp only [Expr.texts]
    have hp := h _ (Expr.mem_nodes _)
    exact single_echoes (param_echoes hx hp.1 hp.2)
  | .binary left op right, h => by
    simp only [Expr.nodes, AllLexical, List.forall_mem_cons, List.forall_mem_append] at h
    simp only [Expr.texts]
    exact binary_echoes hx left right op (Expr.texts_echoes left h.2.1) (Expr.texts_echoes right h.2.2)
  | .unary op e, h => by
    simp only [Expr.nodes, AllLexical, List.forall_mem_cons] at h
    simp only [Expr.texts]
    exact (operand_echoes hx (Expr.texts_echoes e h.2) ..).bind fun _ _ ha =>
      .pure (hx.unaryText op ha).singleton
  | .call f, h => by
    simp only [Expr.nodes, AllLexical, List.forall_mem_cons] at h
    simp only [Expr.texts]
    exact single_echoes (Call.text_echoes f h.2)
  | .cast e type safe, h => by
    simp only [Expr.nodes, AllLexical, List.forall_mem_cons] at h
    have htype := hx.dataType h.1.1
    have he := whole_echoes hx (Expr.texts_echoes e h.2)
    simp only [Expr.texts]
    refine .target ?_
    rw [Target.laid_dialect]
    split
    · exact .unsupported _
    · next word hsafe =>
      have hphrase := hx.tidy.phrases word (by simp [WritingRules.phrases, hsafe])
      have hword : Lead t.dialect turned (word ++ "(") (word ++ "(") := .called hx.tidy hphrase
      exact he.bind fun _ _ ha =>
        .pure (((((hword.then ha).lead hx.tidy " AS " rfl).then htype).close hx.tidy)).singleton
    · have hword : Lead t.dialect turned "CAST(" "CAST(" := .text hx.tidy _ rfl
      exact he.bind fun _ _ ha =>
        .pure (((((hword.then ha).lead hx.tidy " AS " rfl).then htype).close hx.tidy)).singleton
  | .case subject branches otherwise, h => by
    simp only [Expr.nodes, AllLexical, List.forall_mem_cons, List.forall_mem_append] at h
    simp only [Expr.texts]
    refine (optionTexts_echoes subject h.2.1.1).bind fun _ _ hs => ?_
    refine (branchTexts_echoes branches h.2.1.2).bind fun _ _ hb => ?_
    refine (optionTexts_echoes otherwise h.2.2).bind fun _ _ ho => .pure ?_
    exact (Twin.words (List.rel_append (List.rel_append (List.rel_append (List.rel_append
      (Twin.text hx.tidy "CASE" rfl).singleton hs) hb) (hx.behindWord "ELSE " rfl ho))
      (Twin.text hx.tidy "END" rfl).singleton)).singleton
  | .cond condition yes no, h => by
    simp only [Expr.nodes, AllLexical, List.forall_mem_cons, List.forall_mem_append] at h
    simp only [Expr.texts]
    refine (whole_echoes hx (Expr.texts_echoes condition h.2.1.1)).bind fun _ _ hc => ?_
    refine (whole_echoes hx (Expr.texts_echoes yes h.2.1.2)).bind fun _ _ hy => ?_
    refine (whole_echoes hx (Expr.texts_echoes no h.2.2)).bind fun _ _ hn => .target ?_
    rw [Target.laid_dialect]
    cases hif : t.dialect.writing.ifFunction with
    | some word =>
      have hphrase := hx.tidy.phrases word (by simp [WritingRules.phrases, hif])
      have hword : Lead t.dialect turned (word ++ "(") (word ++ "(") := .called hx.tidy hphrase
      have hbranches := ((hword.then hc).lead hx.tidy ", " rfl).then hy
      exact .pure (((hbranches.lead hx.tidy ", " rfl).then hn).close hx.tidy).singleton
    | none =>
      have hwhen := ((Lead.text hx.tidy "CASE WHEN " rfl).then hc).lead hx.tidy " THEN " rfl
      exact .pure ((((hwhen.then hy).lead hx.tidy " ELSE " rfl).then hn).tail
        (.text hx.tidy " END" rfl)).singleton
  | .between e negated low high, h => by
    simp only [Expr.nodes, AllLexical, List.forall_mem_cons, List.forall_mem_append] at h
    simp only [Expr.texts]
    refine (operand_echoes hx (Expr.texts_echoes e h.2.1.1) ..).bind fun _ _ he => ?_
    refine (operand_echoes hx (Expr.texts_echoes low h.2.1.2) ..).bind fun _ _ hl => ?_
    refine (operand_echoes hx (Expr.texts_echoes high h.2.2) ..).bind fun _ _ hh => .pure ?_
    have hword := ((he.lead hx.tidy " " rfl).then (hx.negation negated)).then
      (Lead.text hx.tidy "BETWEEN " rfl)
    exact (((hword.then hl).lead hx.tidy " AND " rfl).then hh).singleton
  | .inList e items negated, h => by
    simp only [Expr.nodes, AllLexical, List.forall_mem_cons, List.forall_mem_append] at h
    simp only [Expr.texts]
    refine (exprTexts_echoes items h.2.2).bind fun _ _ hi => ?_
    refine (operand_echoes hx (Expr.texts_echoes e h.2.1) ..).bind fun _ _ he => .pure ?_
    have hword := ((he.lead hx.tidy " " rfl).then (hx.negation negated)).then
      (Lead.text hx.tidy "IN (" rfl)
    exact ((hword.then (Twin.list hx.tidy hi)).close hx.tidy).singleton
  | .inQuery e q negated, h => by
    simp only [Expr.nodes, AllLexical, List.forall_mem_cons, List.forall_mem_append] at h
    simp only [Expr.texts]
    refine (operand_echoes hx (Expr.texts_echoes e h.2.1) ..).bind fun _ _ he => ?_
    refine (block_echoes hx (Query.text_echoes q h.2.2)).bind fun _ _ hq => .pure ?_
    have hword := ((he.lead hx.tidy " " rfl).then (hx.negation negated)).then
      (Lead.text hx.tidy "IN " rfl)
    exact (hword.then hq).singleton
  | .like e p negated anyCase escape, h => by
    simp only [Expr.nodes, AllLexical, List.forall_mem_cons, List.forall_mem_append] at h
    simp only [Expr.texts]
    refine (pattern_echoes hx e p negated anyCase (Expr.texts_echoes e h.2.1.1)
      (Expr.texts_echoes p h.2.1.2)).bind fun _ _ hp => ?_
    exact (escapeText_echoes escape h.2.2).bind fun _ _ hs => .pure (hp.tail hs).singleton
  | .isNull e negated, h => by
    simp only [Expr.nodes, AllLexical, List.forall_mem_cons] at h
    simp only [Expr.texts]
    refine (operand_echoes hx (Expr.texts_echoes e h.2) ..).bind fun _ _ he => .pure ?_
    exact (((he.lead hx.tidy " IS " rfl).then (hx.negation negated)).then
      (Twin.text hx.tidy "NULL" rfl)).singleton
  | .exists q negated, h => by
    simp only [Expr.nodes, AllLexical, List.forall_mem_cons] at h
    simp only [Expr.texts]
    refine (block_echoes hx (Query.text_echoes q h.2)).bind fun _ _ hq => .pure ?_
    exact (((hx.negation negated).then (Lead.text hx.tidy "EXISTS " rfl)).then hq).singleton
  | .subquery q, h => by
    simp only [Expr.nodes, AllLexical, List.forall_mem_cons] at h
    simp only [Expr.texts]
    exact single_echoes (block_echoes hx (Query.text_echoes q h.2))
  | .nested e, h => by
    simp only [Expr.nodes, AllLexical, List.forall_mem_cons] at h
    simp only [Expr.texts]
    exact (whole_echoes hx (Expr.texts_echoes e h.2)).bind fun _ _ he =>
      .pure (he.parens hx.tidy).singleton
  | .extract field e, h => by
    simp only [Expr.nodes, AllLexical, List.forall_mem_cons] at h
    have he := whole_echoes hx (Expr.texts_echoes e h.2)
    simp only [Expr.texts]
    refine .target ?_
    rw [Target.laid_dialect]
    split
    · have hfield : Lead t.dialect turned ("EXTRACT(" ++ field.keyword ++ " FROM ")
          ("EXTRACT(" ++ field.keyword ++ " FROM ") := by
        cases field <;> exact .text hx.tidy _ rfl
      exact he.bind fun _ _ he => .pure ((hfield.then he).close hx.tidy).singleton
    · have hfield : Lead t.dialect turned ("DATEPART(" ++ field.datepart ++ ", ")
          ("DATEPART(" ++ field.datepart ++ ", ") := by
        cases field <;> exact .text hx.tidy _ rfl
      exact he.bind fun _ _ he => .pure ((hfield.then he).close hx.tidy).singleton
    · exact .unsupported _
  | .interval e unit, h => by
    simp only [Expr.nodes, AllLexical, List.forall_mem_cons] at h
    simp only [Expr.texts]
    exact single_echoes (interval_echoes hx e unit (Expr.texts_echoes e h.2))
  | .now kind, _ => by
    simp only [Expr.texts]
    exact single_echoes (now_echoes hx kind)

theorem optionTexts_echoes : ∀ o : Option Expr, AllLexical t.dialect (optionNodes o) →
    EchoesAll t l turned (optionTexts o)
  | none, _ => by
    simp only [optionTexts]
    exact .pure .nil
  | some e, h => by
    simp only [optionNodes] at h
    simp only [optionTexts]
    exact (whole_echoes hx (Expr.texts_echoes e h)).bind fun _ _ he => .pure he.singleton

theorem optionText_echoes : ∀ o : Option Expr, AllLexical t.dialect (optionNodes o) →
    EchoesOption t l turned (optionText o)
  | none, _ => by
    simp only [optionText]
    exact .pure .none
  | some e, h => by
    simp only [optionNodes] at h
    simp only [optionText]
    exact (whole_echoes hx (Expr.texts_echoes e h)).bind fun _ _ he => .pure (.some he)

theorem escapeText_echoes : ∀ o : Option Expr, AllLexical t.dialect (optionNodes o) →
    EchoesTail t l turned (escapeText o)
  | none, _ => by
    simp only [escapeText]
    exact .pure .empty
  | some e, h => by
    simp only [optionNodes] at h
    simp only [escapeText]
    refine (operand_echoes hx (Expr.texts_echoes e h) ..).bind fun _ _ he => .pure ?_
    exact he.behind hx.tidy " ESCAPE " rfl

theorem exprTexts_echoes : ∀ es : List Expr, AllLexical t.dialect (exprNodes es) →
    EchoesAll t l turned (exprTexts es)
  | [], _ => by
    simp only [exprTexts]
    exact .pure .nil
  | e :: es, h => by
    simp only [exprNodes, AllLexical, List.forall_mem_append] at h
    simp only [exprTexts]
    refine (whole_echoes hx (Expr.texts_echoes e h.1)).bind fun _ _ he => ?_
    exact (exprTexts_echoes es h.2).bind fun _ _ hes => .pure (.cons he hes)

theorem branchTexts_echoes : ∀ bs : List Branch, AllLexical t.dialect (branchNodes bs) →
    EchoesAll t l turned (branchTexts bs)
  | [], _ => by
    simp only [branchTexts]
    exact .pure .nil
  | ⟨condition, result⟩ :: rest, h => by
    simp only [branchNodes, AllLexical, List.forall_mem_append] at h
    simp only [branchTexts]
    refine (whole_echoes hx (Expr.texts_echoes condition h.1.1)).bind fun _ _ hc => ?_
    refine (whole_echoes hx (Expr.texts_echoes result h.1.2)).bind fun _ _ hr => ?_
    refine (branchTexts_echoes rest h.2).bind fun _ _ hs => .pure (.cons ?_ hs)
    exact (((Lead.text hx.tidy "WHEN " rfl).then hc).lead hx.tidy " THEN " rfl).then hr

theorem Call.text_echoes : ∀ f : Call, AllLexical t.dialect f.nodes → Echoes t l turned f.text
  | ⟨name, args, distinct, window⟩, h => by
    simp only [Call.nodes, AllLexical, List.forall_mem_cons, List.forall_mem_append] at h
    have hsame : (t.laid l).asksPosition name args window = t.asksPosition name args window := rfl
    simp only [Call.text]
    refine .target ?_
    rw [hsame]
    split
    · next hposition => exact positionText_echoes args h.2.1 hposition
    · refine (argTexts_echoes args h.2.1).bind fun _ _ ha => ?_
      refine (overText_echoes window h.2.2).bind fun _ _ hw => .pure ?_
      exact (hx.callText (hx.functionText h.1.1) distinct ha).tail hw

theorem positionText_echoes : ∀ args : List Arg, AllLexical t.dialect (argNodes args) →
    ∀ {name : String} {window : Option Window}, t.asksPosition name args window = true →
      Echoes t l turned (positionText args)
  | [.expr haystack, .expr needle], h => fun _ => by
    simp only [argNodes, AllLexical, List.forall_mem_append] at h
    simp only [positionText]
    refine (operand_echoes hx (Expr.texts_echoes needle h.2.1) ..).bind fun _ _ hn => ?_
    refine (whole_echoes hx (Expr.texts_echoes haystack h.1)).bind fun _ _ hh => .pure ?_
    exact ((((Lead.text hx.tidy "POSITION(" rfl).then hn).lead hx.tidy " IN " rfl).then hh).close hx.tidy
  | [], _ | [_], _ | .star :: _ :: _, _ | [.expr _, .star], _ | .expr _ :: _ :: _ :: _, _ =>
    fun hposition => by
      obtain ⟨-, _, _, heq, -⟩ := Target.asksPosition_iff.mp hposition
      simp at heq

theorem argTexts_echoes : ∀ args : List Arg, AllLexical t.dialect (argNodes args) →
    EchoesAll t l turned (argTexts args)
  | [], _ => by
    simp only [argTexts]
    exact .pure .nil
  | .star :: rest, h => by
    simp only [argNodes] at h
    simp only [argTexts]
    exact (argTexts_echoes rest h).bind fun _ _ hr => .pure (.cons hx.star hr)
  | .expr e :: rest, h => by
    simp only [argNodes, AllLexical, List.forall_mem_append] at h
    simp only [argTexts]
    refine (whole_echoes hx (Expr.texts_echoes e h.1)).bind fun _ _ he => ?_
    exact (argTexts_echoes rest h.2).bind fun _ _ hr => .pure (.cons he hr)

theorem overText_echoes : ∀ w : Option Window, AllLexical t.dialect (windowNodes w) →
    EchoesTail t l turned (overText w)
  | none, _ => by
    simp only [overText]
    exact .pure .empty
  | some ⟨partitionBy, order, frame⟩, h => by
    simp only [windowNodes, AllLexical, List.forall_mem_append] at h
    simp only [overText]
    refine (exprTexts_echoes partitionBy h.1.1).bind fun _ _ hp => ?_
    refine (orderTexts_echoes order h.1.2).bind fun _ _ ho => ?_
    refine (frameText_echoes frame h.2).bind fun _ _ hf => .pure ?_
    have hparts := Twin.words (List.rel_append (List.rel_append (hx.keyed "PARTITION BY " rfl hp)
      (hx.keyed "ORDER BY " rfl ho)) hf)
    exact (hparts.behind hx.tidy " OVER (" rfl).append (.text hx.tidy ")" rfl)

theorem orderTexts_echoes : ∀ items : List OrderItem, AllLexical t.dialect (orderNodes items) →
    EchoesAll t l turned (orderTexts items)
  | [], _ => by
    simp only [orderTexts]
    exact .pure .nil
  | ⟨key, ascending, nullsFirst⟩ :: rest, h => by
    simp only [orderNodes, AllLexical, List.forall_mem_cons, List.forall_mem_append] at h
    simp only [orderTexts]
    refine (whole_echoes hx (Expr.texts_echoes key h.2.1)).bind fun _ _ hk => ?_
    have hrest := orderTexts_echoes rest h.2.2
    have hdirection : Tail t.dialect turned
        ((ascending.map fun a => if a then " ASC" else " DESC").getD "")
        ((ascending.map fun a => if a then " ASC" else " DESC").getD "") := by
      rcases ascending with _ | _ | _ <;> exact .text hx.tidy _ rfl
    cases nullsFirst with
    | none => exact hrest.bind fun _ _ hr => .pure (.cons ((hk.tail hdirection).tail .empty) hr)
    | some first =>
      have hnulls : Tail t.dialect turned (if first then " NULLS FIRST" else " NULLS LAST")
          (if first then " NULLS FIRST" else " NULLS LAST") := by
        cases first <;> exact .text hx.tidy _ rfl
      exact (Even.require _).bind fun _ _ =>
        hrest.bind fun _ _ hr => .pure (.cons ((hk.tail hdirection).tail hnulls) hr)

theorem frameText_echoes : ∀ f : Option Frame, AllLexical t.dialect (frameNodes f) →
    EchoesAll t l turned (frameText f)
  | none, _ => by
    simp only [frameText]
    exact .pure .nil
  | some ⟨unit, start, stop⟩, h => by
    simp only [frameNodes, AllLexical, List.forall_mem_append] at h
    simp only [frameText]
    refine (Bound.text_echoes start h.1).bind fun _ _ hs => ?_
    refine (stopText_echoes stop h.2).bind fun stop stop' hstop => ?_
    cases hstop with
    | none => cases unit <;> exact .pure ((Lead.text hx.tidy _ rfl).then hs).singleton
    | some hstop =>
      have hunit (word : String) (hword : isTemplate word.toList = true) :
          Lead t.dialect turned (word ++ " BETWEEN ") (word ++ " BETWEEN ") :=
        (Twin.text hx.tidy word hword).lead hx.tidy " BETWEEN " rfl
      cases unit <;>
        exact .pure ((((hunit _ (by decide)).then hs).lead hx.tidy " AND " rfl).then hstop).singleton

theorem stopText_echoes : ∀ b : Option Bound, AllLexical t.dialect (stopNodes b) →
    EchoesOption t l turned (stopText b)
  | none, _ => by
    simp only [stopText]
    exact .pure .none
  | some b, h => by
    simp only [stopNodes] at h
    simp only [stopText]
    exact (Bound.text_echoes b h).bind fun _ _ hb => .pure (.some hb)

theorem Bound.text_echoes : ∀ b : Bound, AllLexical t.dialect b.nodes → Echoes t l turned b.text
  | .unboundedPreceding, _ => by
    simp only [Bound.text]
    exact .pure (.text hx.tidy _ rfl)
  | .unboundedFollowing, _ => by
    simp only [Bound.text]
    exact .pure (.text hx.tidy _ rfl)
  | .currentRow, _ => by
    simp only [Bound.text]
    exact .pure (.text hx.tidy _ rfl)
  | .preceding e, h => by
    simp only [Bound.nodes, AllLexical, List.forall_mem_cons] at h
    simp only [Bound.text]
    exact (operand_echoes hx (Expr.texts_echoes e h.2) ..).bind fun _ _ he =>
      .pure (he.tail (.text hx.tidy " PRECEDING" rfl))
  | .following e, h => by
    simp only [Bound.nodes, AllLexical, List.forall_mem_cons] at h
    simp only [Bound.text]
    exact (operand_echoes hx (Expr.texts_echoes e h.2) ..).bind fun _ _ he =>
      .pure (he.tail (.text hx.tidy " FOLLOWING" rfl))

theorem Query.text_echoes : ∀ q : Query, AllLexical t.dialect q.nodes → Echoes t l turned q.text
  | ⟨ctes, body, order, limit⟩, h => by
    simp only [Query.nodes, AllLexical, List.forall_mem_cons, List.forall_mem_append] at h
    exact query_echoes hx (withTexts_echoes ctes h.2.1.1.1)
      (topText_echoes hx body (countTexts_echoes limit h.2.2))
      (fun _ _ hrel => Body.text_echoes body h.2.1.1.2 hrel) (orderTexts_echoes order h.2.1.2)
      (limitTexts_echoes limit h.2.2)

theorem countTexts_echoes : ∀ limit : Option Limit, AllLexical t.dialect (limitNodes limit) →
    ∀ x ∈ limit, ∀ e ∈ x.count,
      EchoesAll t l turned e.texts ∧ Node.IsLexical t.dialect (.expr e)
  | none, _ => by simp
  | some ⟨none, _⟩, _ => by simp
  | some ⟨some e, _⟩, h => by
    simp only [limitNodes, optionNodes, AllLexical, List.forall_mem_append] at h
    have he := Expr.texts_echoes e h.1
    rintro x hx e' he'
    obtain rfl := Option.some.inj hx
    obtain rfl := Option.some.inj he'
    exact ⟨he, (h.1 _ (Expr.mem_nodes e)).1⟩

theorem limitTexts_echoes : ∀ limit : Option Limit, AllLexical t.dialect (limitNodes limit) →
    EchoesAll t l turned (limitTexts limit)
  | none, _ => by
    simp only [limitTexts]
    exact .pure .nil
  | some ⟨count, offset⟩, h => by
    simp only [limitNodes, AllLexical, List.forall_mem_append] at h
    simp only [limitTexts]
    exact limitClauses_echoes hx _ _ (optionText_echoes count h.1) (optionText_echoes offset h.2)

theorem withTexts_echoes : ∀ w : Option With, AllLexical t.dialect (withNodes w) →
    EchoesAll t l turned (withTexts w)
  | none, _ => by
    simp only [withTexts]
    exact .pure .nil
  | some ⟨recursive, tables⟩, h => by
    simp only [withNodes] at h
    simp only [withTexts]
    refine (cteTexts_echoes tables h).bind fun _ _ ht => .target (.pure ?_)
    have hword : Lead t.dialect turned (if recursive then "WITH RECURSIVE " else "WITH ")
        (if recursive then "WITH RECURSIVE " else "WITH ") := by
      cases recursive <;> exact .text hx.tidy _ rfl
    exact (hword.then (hx.elements ht)).singleton

theorem cteTexts_echoes : ∀ tables : List Cte, AllLexical t.dialect (cteNodes tables) →
    EchoesAll t l turned (cteTexts tables)
  | [], _ => by
    simp only [cteTexts]
    exact .pure .nil
  | ⟨name, columns, query⟩ :: rest, h => by
    simp only [cteNodes, AllLexical, List.forall_mem_append] at h
    simp only [cteTexts]
    refine (block_echoes hx (Query.text_echoes query h.1)).bind fun _ _ hq => .target ?_
    refine (cteTexts_echoes rest h.2).bind fun _ _ hr => .pure (.cons ?_ hr)
    exact (((hx.name name).tail (hx.columns columns)).lead hx.tidy " AS " rfl).then hq

theorem Body.text_echoes : ∀ b : Body, AllLexical t.dialect b.nodes →
    ∀ {top top' : Option String}, Option.Rel (Twin t.dialect turned) top top' →
      Alike t l (b.text top) (b.text top') (Twin t.dialect turned)
  | .select s, h => fun htop => by
    simp only [Body.nodes, AllLexical, List.forall_mem_cons] at h
    simp only [Body.text]
    exact Select.text_echoes s h.2 htop
  | .query q, h => fun _ => by
    simp only [Body.nodes, AllLexical, List.forall_mem_cons] at h
    simp only [Body.text]
    exact block_echoes hx (Query.text_echoes q h.2)
  | .values rows, h => fun _ => by
    simp only [Body.nodes, AllLexical, List.forall_mem_cons] at h
    simp only [Body.text]
    refine (rowTexts_echoes rows h.2).bind fun _ _ hr => .target (.pure ?_)
    exact hx.listClause (.text hx.tidy "VALUES" rfl) hr
  | .combine op quantifier left right, h => fun _ => by
    simp only [Body.nodes, AllLexical, List.forall_mem_cons, List.forall_mem_append] at h
    simp only [Body.text]
    refine .target ((Body.text_echoes left h.2.1 .none).bind fun _ _ hl => ?_)
    refine (Body.text_echoes right h.2.2 .none).bind fun _ _ hr => .pure ?_
    refine Relaid.clauses (.cons hl (.cons (hx.setWord op quantifier) (Twins.singleton ?_)))
    split
    · exact hx.block hr
    · exact hr

theorem rowTexts_echoes : ∀ rows : List (List Expr), AllLexical t.dialect (rowNodes rows) →
    EchoesAll t l turned (rowTexts rows)
  | [], _ => by
    simp only [rowTexts]
    exact .pure .nil
  | row :: rest, h => by
    simp only [rowNodes, AllLexical, List.forall_mem_append] at h
    simp only [rowTexts]
    refine (exprTexts_echoes row h.1).bind fun _ _ hrow => ?_
    refine (rowTexts_echoes rest h.2).bind fun _ _ hr => .pure (.cons ?_ hr)
    exact (Twin.list hx.tidy hrow).parens hx.tidy

theorem Select.text_echoes : ∀ s : Select, AllLexical t.dialect s.nodes →
    ∀ {top top' : Option String}, Option.Rel (Twin t.dialect turned) top top' →
      Alike t l (s.text top) (s.text top') (Twin t.dialect turned)
  | ⟨distinct, items, sources, condition, groupBy, having, qualify⟩, h => fun htop => by
    simp only [Select.nodes, AllLexical, List.forall_mem_cons, List.forall_mem_append] at h
    obtain ⟨-, ⟨⟨⟨⟨⟨hdistinct, hitems⟩, hsources⟩, hcondition⟩, hgroups⟩, hhaving⟩, hqualify⟩ := h
    exact select_echoes hx (distinctText_echoes distinct hdistinct) (itemTexts_echoes items hitems)
      (sourceTexts_echoes sources hsources) (optionTexts_echoes condition hcondition)
      (exprTexts_echoes groupBy hgroups) (optionTexts_echoes having hhaving)
      (optionTexts_echoes qualify hqualify) htop

theorem distinctText_echoes : ∀ x : Option Distinct, AllLexical t.dialect (distinctNodes x) →
    EchoesTail t l turned (distinctText x)
  | none, _ => by
    simp only [distinctText]
    exact .pure .empty
  | some .all, _ => by
    simp only [distinctText]
    exact .pure (.text hx.tidy " DISTINCT" rfl)
  | some (.on keys), h => by
    simp only [distinctNodes] at h
    simp only [distinctText]
    refine (Even.require _).bind fun _ _ => (exprTexts_echoes keys h).bind fun _ _ hk => .pure ?_
    exact ((Twin.list hx.tidy hk).behind hx.tidy " DISTINCT ON (" rfl).append (.text hx.tidy ")" rfl)

theorem itemTexts_echoes : ∀ items : List SelectItem, AllLexical t.dialect (itemNodes items) →
    EchoesAll t l turned (itemTexts items)
  | [], _ => by
    simp only [itemTexts]
    exact .pure .nil
  | .star :: rest, h => by
    simp only [itemNodes] at h
    simp only [itemTexts]
    exact (itemTexts_echoes rest h).bind fun _ _ hr => .pure (.cons hx.star hr)
  | .qualifiedStar table :: rest, h => by
    simp only [itemNodes] at h
    simp only [itemTexts]
    exact .target ((itemTexts_echoes rest h).bind fun _ _ hr => .pure (.cons (hx.pathStar table) hr))
  | .expr e label :: rest, h => by
    simp only [itemNodes, AllLexical, List.forall_mem_append] at h
    simp only [itemTexts]
    refine (whole_echoes hx (Expr.texts_echoes e h.1)).bind fun _ _ he => .target ?_
    refine (itemTexts_echoes rest h.2).bind fun _ _ hr => .pure (.cons ?_ hr)
    cases label with
    | none => exact he
    | some a => exact (he.lead hx.tidy " AS " rfl).then (hx.name a)

theorem sourceTexts_echoes : ∀ sources : List Source, AllLexical t.dialect (sourceNodes sources) →
    EchoesAll t l turned (sourceTexts sources)
  | [], _ => by
    simp only [sourceTexts]
    exact .pure .nil
  | ⟨relation, joins⟩ :: rest, h => by
    simp only [sourceNodes, AllLexical, List.forall_mem_append] at h
    simp only [sourceTexts]
    refine (Relation.text_echoes relation h.1.1).bind fun _ _ hr => ?_
    refine (joinTexts_echoes joins h.1.2).bind fun _ _ hj => ?_
    exact (sourceTexts_echoes rest h.2).bind fun _ _ hs => .pure (.cons (hr.tail hj) hs)

theorem Relation.text_echoes : ∀ r : Relation, AllLexical t.dialect r.nodes →
    Echoes t l turned r.text
  | .table name label, _ => by
    simp only [Relation.text]
    exact .target (aliased_echoes hx (hx.path name) label)
  | .derived q label, h => by
    simp only [Relation.nodes, AllLexical, List.forall_mem_cons] at h
    simp only [Relation.text]
    exact (block_echoes hx (Query.text_echoes q h.2)).bind fun _ _ hq => aliased_echoes hx hq label
  | .function call label, h => by
    simp only [Relation.nodes, AllLexical, List.forall_mem_cons] at h
    simp only [Relation.text]
    exact (Call.text_echoes call h.2).bind fun _ _ hc => aliased_echoes hx hc label

theorem joinTexts_echoes : ∀ joins : List Join, AllLexical t.dialect (joinNodes joins) →
    EchoesTail t l turned (joinTexts joins)
  | [], _ => by
    simp only [joinTexts]
    exact .pure .empty
  | ⟨relation, kind, condition⟩ :: rest, h => by
    simp only [joinNodes, AllLexical, List.forall_mem_cons, List.forall_mem_append] at h
    simp only [joinTexts]
    refine (joinWords_echoes hx ..).bind fun _ _ hw => ?_
    refine (Relation.text_echoes relation h.2.1.1).bind fun _ _ hr => ?_
    refine (JoinCondition.text_echoes condition h.2.1.2).bind fun _ _ hc => .target ?_
    refine (joinTexts_echoes rest h.2.2).bind fun _ _ hs => .pure ?_
    have hjoin := ((hw.lead hx.tidy " " rfl).then hr).tail hc
    have htext := Relaid.separator (t := t) (l := l) (hjoin.tail hs)
    simpa [String.append_assoc] using htext

theorem JoinCondition.text_echoes : ∀ c : JoinCondition, AllLexical t.dialect c.nodes →
    EchoesTail t l turned c.text
  | .on e, h => by
    simp only [JoinCondition.nodes] at h
    simp only [JoinCondition.text]
    refine (whole_echoes hx (Expr.texts_echoes e h)).bind fun _ _ he => .pure ?_
    exact he.behind hx.tidy " ON " rfl
  | .using columns, _ => by
    simp only [JoinCondition.text]
    refine (Even.require _).bind fun _ _ => .target (.pure ?_)
    exact ((hx.names columns).behind hx.tidy " USING (" rfl).append (.text hx.tidy ")" rfl)
  | .natural, _ => by
    simp only [JoinCondition.text]
    exact .pure .empty
  | .none, _ => by
    simp only [JoinCondition.text]
    exact .pure .empty

end

/-! ## Statements -/

theorem conditionTexts_echoes {condition : Option Expr}
    (h : AllLexical t.dialect (optionNodes condition)) :
    EchoesAll t l turned (conditionTexts condition) :=
  (optionTexts_echoes hx condition h).bind fun _ _ hc => .pure (hx.behindWord "WHERE " rfl hc)

theorem returningText_echoes {items : List SelectItem} (h : AllLexical t.dialect (itemNodes items)) :
    Echoes t l turned (returningText items) := by
  unfold returningText
  by_cases hempty : items.isEmpty = true
  · rw [if_pos hempty]
    exact .pure Lead.empty.twin
  · rw [if_neg hempty]
    refine (Even.require _).bind fun _ _ => (itemTexts_echoes hx items h).bind fun _ _ hi => ?_
    exact .target (.pure (hx.listClause (.text hx.tidy "RETURNING" rfl) hi))

theorem assignmentTexts_echoes {assignments : List Assignment}
    (h : AllLexical t.dialect (assignments.flatMap (·.value.nodes))) :
    EchoesAll t l turned (assignmentTexts assignments) := by
  induction assignments with
  | nil => exact .pure .nil
  | cons a rest ih =>
    simp only [List.flatMap_cons, AllLexical, List.forall_mem_append] at h
    refine (whole_echoes hx (Expr.texts_echoes hx a.value h.1)).bind fun _ _ hv => .target ?_
    refine (ih h.2).bind fun _ _ hr => .pure (.cons ?_ hr)
    have hequals : Twin t.dialect turned "=" "=" := .phrase hx.tidy (hx.tidy.marks "=" (by simp))
    have htext := ((((hx.path a.target).lead hx.tidy " " rfl).then hequals).lead hx.tidy " " rfl).then hv
    simpa [String.append_assoc] using htext

theorem ColumnOption.text_echoes {o : ColumnOption} (h : AllLexical t.dialect o.nodes) :
    Echoes t l turned o.text := by
  cases o with
  | notNull | null | primaryKey | unique => exact .pure (.text hx.tidy _ rfl)
  | default value =>
    exact (operand_echoes hx (Expr.texts_echoes hx value h) ..).bind fun _ _ hv =>
      .pure ((Lead.text hx.tidy "DEFAULT " rfl).then hv)
  | autoIncrement =>
    refine .target ?_
    rw [Target.laid_dialect]
    cases t.dialect.autoIncrement with
    | none => exact .unsupported _
    | some form => cases form <;> exact .pure (.text hx.tidy _ rfl)

theorem optionsText_echoes {options : List ColumnOption}
    (h : AllLexical t.dialect (options.flatMap ColumnOption.nodes)) :
    EchoesTail t l turned (optionsText options) := by
  induction options with
  | nil => exact .pure .empty
  | cons o rest ih =>
    simp only [List.flatMap_cons, AllLexical, List.forall_mem_append] at h
    refine (ColumnOption.text_echoes hx h.1).bind fun _ _ ho => (ih h.2).bind fun _ _ hr => .pure ?_
    exact (ho.behind hx.tidy " " rfl).append hr

theorem columnTexts_echoes {columns : List Column}
    (h : AllLexical t.dialect (columns.flatMap Column.nodes))
    (htypes : ∀ type ∈ columns.map Column.type, type.IsLexical t.dialect) :
    EchoesAll t l turned (columnTexts columns) := by
  induction columns with
  | nil => exact .pure .nil
  | cons c rest ih =>
    simp only [List.flatMap_cons, AllLexical, List.forall_mem_append] at h
    simp only [List.map_cons, List.forall_mem_cons] at htypes
    refine .target ((optionsText_echoes hx h.1).bind fun _ _ ho => ?_)
    refine (ih h.2 htypes.2).bind fun _ _ hr => .pure (.cons ?_ hr)
    exact (((hx.name c.name).lead hx.tidy " " rfl).then (hx.dataType htypes.1)).tail ho

theorem constraints_echo (constraints : List TableConstraint) :
    List.Forall₂ (Twin t.dialect turned) (constraints.map t.constraint)
      (constraints.map (t.laid l).constraint) := by
  rw [List.forall₂_map_left_iff, List.forall₂_map_right_iff]
  refine List.forall₂_same.mpr fun c _ => ?_
  cases c with
  | primaryKey columns =>
    exact ((Lead.text hx.tidy "PRIMARY KEY (" rfl).then (hx.names columns)).close hx.tidy
  | unique columns => exact ((Lead.text hx.tidy "UNIQUE (" rfl).then (hx.names columns)).close hx.tidy

theorem asQuery_echoes {a b : String} (hab : Twin t.dialect turned a b) {q : Query}
    (h : AllLexical t.dialect q.nodes) :
    Alike t l (asQuery a q) (asQuery b q) (Twin t.dialect turned) := by
  refine (Query.text_echoes hx q h).bind fun _ _ hq => .target (.pure ?_)
  exact Relaid.clauses (.cons hab ((Lead.text hx.tidy "AS " rfl).then hq).singleton)

theorem CreateTable.text_echoes {c : CreateTable}
    (h : AllLexical t.dialect (Statement.createTable c).nodes)
    (htypes : ∀ type ∈ c.columns.map Column.type, type.IsLexical t.dialect) :
    Echoes t l turned c.text := by
  simp only [Statement.nodes, AllLexical, List.forall_mem_append] at h
  refine .target (requireIf_alike c.ifNotExists .ifNotExists ?_)
  refine (columnTexts_echoes hx h.1 htypes).bind fun _ _ hcolumns => ?_
  have helements := List.rel_append hcolumns (constraints_echo hx c.constraints)
  have hhead : Lead t.dialect turned
      ("CREATE " ++ (if c.temporary then "TEMPORARY " else "") ++ "TABLE " ++
        (if c.ifNotExists then "IF NOT EXISTS " else ""))
      ("CREATE " ++ (if c.temporary then "TEMPORARY " else "") ++ "TABLE " ++
        (if c.ifNotExists then "IF NOT EXISTS " else "")) := by
    cases c.temporary <;> cases c.ifNotExists <;> exact .text hx.tidy _ rfl
  have hlist {as bs : List String} (h : List.Forall₂ (Twin t.dialect turned) as bs) :
      Tail t.dialect turned
        (if as.isEmpty then "" else " " ++ t.block (String.intercalate t.comma as))
        (if bs.isEmpty then "" else " " ++ (t.laid l).block (String.intercalate (t.laid l).comma bs)) := by
    have hempty : as.isEmpty = bs.isEmpty := by cases h <;> rfl
    rw [hempty]
    split
    · exact .empty
    · exact (hx.block (hx.elements h)).behind hx.tidy " " rfl
  have htext := (hhead.then (hx.path c.name)).tail (hlist helements)
  cases hquery : c.query with
  | none => exact .pure htext
  | some q =>
    rw [hquery] at h
    exact asQuery_echoes hx htext h.2

/-- Writing a statement in two layouts fails by one fault, or gives twin texts. -/
theorem Statement.text_echoes {s : Statement} (h : AllLexical t.dialect s.nodes)
    (htypes : ∀ type ∈ s.columnTypes, type.IsLexical t.dialect) : Echoes t l turned s.text := by
  cases s with
  | query q => exact Query.text_echoes hx q h
  | insert i =>
    simp only [Statement.nodes, AllLexical, List.forall_mem_append] at h
    refine .target ((Query.text_echoes hx i.source h.1).bind fun _ _ hs => ?_)
    refine (returningText_echoes hx h.2).bind fun _ _ hr => .pure ?_
    have hhead := ((Lead.text hx.tidy "INSERT INTO " rfl).then (hx.path i.table)).tail
      (hx.columns i.columns)
    exact Relaid.clauses (.cons hhead (.cons hs hr.singleton))
  | update u =>
    simp only [Statement.nodes, AllLexical, List.forall_mem_append] at h
    refine .target ((assignmentTexts_echoes hx h.1.1).bind fun _ _ ha => ?_)
    refine (conditionTexts_echoes hx h.1.2).bind fun _ _ hc => ?_
    refine (returningText_echoes hx h.2).bind fun _ _ hr => .pure ?_
    have hlabel : Tail t.dialect turned ((u.label.map fun a => t.aliasWord ++ t.name a).getD "")
        ((u.label.map fun a => (t.laid l).aliasWord ++ (t.laid l).name a).getD "") := by
      cases u.label with
      | none => exact .empty
      | some a => exact (hx.name a).behind hx.tidy t.aliasWord (Relaid.aliasWord t)
    have hhead := ((Lead.text hx.tidy "UPDATE " rfl).then (hx.path u.table)).tail hlabel
    have hset := hx.listClause (.text hx.tidy "SET" rfl) ha
    exact Relaid.clauses (List.rel_append (.cons hhead (.cons hset hc)) hr.singleton)
  | delete d =>
    simp only [Statement.nodes, AllLexical, List.forall_mem_append] at h
    refine .target ((conditionTexts_echoes hx h.1).bind fun _ _ hc => ?_)
    refine (returningText_echoes hx h.2).bind fun _ _ hr => .pure ?_
    have hhead : Twin t.dialect turned _ _ :=
      (Lead.text hx.tidy "DELETE FROM " rfl).then (hx.path d.table)
    exact Relaid.clauses (List.rel_append (.cons hhead hc) hr.singleton)
  | createTable c => exact CreateTable.text_echoes hx h htypes
  | createView c =>
    refine .target (asQuery_echoes hx ?_ h)
    have hreplace : Lead t.dialect turned
        (if c.orReplace then "OR " ++ t.dialect.writing.orReplace ++ " " else "")
        (if c.orReplace then "OR " ++ t.dialect.writing.orReplace ++ " " else "") := by
      cases c.orReplace with
      | false => exact .empty
      | true =>
        have hword := hx.keyword (s := t.dialect.writing.orReplace) (by simp)
        exact ((Lead.text hx.tidy "OR " rfl).then hword).lead hx.tidy " " rfl
    exact ((((Lead.text hx.tidy "CREATE " rfl).then hreplace).then (Lead.text hx.tidy "VIEW " rfl)).then
      (hx.path c.name)).tail (hx.columns c.columns)
  | drop d =>
    refine .target (requireIf_alike d.ifExists .ifExists ?_)
    refine requireIf_alike d.cascade .dropCascade (.pure ?_)
    have hhead : Lead t.dialect turned
        ("DROP " ++ d.object.keyword ++ " " ++ (if d.ifExists then "IF EXISTS " else ""))
        ("DROP " ++ d.object.keyword ++ " " ++ (if d.ifExists then "IF EXISTS " else "")) := by
      cases d.object <;> cases d.ifExists <;> exact .text hx.tidy _ rfl
    have hnames : Twin t.dialect turned (String.intercalate ", " (d.names.map t.path))
        (String.intercalate ", " (d.names.map (t.laid l).path)) := by
      refine .list hx.tidy ?_
      rw [List.forall₂_map_left_iff, List.forall₂_map_right_iff]
      exact List.forall₂_same.mpr fun ns _ => hx.path ns
    have hcascade : Tail t.dialect turned (if d.cascade then " CASCADE" else "")
        (if d.cascade then " CASCADE" else "") := by
      cases d.cascade <;> exact .text hx.tidy _ rfl
    exact (hhead.then hnames).tail hcascade

end Trees

/-! ## Tokens -/

/-- The kinds and contents of the tokens of a text. -/
def Dialect.shapes (d : Dialect) (sql : String) : Except Fault (List Shape) :=
  (tokenize d.lexical sql).map fun r => r.1.map Token.shape

/-- A text has the tokens that it spells. -/
theorem Spelled.shapes {d : Dialect} {a : String} {ts : List Shape} (h : Spelled d a ts) :
    d.shapes a = .ok ts := by
  obtain ⟨rfl, finish, hstop, -⟩ := (h none (by decide)).scan .start false
  simp [Dialect.shapes, SqlDialects.tokenize, SqlDialects.scan, hstop, Except.map]

theorem tidy_of_mem_builtins {d : Dialect} (h : d ∈ Dialect.builtins) : d.Tidy where
  toLegible := legible_of_mem_builtins h
  parted := parted_of_mem_builtins h
  keywords := by revert d; decide +kernel
  phrases := by revert d; decide +kernel
  marks := by revert d; decide +kernel
  symbols := by revert d; decide +kernel
  types := by revert d; decide +kernel
  functions := by revert d; decide +kernel
  signs := by revert d; decide +kernel
  named := by revert d; decide +kernel

/-- The texts that two layouts write for a statement are twins. -/
theorem twin_of_render {d : Dialect} (hd : d ∈ Dialect.builtins) {s : Statement}
    (hs : s.IsLexical d) (hfree : ∀ x ∈ s.nodes, x.IsDollarFree d) {layout other : Layout}
    {turned : Bool} (hidentify : other.identify = (layout.identify || turned)) {a b : String}
    (ha : render d layout s = .ok a) (hb : render d other s = .ok b) : Twin d turned a b := by
  have hx : Relaid { dialect := d, layout } other turned :=
    ⟨tidy_of_mem_builtins hd, fun _ => rfl, hidentify⟩
  have hall : AllLexical d s.nodes := fun x hx => ⟨hs.nodes x hx, hfree x hx⟩
  rcases (Statement.text_echoes hx hall hs.types).run with ⟨e, he, -⟩ | ⟨a', b', ha', hb', h⟩
  · exact absurd (ha.symm.trans he) (by simp)
  · obtain rfl := Except.ok.inj (ha.symm.trans ha')
    obtain rfl := Except.ok.inj (hb.symm.trans hb')
    exact h

/-- The texts that two layouts write for a statement have the same tokens if both quote names alike;
if only the second quotes every name, some bare names of the first are quoted in it, and that is
all. -/
theorem layout_keeps_tokens {d : Dialect} (hd : d ∈ Dialect.builtins) {s : Statement}
    (hs : s.IsLexical d) (hfree : ∀ x ∈ s.nodes, x.IsDollarFree d) {layout other : Layout}
    (hidentify : layout.identify = true → other.identify = true) {a b : String}
    (ha : render d layout s = .ok a) (hb : render d other s = .ok b) :
    ∃ ts us, d.shapes a = .ok ts ∧ d.shapes b = .ok us ∧
      (layout.identify = other.identify → ts = us) ∧
      List.Forall₂ (fun x y => x = y ∨ x.1 = .word ∧ y = (.quotedName, x.2)) ts us := by
  have hturned : other.identify = (layout.identify || (other.identify && !layout.identify)) := by
    revert hidentify
    cases layout.identify <;> cases other.identify <;> simp
  obtain ⟨ts, us, hts, hus, hrel⟩ := twin_of_render hd hs hfree hturned ha hb
  refine ⟨ts, us, Spelled.shapes hts, Spelled.shapes hus, fun hsame => ?_, hrel.imp fun x y hxy => ?_⟩
  · rw [hsame, Bool.and_not_self] at hrel
    exact hrel.eq
  · exact hxy.imp_right And.right

/-- A query for two parameters of one name. -/
def twiceNamed (name : String) : Statement :=
  .query ⟨none, .select ⟨none, [.expr (.param (.named name)) none, .expr (.param (.named name)) none],
    [], none, [], none, none⟩, [], none⟩

/-- What every node of the query satisfies. -/
theorem forall_nodes_twiceNamed {p : Node → Prop} {name : String}
    (hparam : p (.expr (.param (.named name)))) (hquery : ∀ q, p (.query q)) (hbody : ∀ b, p (.body b))
    (hselect : ∀ s, p (.select s)) : ∀ x ∈ (twiceNamed name).nodes, p x := by
  simp only [twiceNamed, Statement.nodes, Query.nodes, withNodes, Body.nodes, Select.nodes,
    distinctNodes, itemNodes, sourceNodes, optionNodes, exprNodes, orderNodes, limitNodes, Expr.nodes,
    List.append_nil, List.nil_append, List.cons_append, List.forall_mem_cons]
  exact ⟨hquery _, hbody _, hselect _, hparam, hparam, by simp⟩

theorem twiceNamed_isLexical {d : Dialect} {name : String} (h : d.isWord name = true) :
    (twiceNamed name).IsLexical d where
  nodes := forall_nodes_twiceNamed h (fun _ => trivial) (fun _ => trivial) fun _ => trivial
  types := by simp [twiceNamed, Statement.columnTypes]

/-- In a dialect that writes strings between dollar signs, two parameters of one name with such a
sign at its end make a string of what stands between them. -/
theorem twiceNamed_takes_layout :
    Dialect.duckdb ∈ Dialect.builtins ∧ (twiceNamed "a$").IsLexical Dialect.duckdb ∧
      ∃ a b, render Dialect.duckdb {} (twiceNamed "a$") = .ok a ∧
        render Dialect.duckdb { pretty := true } (twiceNamed "a$") = .ok b ∧
        Dialect.duckdb.shapes a = .ok [(.keyword, "SELECT"), (.string, ", ")] ∧
        Dialect.duckdb.shapes b = .ok [(.keyword, "SELECT"), (.string, ",\n  ")] :=
  ⟨by simp [Dialect.builtins], twiceNamed_isLexical (by decide +kernel), "SELECT $a$, $a$",
    "SELECT\n  $a$,\n  $a$", by decide +kernel, by decide +kernel, by decide +kernel,
    by decide +kernel⟩

/-- Two parameters of one name without dollar signs have the same tokens on one line and on three. -/
theorem twiceNamed_keeps_tokens :
    ∃ ts us, Dialect.duckdb.shapes "SELECT $a, $a" = .ok ts ∧
      Dialect.duckdb.shapes "SELECT\n  $a,\n  $a" = .ok us ∧ ts = us := by
  have hfree : ∀ x ∈ (twiceNamed "a").nodes, x.IsDollarFree Dialect.duckdb :=
    forall_nodes_twiceNamed (fun _ => by decide) (fun _ => trivial) (fun _ => trivial) fun _ => trivial
  have ha : render Dialect.duckdb {} (twiceNamed "a") = .ok "SELECT $a, $a" := by decide +kernel
  have hb : render Dialect.duckdb { pretty := true } (twiceNamed "a") =
      .ok "SELECT\n  $a,\n  $a" := by decide +kernel
  obtain ⟨ts, us, hts, hus, hsame, -⟩ := layout_keeps_tokens (by simp [Dialect.builtins])
    (twiceNamed_isLexical (by decide +kernel)) hfree (by decide) ha hb
  exact ⟨ts, us, hts, hus, hsame rfl⟩

end SqlDialects
