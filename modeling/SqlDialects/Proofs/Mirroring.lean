import SqlDialects.Proofs.Excerpts

/-!
# Productions on a part of the tokens

Every production reads a part of the tokens as it reads the whole list there: `subexpr_mirrors` and
`queryWith_mirrors` one level down, `nested_local` at every level, and `statement_mirrors`.

An operand that has no level of its own comes with a bound that differs between the list and the part,
so the productions that read one are followed for two operands, which agree on fewer tokens.
-/

namespace SqlDialects

open SqlDialects.Parser

/-- The productions one level down read a part as they read the whole. -/
structure Deeper.Local (x : Excerpt) (deeper : Deeper) : Prop where
  expr : ∀ p n, Mirrors x n (deeper.expr p) (deeper.expr p) Any
  query : ∀ n, Mirrors x n deeper.query deeper.query Any

section Types

variable {x : Excerpt} {n : Nat}

theorem moreTypeWords_mirrors (names : Table String TypeKind) (w : TypeWords) :
    Mirrors x n (moreTypeWords names w) (moreTypeWords names w) (Steps n) := by
  refine .peek (fun hn t => ?_) fun _ t u ht hu => ?_
  · dsimp only
    split
    · exact (Mirrors.advance hn).bind fun m _ _ hm => .pure fun _ => by omega
    · exact .pure (by simp [Steps])
  · simp only [Token.isBareWord_of_isStop ht, Token.isBareWord_of_isStop hu, Bool.false_and]
    exact .pure (by simp [Steps])

theorem typeArg_mirrors : Mirrors x n typeArg typeArg Any := by
  have hno : Fails (expectHere "type argument" >>= fun _ => (unexpected : Parser String)) :=
    .after fun _ => .unexpected
  have htake (hn : 0 < n) (text : String) : Mirrors x n (advance >>= fun _ => Pure.pure text)
      (advance >>= fun _ => Pure.pure text) Any :=
    (Mirrors.advance hn).andThen fun _ _ => .pure trivial
  refine .peekOrFail (fun hn t => ?_) fun t ht => ?_
  · split
    · exact htake hn _
    · exact htake hn _
    · exact htake hn _
    · exact htake hn _
    · exact .fails hno hno
  · rcases Token.kind_of_isStop ht with hk | ⟨hk | hk, -⟩ <;> (rw [hk]; exact hno)

theorem dataType_mirrors : Mirrors x n dataType dataType Any := by
  have hno {α : Type} {f : Unit → Parser α} :
      Fails (expectHere "data type" >>= fun _ => unexpected >>= f) :=
    .after fun _ => .before .unexpected
  refine .rules (.peekOrFail (fun hn t => ?_) fun t ht => ?_)
  · dsimp only
    split
    · refine (Mirrors.advance hn).andThen fun _ _ => ?_
      refine (Mirrors.iterate (fun _ w => moreTypeWords_mirrors _ w) _).andThen fun _ words => ?_
      refine (Mirrors.optionalList (.eatSymbol (by decide)) fun m _ => ?_).andThen
        fun _ args => .pure trivial
      exact (Mirrors.commaSeparated fun _ => typeArg_mirrors).andThen fun _ args =>
        (Mirrors.expectSymbol (by decide)).andThen fun _ _ => .pure trivial
    · exact .fails hno hno
  · dsimp only
    rw [if_neg (by simp [Token.isBareWord_of_isStop ht])]
    exact hno

end Types

/-! ## Expressions -/

section Expressions

variable {x : Excerpt} {n : Nat} {deeper : Deeper} {operand operand' : Parser Expr}

theorem direction_mirrors : Mirrors x n direction direction Any :=
  .takes (.eatWord _) (fun _ _ => .pure trivial)
    (.takes (.eatWord _) (fun _ _ => .pure trivial) (.pure trivial))

theorem orderBy_mirrors (hdeep : deeper.Local x) :
    Mirrors x n (orderBy deeper) (orderBy deeper) Any := by
  refine .optionalList (.eatWords (by simp)) fun m _ => .commaSeparated fun n => ?_
  refine (hdeep.expr 0 n).andThen fun m key => direction_mirrors.andThen fun m ascending => ?_
  refine (Mirrors.optional (.onlyIf_supports _ (.eatWord _)) fun m _ => ?_).andThen
    fun _ nullsFirst => .pure trivial
  exact .takes (.eatWord _) (fun _ _ => .pure trivial)
    (.takes (.eatWord _) (fun _ _ => .pure trivial) (.fails .unexpected .unexpected))

theorem frameBound_mirrors (hop : ∀ m ≤ n, Mirrors x m operand operand' Any) :
    Mirrors x n (frameBound operand) (frameBound operand') Any := by
  refine .takes (.eatWords (by simp)) (fun _ _ => .pure trivial) (.takes (.eatWord _) (fun m hm => ?_) ?_)
  · refine .takes (.eatWord _) (fun _ _ => .pure trivial) ?_
    exact (Mirrors.expectWord _).andThen fun _ _ => .pure trivial
  · refine (hop n (Nat.le_refl n)).andThen fun m offset => ?_
    refine .takes (.eatWord _) (fun _ _ => .pure trivial) ?_
    exact (Mirrors.expectWord _).andThen fun _ _ => .pure trivial

theorem windowFrame_mirrors (hop : ∀ m ≤ n, Mirrors x m operand operand' Any) :
    Mirrors x n (windowFrame operand) (windowFrame operand') Any := by
  refine .takes (.eatWord _) (fun m hm => ?_) ((Mirrors.expectWord _).bind fun m _ _ hm => ?_)
  all_goals
    refine .takes (.eatWord _) (fun k hk => ?_) ?_
    · refine (frameBound_mirrors fun j hj => hop j (by omega)).bind fun k' hk' start _ => ?_
      refine (Mirrors.expectWord _).bind fun k'' hk'' _ _ => ?_
      exact (frameBound_mirrors fun j hj => hop j (by omega)).andThen fun _ _ => .pure trivial
    · exact (frameBound_mirrors fun j hj => hop j (by omega)).andThen fun _ _ => .pure trivial

theorem checkFrame_mirrors : Mirrors x n checkFrame checkFrame (Looks n) :=
  .looks (.checkWord _) (fun hn => .pure ⟨rfl, fun _ => hn⟩) (.checkWord _)

theorem window_mirrors (hdeep : deeper.Local x) (hop : ∀ m < n, Mirrors x m operand operand' Any) :
    Mirrors x n (window deeper operand) (window deeper operand') Any := by
  refine (Mirrors.parenthesized fun m hm => ?_).any
  refine (Mirrors.optionalList (.eatWords (by simp)) fun k _ =>
    .commaSeparated fun j => hdeep.expr 0 j).bind fun k hk keys _ => ?_
  refine (orderBy_mirrors hdeep).bind fun k' hk' order _ => ?_
  refine Mirrors.andThen (P := Any) ?_ fun _ frame => .pure trivial
  refine .looks checkFrame_mirrors (fun _ => ?_) (.pure trivial)
  exact (windowFrame_mirrors fun j hj => hop j (by omega)).andThen fun _ _ => .pure trivial

/-! ### Calls -/

theorem peekDateField_mirrors : Mirrors x n peekDateField peekDateField (Looks n) := by
  refine .peek (fun hn t => .pure ⟨rfl, fun _ => hn⟩) fun _ t u ht hu => ?_
  rw [Token.isBareWord_of_isStop ht, Token.isBareWord_of_isStop hu, Bool.false_and, Bool.false_and]
  exact .pure ⟨rfl, by simp⟩

theorem dateField_mirrors : Mirrors x n dateField dateField Any := by
  have hno : Fails (expectHere "date part" >>= fun _ => (unexpected : Parser DateField)) :=
    .after fun _ => .unexpected
  refine .peekOrFail (fun hn t => ?_) fun t ht => ?_
  · split
    · exact (Mirrors.advance hn).andThen fun _ _ => .pure trivial
    · exact .fails hno hno
  · rw [if_neg (by simp [Token.isBareWord_of_isStop ht])]
    exact hno

theorem callArgs_mirrors (hdeep : deeper.Local x) (upper : String) :
    Mirrors x n (callArgs deeper upper) (callArgs deeper upper) Any := by
  have hmore (first : Expr) (m : Nat) : Mirrors x m
      (afterCommas (deeper.expr 0) >>= fun rest => Pure.pure (.expr first :: rest.map Arg.expr))
      (afterCommas (deeper.expr 0) >>= fun rest => Pure.pure (.expr first :: rest.map Arg.expr)) Any :=
    (Mirrors.afterCommas (hdeep.expr 0)).andThen fun _ _ => .pure trivial
  unfold callArgs
  dsimp only
  split
  · refine (hdeep.expr _ n).andThen fun m needle => .takes (.eatWord _) (fun k _ => ?_) (hmore _ _)
    exact (hdeep.expr _ k).andThen fun _ _ => .pure trivial
  · refine (hdeep.expr _ n).andThen fun m first => ?_
    refine .takes (.onlyIf _ (.eatWord _)) (fun k _ => ?_) (hmore _ _)
    refine (hdeep.expr _ k).andThen fun _ start => ?_
    exact (Mirrors.optional (.eatWord _) fun k _ => hdeep.expr _ k).andThen fun _ _ => .pure trivial

theorem callBody_mirrors (hdeep : deeper.Local x) (upper : String) :
    Mirrors x n (callBody deeper upper) (callBody deeper upper) Any := by
  refine .takes (.eatSymbol (by decide)) (fun _ _ => .pure trivial) ?_
  refine (Mirrors.eatWord _).andThen fun m distinct => ?_
  refine .takes (.eatSymbol (by decide)) (fun k _ => ?_) ?_
  · exact (Mirrors.expectSymbol (by decide)).andThen fun _ _ => .pure trivial
  · exact (callArgs_mirrors hdeep upper).andThen fun _ _ =>
      (Mirrors.expectSymbol (by decide)).andThen fun _ _ => .pure trivial

/-- The place of a call is told only in a fault. -/
theorem canonicalCall_mirrors (name : String) (args : List Arg) (position position' : Position) :
    Mirrors x n (canonicalCall name args position) (canonicalCall name args position') Any := by
  refine .rules ?_
  split
  · exact .pure trivial
  split
  · exact .pure trivial
  · exact .pure trivial
  · split
    · exact .pure trivial
    · split
      · exact .pure trivial
      · exact .fails (.fail _) (.fail _)

theorem extraction_mirrors (hdeep : deeper.Local x) {separator : Parser Unit}
    (hs : ∀ n, Mirrors x n separator separator Any) :
    Mirrors x n (extraction deeper separator) (extraction deeper separator) Any := by
  refine (Mirrors.parenthesized fun m _ => dateField_mirrors.andThen fun k field => ?_).any
  exact (hs k).andThen fun j _ => (hdeep.expr 0 j).andThen fun _ _ => .pure trivial

theorem conditional_mirrors (hdeep : deeper.Local x) :
    Mirrors x n (conditional deeper) (conditional deeper) Any := by
  refine (Mirrors.parenthesized fun m _ => (hdeep.expr 0 m).andThen fun _ c => ?_).any
  refine (Mirrors.expectSymbol (by decide)).andThen fun k _ => (hdeep.expr 0 k).andThen fun _ y => ?_
  refine (Mirrors.expectSymbol (by decide)).andThen fun k _ => (hdeep.expr 0 k).andThen fun _ y => ?_
  exact .pure trivial

theorem call_mirrors (hdeep : deeper.Local x) (hop : ∀ m < n, Mirrors x m operand operand' Any)
    (name : String) (position position' : Position) :
    Mirrors x n (call deeper operand name position) (call deeper operand' name position') Any := by
  refine .dialect ?_
  dsimp only
  split
  · exact extraction_mirrors hdeep fun _ => (Mirrors.expectWord _).any
  split
  · exact extraction_mirrors hdeep fun _ => (Mirrors.expectSymbol (by decide)).any
  split
  · exact conditional_mirrors hdeep
  split
  · refine (Mirrors.expectSymbol (by decide)).andThen fun _ _ => ?_
    exact (Mirrors.expectSymbol (by decide)).andThen fun _ _ => .pure trivial
  · refine (Mirrors.expectSymbol (by decide)).bind fun m hm _ _ => ?_
    refine (callBody_mirrors hdeep _).bind fun k hk r _ => ?_
    refine (canonicalCall_mirrors name _ _ _).bind fun k' hk' r' _ => ?_
    refine (Mirrors.optional (.eatWord _) fun j hj => ?_).andThen fun _ _ => .pure trivial
    exact window_mirrors hdeep fun i hi => hop i (by omega)

/-! ### Primaries -/

theorem peekQuery_mirrors : Mirrors x n peekQuery peekQuery (Looks n) := by
  refine .peek (fun hn t => .pure ⟨rfl, fun _ => hn⟩) fun _ t u ht hu => ?_
  simp only [Token.isWord_of_isStop ht, Token.isWord_of_isStop hu]
  exact .pure ⟨rfl, by simp⟩

theorem chainPart_mirrors : Mirrors x n chainPart chainPart (Steps n) := by
  refine (Mirrors.peekSymbol (by decide)).bind fun m _ b hb => ?_
  obtain ⟨rfl, hb⟩ := hb
  refine .peekNth 1 fun t u halike _ => ?_
  cases b with
  | false => exact .pure (by simp [Steps])
  | true =>
    have hn := hb rfl
    rw [(halike hn).isSymbol (by decide)]
    split
    · refine (Mirrors.advance hn).bind fun k _ _ hk => Mirrors.name.bind fun j _ _ hj => .pure fun _ => ?_
      omega
    · exact .pure (by simp [Steps])

theorem chain_mirrors (hdeep : deeper.Local x) (hop : ∀ m < n, Mirrors x m operand operand' Any) :
    Mirrors x n (chain deeper operand) (chain deeper operand') Any := by
  refine .peekNth 0 fun t u _ _ => Mirrors.name.bind fun m hm first _ => ?_
  refine (Mirrors.many fun _ => chainPart_mirrors).bind fun k hk rest _ => ?_
  refine (Mirrors.peekSymbol (by decide)).bind fun j hj called _ => ?_
  split
  · exact .nameFunction _ (call_mirrors hdeep (fun i hi => hop i (by omega)) _ _ _)
  · exact .pure trivial

theorem param_mirrors (hn : 0 < n) : Mirrors x n param param Any := by
  refine .peek (fun _ t => .rules ?_) fun h => by omega
  extract_lets body found
  have hfound (o : Option Param) : Mirrors x n (found o) (found o) Any := by
    cases o with
    | none => exact (Mirrors.note _ _).andThen fun _ _ => .fails .unexpected .unexpected
    | some p => exact (Mirrors.advance hn).andThen fun _ _ => .pure trivial
  split
  · split
    · refine Mirrors.bind (P := fun m _ => m = n) (.map .nextBind fun m _ _ hm => hm) ?_
      rintro m _ o rfl
      exact hfound o
    · exact hfound none
  · split
    · exact hfound _
    · exact hfound _

theorem caseExpr_mirrors (hdeep : deeper.Local x) :
    Mirrors x n (caseExpr deeper) (caseExpr deeper) Any := by
  refine (Mirrors.expectWord _).andThen fun m _ => (Mirrors.checkWord _).andThen fun k simple => ?_
  extract_lets rest
  have hrest (o : Option Expr) (k : Nat) : Mirrors x k (rest o) (rest o) Any := by
    refine (Mirrors.many fun j => .optional (.eatWord _) fun i _ => ?_).andThen fun j branches => ?_
    · refine (hdeep.expr 0 i).andThen fun _ c => (Mirrors.expectWord _).andThen fun j _ => ?_
      exact (hdeep.expr 0 j).andThen fun _ _ => .pure trivial
    · extract_lets close
      have hclose (u : Unit) (i : Nat) : Mirrors x i (close u) (close u) Any := by
        refine (Mirrors.optional (.eatWord _) fun i _ => hdeep.expr 0 i).andThen fun _ last => ?_
        exact (Mirrors.expectWord _).andThen fun _ _ => .pure trivial
      split
      · exact .fails (.before .unexpected) (.before .unexpected)
      · exact hclose () j
  split
  · exact hrest none k
  · exact Mirrors.andThen (P := Any) (.map (hdeep.expr 0 k) fun _ _ _ h => h) fun j o => hrest o j

theorem castExpr_mirrors (hdeep : deeper.Local x) (hn : 0 < n) (safe : Bool) :
    Mirrors x n (castExpr deeper safe) (castExpr deeper safe) Any := by
  refine (Mirrors.advance hn).andThen fun m _ => (Mirrors.parenthesized fun k _ => ?_).any
  refine (hdeep.expr 0 k).andThen fun _ e => (Mirrors.expectWord _).andThen fun _ _ => ?_
  exact dataType_mirrors.andThen fun _ _ => .pure trivial

theorem existsExpr_mirrors (hdeep : deeper.Local x) (negated : Bool) :
    Mirrors x n (existsExpr deeper negated) (existsExpr deeper negated) Any :=
  (Mirrors.parenthesized fun m _ => hdeep.query m).andThen fun _ _ => .pure trivial

theorem intervalExpr_mirrors (hop : ∀ m < n, Mirrors x m operand operand' Any) :
    Mirrors x n (intervalExpr operand) (intervalExpr operand') Any := by
  refine (Mirrors.expectWord _).bind fun m _ _ hm => .dialect ?_
  split
  · exact (hop m hm).andThen fun _ _ => dateField_mirrors.andThen fun _ _ => .pure trivial
  · have hno {α : Type} {f : Unit → Parser α} :
        Fails (expectHere "string" >>= fun _ => unexpected >>= f) :=
      .after fun _ => .before .unexpected
    refine .peekOrFail (fun hn t => ?_) fun t ht => ?_
    · dsimp only
      split
      · refine (Mirrors.advance hn).andThen fun k _ => ?_
        refine Mirrors.andThen (P := Any) ?_ fun _ _ => .pure trivial
        refine .looks peekDateField_mirrors (fun _ => ?_) (.pure trivial)
        exact dateField_mirrors.andThen fun _ _ => .pure trivial
      · exact .fails hno hno
    · dsimp only
      rw [if_neg ?_]
      · exact hno
      · simp [Token.isString_of_isStop ht]

/-- Alternatives that are related case by case. -/
theorem rel_ite {α : Type} {R : α → α → Prop} {b : Bool} {o o' r r' : Option α}
    (h : Option.Rel R o o') (h' : Option.Rel R r r') :
    Option.Rel R (if b then o else r) (if b then o' else r') := by
  cases b with
  | true => exact h
  | false => exact h'

/-- Which form a word introduces does not depend on the operand inside it. -/
theorem wordForm_mirrors (hdeep : deeper.Local x) (hn : 0 < n)
    (hop : ∀ m < n, Mirrors x m operand operand' Any) (d : Dialect) (word : String)
    (called : Bool) :
    Option.Rel (Mirrors x n · · Any) (wordForm? deeper operand d word called)
      (wordForm? deeper operand' d word called) := by
  have hleaf (e : Expr) : Option.Rel (Mirrors x n · · Any)
      (some (advance >>= fun _ => Pure.pure e)) (some (advance >>= fun _ => Pure.pure e)) :=
    .some ((Mirrors.advance hn).andThen fun _ _ => .pure trivial)
  refine rel_ite (hleaf _) (rel_ite (hleaf _) (rel_ite (.some (caseExpr_mirrors hdeep)) ?_))
  refine rel_ite (.some (castExpr_mirrors hdeep hn false)) (rel_ite (.some ?_) ?_)
  · exact (Mirrors.advance hn).andThen fun _ _ => existsExpr_mirrors hdeep false
  refine rel_ite (.some (intervalExpr_mirrors hop)) ?_
  refine rel_ite (.some (castExpr_mirrors hdeep hn true)) (rel_ite .none ?_)
  cases d.reading.nowWords.find? (·.1 == word) with
  | none => exact .none
  | some entry => exact hleaf _

theorem temporalLiteral_mirrors (hn : 1 < n) (kind : TemporalKind) :
    Mirrors x n (temporalLiteral kind) (temporalLiteral kind) Any := by
  refine (Mirrors.advance (by omega)).bind fun m _ _ hm => ?_
  refine (Mirrors.advance (by omega)).andThen fun k value => ?_
  dsimp only
  split
  · exact .pure trivial
  · exact .fails (.before (.unexpectedAt _ _)) (.before (.unexpectedAt _ _))

theorem wordExpr_mirrors (hdeep : deeper.Local x) (hn : 0 < n)
    (hop : ∀ m < n, Mirrors x m operand operand' Any) (t : Token) :
    Mirrors x n (wordExpr deeper operand t) (wordExpr deeper operand' t) Any := by
  refine .dialect (.peekNth 1 fun next next' halike hend => ?_)
  have hstring (h : (next'.kind == .string) = true) : 1 < n := by
    refine Nat.lt_of_le_of_ne hn fun heq => ?_
    rw [← (halike hn).isString, Token.isString_of_isStop (hend heq)] at h
    cases h
  rw [(halike hn).isSymbol (by decide), (halike hn).isString]
  dsimp only
  have hforms := wordForm_mirrors hdeep hn hop x.whole.dialect (Text.upper t.text)
    (next'.isSymbol "(")
  generalize wordForm? deeper operand _ _ _ = o at hforms ⊢
  generalize wordForm? deeper operand' _ _ _ = o' at hforms ⊢
  cases hforms with
  | some hform => exact hform
  | none =>
    dsimp only
    split
    case h_1 kind hkind =>
      split at hkind
      case isTrue htyped =>
        simp only [Bool.and_eq_true] at htyped
        exact temporalLiteral_mirrors (hstring htyped.2) kind
      case isFalse => cases hkind
    split
    · refine (Mirrors.advance hn).bind fun m _ _ hm => ?_
      exact .nameFunction _ (call_mirrors hdeep (fun k hk => hop k (by omega)) _ _ _)
    split
    · exact .fails (.after fun _ => .before .unexpected) (.after fun _ => .before .unexpected)
    · exact chain_mirrors hdeep hop

theorem primary_mirrors (hdeep : deeper.Local x) (hop : ∀ m < n, Mirrors x m operand operand' Any) :
    Mirrors x n (primary deeper operand) (primary deeper operand') Any := by
  have hno : Fails (expectHere "expression" >>= fun _ => (unexpected : Parser Expr)) :=
    .after fun _ => .unexpected
  refine .peekBoth (fun hn t => ?_) (fun t ht => ?_) fun t ht => ?_
  · split
    · exact (Mirrors.advance hn).andThen fun _ _ => .pure trivial
    · exact (Mirrors.advance hn).andThen fun _ _ => .pure trivial
    · exact param_mirrors hn
    · exact wordExpr_mirrors hdeep hn hop t
    · exact wordExpr_mirrors hdeep hn hop t
    · exact chain_mirrors hdeep hop
    · split
      · refine (Mirrors.parenthesized fun m _ => .looks peekQuery_mirrors (fun _ => ?_) ?_).any
        · exact (hdeep.query m).andThen fun _ _ => .pure trivial
        · exact (hdeep.expr 0 m).andThen fun _ _ => .pure trivial
      · exact .fails hno hno
    · exact .fails hno hno
  all_goals
    rcases Token.kind_of_isStop ht with hk | ⟨hk | hk, htext⟩
    · rw [hk]
      exact hno
    · rw [hk]
      exact hno
    · rw [hk, htext]
      exact hno

theorem unaryOp_of_isStop {t : Token} (h : t.isStop = true) : unaryOp? t = none := by
  rcases Token.kind_of_isStop h with hk | ⟨hk | hk, htext⟩
  · simp [unaryOp?, hk]
  · simp [unaryOp?, htext]
  · simp [unaryOp?, hk]

theorem operandWith_mirrors (hdeep : deeper.Local x)
    (hop : ∀ m < n, Mirrors x m operand operand' Any) :
    Mirrors x n (operandWith deeper operand) (operandWith deeper operand') Any := by
  refine .takes (.eatWord _) (fun m _ => .takes (.eatWord _) (fun k _ => ?_) ?_) ?_
  · exact existsExpr_mirrors hdeep true
  · exact (hdeep.expr _ m).andThen fun _ _ => .pure trivial
  · refine .peek (fun hn t => ?_) fun _ t u ht hu => ?_
    · split
      · exact (Mirrors.advance hn).andThen fun k _ => (hdeep.expr _ k).andThen fun _ _ => .pure trivial
      · exact primary_mirrors hdeep hop
    · rw [unaryOp_of_isStop ht, unaryOp_of_isStop hu]
      exact primary_mirrors hdeep hop

theorem operandUpTo_mirrors (hdeep : deeper.Local x) (k j : Nat) (hk : n < k) (hj : n < j) :
    Mirrors x n (operandUpTo deeper k) (operandUpTo deeper j) Any := by
  induction k generalizing n j with
  | zero => cases hk
  | succ k ih =>
    obtain ⟨j, rfl⟩ : ∃ i, j = i + 1 := ⟨j - 1, by omega⟩
    exact operandWith_mirrors hdeep fun m hm => ih j (by omega) (by omega)

theorem operandFrom_mirrors (hdeep : deeper.Local x) :
    Mirrors x n (operandFrom deeper) (operandFrom deeper) Any :=
  .remaining fun r r' hr hr' => operandUpTo_mirrors hdeep (r + 1) (r' + 1) (by omega) (by omega)

/-! ### Operators -/

theorem membership_mirrors (hdeep : deeper.Local x) (left : Expr) (negated : Bool) :
    Mirrors x n (membership deeper left negated) (membership deeper left negated) fun m _ => m < n := by
  refine .parenthesized fun m _ => .looks peekQuery_mirrors (fun _ => ?_) ?_
  · exact (hdeep.query m).andThen fun _ _ => .pure trivial
  · exact (Mirrors.commaSeparated fun k => hdeep.expr 0 k).andThen fun _ _ => .pure trivial

theorem predicate_mirrors (hdeep : deeper.Local x) (left : Expr) :
    Mirrors x n (predicate deeper left) (predicate deeper left) fun m _ => m < n := by
  refine (Mirrors.eatWord _).bind fun m hm negated _ => ?_
  refine .takes (.eatWord _) (fun k hk => ?_) (.takes (.eatWord _) (fun k hk => ?_) ?_)
  · refine (hdeep.expr _ k).bind fun k₁ h₁ low _ => (Mirrors.expectWord _).bind fun k₂ h₂ _ _ => ?_
    exact (hdeep.expr _ k₂).bind fun k₃ h₃ _ _ => .pure (by omega)
  · exact (membership_mirrors hdeep left negated).mono fun j hj _ _ => by omega
  · refine .takes (.eatWord _) (fun k hk => ?_) ((Mirrors.expectWord _).bind fun k _ _ hk => ?_)
    all_goals
      refine (hdeep.expr _ k).bind fun k₁ h₁ pattern _ => ?_
      exact (Mirrors.optional (.eatWord _) fun _ _ => operandFrom_mirrors hdeep).bind
        fun k₂ h₂ _ _ => .pure (by omega)

theorem joined_mirrors (hdeep : deeper.Local x) (hn : 0 < n) (left : Expr) (c : Connective)
    (p : Precedence) :
    Mirrors x n (joined deeper left c p) (joined deeper left c p) fun m _ => m < n := by
  cases c with
  | binary op =>
    refine (Mirrors.advance hn).bind fun m _ _ hm => (hdeep.expr p m).bind fun k hk _ _ => .pure ?_
    omega
  | doubleColon =>
    refine (Mirrors.advance hn).bind fun m _ _ hm => dataType_mirrors.bind fun k hk _ _ => .pure ?_
    omega
  | is =>
    refine (Mirrors.advance hn).bind fun m _ _ hm => (Mirrors.eatWord _).bind fun k hk negated _ => ?_
    exact (Mirrors.expectWord _).bind fun j hj _ _ => .pure (by omega)
  | predicate => exact predicate_mirrors hdeep left

/-- No connective starts where productions stop. -/
theorem connective_of_isStop {r : ReadingRules} (hr : r.operator? ";" = none) {t : Token}
    (ht : t.isStop = true) (next : Token) : connective? r t next = none := by
  unfold connective?
  rw [if_neg (by simp [Token.isBareWord_of_isStop ht])]
  rcases Token.kind_of_isStop ht with hk | ⟨hk | hk, htext⟩
  · simp [hk]
  · simp [hk, htext, operatorAt, hr]
  · simp [hk]

theorem connective_alike (r : ReadingRules) (t : Token) {next next' : Token}
    (h : next.Alike next') : connective? r t next = connective? r t next' := by
  unfold connective?
  simp only [h.isWord]

theorem moreOperands_mirrors (hdeep : deeper.Local x) (least : Precedence) (left : Expr) :
    Mirrors x n (moreOperands deeper least left) (moreOperands deeper least left) (Steps n) := by
  refine .rules (.peek (fun hn t => .peekNth 1 fun next next' halike _ => ?_)
    fun _ t u ht hu => .peekNth 1 fun next next' _ _ => ?_)
  · rw [connective_alike _ t (halike hn)]
    split
    · split
      · exact .pure (by simp [Steps])
      · exact (joined_mirrors hdeep hn left _ _).bind fun m _ _ hm => .pure fun _ => hm
    · exact .pure (by simp [Steps])
  · rw [connective_of_isStop x.semicolon ht, connective_of_isStop x.semicolon hu]
    exact .pure (by simp [Steps])

theorem subexpr_mirrors (hdeep : deeper.Local x) (least : Precedence) :
    Mirrors x n (subexpr deeper least) (subexpr deeper least) Any :=
  (operandFrom_mirrors hdeep).andThen fun _ left =>
    .iterate (fun _ e => moreOperands_mirrors hdeep least e) left

end Expressions

/-! ## Queries -/

section Queries

variable {x : Excerpt} {n : Nat} {deeper : Deeper}

theorem optionalAlias_mirrors : Mirrors x n optionalAlias optionalAlias Any := by
  refine .takes (.eatWord _) (fun m _ => Mirrors.name.andThen fun _ _ => .pure trivial) ?_
  refine .peek (fun hn t => ?_) fun _ t u ht hu => ?_
  · split
    · exact Mirrors.name.andThen fun _ _ => .pure trivial
    · exact .pure trivial
  · rw [if_neg (by simp [Token.isName_of_isStop ht]), if_neg (by simp [Token.isName_of_isStop hu])]
    exact .pure trivial

/-- The names and dots before a star stand in the part, and the star too. -/
theorem starParts_mirrors (k a b : Nat) (hk : k ≤ n) (ha : n < k + a) (hb : n < k + b) :
    Mirrors x n (starParts k a) (starParts k b) fun m o =>
      m = n ∧ ∀ j ∈ o, k + 2 * j < n := by
  induction a generalizing k b with
  | zero => omega
  | succ a ih =>
    obtain ⟨b, rfl⟩ : ∃ i, b = i + 1 := ⟨b - 1, by omega⟩
    have hsymbol (s : String) (hs : s ≠ ";") (t u : Token) (h : t.Alike u) :
        t.isSymbol s = u.isSymbol s := h.isSymbol hs
    refine .peekTest hk (fun _ _ h => h.isName) (fun _ => Token.isName_of_isStop)
      fun t u name ht hu hname => ?_
    rw [ht, hu]
    cases name with
    | false => exact .peekNth (k + 1) fun _ _ _ _ => .pure ⟨rfl, by simp⟩
    | true =>
      refine .peekTest (hname rfl) (hsymbol "." (by decide))
        (fun _ h => Token.isSymbol_of_isStop h (by decide)) fun t u dot ht hu hdot => ?_
      rw [ht, hu]
      cases dot with
      | false => exact .pure ⟨rfl, by simp⟩
      | true =>
        refine .peekTest (hdot rfl) (hsymbol "*" (by decide))
          (fun _ h => Token.isSymbol_of_isStop h (by decide)) fun t u star ht hu hstar => ?_
        rw [ht, hu]
        cases star with
        | true => exact .pure ⟨rfl, by simpa using hstar rfl⟩
        | false =>
          refine (ih (k + 2) b (hdot rfl) (by omega) (by omega)).bind fun m _ o ho => .pure ?_
          refine ⟨ho.1, fun j hj => ?_⟩
          obtain ⟨i, hi, rfl⟩ := Option.map_eq_some_iff.mp hj
          have := ho.2 i hi
          omega

theorem starPart_mirrors (hn : 1 < n) :
    Mirrors x n starPart starPart fun m _ => m + 2 = n := by
  refine Mirrors.name.bind fun m _ part hm => ?_
  exact (Mirrors.advance (by omega)).bind fun k _ _ hk => .pure (by omega)

theorem times_starPart_mirrors (k : Nat) (hk : 2 * k < n) :
    Mirrors x n (times k starPart) (times k starPart) fun m _ => m + 2 * k = n := by
  induction k generalizing n with
  | zero => exact .pure rfl
  | succ k ih =>
    refine (starPart_mirrors (by omega)).bind fun m _ _ hm => ?_
    exact (ih (by omega)).bind fun j _ _ hj => .pure (by omega)

theorem selectItem_mirrors (hdeep : deeper.Local x) :
    Mirrors x n (selectItem deeper) (selectItem deeper) Any := by
  refine .takes (.eatSymbol (by decide)) (fun _ _ => .pure trivial) ?_
  refine .remaining fun r r' hr hr' => ?_
  refine (starParts_mirrors 0 _ _ (Nat.zero_le n) (by omega) (by omega)).bind fun m _ o ho => ?_
  obtain ⟨rfl, ho⟩ := ho
  cases o with
  | some k =>
    have hlt := ho k rfl
    refine (times_starPart_mirrors k (by omega)).bind fun j _ parts hj => ?_
    exact (Mirrors.advance (by omega)).andThen fun _ _ => .pure trivial
  | none =>
    refine (hdeep.expr 0 m).andThen fun _ e => optionalAlias_mirrors.andThen fun _ _ => ?_
    exact .pure trivial

theorem tableAlias_mirrors : Mirrors x n tableAlias tableAlias Any := by
  refine optionalAlias_mirrors.andThen fun m o => ?_
  cases o with
  | none => exact .pure trivial
  | some label => exact Mirrors.optionalNameList.andThen fun _ _ => .pure trivial

theorem relation_mirrors (hdeep : deeper.Local x) :
    Mirrors x n (relation deeper) (relation deeper) Any := by
  refine .takes (.eatSymbol (by decide)) (fun m _ => ?_) ?_
  · refine (hdeep.query m).andThen fun _ q => (Mirrors.expectSymbol (by decide)).andThen fun _ _ => ?_
    exact tableAlias_mirrors.andThen fun _ _ => .pure trivial
  · refine .peekNth 0 fun t u _ _ => Mirrors.qualifiedName.andThen fun m table => ?_
    refine .looks (.peekSymbol (by decide)) (fun _ => ?_) ?_
    · refine .nameFunction _ ?_
      refine (call_mirrors hdeep (fun _ _ => operandFrom_mirrors hdeep) _ _ _).andThen fun _ e => ?_
      refine tableAlias_mirrors.andThen fun _ label => ?_
      split
      · exact .pure trivial
      · exact .fails (.after fun _ => .unexpectedAt _ _) (.after fun _ => .unexpectedAt _ _)
    · exact tableAlias_mirrors.andThen fun _ _ => .pure trivial

theorem joinWord_mirrors (outer : Bool) (kind : JoinKind) :
    Mirrors x n (joinWord outer kind) (joinWord outer kind) (Steps n) := by
  unfold joinWord
  dsimp only
  split
  · refine (Mirrors.eatWord _).bind fun m hm _ _ => (Mirrors.expectWord _).bind fun k _ _ hk => ?_
    exact .pure fun _ => by omega
  · exact (Mirrors.expectWord _).bind fun k _ _ hk => .pure fun _ => hk

theorem Mirrors.steps {α : Type} {m : Nat} (hm : m ≤ n) {p q : Parser (Option α)}
    (h : Mirrors x m p q (Steps m)) : Mirrors x m p q (Steps n) :=
  h.mono fun _ _ _ ho hsome => Nat.lt_of_lt_of_le (ho hsome) hm

theorem joinKind_mirrors (natural : Bool) :
    Mirrors x n (joinKind natural) (joinKind natural) (Steps n) := by
  have hword (m : Nat) (hm : m < n) (outer : Bool) (kind : JoinKind) :
      Mirrors x m (joinWord outer kind) (joinWord outer kind) (Steps n) :=
    (joinWord_mirrors outer kind).steps (Nat.le_of_lt hm)
  refine .takes (.eatWord _) (fun m hm => .pure fun _ => hm) ?_
  refine .takes (.eatWord _) (fun m hm => hword m hm _ _) ?_
  refine .takes (.eatWord _) (fun m hm => hword m hm _ _) ?_
  refine .takes (.eatWord _) (fun m hm => hword m hm _ _) (.supports _ fun full => ?_)
  refine .takes (.onlyIf _ (.eatWord _)) (fun m hm => hword m hm _ _) ?_
  refine .takes (.onlyIf _ (.eatWord _)) (fun m hm => hword m hm _ _) ?_
  dsimp only
  split
  · exact .fails (.before .unexpected) (.before .unexpected)
  · exact .pure (by simp [Steps])

theorem joinCondition_mirrors (hdeep : deeper.Local x) (natural : Bool) (kind : JoinKind) :
    Mirrors x n (joinCondition deeper natural kind) (joinCondition deeper natural kind) Any := by
  unfold joinCondition
  split
  · exact .pure trivial
  split
  · exact .pure trivial
  refine .takes (.eatWord _) (fun m _ => (hdeep.expr 0 m).andThen fun _ _ => .pure trivial) ?_
  refine .supports _ fun named => .takes (.onlyIf _ (.eatWord _)) (fun m _ => ?_) ?_
  · exact Mirrors.nameList.andThen fun _ _ => .pure trivial
  · exact .fails .unexpected .unexpected

theorem join_mirrors (hdeep : deeper.Local x) :
    Mirrors x n (join deeper) (join deeper) (Steps n) := by
  refine (Mirrors.onlyIf_supports _ (.eatWord _)).bind fun m hm natural _ => ?_
  refine (joinKind_mirrors natural).bind fun k hk o ho => ?_
  cases o with
  | none => exact .pure (by simp [Steps])
  | some kind =>
    have hlt : k < m := ho rfl
    refine (relation_mirrors hdeep).bind fun j hj r _ => ?_
    exact (joinCondition_mirrors hdeep natural kind).bind fun i hi _ _ => .pure fun _ => by omega

theorem source_mirrors (hdeep : deeper.Local x) :
    Mirrors x n (source deeper) (source deeper) Any :=
  (relation_mirrors hdeep).andThen fun _ _ =>
    (Mirrors.many fun _ => join_mirrors hdeep).andThen fun _ _ => .pure trivial

theorem distinctness_mirrors (hdeep : deeper.Local x) :
    Mirrors x n (distinctness deeper) (distinctness deeper) Any := by
  refine .takes (.eatWord _) (fun m _ => .supports _ fun keyed => ?_) ?_
  · refine (Mirrors.peekWord _).bind fun k _ on hon => .peekNth 1 fun t u halike _ => ?_
    obtain ⟨rfl, hon⟩ := hon
    cases on with
    | false =>
      simp only [Bool.and_false, Bool.false_and]
      exact .pure trivial
    | true =>
      have hk := hon rfl
      rw [(halike hk).isSymbol (by decide)]
      dsimp only
      split
      · refine (Mirrors.advance hk).andThen fun j _ => ?_
        exact (Mirrors.parenthesized fun i _ => .commaSeparated (hdeep.expr 0)).andThen
          fun _ _ => .pure trivial
      · exact .pure trivial
  · exact (Mirrors.eatWord _).andThen fun _ _ => .pure trivial

theorem topCount_mirrors (hdeep : deeper.Local x) :
    Mirrors x n (topCount deeper) (topCount deeper) Any := by
  refine .takes (.eatSymbol (by decide)) (fun m _ => ?_) (operandFrom_mirrors hdeep)
  exact (hdeep.expr 0 m).andThen fun _ _ =>
    (Mirrors.expectSymbol (by decide)).andThen fun _ _ => .pure trivial

theorem sources_mirrors (hdeep : deeper.Local x) :
    Mirrors x n (sources deeper) (sources deeper) Any := by
  refine .takes (.eatWord _) (fun m _ => .commaSeparated fun _ => source_mirrors hdeep) (.rules ?_)
  dsimp only
  split
  · exact .fails (.before .unexpected) (.before .unexpected)
  · exact .pure trivial

theorem select_mirrors (hdeep : deeper.Local x) :
    Mirrors x n (select deeper) (select deeper) fun m _ => m < n := by
  have hexpr := hdeep.expr 0
  refine (Mirrors.expectWord _).bind fun m _ _ hm => ?_
  refine (distinctness_mirrors hdeep).bind fun k₁ h₁ distinct _ => ?_
  refine (Mirrors.optional (.rules (.onlyIf _ (.eatWord _))) fun _ _ => topCount_mirrors hdeep).bind
    fun k₂ h₂ top _ => ?_
  refine (Mirrors.commaSeparated fun _ => selectItem_mirrors hdeep).bind fun k₃ h₃ items _ => ?_
  refine (sources_mirrors hdeep).bind fun k₄ h₄ sources _ => ?_
  refine (Mirrors.optional (.eatWord _) fun k _ => hexpr k).bind fun k₅ h₅ condition _ => ?_
  refine (Mirrors.optionalList (.eatWords (by simp)) fun k _ => .commaSeparated hexpr).bind
    fun k₆ h₆ groups _ => ?_
  refine (Mirrors.optional (.eatWord _) fun k _ => hexpr k).bind fun k₇ h₇ having _ => ?_
  refine (Mirrors.optional (.onlyIf_supports _ (.eatWord _)) fun k _ => hexpr k).bind
    fun k₈ h₈ qualify _ => .pure ?_
  omega

/-! ### Set operations -/

theorem setOperand_mirrors (hdeep : deeper.Local x) :
    Mirrors x n (setOperand deeper) (setOperand deeper) Any := by
  refine .looks (.checkWord _) (fun _ => ?_) ?_
  · exact (select_mirrors hdeep).andThen fun _ _ => .pure trivial
  refine .takes (.eatWord _) (fun m _ => ?_) ?_
  · refine (Mirrors.commaSeparated fun k => ?_).andThen fun _ _ => .pure trivial
    exact (Mirrors.parenthesized fun j _ => .commaSeparated (hdeep.expr 0)).any
  refine .takes (.eatSymbol (by decide)) (fun m _ => ?_) (.fails .unexpected .unexpected)
  exact (hdeep.query m).andThen fun _ _ =>
    (Mirrors.expectSymbol (by decide)).andThen fun _ _ => .pure trivial

theorem setOp_mirrors : Mirrors x n setOp setOp (Steps n) := by
  refine .takes (.eatWord _) (fun m hm => .pure fun _ => hm) ?_
  refine .takes (.eatWord _) (fun m hm => .pure fun _ => hm) ?_
  refine .takes (.eatWord _) (fun m hm => .pure fun _ => hm) (.rules ?_)
  exact .takes (.onlyIf _ (.eatWord _)) (fun m hm => .pure fun _ => hm) (.pure (by simp [Steps]))

theorem setQuantifier_mirrors : Mirrors x n setQuantifier setQuantifier Any :=
  .takes (.eatWord _) (fun _ _ => .pure trivial)
    (.takes (.eatWord _) (fun _ _ => .pure trivial) (.pure trivial))

theorem moreBodies_mirrors (hdeep : deeper.Local x) (left : Body × Option Expr) :
    Mirrors x n (moreBodies deeper left) (moreBodies deeper left) (Steps n) := by
  refine setOp_mirrors.bind fun m _ o ho => ?_
  cases o with
  | none => exact .pure (by simp [Steps])
  | some op =>
    have hm : m < n := ho rfl
    refine setQuantifier_mirrors.bind fun k hk quantifier _ => ?_
    exact (setOperand_mirrors hdeep).bind fun j hj _ _ => .pure fun _ => by omega

theorem body_mirrors (hdeep : deeper.Local x) : Mirrors x n (body deeper) (body deeper) Any :=
  (setOperand_mirrors hdeep).andThen fun _ first =>
    .iterate (fun _ left => moreBodies_mirrors hdeep left) first

/-! ### Row limits -/

theorem moreLimit_mirrors (hdeep : deeper.Local x) (l : LimitClauses) :
    Mirrors x n (moreLimit deeper l) (moreLimit deeper l) (Steps n) := by
  have hexpr := hdeep.expr 0
  refine .rules ?_
  extract_lets expr free fetch behind
  refine .takes (.onlyIf _ (.eatWord _)) (fun m hm => ?_) ?_
  · refine .takes (.eatWord _) (fun k hk => .pure fun _ => by omega) ?_
    refine (hexpr m).bind fun k hk first _ => ?_
    refine .takes (.onlyIf _ (.eatSymbol (by decide))) (fun j hj => ?_) (.pure fun _ => by omega)
    exact (hexpr j).bind fun i hi _ _ => .pure fun _ => by omega
  refine .looks (.onlyIf_looks _ (.checkWord _)) (fun hn => ?_) ?_
  · refine (Mirrors.advance hn).bind fun m _ token hm => (hexpr m).bind fun k hk offset _ => ?_
    refine .takes (.eatWord _) (fun j hj => .pure fun _ => by omega) ?_
    exact (Mirrors.eatWord _).bind fun j hj _ _ => .pure fun _ => by omega
  refine .takes (.onlyIf _ (.eatWord _)) (fun m hm => ?_) (.pure (by simp [Steps]))
  have hbehind (u : Unit) (k : Nat) (hk : k ≤ m) :
      Mirrors x k (behind u) (behind u) (Steps n) := by
    refine (hexpr k).bind fun j hj count _ => ?_
    refine .takes (.eatWord _) (fun i hi => ?_) ((Mirrors.expectWord _).bind fun i hi _ _ => ?_)
    all_goals exact (Mirrors.expectWord _).bind fun i' hi' _ _ => .pure fun _ => by omega
  refine .takes (.eatWord _) (fun k hk => hbehind () k (by omega)) ?_
  exact (Mirrors.expectWord _).bind fun k hk u _ => hbehind u k hk

theorem limit_mirrors (hdeep : deeper.Local x) (top : Option Expr) (ordered : Bool) :
    Mirrors x n (limit deeper top ordered) (limit deeper top ordered) Any := by
  refine (Mirrors.iterate (fun _ l => moreLimit_mirrors hdeep l) _).andThen fun m l => .rules ?_
  dsimp only
  split
  case h_2 => exact .pure trivial
  case h_1 token _ =>
    split
    · exact .fails (.before (.unexpectedAt _ _)) (.before (.unexpectedAt _ _))
    · split
      · exact .fails (.before (.unexpectedAt _ _)) (.before (.unexpectedAt _ _))
      · exact .pure trivial

/-! ### Levels -/

theorem cte_mirrors (hdeep : deeper.Local x) : Mirrors x n (cte deeper) (cte deeper) Any := by
  refine Mirrors.name.andThen fun _ label => Mirrors.optionalNameList.andThen fun _ columns => ?_
  refine (Mirrors.expectWord _).andThen fun _ _ => ?_
  exact (Mirrors.parenthesized fun k _ => hdeep.query k).andThen fun _ _ => .pure trivial

theorem ctes_mirrors (hdeep : deeper.Local x) : Mirrors x n (ctes deeper) (ctes deeper) Any :=
  (Mirrors.eatWord _).andThen fun _ _ =>
    (Mirrors.commaSeparated fun _ => cte_mirrors hdeep).andThen fun _ _ => .pure trivial

theorem queryWith_mirrors (hdeep : deeper.Local x) :
    Mirrors x n (queryWith deeper) (queryWith deeper) Any := by
  refine (Mirrors.optional (.eatWord _) fun _ _ => ctes_mirrors hdeep).andThen fun _ ctes => ?_
  refine (body_mirrors hdeep).andThen fun _ r => (orderBy_mirrors hdeep).andThen fun _ order => ?_
  exact (limit_mirrors hdeep _ _).andThen fun _ _ => .pure trivial

/-- The productions of every level read a part as they read the whole. -/
theorem nested_local (x : Excerpt) (k : Nat) : (nested k).Local x := by
  induction k with
  | zero =>
    have hdeep {α : Type} : Fails (tooDeep : Parser α) := .after fun _ => .unexpectedAt _ _
    exact ⟨fun _ _ => .fails hdeep hdeep, fun _ => .fails hdeep hdeep⟩
  | succ k ih => exact ⟨fun p _ => .level (subexpr_mirrors ih p), fun _ => .level (queryWith_mirrors ih)⟩

end Queries

/-! ## Statements -/

section Statements

variable {x : Excerpt} {n : Nat}

theorem returning_mirrors : Mirrors x n returning returning Any :=
  .optionalList (.onlyIf_supports _ (.eatWord _)) fun _ _ =>
    .commaSeparated fun _ => selectItem_mirrors (nested_local x _)

theorem insert_mirrors : Mirrors x n insert insert Any := by
  refine (Mirrors.expectWord _).andThen fun _ _ => (Mirrors.expectWord _).andThen fun _ _ => ?_
  refine Mirrors.qualifiedName.andThen fun m table => ?_
  refine (Mirrors.peekSymbol (by decide)).bind fun k _ b hb => .peekNth 1 fun t u halike _ => ?_
  obtain ⟨rfl, hb⟩ := hb
  have hlisted : (b && !t.isWord "SELECT") = (b && !u.isWord "SELECT") := by
    cases b with
    | false => rfl
    | true => rw [(halike (hb rfl)).isWord]
  rw [hlisted]
  have hrest (columns : List Name) (j : Nat) : Mirrors x j
      (query >>= fun source => returning >>= fun items =>
        Pure.pure (⟨table, columns, source, items⟩ : Insert))
      (query >>= fun source => returning >>= fun items =>
        Pure.pure (⟨table, columns, source, items⟩ : Insert)) Any :=
    ((nested_local x _).query j).andThen fun _ _ => returning_mirrors.andThen fun _ _ => .pure trivial
  dsimp only
  split
  · exact Mirrors.nameList.andThen fun j columns => hrest columns j
  · exact hrest [] k

theorem assignment_mirrors : Mirrors x n assignment assignment Any := by
  refine Mirrors.name.andThen fun _ first => ?_
  refine (Mirrors.many fun _ => .optional (.eatSymbol (by decide)) fun _ _ => Mirrors.name.any).andThen
    fun _ rest => (Mirrors.expectSymbol (by decide)).andThen fun k _ => ?_
  exact ((nested_local x _).expr 0 k).andThen fun _ _ => .pure trivial

theorem condition_mirrors :
    Mirrors x n (optional (eatWord "WHERE") expr) (optional (eatWord "WHERE") expr) Any :=
  (Mirrors.optional (.eatWord _) fun k _ => (nested_local x _).expr 0 k).any

theorem update_mirrors : Mirrors x n update update Any := by
  refine (Mirrors.expectWord _).andThen fun _ _ => Mirrors.qualifiedName.andThen fun _ table => ?_
  refine optionalAlias_mirrors.andThen fun _ label => (Mirrors.expectWord _).andThen fun _ _ => ?_
  refine (Mirrors.commaSeparated fun _ => assignment_mirrors).andThen fun _ assignments => ?_
  exact condition_mirrors.andThen fun _ _ => returning_mirrors.andThen fun _ _ => .pure trivial

theorem delete_mirrors : Mirrors x n delete delete Any := by
  refine (Mirrors.expectWord _).andThen fun _ _ => (Mirrors.expectWord _).andThen fun _ _ => ?_
  refine Mirrors.qualifiedName.andThen fun _ table => condition_mirrors.andThen fun _ condition => ?_
  exact returning_mirrors.andThen fun _ _ => .pure trivial

theorem createView_mirrors (orReplace : Bool) :
    Mirrors x n (createView orReplace) (createView orReplace) Any := by
  refine Mirrors.qualifiedName.andThen fun _ view => Mirrors.optionalNameList.andThen fun _ columns => ?_
  refine (Mirrors.expectWord _).andThen fun k _ => ?_
  exact ((nested_local x _).query k).andThen fun _ _ => .pure trivial

theorem autoIncrement_mirrors : Mirrors x n autoIncrement autoIncrement (Takes n) := by
  have hyes {m : Nat} (hm : m < n) : Mirrors x m (Pure.pure true) (Pure.pure true) (Takes n) :=
    .pure (by simpa [Takes] using hm)
  refine .takes (.eatWord _) (fun m hm => hyes hm) (.takes (.eatWord _) (fun m hm => hyes hm) ?_)
  refine .takes (.eatWord _) (fun m hm => ?_) (.takes (.eatWord _) (fun m hm => ?_) ?_)
  · refine .takes (.eatSymbol (by decide)) (fun k hk => ?_) (hyes hm)
    refine (Mirrors.commaSeparated fun _ => operandFrom_mirrors (nested_local x _)).bind
      fun j hj _ _ => ?_
    exact (Mirrors.expectSymbol (by decide)).bind fun i hi _ _ => hyes (by omega)
  · refine .takes (.eatWord _) (fun k hk => ?_) ((Mirrors.expectWord _).bind fun k₁ h₁ _ _ =>
      (Mirrors.expectWord _).bind fun k hk _ _ => ?_)
    all_goals
      refine (Mirrors.expectWord _).bind fun j hj _ _ => ?_
      exact (Mirrors.expectWord _).bind fun i hi _ _ => hyes (by omega)
  · exact .pure (by simp [Takes])

theorem columnOption_mirrors : Mirrors x n columnOption columnOption (Steps n) := by
  have hyes {m : Nat} (hm : m < n) (o : ColumnOption) :
      Mirrors x m (Pure.pure (some o)) (Pure.pure (some o)) (Steps n) :=
    .pure fun _ => hm
  refine .takes (.eatWords (by simp)) (fun m hm => hyes hm _) ?_
  refine .takes (.eatWord _) (fun m hm => hyes hm _) ?_
  refine .takes (.eatWords (by simp)) (fun m hm => hyes hm _) ?_
  refine .takes (.eatWord _) (fun m hm => hyes hm _) (.takes (.eatWord _) (fun m hm => ?_) ?_)
  · exact ((nested_local x _).expr _ m).bind fun k hk e _ => hyes (by omega) _
  · refine .dialect (.takes (.onlyIf _ autoIncrement_mirrors) (fun m hm => hyes hm _) ?_)
    exact .pure (by simp [Steps])

theorem column_mirrors : Mirrors x n column column Any :=
  Mirrors.name.andThen fun _ _ => dataType_mirrors.andThen fun _ _ =>
    (Mirrors.many fun _ => columnOption_mirrors).andThen fun _ _ => .pure trivial

theorem tableConstraint_mirrors : Mirrors x n tableConstraint tableConstraint Any := by
  refine .takes (.eatWords (by simp)) (fun _ _ => ?_) (.takes (.eatWord _) (fun _ _ => ?_) ?_)
  · exact Mirrors.nameList.andThen fun _ _ => .pure trivial
  · exact Mirrors.nameList.andThen fun _ _ => .pure trivial
  · exact .pure trivial

theorem tableElement_mirrors : Mirrors x n tableElement tableElement Any := by
  refine tableConstraint_mirrors.andThen fun _ o => ?_
  cases o with
  | some constraint => exact .pure trivial
  | none => exact column_mirrors.andThen fun _ _ => .pure trivial

theorem createTable_mirrors (temporary : Bool) :
    Mirrors x n (createTable temporary) (createTable temporary) Any := by
  refine (Mirrors.onlyIf_supports _ (.eatWords (by simp))).andThen fun _ guarded => ?_
  refine Mirrors.qualifiedName.andThen fun _ table => ?_
  refine (Mirrors.optionalList (.eatSymbol (by decide)) fun _ _ => ?_).andThen fun _ elements => ?_
  · exact (Mirrors.commaSeparated fun _ => tableElement_mirrors).andThen fun _ _ =>
      (Mirrors.expectSymbol (by decide)).andThen fun _ _ => .pure trivial
  refine (Mirrors.optional (.eatWord _) fun k _ => (nested_local x _).query k).andThen
    fun _ source => ?_
  dsimp only
  split
  · exact .fails (.before .unexpected) (.before .unexpected)
  · exact .pure trivial

theorem create_mirrors : Mirrors x n create create Any := by
  refine (Mirrors.expectWord _).andThen fun _ _ => .takes (.eatWord _) (fun _ _ => .dialect ?_) ?_
  · refine (Mirrors.expectWord _).andThen fun _ _ => (Mirrors.expectWord _).andThen fun _ _ => ?_
    exact (createView_mirrors true).andThen fun _ _ => .pure trivial
  refine .takes (.eatWord _) (fun _ _ => Mirrors.andThen (P := Any) (.pure trivial) fun _ temporary => ?_)
    ((Mirrors.eatWord _).andThen fun _ temporary => ?_)
  all_goals
    refine .takes (.onlyIf _ (.eatWord _)) (fun _ _ => ?_) ?_
    · exact (createView_mirrors false).andThen fun _ _ => .pure trivial
    · exact (Mirrors.expectWord _).andThen fun _ _ =>
        (createTable_mirrors _).andThen fun _ _ => .pure trivial

theorem drop_mirrors : Mirrors x n drop drop Any := by
  refine (Mirrors.expectWord _).andThen fun _ _ => ?_
  refine .takes (.eatWord _) (fun _ _ => ?_) ((Mirrors.expectWord _).andThen fun _ _ => ?_)
  all_goals
    refine (Mirrors.onlyIf_supports _ (.eatWords (by simp))).andThen fun _ guarded => ?_
    refine (Mirrors.commaSeparated fun _ => Mirrors.qualifiedName).andThen fun _ names => ?_
    exact (Mirrors.onlyIf_supports _ (.eatWord _)).andThen fun _ _ => .pure trivial

theorem checkQuery_mirrors : Mirrors x n checkQuery checkQuery (Looks n) :=
  have hyes (hn : 0 < n) : Mirrors x n (Pure.pure true) (Pure.pure true) (Looks n) :=
    .pure ⟨rfl, fun _ => hn⟩
  .looks (.checkWord _) hyes (.looks (.checkWord _) hyes (.looks (.checkWord _) hyes
    (.checkSymbol (by decide))))

/-- A statement of a part is read as it is in the whole list. -/
theorem statement_mirrors : Mirrors x n statement statement Any := by
  refine .looks checkQuery_mirrors (fun _ => ?_) (.looks (.checkWord _) (fun _ => ?_) ?_)
  · exact ((nested_local x _).query n).andThen fun _ _ => .pure trivial
  · exact insert_mirrors.andThen fun _ _ => .pure trivial
  refine .looks (.checkWord _) (fun _ => ?_) (.looks (.checkWord _) (fun _ => ?_) ?_)
  · exact update_mirrors.andThen fun _ _ => .pure trivial
  · exact delete_mirrors.andThen fun _ _ => .pure trivial
  refine .looks (.checkWord _) (fun _ => create_mirrors) (.looks (.checkWord _) (fun _ => ?_) ?_)
  · exact drop_mirrors.andThen fun _ _ => .pure trivial
  · exact .fails .unexpected .unexpected

end Statements

end SqlDialects
