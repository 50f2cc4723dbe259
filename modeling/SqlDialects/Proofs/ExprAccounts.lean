import SqlDialects.Proofs.Accounts

/-!
# Expressions account for their tokens

`subexpr_keeps`: expressions, and types and windows in them, move forward, blame no token before the
place at which they start, and account for each token that they take, if the productions one level
down do so.

A production that gets a part of the tree as an argument has read its values before; it is followed
with the values of its argument in front of its own.
-/

namespace SqlDialects

open SqlDialects.Parser

/-- An expression with its values, and the one with its numbers. -/
abbrev ExprOf (x : Filling) : Nat → Expr → Expr → Multiset Leaf → Prop :=
  Means (Expr.fill x.value) fun e => leaves e.nodes

/-- A query with its values, and the one with its numbers. -/
abbrev QueryOf (x : Filling) : Nat → Query → Query → Multiset Leaf → Prop :=
  Means (Query.fill x.value) fun q => leaves q.nodes

/-- The productions one level down account for their tokens. -/
structure Deeper.Kept (x : Filling) (deeper : Deeper) : Prop where
  expr : ∀ p k, Keeps x k (deeper.expr p) (deeper.expr p) (ExprOf x)
  query : ∀ k, Keeps x k deeper.query deeper.query (QueryOf x)

/-! ## Types -/

section Types

variable {x : Filling} {k : Nat}

/-- A word of a type is the next token. -/
theorem moreTypeWords_keeps (names : Table String TypeKind) (w : TypeWords) :
    Keeps x k (moreTypeWords names w) (moreTypeWords names w) fun m o o' ls =>
      o' = o ∧ m = k + o.isSome.toNat ∧
        (o.isSome = true → (x.input.token k).isBareWord = true) ∧ ls = 0 := by
  refine .peek ?_
  by_cases h : (x.input.token k).isBareWord = true
  · have hplain := Filling.Plain.of_bareWord h
    rw [hplain.token]
    dsimp only
    refine .ite rfl (fun _ => ?_) fun _ => .pure ⟨rfl, rfl, by simp, rfl⟩
    exact (Keeps.advance hplain).bind fun m _ _ _ hm =>
      .pure ⟨rfl, hm.1, fun _ => h, by simp [hm.2.2.2]⟩
  · simp only [x.token_filled, Token.isBareWord_fill, h, Bool.false_and]
    exact .pure ⟨rfl, rfl, by simp, rfl⟩

theorem typeWords_keeps (names : Table String TypeKind) (n k : Nat) (w : TypeWords) :
    Keeps x k (iterateUpTo (moreTypeWords names) w n) (iterateUpTo (moreTypeWords names) w n)
      fun m a b ls => b = a ∧ k ≤ m ∧
        (∀ j, k ≤ j → j < m → (x.input.token j).isBareWord = true) ∧ ls = 0 := by
  induction n generalizing k w with
  | zero => exact .pure ⟨rfl, Nat.le_refl k, fun j hj hlt => by omega, rfl⟩
  | succ n ih =>
    refine (moreTypeWords_keeps names w).bind fun m o o' ls hR => ?_
    obtain ⟨rfl, rfl, hword, rfl⟩ := hR
    cases o' with
    | none => exact .pure ⟨rfl, Nat.le_refl k, fun j hj hlt => by simp at hlt; omega, rfl⟩
    | some w' =>
      refine (ih (k + 1) w').mono fun m a b ls hR =>
        ⟨hR.1, by omega, fun j hj hlt => ?_, by simp [hR.2.2.2]⟩
      rcases Nat.eq_or_lt_of_le hj with rfl | hj
      · exact hword rfl
      · exact hR.2.2.1 j hj hlt

/-- The arguments of a type are constants and words. -/
theorem typeArg_keeps : Keeps x k typeArg typeArg fun _ a b ls =>
    b = a ∧ ∀ l ∈ ls, ∃ c, l = .literal c := by
  refine .peek ?_
  cases hk : (x.input.token k).kind
  case param => exact .missing _
  all_goals rw [Filling.token_filled_of_kind (by simp [hk]), hk]
  case number =>
    refine (Keeps.advance_value (by simp [hk]) fun _ => .number hk).bind fun _ _ _ _ hR => .pure ?_
    exact ⟨rfl, by simp [hR.2.2.2]⟩
  case string =>
    refine (Keeps.advance_value (by simp [hk]) fun _ => .string hk).bind fun _ _ _ _ hR => .pure ?_
    exact ⟨rfl, by simp [hR.2.2.2]⟩
  case word | keyword =>
    have hplain : x.Plain k := .of_bareWord (by simp [Token.isBareWord, hk])
    exact (Keeps.advance_same hplain).skip fun _ _ => .pure ⟨rfl, by simp⟩
  all_goals exact .missing _

/-- A data type is words, with a list of constants in parentheses behind them or without. -/
theorem dataType_part : Keeps x k dataType dataType fun m a b ls =>
    b = a ∧ x.input.IsWordsAndList k m ∧ ∀ l ∈ ls, ∃ c, l = .literal c := by
  refine .rules (.peek ?_)
  dsimp only
  refine .ite (by rw [x.token_filled, Token.isBareWord_fill]) (fun h => ?_)
    fun _ => .missing_before _
  have hplain := Filling.Plain.of_bareWord h
  rw [hplain.token]
  refine (Keeps.advance hplain).bind fun m _ _ _ hm => ?_
  obtain ⟨rfl, -, -, rfl⟩ := hm
  refine Keeps.bind (.remaining (typeWords_keeps _ _ _ _)) fun l words words' _ hwords => ?_
  obtain ⟨rfl, hle, hwords, rfl⟩ := hwords
  have hbare (j : Nat) (hj : k ≤ j) (hlt : j < l) : (x.input.token j).isBareWord = true := by
    rcases Nat.eq_or_lt_of_le hj with rfl | hj
    · exact h
    · exact hwords j hj hlt
  have hargs : Keeps x l
      (optionalList (eatSymbol "(") (do
        let args ← commaSeparated typeArg
        expectSymbol ")"
        return args))
      (optionalList (eatSymbol "(") (do
        let args ← commaSeparated typeArg
        expectSymbol ")"
        return args)) fun m a b ls =>
          b = a ∧ x.input.IsWordsAndList k m ∧ ∀ l ∈ ls, ∃ c, l = .literal c := by
    refine .takes (.eatSymbol_at "(") (fun hopen => ?_)
      fun _ => .pure ⟨rfl, ⟨l, hle, hbare, .inl rfl⟩, by simp⟩
    refine (Keeps.forward (.commaSeparated_rel fun _ => typeArg_keeps)).bind
      fun j args args' _ hR => ?_
    obtain ⟨hj, hsame, hls⟩ := hR
    obtain rfl : args = args' := by
      rw [← List.forall₂_eq_eq_eq]
      exact hsame.imp fun _ _ h => h.symm
    refine (Keeps.expectSymbol_at ")").bind fun m _ _ _ hclose => ?_
    obtain ⟨hclose, rfl, rfl⟩ := hclose
    refine .pure ⟨rfl, ⟨l, hle, hbare, .inr ⟨by omega, hopen, ?_⟩⟩, by simpa using hls⟩
    simpa using hclose
  exact hargs.bind fun m args args' _ hR => .pure ⟨by rw [hR.1], hR.2.1, by simpa using hR.2.2⟩

theorem dataType_keeps : Keeps x k dataType dataType (Means id fun t => {.type t}) :=
  dataType_part.part fun c a e _ ls hc hrun htally hR => by
    have hcount := htally.marks
    have hbinds := htally.binds_of_literals hR.2.2
    exact .inr ⟨.type a, ⟨hR.2.1, by omega, c, e, hrun, hc, rfl⟩, hR.1, rfl⟩

end Types

/-! ## Expressions -/

/-- The place of a token that was read. -/
def Filling.IsPlace (x : Filling) (position : Position) : Prop :=
  ∃ j, x.start ≤ j ∧ j ≤ x.input.tokens.size ∧ position = (x.input.token j).position

section Expressions

variable {x : Filling} {k : Nat} {deeper : Deeper} {operand : Parser Expr}

theorem direction_keeps : Keeps x k direction direction Same :=
  .test (.eatWord _) (fun _ => .pure ⟨rfl, rfl⟩)
    fun _ => .test (.eatWord _) (fun _ => .pure ⟨rfl, rfl⟩) fun _ => .pure ⟨rfl, rfl⟩

/-- The keys of an ordering with their values. -/
abbrev OrderOf (x : Filling) : Nat → List OrderItem → List OrderItem → Multiset Leaf → Prop :=
  Means (List.map (OrderItem.fill x.value)) fun items =>
    (items.map fun o => leaves (orderNodes [o])).sum

theorem orderBy_keeps (hdeep : deeper.Kept x) :
    Keeps x k (orderBy deeper) (orderBy deeper) (OrderOf x) := by
  refine .optionalList (.eatWords _) fun _ => .commaSeparated fun m => ?_
  refine (hdeep.expr 0 m).andThen fun _ key => direction_keeps.skip fun _ ascending => ?_
  refine (Keeps.optional_same (.onlyIf_supports _ (.eatWord _)) fun _ => ?_).skip
    fun _ nullsFirst => .pure ⟨?_, ?_⟩
  · exact .test (.eatWord _) (fun _ => .pure ⟨rfl, rfl⟩)
      fun _ => .test (.eatWord _) (fun _ => .pure ⟨rfl, rfl⟩) fun _ => .unexpected
  · rw [OrderItem.fill]
  · simp [orderNodes, Node.leaves]

theorem frameBound_keeps (hop : ∀ k, Keeps x k operand operand (ExprOf x)) :
    Keeps x k (frameBound operand) (frameBound operand)
      (Means (Bound.fill x.value) fun b => leaves b.nodes) := by
  refine .test (.eatWords _) (fun _ => .pure ⟨?_, ?_⟩) fun _ => .test (.eatWord _) (fun _ => ?_) fun m => ?_
  · rw [Bound.fill]
  · simp [Bound.nodes, Node.leaves]
  · refine .test (.eatWord _) (fun _ => .pure ⟨?_, ?_⟩) fun _ => (Keeps.expectWord _).skip
      fun _ _ => .pure ⟨?_, ?_⟩
    all_goals first | rw [Bound.fill] | simp [Bound.nodes, Node.leaves]
  · refine (hop m).andThen fun _ offset => .test (.eatWord _) (fun _ => .pure ⟨?_, ?_⟩)
      fun _ => (Keeps.expectWord _).skip fun _ _ => .pure ⟨?_, ?_⟩
    all_goals first | rw [Bound.fill] | simp [Bound.nodes, Node.leaves]

theorem windowFrame_keeps (hop : ∀ k, Keeps x k operand operand (ExprOf x)) :
    Keeps x k (windowFrame operand) (windowFrame operand)
      (Means (Frame.fill x.value) fun f => leaves (frameNodes (some f))) := by
  refine .test (.eatWord _) (fun m => ?_) fun _ => (Keeps.expectWord _).skip fun m _ => ?_
  all_goals
    refine .test (.eatWord _) (fun _ => ?_) fun _ => ?_
    · refine (frameBound_keeps hop).andThen fun _ start => (Keeps.expectWord _).skip fun _ _ => ?_
      refine (frameBound_keeps hop).andThen fun _ stop => .pure ⟨?_, ?_⟩
      · simp [Frame.fill]
      · simp [frameNodes, stopNodes]
    · refine (frameBound_keeps hop).andThen fun _ start => .pure ⟨?_, ?_⟩
      · simp [Frame.fill]
      · simp [frameNodes, stopNodes]

theorem checkFrame_keeps : Keeps x k checkFrame checkFrame Same :=
  .looks (.checkWord _) (fun _ => .pure ⟨rfl, rfl⟩) fun _ => .same_of_peeks (.checkWord _)

theorem window_keeps (hdeep : deeper.Kept x) (hop : ∀ k, Keeps x k operand operand (ExprOf x)) :
    Keeps x k (window deeper operand) (window deeper operand)
      (Means (Window.fill x.value) fun w => leaves (windowNodes (some w))) := by
  refine .parenthesized (fun m => ?_) fun _ _ _ _ _ h => h
  refine (Keeps.optionalList (.eatWords _) fun _ => .commaSeparated (hdeep.expr 0)).andThen
    fun _ keys => (orderBy_keeps hdeep).andThen fun _ order => ?_
  refine (Keeps.optional checkFrame_keeps fun _ => windowFrame_keeps hop).andThen
    fun _ frame => .pure ⟨?_, ?_⟩
  · simp [Window.fill]
  · simp only [windowNodes, leaves_append, leaves_exprNodes, leaves_orderNodes order,
      leaves_frameNodes frame, add_zero, add_assoc]

/-! ### Calls -/

theorem peekDateField_keeps : Keeps x k peekDateField peekDateField Same := by
  refine .peek ?_
  by_cases h : (x.input.token k).isBareWord = true
  · rw [(Filling.Plain.of_bareWord h).token]
    exact .pure ⟨rfl, rfl⟩
  · simp only [x.token_filled, Token.isBareWord_fill, h, Bool.false_and]
    exact .pure ⟨rfl, rfl⟩

theorem dateField_keeps : Keeps x k dateField dateField Same := by
  refine .peek ?_
  by_cases h : (x.input.token k).isBareWord = true
  · have hplain := Filling.Plain.of_bareWord h
    rw [hplain.token]
    split
    · exact (Keeps.advance_same hplain).skip fun _ _ => .pure ⟨rfl, rfl⟩
    · exact .missing _
  · simp only [h, Bool.false_eq_true, if_false]
    exact .missing _

/-- Arguments with their values. -/
abbrev ArgsOf (x : Filling) : Nat → List Arg → List Arg → Multiset Leaf → Prop :=
  Means (List.map (Arg.fill x.value)) fun args => leaves (argNodes args)

theorem callArgs_keeps (hdeep : deeper.Kept x) (upper : String) :
    Keeps x k (callArgs deeper upper) (callArgs deeper upper) (ArgsOf x) := by
  have hmore (first : Expr) (m : Nat) : Keeps x m
      (afterCommas (deeper.expr 0) >>= fun rest => Pure.pure (.expr first :: rest.map Arg.expr))
      (afterCommas (deeper.expr 0) >>= fun rest =>
        Pure.pure (.expr (first.fill x.value) :: rest.map Arg.expr))
      (After (leaves first.nodes) (ArgsOf x)) := by
    refine (Keeps.afterCommas (hdeep.expr 0)).andThen fun _ rest => .pure ⟨?_, ?_⟩
    · simp [Arg.fill]
    · simp [argNodes, leaves_argNodes (rest.map Arg.expr), Function.comp_def]
  unfold callArgs
  dsimp only
  refine .ite rfl (fun _ => ?_) fun _ => ?_
  · refine (hdeep.expr _ k).andThen fun m needle => .test (.eatWord _) (fun j => ?_) (hmore needle)
    refine (hdeep.expr _ j).andThen fun _ haystack => .pure ⟨?_, ?_⟩
    · simp [Arg.fill]
    · simp [argNodes, add_comm]
  · refine (hdeep.expr _ k).andThen fun m first => ?_
    refine .test (.onlyIf _ (.eatWord _)) (fun j => ?_) (hmore first)
    refine (hdeep.expr _ j).andThen fun _ start => ?_
    refine (Keeps.optional (.eatWord _) (hdeep.expr _)).andThen fun _ length => .pure ⟨?_, ?_⟩
    · cases length <;> simp [Arg.fill]
    · cases length <;> simp [argNodes]

theorem callBody_keeps (hdeep : deeper.Kept x) (upper : String) :
    Keeps x k (callBody deeper upper) (callBody deeper upper)
      (Means (fun r => (r.1, r.2.map (Arg.fill x.value))) fun r => leaves (argNodes r.2)) := by
  refine .test (.eatSymbol _) (fun _ => .pure ⟨rfl, by simp [argNodes]⟩) fun _ => ?_
  refine (Keeps.eatWord _).skip fun _ distinct => .test (.eatSymbol _) (fun _ => ?_) fun _ => ?_
  · exact (Keeps.expectSymbol _).skip fun _ _ => .pure ⟨by simp [Arg.fill], by simp [argNodes]⟩
  · refine (callArgs_keeps hdeep upper).andThen fun _ args => (Keeps.expectSymbol _).skip
      fun _ _ => .pure ⟨rfl, by simp⟩

/-- Two arguments exchanged have the same values. -/
theorem leaves_swapFirst (args : List Arg) :
    leaves (argNodes (swapFirst args)) = leaves (argNodes args) := by
  unfold swapFirst
  split
  · rw [leaves_argNodes, leaves_argNodes]
    simp [add_left_comm]
  · rfl

theorem map_swapFirst {α : Type} (f : α → α) (as : List α) :
    (swapFirst as).map f = swapFirst (as.map f) := by
  rcases as with - | ⟨a, - | ⟨b, as⟩⟩ <;> rfl

/-- The arguments of a call may be exchanged, but not lost. -/
theorem canonicalCall_keeps (name : String) (args : List Arg) {position : Position}
    (hposition : x.IsPlace position) (position' : Position) :
    Keeps x k (canonicalCall name args position)
      (canonicalCall name (args.map (Arg.fill x.value)) position') fun _ r r' ls =>
        r' = (r.1, r.2.map (Arg.fill x.value)) ∧ ls = 0 ∧
          leaves (argNodes r.2) = leaves (argNodes args) := by
  refine .rules (.ite rfl (fun _ => .pure ⟨rfl, rfl, rfl⟩) fun _ => ?_)
  split
  · exact .pure ⟨rfl, rfl, rfl⟩
  · exact .pure ⟨by rw [map_swapFirst], rfl, leaves_swapFirst args⟩
  · refine .ite rfl (fun _ => .pure ⟨rfl, rfl, rfl⟩) fun _ => ?_
    split
    · exact .pure ⟨rfl, rfl, rfl⟩
    · obtain ⟨j, hstart, hroom, rfl⟩ := hposition
      exact .fail ⟨j, _, _, hstart, hroom, rfl⟩

theorem extraction_keeps (hdeep : deeper.Kept x) {separator : Parser Unit}
    (hs : ∀ k, Keeps x k separator separator Same) :
    Keeps x k (extraction deeper separator) (extraction deeper separator) (ExprOf x) := by
  refine .parenthesized (fun _ => dateField_keeps.skip fun m field => ?_) fun _ _ _ _ _ h => h
  refine (hs m).skip fun j _ => (hdeep.expr 0 j).andThen fun _ e => .pure ⟨?_, ?_⟩
  · rw [Expr.fill]
  · simp [Expr.nodes, Node.leaves]

theorem conditional_keeps (hdeep : deeper.Kept x) :
    Keeps x k (conditional deeper) (conditional deeper) (ExprOf x) := by
  refine .parenthesized (fun m => (hdeep.expr 0 m).andThen fun _ c => ?_) fun _ _ _ _ _ h => h
  refine (Keeps.expectSymbol _).skip fun m _ => (hdeep.expr 0 m).andThen fun _ y => ?_
  refine (Keeps.expectSymbol _).skip fun m _ => (hdeep.expr 0 m).andThen fun _ n => .pure ⟨?_, ?_⟩
  · rw [Expr.fill]
  · simp [Expr.nodes, Node.leaves]

theorem call_keeps (hdeep : deeper.Kept x) (hop : ∀ k, Keeps x k operand operand (ExprOf x))
    (name : String) {position : Position} (hposition : x.IsPlace position) (position' : Position) :
    Keeps x k (call deeper operand name position) (call deeper operand name position')
      (ExprOf x) := by
  refine .dialect ?_
  dsimp only
  refine .ite rfl (fun _ => extraction_keeps hdeep fun _ => .expectWord _) fun _ => ?_
  refine .ite rfl (fun _ => extraction_keeps hdeep fun _ => .expectSymbol _) fun _ => ?_
  refine .ite rfl (fun _ => conditional_keeps hdeep) fun _ => ?_
  split
  · refine (Keeps.expectSymbol _).skip fun _ _ => (Keeps.expectSymbol _).skip fun _ _ => .pure ⟨?_, ?_⟩
    · rw [Expr.fill]
    · simp [Expr.nodes, Node.leaves]
  · refine (Keeps.expectSymbol _).skip fun _ _ => (callBody_keeps hdeep _).andThen fun _ r => ?_
    obtain ⟨distinct, args⟩ := r
    refine (canonicalCall_keeps name args hposition position').bind fun _ r r' ls hR => ?_
    obtain ⟨rfl, rfl, hargs⟩ := hR
    obtain ⟨canonical, args'⟩ := r
    refine (Keeps.optional (.eatWord _) fun _ => window_keeps hdeep hop).andThen
      fun _ w => .pure ⟨?_, ?_⟩
    · simp [Expr.fill, Call.fill]
    · simp [Expr.nodes, Call.nodes, Node.leaves, leaves_windowNodes w, ← hargs]

/-! ### Primaries -/

theorem peekQuery_keeps : Keeps x k peekQuery peekQuery Same := by
  refine .peek ?_
  simp only [x.token_filled, Token.isWord_fill]
  exact .pure ⟨rfl, rfl⟩

theorem chainPart_keeps : Keeps x k chainPart chainPart Same := by
  refine (Keeps.peekSymbol ".").bind fun m b b' ls hb => ?_
  obtain ⟨rfl, rfl, rfl, rfl⟩ := hb
  refine .peekNth 1 (.ite ?_ (fun h => ?_) fun _ => .pure ⟨rfl, rfl⟩)
  · rw [x.token_filled, Token.isSymbol_fill]
  · have hdot := (Bool.and_eq_true_iff.mp h).1
    exact (Keeps.advance_same (.of_symbol hdot)).skip fun _ _ => Keeps.name.skip
      fun _ _ => .pure ⟨rfl, rfl⟩

theorem chain_keeps (hdeep : deeper.Kept x) (hop : ∀ k, Keeps x k operand operand (ExprOf x)) :
    Keeps x k (chain deeper operand) (chain deeper operand) (ExprOf x) := by
  refine .within fun hstart hroom => .peek (Keeps.name.skip fun _ first => ?_)
  refine (Keeps.many_same fun _ => chainPart_keeps).skip fun _ rest => ?_
  refine (Keeps.same_of_peeks (.peekSymbol "(")).skip fun _ called => ?_
  refine .ite rfl (fun _ => ?_) fun _ => .pure ⟨?_, ?_⟩
  · exact (Keeps.nameFunction _).skip fun _ _ => call_keeps hdeep hop _ ⟨k, hstart, hroom, rfl⟩ _
  · split <;> simp [Expr.fill]
  · split <;> simp [Expr.nodes, Node.leaves]

/-- What a bare parameter is read as. -/
theorem param_eq {i : Input} {c : Cursor} (h : (i.token c.index).body = "") :
    param i c = if i.dialect.reading.positionalParams then
      (.ok (.param (.positional (c.binds + 1))), (advance i { c with binds := c.binds + 1 }).2)
    else (expectHere "expression" >>= fun _ => unexpected) i c := by
  have hbody : (String.ofList ((i.token c.index).text.toList.drop 1) == "") = true := beq_iff_eq.mpr h
  simp only [param, peek, peekNth, rules, look, Bind.bind, Nat.add_zero, hbody, if_true]
  cases i.dialect.reading.positionalParams <;> rfl

/-- A bare parameter is counted where it is read, and the number in its place is read as one. -/
theorem param_bare (hmark : (x.input.token k).isMark = true) :
    Keeps x k param
      (advance >>= fun _ => Pure.pure (.literal (.number (x.value (x.input.marks k + 1)))))
      (ExprOf x) := by
  have hkind := Token.kind_of_isMark hmark
  have hbody : (x.input.token k).body = "" := by simpa using (Bool.and_eq_true_iff.mp hmark).2
  have hlt : k < x.input.tokens.size := x.lt_size (by simp [hkind])
  cases hpos : x.input.dialect.reading.positionalParams with
  | false =>
    refine .of_run (fun c hc => ?_) (fun _ _ => rfl) (.missing "expression")
    rw [param_eq (by rw [hc, hbody]), hpos]
    rfl
  | true =>
    intro c c' hat
    obtain ⟨rfl, hindex, -, -, hseen, -⟩ := hat
    refine .inl ⟨.param (.positional (c.binds + 1)),
      { c with index := c.index + 1, binds := c.binds + 1 },
      .literal (.number (x.value (c.binds + 1))), [.param (.positional (c.binds + 1))], ?_,
      ⟨Nat.le_succ _, hlt, Nat.le_refl _, hseen⟩, ?_, ?_, fun hbinds => ?_⟩
    · rw [param_eq hbody, hpos]
      simp [advance, hlt]
    · have hvalue := Tally.value (n := c.binds) hlt (.param hkind) .nil
      simpa [Token.param, hbody, hmark] using hvalue
    · exact ⟨by simp [Expr.fill, Param.fill], by simp [Expr.nodes, Node.leaves]⟩
    · refine ⟨{ c' with index := c'.index + 1 }, ?_, by simp [hindex]⟩
      have hsize : c'.index < x.filled.tokens.size := by
        rw [Filling.filled, Input.size_fill, hindex]
        exact hlt
      rw [hbinds]
      simp [advance, look, hsize, Bind.bind, Pure.pure]

/-- A parameter with a number or a name. -/
theorem param_keeps (hkind : (x.input.token k).kind = .param)
    (hmark : (x.input.token k).isMark = false) : Keeps x k param param (ExprOf x) := by
  have hlt : k < x.input.tokens.size := x.lt_size (by simp [hkind])
  have hbody : ((x.input.token k).body == "") = false := by simpa [Token.isMark, hkind] using hmark
  have htoken : x.filled.token k = x.input.token k := by
    rw [x.token_filled, Token.fill, hmark]
    rfl
  have htake (p : Param) (hp : ∀ n, (x.input.token k).param n = p) (hfill : p.fill x.value = .param p) :
      Keeps x k (advance >>= fun _ => Pure.pure (.param p)) (advance >>= fun _ => Pure.pure (.param p))
        (ExprOf x) := by
    have htally (n : Nat) : Tally x.input k n (k + 1) n [.param p] := by
      have hvalue := Tally.value hlt (.param (n := n) hkind) .nil
      rwa [hmark, hp n] at hvalue
    refine (Keeps.advance_of hlt htally htoken).bind fun _ _ _ _ hR => ?_
    obtain ⟨rfl, -, -, rfl⟩ := hR
    exact .pure ⟨by rw [Expr.fill, hfill], by simp [Expr.nodes, Node.leaves]⟩
  refine .peek (.rules ?_)
  rw [htoken]
  extract_lets body found
  rw [if_neg (by simpa [body, Token.body] using hbody)]
  split
  case h_1 n hn =>
    cases x.input.dialect.reading.numberedParams with
    | false => exact .missing _
    | true => exact htake (.numbered n) (fun _ => by rw [Token.param, hbody, Token.body, hn]; rfl) rfl
  case h_2 hn =>
    cases x.input.dialect.reading.namedParams with
    | false => exact .missing _
    | true => exact htake (.named body) (fun _ => by rw [Token.param, hbody, Token.body, hn]; rfl) rfl

theorem caseExpr_keeps (hdeep : deeper.Kept x) :
    Keeps x k (caseExpr deeper) (caseExpr deeper) (ExprOf x) := by
  refine (Keeps.expectWord _).skip fun _ _ => (Keeps.same_of_peeks (.checkWord _)).skip fun m simple => ?_
  extract_lets rest
  have hrest (o : Option Expr) (m : Nat) : Keeps x m (rest o) (rest (o.map (Expr.fill x.value)))
      (After (o.elim 0 fun e => leaves e.nodes) (ExprOf x)) := by
    refine (@Keeps.many _ x m (Branch.fill x.value) (fun b => leaves (branchNodes [b])) _ _
      fun _ => .optional (.eatWord _) fun j => ?_).andThen fun _ branches => ?_
    · refine (hdeep.expr 0 j).andThen fun _ c => (Keeps.expectWord _).skip fun j _ => ?_
      exact (hdeep.expr 0 j).andThen fun _ r => .pure ⟨by rw [Branch.fill], by simp [branchNodes]⟩
    · refine .ite (by simp) (fun _ => .before (q := unexpected) .unexpected) fun _ => ?_
      refine (Keeps.optional (.eatWord _) (hdeep.expr 0)).andThen fun _ last => ?_
      refine (Keeps.expectWord _).skip fun _ _ => .pure ⟨by simp [Expr.fill], ?_⟩
      simp [Expr.nodes, Node.leaves, leaves_optionNodes, leaves_branchNodes branches]
  refine .ite rfl (fun _ => (hrest none m).mono fun _ _ _ _ h => by simpa [After] using h) fun _ => ?_
  refine Keeps.bind (.map (S := Means (Option.map (Expr.fill x.value)) fun o =>
    o.elim 0 fun e => leaves e.nodes) (hdeep.expr 0 m) fun _ a b ls h => ?_) fun j o o' ls h => ?_
  · obtain ⟨rfl, rfl⟩ := h
    exact ⟨rfl, rfl⟩
  · obtain ⟨rfl, rfl⟩ := h
    exact hrest o j

theorem castExpr_keeps (hdeep : deeper.Kept x) (hplain : x.Plain k) (safe : Bool) :
    Keeps x k (castExpr deeper safe) (castExpr deeper safe) (ExprOf x) := by
  refine (Keeps.advance_same hplain).skip fun _ _ => .parenthesized (fun m => ?_) fun _ _ _ _ _ h => h
  refine (hdeep.expr 0 m).andThen fun _ e => (Keeps.expectWord _).skip fun _ _ => ?_
  refine dataType_keeps.andThen fun _ type => .pure ⟨?_, ?_⟩
  · rw [Expr.fill]
    rfl
  · simp [Expr.nodes, Node.leaves, add_comm]

theorem existsExpr_keeps (hdeep : deeper.Kept x) (negated : Bool) :
    Keeps x k (existsExpr deeper negated) (existsExpr deeper negated) (ExprOf x) := by
  refine (Keeps.parenthesized hdeep.query fun _ _ _ _ _ h => h).andThen fun _ q => .pure ⟨?_, ?_⟩
  · rw [Expr.fill]
  · simp [Expr.nodes, Node.leaves]

theorem intervalExpr_keeps (hop : ∀ k, Keeps x k operand operand (ExprOf x)) :
    Keeps x k (intervalExpr operand) (intervalExpr operand) (ExprOf x) := by
  refine (Keeps.expectWord _).skip fun m _ => .dialect ?_
  split
  · refine (hop m).andThen fun _ amount => dateField_keeps.skip fun _ unit => .pure ⟨?_, ?_⟩
    · rw [Expr.fill]
    · simp [Expr.nodes, Node.leaves]
  · refine .peek ?_
    dsimp only
    refine .ite (by rw [x.token_filled, Token.kind_fill_string]) (fun h => ?_)
      fun _ => .missing_before _
    have hk : (x.input.token m).kind = .string := by simpa using h
    rw [Filling.token_filled_of_kind (by simp [hk])]
    refine (Keeps.advance_value (by simp [hk]) fun _ => .string hk).bind fun _ _ _ _ hR => ?_
    obtain ⟨rfl, -, -, rfl⟩ := hR
    refine (Keeps.optional_same peekDateField_keeps fun _ => dateField_keeps).skip
      fun _ unit => .pure ⟨?_, ?_⟩
    · rw [Expr.fill, Expr.fill]
    · simp [Expr.nodes, Node.leaves, Literal.leaves]

/-- The forms that one word introduces. -/
theorem wordForm_keeps (hdeep : deeper.Kept x) (hop : ∀ k, Keeps x k operand operand (ExprOf x))
    (hplain : x.Plain k) {d : Dialect} {word : String} {called : Bool} {form : Parser Expr}
    (h : wordForm? deeper operand d word called = some form) : Keeps x k form form (ExprOf x) := by
  have hleaf (e : Expr) (hfill : e.fill x.value = e) (hleaves : leaves e.nodes = 0) :
      Keeps x k (advance >>= fun _ => Pure.pure e) (advance >>= fun _ => Pure.pure e) (ExprOf x) :=
    (Keeps.advance_same hplain).skip fun _ _ => .pure ⟨hfill.symm, hleaves.symm⟩
  cases wordForm_cases h with
  | null => exact hleaf _ (by rw [Expr.fill]) (by simp [Expr.nodes, Node.leaves, Literal.leaves])
  | truth _ => exact hleaf _ (by rw [Expr.fill]) (by simp [Expr.nodes, Node.leaves, Literal.leaves])
  | branches => exact caseExpr_keeps hdeep
  | cast => exact castExpr_keeps hdeep hplain false
  | existence _ => exact (Keeps.advance_same hplain).skip fun _ _ => existsExpr_keeps hdeep false
  | interval _ => exact intervalExpr_keeps hop
  | safeCast _ => exact castExpr_keeps hdeep hplain true
  | now _ => exact hleaf _ (by rw [Expr.fill]) (by simp [Expr.nodes, Node.leaves])

theorem temporalLiteral_keeps (hplain : x.Plain k) (hk : (x.input.token (k + 1)).kind = .string)
    (kind : TemporalKind) :
    Keeps x k (temporalLiteral kind) (temporalLiteral kind) (ExprOf x) := by
  refine .within fun hstart _ => (Keeps.advance hplain).bind fun m _ _ _ hm => ?_
  obtain ⟨rfl, -, -, rfl⟩ := hm
  refine (Keeps.advance_value (by simp [hk]) fun _ => .temporal hk kind).bind
    fun _ value value' _ hR => ?_
  obtain ⟨rfl, rfl, rfl, rfl⟩ := hR
  have hlt : k + 1 < x.input.tokens.size := x.lt_size (by simp [hk])
  refine .ite rfl (fun _ => .pure ⟨?_, ?_⟩) fun _ => .before (q := unexpected) (.unexpectedAt _ ?_)
  · rw [Expr.fill]
  · simp [Expr.nodes, Node.leaves, Literal.leaves]
  · exact ⟨k + 1, by omega, by omega, rfl⟩

theorem wordExpr_keeps (hdeep : deeper.Kept x) (hop : ∀ k, Keeps x k operand operand (ExprOf x))
    (hplain : x.Plain k) :
    Keeps x k (wordExpr deeper operand (x.input.token k)) (wordExpr deeper operand (x.input.token k))
      (ExprOf x) := by
  refine .within fun hstart hroom => .dialect (.peekNth 1 ?_)
  simp only [x.token_filled, Token.isSymbol_fill, Token.kind_fill_string]
  split
  case h_1 form hform => exact wordForm_keeps hdeep hop hplain hform
  split
  case h_1 kind hkind =>
    split at hkind
    case isTrue htyped =>
      simp only [Bool.and_eq_true, beq_iff_eq] at htyped
      exact temporalLiteral_keeps hplain htyped.2 kind
    case isFalse => cases hkind
  refine .ite rfl (fun _ => ?_) fun _ => .ite rfl (fun _ => .missing_before _) fun _ => ?_
  · exact (Keeps.advance_same hplain).skip fun _ _ => (Keeps.nameFunction _).skip fun _ _ =>
      call_keeps hdeep hop _ ⟨k, hstart, hroom, rfl⟩ _
  · exact chain_keeps hdeep hop

theorem primary_keeps (hdeep : deeper.Kept x) (hop : ∀ k, Keeps x k operand operand (ExprOf x)) :
    Keeps x k (primary deeper operand) (primary deeper operand) (ExprOf x) := by
  refine .peek ?_
  cases hk : (x.input.token k).kind
  case param =>
    cases hmark : (x.input.token k).isMark with
    | true =>
      rw [x.token_filled, Token.fill, hmark]
      exact param_bare hmark
    | false =>
      rw [x.token_filled, Token.fill, hmark]
      simp only [Bool.false_eq_true, if_false, hk]
      exact param_keeps hk hmark
  all_goals rw [Filling.token_filled_of_kind (by simp [hk]), hk]
  case number =>
    refine (Keeps.advance_value (by simp [hk]) fun _ => .number hk).bind fun _ _ _ _ hR => ?_
    obtain ⟨-, -, -, rfl⟩ := hR
    exact .pure ⟨by rw [Expr.fill], by simp [Expr.nodes, Node.leaves, Literal.leaves]⟩
  case string =>
    refine (Keeps.advance_value (by simp [hk]) fun _ => .string hk).bind fun _ _ _ _ hR => ?_
    obtain ⟨-, -, -, rfl⟩ := hR
    exact .pure ⟨by rw [Expr.fill], by simp [Expr.nodes, Node.leaves, Literal.leaves]⟩
  case word | keyword =>
    exact wordExpr_keeps hdeep hop (.of_bareWord (by simp [Token.isBareWord, hk]))
  case quotedName => exact chain_keeps hdeep hop
  case punctuation =>
    refine .ite rfl (fun _ => .parenthesized (fun _ => ?_) fun _ _ _ _ _ h => h) fun _ => .missing _
    refine .test peekQuery_keeps (fun m => ?_) fun m => ?_
    · refine (hdeep.query m).andThen fun _ q => .pure ⟨by rw [Expr.fill], ?_⟩
      simp [Expr.nodes, Node.leaves]
    · refine (hdeep.expr 0 m).andThen fun _ e => .pure ⟨by rw [Expr.fill], ?_⟩
      simp [Expr.nodes, Node.leaves]
  all_goals exact .missing _

/-! ### Operands -/

theorem unaryOp_fill (value : String) (t : Token) : unaryOp? (t.fill value) = unaryOp? t := by
  unfold Token.fill
  split
  case isTrue h => simp [unaryOp?, Token.kind_of_isMark h]
  case isFalse => rfl

theorem Filling.Plain.of_operator (h : (x.input.token k).kind = .operator) : x.Plain k :=
  ⟨x.lt_size (by simp [h]), by simp [h, Token.Kind.isValue]⟩

theorem Filling.Plain.of_unaryOp {op : UnaryOp} (h : unaryOp? (x.input.token k) = some op) :
    x.Plain k := by
  refine .of_operator ?_
  by_contra hk
  simp [unaryOp?, hk] at h

theorem operandWith_keeps (hdeep : deeper.Kept x) (hop : ∀ k, Keeps x k operand operand (ExprOf x)) :
    Keeps x k (operandWith deeper operand) (operandWith deeper operand) (ExprOf x) := by
  have hunary (op : UnaryOp) (p : Precedence) (m : Nat) :
      Keeps x m (deeper.expr p >>= fun e => Pure.pure (.unary op e))
        (deeper.expr p >>= fun e => Pure.pure (.unary op e)) (ExprOf x) :=
    (hdeep.expr p m).andThen fun _ e =>
      .pure ⟨by rw [Expr.fill], by simp [Expr.nodes, Node.leaves]⟩
  refine .test (.eatWord _) (fun _ => ?_) fun m => .peek ?_
  · exact .test (.eatWord _) (fun _ => existsExpr_keeps hdeep true) fun m => hunary .not _ m
  · rw [x.token_filled, unaryOp_fill]
    split
    case h_1 op hsome => exact (Keeps.advance_same (.of_unaryOp hsome)).skip fun m _ => hunary op _ m
    case h_2 => exact primary_keeps hdeep hop

theorem operandUpTo_keeps (hdeep : deeper.Kept x) (n k : Nat) :
    Keeps x k (operandUpTo deeper n) (operandUpTo deeper n) (ExprOf x) := by
  induction n generalizing k with
  | zero => exact .unexpected
  | succ n ih => exact operandWith_keeps hdeep ih

theorem operandFrom_keeps (hdeep : deeper.Kept x) :
    Keeps x k (operandFrom deeper) (operandFrom deeper) (ExprOf x) :=
  .remaining (operandUpTo_keeps hdeep _ k)

/-! ### Operators -/

/-- What is read behind `left`, which has its own values. -/
abbrev JoinedOf (x : Filling) (left : Expr) : Nat → Expr → Expr → Multiset Leaf → Prop :=
  After (leaves left.nodes) (ExprOf x)

theorem membership_keeps (hdeep : deeper.Kept x) (left : Expr) (negated : Bool) :
    Keeps x k (membership deeper left negated) (membership deeper (left.fill x.value) negated)
      (JoinedOf x left) := by
  refine .parenthesized (fun _ => .test peekQuery_keeps (fun m => ?_) fun m => ?_) fun _ _ _ _ _ h => h
  · refine (hdeep.query m).andThen fun _ q => .pure ⟨by rw [Expr.fill], ?_⟩
    simp [Expr.nodes, Node.leaves]
  · refine (Keeps.commaSeparated (hdeep.expr 0)).andThen fun _ items => .pure ⟨?_, ?_⟩
    · simp [Expr.fill]
    · simp [Expr.nodes, Node.leaves, leaves_exprNodes]

theorem predicate_keeps (hdeep : deeper.Kept x) (left : Expr) :
    Keeps x k (predicate deeper left) (predicate deeper (left.fill x.value)) (JoinedOf x left) := by
  refine (Keeps.eatWord _).skip fun _ negated => .test (.eatWord _) (fun m => ?_) fun _ => ?_
  · refine (hdeep.expr _ m).andThen fun _ low => (Keeps.expectWord _).skip fun m _ => ?_
    refine (hdeep.expr _ m).andThen fun _ high => .pure ⟨by rw [Expr.fill], ?_⟩
    simp [Expr.nodes, Node.leaves]
  refine .test (.eatWord _) (fun _ => membership_keeps hdeep left negated) fun _ => ?_
  refine .test (.eatWord _) (fun m => ?_) fun _ => (Keeps.expectWord _).skip fun m _ => ?_
  all_goals
    refine (hdeep.expr _ m).andThen fun _ pattern => ?_
    refine (Keeps.optional (.eatWord _) fun _ => operandFrom_keeps hdeep).andThen
      fun _ escape => .pure ⟨by simp [Expr.fill], ?_⟩
    simp [Expr.nodes, Node.leaves, leaves_optionNodes]

theorem joined_keeps (hdeep : deeper.Kept x) (hplain : x.Plain k) (left : Expr) (c : Connective)
    (p : Precedence) :
    Keeps x k (joined deeper left c p) (joined deeper (left.fill x.value) c p) (JoinedOf x left) := by
  cases c with
  | binary op =>
    refine (Keeps.advance_same hplain).skip fun m _ => (hdeep.expr p m).andThen fun _ right => ?_
    exact .pure ⟨by rw [Expr.fill], by simp [Expr.nodes, Node.leaves]⟩
  | doubleColon =>
    refine (Keeps.advance_same hplain).skip fun _ _ => dataType_keeps.andThen fun _ type => ?_
    exact .pure ⟨by rw [Expr.fill]; rfl, by simp [Expr.nodes, Node.leaves, add_comm]⟩
  | is =>
    refine (Keeps.advance_same hplain).skip fun _ _ => (Keeps.eatWord _).skip fun _ negated => ?_
    refine (Keeps.expectWord _).skip fun _ _ => .pure ⟨by rw [Expr.fill], ?_⟩
    simp [Expr.nodes, Node.leaves]
  | predicate => exact predicate_keeps hdeep left

theorem connective_fill (r : ReadingRules) (t next : Token) (value value' : String) :
    connective? r (t.fill value) (next.fill value') = connective? r t next := by
  unfold connective?
  simp only [Token.isWord_fill, Token.isBareWord_fill]
  cases hmark : t.isMark with
  | true => simp [Token.fill, Token.isBareWord, hmark, Token.kind_of_isMark hmark]
  | false => simp [Token.fill, hmark]

theorem Filling.Plain.of_connective {r : ReadingRules} {next : Token} {c : Connective × Precedence}
    (h : connective? r (x.input.token k) next = some c) : x.Plain k := by
  unfold connective? at h
  split at h
  case isTrue hword => exact .of_bareWord hword
  split at h
  case isTrue hk => exact .of_operator (by simpa using hk)
  case isFalse => cases h

theorem moreOperands_keeps (hdeep : deeper.Kept x) (least : Precedence) (left : Expr) :
    Keeps x k (moreOperands deeper least left) (moreOperands deeper least (left.fill x.value))
      fun _ o o' ls => o' = o.map (Expr.fill x.value) ∧
        leaves left.nodes + ls = leaves (o.getD left).nodes ∧ ∀ e ∈ o, True := by
  refine .rules (.peek (.peekNth 1 ?_))
  rw [x.token_filled, x.token_filled, connective_fill]
  split
  case h_2 => exact .pure ⟨rfl, by simp, by simp⟩
  case h_1 c p hsome =>
    split
    · exact .pure ⟨rfl, by simp, by simp⟩
    · refine (joined_keeps hdeep (.of_connective hsome) left c p).bind fun _ e e' ls hR => .pure ?_
      exact ⟨by rw [hR.1]; rfl, by simpa using hR.2, by simp⟩

theorem subexpr_keeps (hdeep : deeper.Kept x) (least : Precedence) :
    Keeps x k (subexpr deeper least) (subexpr deeper least) (ExprOf x) :=
  (operandFrom_keeps hdeep).andThen fun _ _ =>
    (Keeps.iterate trivial fun _ e _ => moreOperands_keeps hdeep least e).mono
      fun _ _ _ _ hR => ⟨hR.1, hR.2.1⟩

end Expressions

end SqlDialects
