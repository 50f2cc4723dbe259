import SqlDialects.Proofs.OffsetClauses
import SqlDialects.Proofs.Productions
import SqlDialects.Proofs.Truncation

/-!
# What a prefix of accepted tokens fails with

* `Cut.Dotted` : names with dots between them up to the cut, which may have lost their star;
* `Deeper.Steady`, `Operands` : productions that follow the whole up to the cut;
* `subexpr_waits`, `queryWith_waits` : what the first word of a phrase is read as that is cut off;
* `iterateLimit_none` : the clauses of a row limit that is cut off;
* `nested_steady`, `statement_cuts` : every production on the kept tokens follows the whole up to the
  cut;
* `prefix_fails_at_end` : a prefix of accepted tokens that is refused is refused at its end, but for
  the ways in which the grammar blames an earlier token.
-/

namespace SqlDialects

open SqlDialects.Parser

namespace Cut

variable {x : Cut}

/-- The kept tokens from `k` on are names with dots between them. -/
def Dotted (x : Cut) (k : Nat) : Prop :=
  ∀ j, k + 2 * j < x.size → (x.piece.token (k + 2 * j)).isName = true ∧
    (k + 2 * j + 1 < x.size → (x.piece.token (k + 2 * j + 1)).isSymbol "." = true)

theorem Dotted.head {k : Nat} (h : x.Dotted k) (hk : k < x.size) : (x.piece.token k).isName = true :=
  (h 0 hk).1

theorem Dotted.dot {k : Nat} (h : x.Dotted k) (hk : k + 1 < x.size) :
    (x.piece.token (k + 1)).isSymbol "." = true :=
  (h 0 (by omega)).2 hk

theorem Dotted.tail {k : Nat} (h : x.Dotted k) : x.Dotted (k + 2) := by
  intro j hj
  have := h (j + 1) (by omega)
  rwa [show k + 2 * (j + 1) = k + 2 + 2 * j by omega] at this

theorem Parted.lt {k : Nat} (h : x.Parted k) : k < x.size := by
  obtain ⟨n, -, hk, -⟩ := h
  exact hk

theorem Parted.dotted {k : Nat} (h : x.Parted k) : x.Dotted k := by
  obtain ⟨n, hstar, hk, hn⟩ := h
  intro j hj
  obtain ⟨hname, hdot⟩ := hstar.names j (by omega)
  exact ⟨by rwa [token_of_lt hj], fun hj' => by rwa [token_of_lt hj']⟩

end Cut

/-- `D` levels down, the productions one more level down follow the whole up to the cut. -/
structure Deeper.Steady (x : Cut) (D : Nat) (deeper : Deeper) : Prop where
  expr : ∀ p N, Cuts x D N (deeper.expr p) (deeper.expr p)
  query : ∀ N, Cuts x D N deeper.query deeper.query
  here : deeper.Local x.self
  /-- Where an expression is read, a level is left for it. -/
  room : ∀ p c e d, deeper.expr p x.whole c = (.ok e, d) → c.depth < maxDepth
  /-- The names of a qualified star that has lost its star are read as an expression. -/
  names : ∀ p c, c.depth = D → x.Parted c.index → x.Ends c (deeper.expr p x.piece c)

theorem Deeper.Steady.room_list {x : Cut} {D : Nat} {deeper : Deeper} (h : deeper.Steady x D) (p : Precedence)
    (c : Cursor) (es : List Expr) (d : Cursor) (hrun : commaSeparated (deeper.expr p) x.whole c = (.ok es, d)) :
    c.depth < maxDepth := by
  obtain ⟨e, d', hfirst, -⟩ := Parser.of_bind_ok hrun
  exact h.room p c e d' hfirst

/-- The operands inside an operand follow the whole up to the cut, also where it parts a phrase. -/
structure Operands (x : Cut) (D N : Nat) (operand operand' : Parser Expr) : Prop where
  cuts : Cuts x D N operand operand'
  waits : ∀ c, x.Waits c → c.depth = D → x.Ends c (operand' x.piece c)

section Types

variable {x : Cut} {D N : Nat}

theorem moreTypeWords_cuts (names : Table String TypeKind) (w : TypeWords) :
    Cuts x D N (moreTypeWords names w) (moreTypeWords names w) := by
  refine .peek fun t => ?_
  dsimp only
  split
  · exact Cuts.advance.bind fun _ => .pure _
  · exact .pure _

theorem typeArg_cuts : Cuts x D N typeArg typeArg := by
  have htake (text : String) : Cuts x D N (advance >>= fun _ => Pure.pure text)
      (advance >>= fun _ => Pure.pure text) :=
    Cuts.advance.bind fun _ => .pure _
  refine .peek fun t => ?_
  split
  · exact htake _
  · exact htake _
  · exact htake _
  · exact htake _
  · exact (Cuts.note _ _).bind fun _ => .unexpected

theorem dataType_cuts : Cuts x D N dataType dataType := by
  refine .rules (.peek fun t => ?_)
  dsimp only
  split
  · refine Cuts.advance.bind fun _ => ?_
    refine (Cuts.iterate (fun w => .of_mirrors fun _ => moreTypeWords_mirrors _ w)
      (fun w => moreTypeWords_cuts _ w) _).bind fun words => ?_
    refine (Cuts.optionalList (.eatSymbol _) ?_).bind fun args => .pure _
    exact (Cuts.commaSeparated (fun _ => typeArg_mirrors) typeArg_cuts).bind fun args =>
      (Cuts.expectSymbol _).bind fun _ => .pure _
  · exact (Cuts.note _ _).bind fun _ => .stop

end Types

/-! ## Expressions -/

section Expressions

variable {x : Cut} {D N : Nat} {deeper : Deeper} {operand operand' : Parser Expr}

theorem direction_cuts : Cuts x D N direction direction :=
  .test (.eatWord _) (.pure _) (.test (.eatWord _) (.pure _) (.pure _))

theorem orderBy_cuts (hdeep : deeper.Steady x D) :
    Cuts x D N (orderBy deeper) (orderBy deeper) := by
  refine .optionalWords (by decide) (fun c r e hrun => ?_) (.commaSeparated (fun n => ?_) ?_)
  · obtain ⟨_, _, hitem, -⟩ := Parser.of_bind_ok hrun
    obtain ⟨key, d, hkey, -⟩ := Parser.of_bind_ok hitem
    exact hdeep.room 0 c key d hkey
  · refine (hdeep.here.expr 0 n).andThen fun _ key => direction_mirrors.andThen fun _ ascending => ?_
    refine (Mirrors.optional (.onlyIf_supports _ (.eatWord _)) fun m _ => ?_).andThen
      fun _ nullsFirst => .pure trivial
    exact .takes (.eatWord _) (fun _ _ => .pure trivial)
      (.takes (.eatWord _) (fun _ _ => .pure trivial) (.fails .unexpected .unexpected))
  · refine (hdeep.expr 0 N).bind fun key => direction_cuts.bind fun ascending => ?_
    refine (Cuts.optional (.onlyIf_supports _ (.eatWord _)) ?_).bind fun nullsFirst => .pure _
    exact .test (.eatWord _) (.pure _) (.test (.eatWord _) (.pure _) .unexpected)

theorem frameBound_cuts (hop : Operands x D N operand operand') :
    Cuts x D N (frameBound operand) (frameBound operand') := by
  have hword {N : Nat} (word : String) (b b' : Bound) : Cuts x D N
      (eatWord word >>= fun early => if early then Pure.pure b else expectWord "FOLLOWING" >>= fun _ => Pure.pure b')
      (eatWord word >>= fun early => if early then Pure.pure b else
        expectWord "FOLLOWING" >>= fun _ => Pure.pure b') :=
    .test (.eatWord _) (.pure _) ((Cuts.expectWord _).bind fun _ => .pure _)
  refine .wordsThen (fun current => ?_) fun c e hd hc _ h => .inr ?_
  · cases current with
    | true => exact .pure _
    | false => exact .test (.eatWord _) (hword _ _ _) (hop.cuts.bind fun offset => hword _ _ _)
  · -- the row that is missing behind `CURRENT` makes this word an operand
    have hwaits := h.waits (by decide) hc
    obtain ⟨d, hno, hd'⟩ := hwaits.eatWord (hwaits.other (show Text.upper "UNBOUNDED" ∉ phraseWords by decide))
    rw [if_neg Bool.false_ne_true, Parser.bind_ok hno, if_neg Bool.false_ne_true]
    have hdepth := (Parser.depth_of_run hno).trans ((Parser.depth_of_run h.run).trans hd)
    refine Cut.Ends.weaken (hwaits.index_le hd') ?_
    exact Cuts.behind (hop.waits d hd' hdepth) hdepth fun offset => hword "PRECEDING" _ _

theorem windowFrame_cuts (hop : Operands x D N operand operand') :
    Cuts x D N (windowFrame operand) (windowFrame operand') := by
  have hbounds (unit : FrameUnit) : Cuts x D N
      (eatWord "BETWEEN" >>= fun b => if b then
        frameBound operand >>= fun start => expectWord "AND" >>= fun _ =>
          frameBound operand >>= fun stop => Pure.pure (⟨unit, start, some stop⟩ : Frame)
        else frameBound operand >>= fun start => Pure.pure ⟨unit, start, none⟩)
      (eatWord "BETWEEN" >>= fun b => if b then
        frameBound operand' >>= fun start => expectWord "AND" >>= fun _ =>
          frameBound operand' >>= fun stop => Pure.pure (⟨unit, start, some stop⟩ : Frame)
        else frameBound operand' >>= fun start => Pure.pure ⟨unit, start, none⟩) := by
    refine .test (.eatWord _) ?_ ((frameBound_cuts hop).bind fun _ => .pure _)
    exact (frameBound_cuts hop).bind fun _ => (Cuts.expectWord _).bind fun _ =>
      (frameBound_cuts hop).bind fun _ => .pure _
  exact .test (.eatWord _) (hbounds .rows) ((Cuts.expectWord _).bind fun _ => hbounds .range)

theorem checkFrame_cuts : Cuts x D N checkFrame checkFrame :=
  .test (.checkWord _) (.pure _) (.checkWord _)

/-- The operands of a window stand behind a parenthesis. -/
theorem window_cuts (hdeep : deeper.Steady x D) (hop : Operands x D N operand operand') :
    Cuts x D (N + 1) (window deeper operand) (window deeper operand') := by
  refine .parenthesized ?_
  refine (Cuts.optionalWords (by decide) (hdeep.room_list 0)
    (.commaSeparated (hdeep.here.expr 0) (hdeep.expr 0 N))).bind fun keys => ?_
  refine (orderBy_cuts hdeep).bind fun order => ?_
  exact (Cuts.optional checkFrame_cuts (windowFrame_cuts hop)).bind fun frame => .pure _

/-! ### Calls -/

theorem peekDateField_cuts : Cuts x D N peekDateField peekDateField := .peek fun _ => .pure _

theorem dateField_cuts : Cuts x D N dateField dateField := by
  refine .peek fun t => ?_
  split
  · exact Cuts.advance.bind fun _ => .pure _
  · exact (Cuts.note _ _).bind fun _ => .unexpected

theorem callArgs_cuts (hdeep : deeper.Steady x D) (upper : String) :
    Cuts x D N (callArgs deeper upper) (callArgs deeper upper) := by
  have hexpr (p : Precedence) : Cuts x D N (deeper.expr p) (deeper.expr p) := hdeep.expr p N
  have hmore (first : Expr) : Cuts x D N
      (afterCommas (deeper.expr 0) >>= fun rest => Pure.pure (.expr first :: rest.map Arg.expr))
      (afterCommas (deeper.expr 0) >>= fun rest => Pure.pure (.expr first :: rest.map Arg.expr)) :=
    (Cuts.afterCommas (hdeep.here.expr 0) (hexpr 0)).bind fun _ => .pure _
  unfold callArgs
  dsimp only
  split
  · refine (hexpr _).bind fun needle => .test (.eatWord _) ?_ (hmore needle)
    exact (hexpr 0).bind fun _ => .pure _
  · refine (hexpr 0).bind fun first => .test (.onlyIf _ (.eatWord _)) ?_ (hmore first)
    refine (hexpr 0).bind fun start => ?_
    exact (Cuts.optional (.eatWord _) (hexpr 0)).bind fun _ => .pure _

theorem callBody_cuts (hdeep : deeper.Steady x D) (upper : String) :
    Cuts x D N (callBody deeper upper) (callBody deeper upper) := by
  refine .test (.eatSymbol _) (.pure _) ((Cuts.eatWord _).bind fun distinct => ?_)
  refine .test (.eatSymbol _) ?_ ?_
  · exact (Cuts.expectSymbol _).bind fun _ => .pure _
  · exact (callArgs_cuts hdeep upper).bind fun _ => (Cuts.expectSymbol _).bind fun _ => .pure _

/-- No function is refused. -/
theorem canonicalCall_cuts (name : String) (args : List Arg) (position : Position) :
    Cuts x D N (canonicalCall name args position) (canonicalCall name args position) := by
  refine .rules ?_
  rw [x.accepts]
  dsimp only
  split
  · exact .pure _
  split
  · exact .pure _
  · exact .pure _
  · split <;> exact .pure _

theorem extraction_cuts (hdeep : deeper.Steady x D) {separator : Parser Unit}
    (hs : Cuts x D N separator separator) :
    Cuts x D N (extraction deeper separator) (extraction deeper separator) := by
  refine .parens (dateField_cuts.bind fun field => hs.bind fun _ => ?_)
  exact (hdeep.expr 0 N).bind fun _ => .pure _

theorem conditional_cuts (hdeep : deeper.Steady x D) :
    Cuts x D N (conditional deeper) (conditional deeper) := by
  refine .parens ((hdeep.expr 0 N).bind fun c => (Cuts.expectSymbol _).bind fun _ => ?_)
  refine (hdeep.expr 0 N).bind fun y => (Cuts.expectSymbol _).bind fun _ => ?_
  exact (hdeep.expr 0 N).bind fun _ => .pure _

theorem call_cuts (hdeep : deeper.Steady x D) (hop : Operands x D N operand operand') (name : String)
    (position : Position) :
    Cuts x D (N + 1) (call deeper operand name position) (call deeper operand' name position) := by
  refine .dialect ?_
  dsimp only
  split
  · exact extraction_cuts hdeep (.expectWord _)
  split
  · exact extraction_cuts hdeep (.expectSymbol _)
  split
  · exact conditional_cuts hdeep
  split
  · exact (Cuts.expectSymbol _).bind fun _ => (Cuts.expectSymbol _).bind fun _ => .pure _
  · refine (Cuts.expectSymbol _).bind fun _ => (callBody_cuts hdeep _).bind fun r => ?_
    refine (canonicalCall_cuts name _ _).bind fun r' => ?_
    exact (Cuts.optional (.eatWord _) (window_cuts hdeep hop)).bind fun _ => .pure _

/-! ### Primaries -/

theorem peekQuery_cuts : Cuts x D N peekQuery peekQuery := .peek fun _ => .pure _

/-- A dot that has lost what followed it is taken, and the name behind it is missing. -/
theorem chainPart_cuts : Cuts x D N chainPart chainPart := by
  intro n hn
  have htake : Cuts x D N (advance >>= fun _ => name >>= fun part => Pure.pure (some part))
      (advance >>= fun _ => name >>= fun part => Pure.pure (some part)) :=
    Cuts.advance.bind fun _ => Cuts.name.bind fun _ => .pure _
  refine .peekSymbol "." (.peekBehind (fun u _ => ?_) fun hone _ => ?_)
  · split
    · exact htake n hn
    · exact .pure _
  · rw [x.isSymbol_finish]
    obtain rfl := hone
    cases (x.back 1).isSymbol "." with
    | false => exact .pure _
    | true => exact .last fun _ => (Cuts.name.bind fun _ => .pure _) 0 Nat.one_pos

/-- The end of a dotted name or of a call, behind the names `first` and `rest`. -/
def chainEnd (deeper : Deeper) (operand : Parser Expr) (position : Position) (first : Name)
    (rest : List Name) : Parser Expr := do
  let parts := first :: rest
  let quoted := (rest.getLastD first).quoted
  if (← peekSymbol "(") && !quoted then
    nameFunction parts
    return ← call deeper operand (QualifiedName.dotted parts) position
  return if rest.isEmpty then .name first else .path parts

theorem chain_eq (deeper : Deeper) (operand : Parser Expr) : chain deeper operand =
    peek >>= fun t => name >>= fun first => many chainPart >>= chainEnd deeper operand t.position first :=
  rfl

theorem chain_run {i : Input} {c e : Cursor} {first : Name} (deeper : Deeper) (operand : Parser Expr)
    (h : name i c = (.ok first, e)) : chain deeper operand i c =
      (many chainPart >>= chainEnd deeper operand (i.token c.index).position first) i e := by
  have hpeek : peek i c = (.ok (i.token c.index), c) := rfl
  rw [chain_eq, Parser.bind_ok hpeek, Parser.bind_ok h]

theorem chainEnd_cuts (hdeep : deeper.Steady x D) (hop : Operands x D N operand operand')
    (position : Position) (first : Name) (rest : List Name) :
    Cuts x D (N + 1) (chainEnd deeper operand position first rest)
      (chainEnd deeper operand' position first rest) := by
  refine (Cuts.peekSymbol _).bind fun called => ?_
  split
  · exact (Cuts.nameFunction _).bind fun _ => call_cuts hdeep hop _ _
  · exact .pure _

theorem chain_cuts (hdeep : deeper.Steady x D) (hop : Operands x D N operand operand') :
    Cuts x D (N + 1) (chain deeper operand) (chain deeper operand') :=
  .peek fun t => Cuts.name.bind fun first =>
    (Cuts.many (.of_mirrors fun _ => chainPart_mirrors) chainPart_cuts).bind
      (chainEnd_cuts hdeep hop t.position first)

theorem param_cuts : Cuts x D N param param := by
  refine .peek fun t => .rules ?_
  extract_lets body found
  have hfound (o : Option Param) : Cuts x D N (found o) (found o) := by
    cases o with
    | none => exact (Cuts.note _ _).bind fun _ => .unexpected
    | some p => exact Cuts.advance.bind fun _ => .pure _
  split
  · split
    · exact (Cuts.map .nextBind).bind hfound
    · exact hfound none
  · split
    · exact hfound _
    · exact hfound _

theorem caseExpr_cuts (hdeep : deeper.Steady x D) :
    Cuts x D N (caseExpr deeper) (caseExpr deeper) := by
  have hexpr := hdeep.expr 0 N
  refine (Cuts.expectWord _).bind fun _ => (Cuts.checkWord _).bind fun simple => ?_
  extract_lets rest
  have hrest (o : Option Expr) : Cuts x D N (rest o) (rest o) := by
    refine (Cuts.many (.of_mirrors fun n => .optional (.eatWord _) fun m _ => ?_)
      (.optional (.eatWord _) ?_)).bind fun branches => ?_
    · refine (hdeep.here.expr 0 m).andThen fun _ c => (Mirrors.expectWord _).andThen fun k _ => ?_
      exact (hdeep.here.expr 0 k).andThen fun _ _ => .pure trivial
    · exact hexpr.bind fun _ => (Cuts.expectWord _).bind fun _ => hexpr.bind fun _ => .pure _
    · extract_lets close
      have hclose (u : Unit) : Cuts x D N (close u) (close u) :=
        (Cuts.optional (.eatWord _) hexpr).bind fun _ => (Cuts.expectWord _).bind fun _ => .pure _
      split
      · exact .stop
      · exact hclose ()
  split
  · exact hrest none
  · exact (Cuts.map hexpr).bind hrest

theorem castExpr_cuts (hdeep : deeper.Steady x D) (safe : Bool) :
    Cuts x D N (castExpr deeper safe) (castExpr deeper safe) := by
  refine Cuts.advance.bind fun _ => .parens ((hdeep.expr 0 N).bind fun e => ?_)
  exact (Cuts.expectWord _).bind fun _ => dataType_cuts.bind fun _ => .pure _

theorem existsExpr_cuts (hdeep : deeper.Steady x D) (negated : Bool) :
    Cuts x D N (existsExpr deeper negated) (existsExpr deeper negated) :=
  (Cuts.parens (hdeep.query N)).bind fun _ => .pure _

/-- The amount of an interval stands behind a word. -/
theorem intervalExpr_cuts (hop : Operands x D N operand operand') :
    Cuts x D (N + 1) (intervalExpr operand) (intervalExpr operand') := by
  refine .behindWord _ (.dialect ?_)
  split
  · exact hop.cuts.bind fun _ => dateField_cuts.bind fun _ => .pure _
  · refine .peek fun t => ?_
    dsimp only
    split
    · refine Cuts.advance.bind fun _ => ?_
      exact (Cuts.optional peekDateField_cuts dateField_cuts).bind fun _ => .pure _
    · exact (Cuts.note _ _).bind fun _ => .stop

theorem wordForm_cuts (hdeep : deeper.Steady x D) (hop : Operands x D N operand operand') (d : Dialect)
    (word : String) (called : Bool) :
    Option.Rel (Cuts x D (N + 1) · ·) (wordForm? deeper operand d word called)
      (wordForm? deeper operand' d word called) := by
  have hleaf (e : Expr) : Option.Rel (Cuts x D (N + 1) · ·) (some (advance >>= fun _ => Pure.pure e))
      (some (advance >>= fun _ => Pure.pure e)) :=
    .some (Cuts.advance.bind fun _ => .pure _)
  refine rel_ite (hleaf _) (rel_ite (hleaf _) (rel_ite (.some (caseExpr_cuts hdeep)) ?_))
  refine rel_ite (.some (castExpr_cuts hdeep false)) (rel_ite (.some ?_) ?_)
  · exact Cuts.advance.bind fun _ => existsExpr_cuts hdeep false
  refine rel_ite (.some (intervalExpr_cuts hop)) ?_
  refine rel_ite (.some (castExpr_cuts hdeep true)) (rel_ite .none ?_)
  cases d.reading.nowWords.find? (·.1 == word) with
  | none => exact .none
  | some entry => exact hleaf _

/-- The rest of an expression that starts with the bare word `t`, once it is known whether a parenthesis
or a string follows. -/
def wordBehind (deeper : Deeper) (operand : Parser Expr) (d : Dialect) (t : Token)
    (called quoted : Bool) : Parser Expr := do
  if let some form := wordForm? deeper operand d (Text.upper t.text) called then
    return ← form
  let typed := d.reading.typedLiterals && t.kind == .word && quoted
  if let some kind := (if typed then TemporalKind.ofKeyword? (Text.upper t.text) else none) then
    return ← temporalLiteral kind
  if called && (t.kind == .word || keywordFunctions.contains (Text.upper t.text)) then
    let _ ← advance
    nameFunction [⟨t.text, false⟩]
    return ← call deeper operand t.text t.position
  if t.kind == .keyword then
    expectHere "expression"
    unexpected
  chain deeper operand

theorem wordExpr_eq (deeper : Deeper) (operand : Parser Expr) (t : Token) :
    wordExpr deeper operand t = dialect >>= fun d => peekNth 1 >>= fun next =>
      wordBehind deeper operand d t (next.isSymbol "(") (next.kind == .string) := rfl

theorem wordExpr_run (deeper : Deeper) (operand : Parser Expr) (t : Token) (i : Input) (c : Cursor) :
    wordExpr deeper operand t i c = wordBehind deeper operand i.dialect t
      ((i.token (c.index + 1)).isSymbol "(") ((i.token (c.index + 1)).kind == .string) i c := by
  rw [wordExpr_eq]
  rfl

/-- A typed constant, whose string is the same on the whole. -/
theorem temporalLiteral_cuts {n : Nat} (hn : 1 < n) (kind : TemporalKind) :
    CutsAt x D n (temporalLiteral kind) (temporalLiteral kind) := by
  have hinside := x.inside
  have hsize := x.piece_size
  have hrun {i : Input} {c : Cursor} (hc : c.index + 1 < i.tokens.size) : temporalLiteral kind i c =
      (if Temporal.isValid kind (i.token (c.index + 1)).text then
        .ok (.literal (.temporal kind (i.token (c.index + 1)).text))
      else .error (.unexpected (i.token (c.index + 1)).position [s!"valid {kind.keyword} literal"]
        (i.token (c.index + 1)).describe), { c with index := c.index + 2 }) := by
    by_cases hvalid : Temporal.isValid kind (i.token (c.index + 1)).text = true <;>
      simp [temporalLiteral, advance, unexpectedAt, fail, Bind.bind, Pure.pure, look,
        show c.index < i.tokens.size by omega, hc, hvalid]
  refine .step (fun c hc hlate => ?_) fun c hc _ a e hok => ?_
  · obtain ⟨m, hm, hrest⟩ := hlate.rest
    omega
  · have hpiece : temporalLiteral kind x.piece c = temporalLiteral kind x.whole c := by
      rw [hrun (by omega), hrun (by omega), Cut.token_of_lt (by omega)]
    have hindex : e.index = c.index + 2 := by
      rw [hrun (by omega)] at hok
      exact congrArg (fun r => r.2.index) hok.symm
    exact ⟨hpiece.trans hok, by omega, by omega⟩

/-- With the same token behind the word. -/
theorem wordBehind_cuts (hdeep : deeper.Steady x D) (hop : Operands x D N operand operand') {n : Nat}
    (hn : n < N + 1) (d : Dialect) (t : Token) (called : Bool) {quoted : Bool}
    (hquoted : quoted = true → 1 < n) :
    CutsAt x D n (wordBehind deeper operand d t called quoted)
      (wordBehind deeper operand' d t called quoted) := by
  unfold wordBehind
  have hforms := wordForm_cuts hdeep hop d (Text.upper t.text) called
  generalize wordForm? deeper operand _ _ _ = o at hforms ⊢
  generalize wordForm? deeper operand' _ _ _ = o' at hforms ⊢
  cases hforms with
  | some hform => exact hform n hn
  | none =>
    dsimp only
    split
    case h_1 kind hkind =>
      split at hkind
      case isTrue htyped =>
        simp only [Bool.and_eq_true] at htyped
        exact temporalLiteral_cuts (hquoted htyped.2) kind
      case isFalse => cases hkind
    split
    · exact (Cuts.advance.bind fun _ => (Cuts.nameFunction _).bind fun _ => call_cuts hdeep hop _ _) n hn
    split
    · exact ((Cuts.note _ _).bind fun _ => .stop) n hn
    · exact chain_cuts hdeep hop n hn

theorem name_run {i : Input} {c : Cursor} (hc : c.index < i.tokens.size)
    (hname : (i.token c.index).isName = true) :
    name i c = (.ok ⟨(i.token c.index).text, (i.token c.index).kind == .quotedName⟩,
      { c with index := c.index + 1 }) := by
  simp [name, peek, peekNth, advance, Bind.bind, Pure.pure, look, hname, hc]

theorem name_fails {i : Input} {c : Cursor} (hname : (i.token c.index).isName = false) :
    ∃ f e, name i c = (.error f, e) := by
  have hrun : name i c = (expectHere "identifier" >>= fun _ => unexpected) i c := by
    simp [name, peek, peekNth, look, Bind.bind, hname]
  rw [hrun]
  exact Fails.after (fun _ => .unexpected) i c

theorem chainPart_run {i : Input} {c : Cursor} (hc : c.index < i.tokens.size)
    (hdot : (i.token c.index).isSymbol "." = true)
    (hnext : (i.token (c.index + 1)).isSymbol "*" = false) :
    chainPart i c = (name >>= fun part => Pure.pure (some part)) i { c with index := c.index + 1 } := by
  simp [chainPart, peekSymbol, peek, peekNth, advance, Bind.bind, Pure.pure, look, hdot, hnext, hc]

theorem many_run {α : Type} (p : Parser (Option α)) (i : Input) (c : Cursor) :
    many p i c = manyUpTo p (i.tokens.size - c.index + 1) i c := rfl

/-- The names behind the first one, up to the cut. -/
theorem manyChain_ends (j : Nat) (c : Cursor) (hc : c.index ≤ x.size) (hj : x.size - c.index < j)
    (htail : c.index < x.size →
      (x.piece.token c.index).isSymbol "." = true ∧ x.Dotted (c.index + 1)) :
    x.Ends c (manyUpTo chainPart j x.piece c) := by
  have hsize := x.piece_size
  induction j generalizing c with
  | zero => omega
  | succ j ih =>
    rcases Nat.eq_or_lt_of_le hc with hend | hlt
    · have hmany := Cuts.manyUpTo (.of_mirrors fun _ => chainPart_mirrors) (chainPart_cuts (x := x) (N := 1))
        0 (j + 1) (j + 1) Nat.one_pos (Nat.succ_pos j) (Nat.succ_pos j) c (by omega) rfl
      exact hmany.1 (.inl hend)
    · obtain ⟨hdot, hdotted⟩ := htail hlt
      have hnext : (x.piece.token (c.index + 1)).isSymbol "*" = false := by
        rcases Nat.lt_or_ge (c.index + 1) x.size with h | h
        · have hname := hdotted.head h
          unfold Token.isName at hname
          unfold Token.isSymbol
          split at hname <;> simp_all
        · rw [Cut.token_of_le h, x.isSymbol_finish]
      have hpart := chainPart_run (i := x.piece) (c := c) (by omega) hdot hnext
      rcases Nat.eq_or_lt_of_le (show c.index + 1 ≤ x.size from hlt) with hend | hmore
      · -- the dot is the last token, so the name behind it is missing
        have hfinish : (x.piece.token (c.index + 1)).isName = false := by
          rw [Cut.token_of_le (Nat.le_of_eq hend.symm)]
          simp [Token.isName, x.finish_kind]
        obtain ⟨f, e, hfail⟩ := name_fails (i := x.piece) (c := { c with index := c.index + 1 }) hfinish
        have hblame := (Cuts.name 0 Nat.one_pos { c with index := c.index + 1 } hend rfl).1 (.inl hend)
        rw [hfail] at hblame
        have hmany : manyUpTo chainPart (j + 1) x.piece c = (.error f, e) :=
          Parser.bind_error (hpart.trans (Parser.bind_error hfail))
        rw [hmany]
        exact .fault hblame.blames
      · obtain ⟨part, hpart'⟩ : ∃ part, chainPart x.piece c =
            (.ok (some part), { c with index := c.index + 2 }) :=
          ⟨_, hpart.trans (Parser.bind_ok (name_run (by simp only; omega) (hdotted.head hmore)))⟩
        have hmany : manyUpTo chainPart (j + 1) x.piece c = (manyUpTo chainPart j >>= fun parts =>
            Pure.pure (part :: parts)) x.piece { c with index := c.index + 2 } :=
          Parser.bind_ok hpart'
        rw [hmany]
        refine Cut.Ends.weaken (e := { c with index := c.index + 2 }) (by simp) ?_
        refine Cut.Ends.bind (ih _ (by simp only; omega) (by simp only; omega) fun h => ?_)
          fun _ e _ _ he => .pure he
        exact ⟨hdotted.dot h, hdotted.tail⟩

/-- Names up to the cut are taken. -/
theorem chain_names (hdeep : deeper.Steady x D) (hop : Operands x D N operand operand') (hN : 0 < N)
    {c : Cursor} (hd : c.depth = D) (hc : c.index < x.size) (hdotted : x.Dotted c.index) :
    x.Ends c (chain deeper operand' x.piece c) := by
  have hsize := x.piece_size
  rw [chain_run deeper operand' (name_run (i := x.piece) (c := c) (by omega) (hdotted.head hc))]
  refine Cut.Ends.weaken (e := { c with index := c.index + 1 }) (Nat.le_succ _) ?_
  have hparts : x.Ends { c with index := c.index + 1 }
      (many chainPart x.piece { c with index := c.index + 1 }) := by
    rw [many_run]
    exact manyChain_ends _ { c with index := c.index + 1 } hc (by simp only; omega) fun h =>
      ⟨hdotted.dot h, hdotted.tail⟩
  exact Cuts.behind hparts hd fun rest => (chainEnd_cuts hdeep hop _ _ rest).mono (Nat.succ_le_succ hN)

/-- A name that is the last token is taken. -/
theorem chain_last (hdeep : deeper.Steady x D) (hop : Operands x D N operand operand') {c : Cursor}
    (hd : c.depth = D) (hc : c.index + 1 = x.size) (hname : (x.back 1).isName = true) :
    x.Ends c (chain deeper operand' x.piece c) := by
  have hsize := x.piece_size
  have hrest (position : Position) (first : Name) : Cuts x D (N + 1)
      (many chainPart >>= chainEnd deeper operand position first)
      (many chainPart >>= chainEnd deeper operand' position first) :=
    (Cuts.many (.of_mirrors fun _ => chainPart_mirrors) chainPart_cuts).bind (chainEnd_cuts hdeep hop position first)
  rw [chain_run deeper operand' (name_run (i := x.piece) (c := c) (by omega) (by rwa [Cut.token_of_last hc]))]
  refine Cut.Ends.weaken (e := { c with index := c.index + 1 }) (Nat.le_succ _) ?_
  exact (hrest _ _ 0 (Nat.succ_pos N) { c with index := c.index + 1 } hc hd).1 (.inl hc)

/-- A reserved word that needs no parenthesis introduces the same with and without one, but for the time. -/
theorem wordForm_called (deeper : Deeper) (operand : Parser Expr) (d : Dialect) {word : String}
    (hword : word ∉ openerWords) (hsafe : d.writing.safeCast ≠ some word) :
    wordForm? deeper operand d word true = wordForm? deeper operand d word false ∨
      ∃ kind : TemporalKind, wordForm? deeper operand d word false =
        some (advance >>= fun _ => Pure.pure (.now kind)) := by
  have hcast : (word == "CAST") = false := by
    rw [beq_eq_false_iff_ne]
    rintro rfl
    exact hword (by decide)
  have hexists : (word == "EXISTS") = false := by
    rw [beq_eq_false_iff_ne]
    rintro rfl
    exact hword (by decide)
  unfold wordForm?
  simp only [hcast, hexists, beq_eq_false_iff_ne.mpr hsafe, Bool.false_and, Bool.and_false, Bool.false_eq_true,
    if_false, if_true]
  cases d.reading.nowWords.find? (·.1 == word) with
  | none => exact .inl rfl
  | some entry =>
    split
    · exact .inl rfl
    split
    · exact .inl rfl
    split
    · exact .inl rfl
    split
    · exact .inl rfl
    · exact .inr ⟨entry.2, rfl⟩

theorem isName_of_isBareWord {t : Token} (h : t.isBareWord = true) (hkind : (t.kind == .keyword) = false) :
    t.isName = true := by
  unfold Token.isBareWord at h
  unfold Token.isName
  split at h <;> simp_all

theorem Cut.size_pos (h : (x.back 1).isBareWord = true) : 0 < x.size := by
  by_contra hzero
  rw [Cut.back, Cut.token_of_le (by omega), Token.isBareWord, x.finish_kind] at h
  cases h

/-- A bare word that is marked as reserved is reserved, and any other is not. -/
theorem Cut.isReserved {k : Nat} (hk : k < x.size) (hbare : (x.piece.token k).isBareWord = true) :
    x.whole.dialect.lexical.isReserved (x.piece.token k).text = ((x.piece.token k).kind == .keyword) := by
  have hinside := x.inside
  have htoken : x.piece.token k = x.whole.tokens[k] := by
    rw [Cut.token_of_lt hk, Input.token, Array.getElem?_eq_getElem]
    rfl
  have hlexed := x.lexed _ (Array.getElem_mem (i := k) (by omega))
  rw [htoken] at hbare ⊢
  unfold Token.isBareWord at hbare
  rw [Token.shape] at hlexed
  split at hbare
  · next hkind =>
    rw [hkind] at hlexed ⊢
    exact hlexed.2
  · next hkind =>
    rw [hkind] at hlexed ⊢
    exact hlexed.2
  · cases hbare

/-- A bare word before the cut that reads as a reserved one is marked as reserved. -/
theorem Cut.keyword_of_upper {w : String} (hbare : (x.back 1).isBareWord = true)
    (hw : Text.upper (x.back 1).text = w) (hreserved : w ∈ x.whole.dialect.lexical.reserved) :
    ((x.back 1).kind == .keyword) = true := by
  have hsize := Cut.size_pos hbare
  have hkind := Cut.isReserved (x := x) (k := x.size - 1) (by omega) hbare
  rw [← Cut.back, LexicalRules.isReserved, hw, List.contains_iff_mem.mpr hreserved] at hkind
  exact hkind.symm

/-- A bare word without a parenthesis or a string behind it, which is a form of its own, a name or a fault. -/
theorem wordBehind_bare {d : Dialect} {t : Token} (deeper : Deeper) (operand : Parser Expr)
    (hform : wordForm? deeper operand d (Text.upper t.text) false = none) :
    wordBehind deeper operand d t false false =
      if t.kind == .keyword then expectHere "expression" >>= fun _ => unexpected else chain deeper operand := by
  unfold wordBehind
  rw [hform]
  simp only [Bool.and_false, Bool.false_and, Bool.false_eq_true, if_false]
  split
  · rfl
  · rfl

/-- A reserved word that the next token does not join is no opener if that token is a parenthesis. -/
theorem Cut.opener_of_severed (hs : x.severed = false) (hkind : ((x.back 1).kind == .keyword) = true)
    (hcalled : (x.whole.token x.size).isSymbol "(" = true) : Text.upper (x.back 1).text ∉ openerWords := by
  rw [Cut.severed, Token.joins, hcalled, hkind, Bool.true_and, Bool.or_eq_false_iff] at hs
  simpa using hs.2

/-- What a reserved last word introduces without a parenthesis it introduces on the whole, or it is the time. -/
theorem wordForm_last (hdeep : deeper.Steady x D) (hop : Operands x D N operand operand') {word : String}
    (hsafe : x.whole.dialect.writing.safeCast ≠ some word) {called : Bool}
    (hopener : called = true → word ∉ openerWords) :
    Option.Rel (Cuts x D (N + 1) · ·) (wordForm? deeper operand x.whole.dialect word called)
        (wordForm? deeper operand' x.whole.dialect word false) ∨
      ∃ kind : TemporalKind, wordForm? deeper operand' x.whole.dialect word false =
        some (advance >>= fun _ => Pure.pure (.now kind)) := by
  cases called with
  | false => exact .inl (wordForm_cuts hdeep hop _ _ _)
  | true =>
    refine (wordForm_called deeper operand' _ (hopener rfl) hsafe).imp_left fun heq => ?_
    rw [← heq]
    exact wordForm_cuts hdeep hop _ _ _

/-- A reserved word that is no form and no function is a fault, whatever the token behind it. -/
theorem wordBehind_keyword {d : Dialect} {t : Token} (deeper : Deeper) (operand : Parser Expr) {called string : Bool}
    (hkind : t.kind = .keyword) (hform : wordForm? deeper operand d (Text.upper t.text) called = none)
    (hcalled : (called && keywordFunctions.contains (Text.upper t.text)) = false) :
    wordBehind deeper operand d t called string = expectHere "expression" >>= fun _ => unexpected := by
  have hword : (Token.Kind.keyword == Token.Kind.word) = false := rfl
  unfold wordBehind
  simp only [hform, hkind, hword, Bool.and_false, Bool.false_and, Bool.false_or, hcalled, Bool.false_eq_true,
    if_false, beq_self_eq_true, if_true]
  rfl

/-- With another token behind the last word than behind it on the whole. -/
theorem wordBehind_last (hdeep : deeper.Steady x D) (hop : Operands x D N operand operand') (hN : 0 < N)
    (hs : x.severed = false) (hbare : (x.back 1).isBareWord = true) :
    CutsAt x D 1
      (wordBehind deeper operand x.whole.dialect (x.back 1) ((x.whole.token x.size).isSymbol "(")
        ((x.whole.token x.size).kind == .string))
      (wordBehind deeper operand' x.whole.dialect (x.back 1) false false) := by
  have hone : 1 < N + 1 := by omega
  have hsize := Cut.size_pos hbare
  have hreserved := Cut.isReserved (x := x) (k := x.size - 1) (by omega) hbare
  rw [← Cut.back] at hreserved
  cases hkind : ((x.back 1).kind == .keyword) with
  | false =>
    -- a word that is not reserved is a name
    rw [hkind] at hreserved
    have hname := isName_of_isBareWord hbare hkind
    refine .ends fun c hc hd => ?_
    rw [wordBehind_bare deeper operand' (wordForm_free x.readable hreserved), if_neg (by rw [hkind]; decide)]
    exact chain_last hdeep hop hd hc hname
  | true =>
    rw [hkind] at hreserved
    have hkeyword : (x.back 1).kind = .keyword := by simpa using hkind
    have hopener := Cut.opener_of_severed hs hkind
    have hsafe : x.whole.dialect.writing.safeCast ≠ some (Text.upper (x.back 1).text) := fun h =>
      x.safeCast _ h (by simpa [LexicalRules.isReserved] using hreserved)
    rcases wordForm_last hdeep hop hsafe hopener with hforms | ⟨kind, hnow⟩
    · generalize hform : wordForm? deeper operand _ _ _ = o at hforms
      generalize hform' : wordForm? deeper operand' _ _ _ = o' at hforms
      cases hforms with
      | some hcuts =>
        unfold wordBehind
        rw [hform, hform']
        exact hcuts 1 hone
      | none =>
        have hcalled : ((x.whole.token x.size).isSymbol "(" &&
            keywordFunctions.contains (Text.upper (x.back 1).text)) = false := by
          rw [Bool.and_eq_false_imp]
          intro hcalled
          have hno := hopener hcalled
          rw [openerWords, List.mem_append, not_or] at hno
          simpa using hno.2
        rw [wordBehind_keyword deeper operand hkeyword hform hcalled,
          wordBehind_keyword deeper operand' hkeyword hform' (Bool.false_and _)]
        exact ((Cuts.note _ _).bind fun _ _ _ => .unexpected) 1 hone
    · unfold wordBehind
      rw [hnow]
      exact .last fun _ => .pure _

theorem wordExpr_cuts (hdeep : deeper.Steady x D) (hop : Operands x D N operand operand') {n : Nat}
    (hn : n < N + 1) (hbare : (x.back n).isBareWord = true) :
    CutsAt x D n (wordExpr deeper operand (x.back n)) (wordExpr deeper operand' (x.back n)) := by
  rw [wordExpr_eq, wordExpr_eq]
  refine .dialect (.peekBehind (fun u hu => ?_) fun hone hs => ?_)
  · refine wordBehind_cuts hdeep hop hn _ _ _ fun hstring => ?_
    by_contra htwo
    rw [hu (by omega), x.finish_kind] at hstring
    cases hstring
  · obtain rfl := hone
    rw [x.isSymbol_finish, x.finish_kind]
    exact wordBehind_last hdeep hop (by omega) hs hbare

/-- Where a phrase is cut off after its first word, this word is a name or no operand at all. -/
theorem wordExpr_waits (hdeep : deeper.Steady x D) (hop : Operands x D N operand operand') {c : Cursor}
    (h : x.Waits c) (hd : c.depth = D) : x.Ends c (wordExpr deeper operand' (x.back 1) x.piece c) := by
  have hform : wordForm? deeper operand' x.whole.dialect (Text.upper (x.back 1).text) false = none := by
    have hwords : ∀ w ∈ phraseWords, w ≠ "NULL" ∧ w ≠ "TRUE" ∧ w ≠ "FALSE" ∧ w ≠ "CASE" ∧ w ≠ "INTERVAL" := by
      decide
    obtain ⟨hnull, htrue, hfalse, hcase, hinterval⟩ := hwords _ h.phrase
    exact wordForm_eq_none hnull (fun _ => ⟨htrue, hfalse⟩) hcase (fun _ => hinterval) (fun h => by cases h)
      fun _ => x.phrases _ h.phrase
  have htoken : x.piece.token (c.index + 1) = x.finish := Cut.token_of_le (Nat.le_of_eq h.last.symm)
  rw [wordExpr_run, htoken, x.isSymbol_finish, x.finish_kind, show x.piece.dialect = x.whole.dialect from rfl,
    show (Token.Kind.finish == Token.Kind.string) = false from rfl, wordBehind_bare deeper operand' hform]
  split
  · exact Cut.Ends.weaken (Nat.le_of_eq (c.note_index ..).symm) (h.note c.index "expression").unexpected
  · next hkind =>
    exact chain_last hdeep hop hd h.last (isName_of_isBareWord h.bare (Bool.eq_false_iff.mpr hkind))

theorem primary_cuts (hdeep : deeper.Steady x D) (hop : Operands x D N operand operand') :
    Cuts x D (N + 1) (primary deeper operand) (primary deeper operand') := by
  intro n hn
  refine .peek ?_
  have hbare (h : (x.back n).kind = .keyword ∨ (x.back n).kind = .word) :
      (x.back n).isBareWord = true := by
    rcases h with h | h <;> simp [Token.isBareWord, h]
  have hno : Cuts x D (N + 1) (expectHere "expression" >>= fun _ => (unexpected : Parser Expr))
      (expectHere "expression" >>= fun _ => unexpected) :=
    (Cuts.note _ _).bind fun _ => .unexpected
  split
  case h_1 => exact (Cuts.advance.bind fun _ => .pure _) n hn
  case h_2 => exact (Cuts.advance.bind fun _ => .pure _) n hn
  case h_3 => exact param_cuts n hn
  case h_4 h => exact wordExpr_cuts hdeep hop hn (hbare (.inl h))
  case h_5 h => exact wordExpr_cuts hdeep hop hn (hbare (.inr h))
  case h_6 => exact chain_cuts hdeep hop n hn
  case h_7 =>
    split
    · refine Cuts.parenthesized (.test peekQuery_cuts ?_ ?_) n hn
      · exact (hdeep.query N).bind fun _ => .pure _
      · exact (hdeep.expr 0 N).bind fun _ => .pure _
    · exact hno n hn
  case h_8 => exact hno n hn

theorem operandWith_cuts (hdeep : deeper.Steady x D) (hop : Operands x D N operand operand') :
    Cuts x D (N + 1) (operandWith deeper operand) (operandWith deeper operand') := by
  refine .test (.eatWord _) (.test (.eatWord _) ?_ ?_) (.peek fun t => ?_)
  · exact existsExpr_cuts hdeep true
  · exact (hdeep.expr _ _).bind fun _ => .pure _
  · split
    · exact Cuts.advance.bind fun _ => (hdeep.expr _ _).bind fun _ => .pure _
    · exact primary_cuts hdeep hop

theorem unaryOp_of_isBareWord {t : Token} (h : t.isBareWord = true) : unaryOp? t = none := by
  unfold Token.isBareWord at h
  unfold unaryOp?
  split at h <;> simp_all

/-- The first word of a phrase that is cut off is read as an operand. -/
theorem operandWith_waits (hdeep : deeper.Steady x D) (hop : Operands x D N operand operand') {c : Cursor}
    (h : x.Waits c) (hd : c.depth = D) : x.Ends c (operandWith deeper operand' x.piece c) := by
  have hsize := x.piece_size
  have htoken := Cut.token_of_last h.last
  cases hnot : (x.back 1).isWord "NOT" with
  | true =>
    have hrest : Cuts x D 1
        (eatWord "EXISTS" >>= fun b => if b then existsExpr deeper true else
          deeper.expr .not >>= fun e => Pure.pure (.unary .not e))
        (eatWord "EXISTS" >>= fun b => if b then existsExpr deeper true else
          deeper.expr .not >>= fun e => Pure.pure (.unary .not e)) :=
      .test (.eatWord _) (existsExpr_cuts hdeep true) ((hdeep.expr _ _).bind fun _ => .pure _)
    have heat : eatWord "NOT" x.piece c = (.ok true, { c with index := c.index + 1 }) := by
      simp [eatWord, checkWord, peekWord, peek, peekNth, advance, Bind.bind, Pure.pure, look, htoken, hnot,
        show c.index < x.piece.tokens.size by have := h.last; omega]
    rw [show operandWith deeper operand' x.piece c = _ from Parser.bind_ok heat]
    exact ((hrest 0 Nat.one_pos { c with index := c.index + 1 } h.last hd).1 (.inl h.last)).weaken (Nat.le_succ _)
  | false =>
    obtain ⟨e, heat, hwaits⟩ := h.eatWord hnot
    have hrun : operandWith deeper operand' x.piece c = wordExpr deeper operand' (x.back 1) x.piece e := by
      have hkind := h.bare
      unfold Token.isBareWord at hkind
      refine (Parser.bind_ok heat).trans ?_
      split at hkind
      all_goals
        simp_all [peek, peekNth, look, Bind.bind, Cut.token_of_last hwaits.last, unaryOp_of_isBareWord h.bare, primary]
    have hdepth : e.depth = D := (Parser.depth_of_run heat).trans hd
    have hword : x.Ends e (wordExpr deeper operand' (x.back 1) x.piece e) := wordExpr_waits hdeep hop hwaits hdepth
    rw [hrun]
    exact hword.weaken (h.index_le hwaits)

/-- Enough operands in each other are enough on the kept tokens; on the whole too few would fail. -/
theorem operandUpTo_cuts (hdeep : deeper.Steady x D) (k j : Nat) (hj : N ≤ j) :
    Operands x D N (operandUpTo deeper k) (operandUpTo deeper j) := by
  induction j generalizing N k with
  | zero =>
    obtain rfl : N = 0 := by omega
    exact ⟨fun n hn => absurd hn (Nat.not_lt_zero n), fun _ h _ => h.unexpected⟩
  | succ j ih =>
    refine ⟨?_, fun c h hd => operandWith_waits hdeep (ih 0 (Nat.zero_le j)) h hd⟩
    cases N with
    | zero => exact fun n hn => absurd hn (Nat.not_lt_zero n)
    | succ N =>
      have hwith (k : Nat) := operandWith_cuts hdeep (ih k (show N ≤ j by omega))
      cases k with
      | zero => exact fun n hn => .of_fails .unexpected fun c hc hd hlate => (hwith 0 n hn c hc hd).1 hlate
      | succ k => exact hwith k

theorem operandFrom_run (deeper : Deeper) (i : Input) (c : Cursor) :
    operandFrom deeper i c = operandUpTo deeper (i.tokens.size - c.index + 1) i c := rfl

theorem operandFrom_cuts (hdeep : deeper.Steady x D) :
    Operands x D N (operandFrom deeper) (operandFrom deeper) where
  cuts n hn c hc hd := by
    have hsize := x.piece_size
    rw [operandFrom_run, operandFrom_run]
    exact (operandUpTo_cuts hdeep (x.whole.tokens.size - c.index + 1) (x.piece.tokens.size - c.index + 1)
      (Nat.le_refl _)).cuts n (by omega) c hc hd
  waits c h hd := by
    rw [operandFrom_run]
    exact (operandUpTo_cuts hdeep 0 _ (Nat.le_refl _)).waits c h hd

/-! ### Operators -/

theorem membership_cuts (hdeep : deeper.Steady x D) (left : Expr) (negated : Bool) :
    Cuts x D N (membership deeper left negated) (membership deeper left negated) := by
  refine .parens (.test peekQuery_cuts ?_ ?_)
  · exact (hdeep.query N).bind fun _ => .pure _
  · exact (Cuts.commaSeparated (hdeep.here.expr 0) (hdeep.expr 0 N)).bind fun _ => .pure _

theorem predicate_cuts (hdeep : deeper.Steady x D) (left : Expr) :
    Cuts x D N (predicate deeper left) (predicate deeper left) := by
  have hexpr := hdeep.expr .comparison N
  refine (Cuts.eatWord _).bind fun negated => .test (.eatWord _) ?_ (.test (.eatWord _) ?_ ?_)
  · exact hexpr.bind fun low => (Cuts.expectWord _).bind fun _ => hexpr.bind fun _ => .pure _
  · exact membership_cuts hdeep left negated
  · refine .test (.eatWord _) ?_ ((Cuts.expectWord _).bind fun _ => ?_)
    all_goals
      refine hexpr.bind fun pattern => ?_
      exact (Cuts.optional (.eatWord _) (operandFrom_cuts hdeep).cuts).bind fun _ => .pure _

theorem joined_cuts (hdeep : deeper.Steady x D) (left : Expr) (c : Connective) (p : Precedence) :
    Cuts x D N (joined deeper left c p) (joined deeper left c p) := by
  cases c with
  | binary op => exact Cuts.advance.bind fun _ => (hdeep.expr p N).bind fun _ => .pure _
  | doubleColon => exact Cuts.advance.bind fun _ => dataType_cuts.bind fun _ => .pure _
  | is =>
    refine Cuts.advance.bind fun _ => (Cuts.eatWord _).bind fun negated => ?_
    exact (Cuts.expectWord _).bind fun _ => .pure _
  | predicate => exact predicate_cuts hdeep left

/-- Where the last token is not cut off from what it needs, it starts the same connective. -/
theorem connective_last (hs : x.severed = false) :
    connective? x.whole.dialect.reading (x.back 1) (x.whole.token x.size) =
      connective? x.whole.dialect.reading (x.back 1) x.finish := by
  unfold connective?
  by_cases hbare : (x.back 1).isBareWord = true
  · by_cases hnot : Text.upper (x.back 1).text = "NOT"
    · have hkeyword := Cut.keyword_of_upper hbare hnot (x.readable.reserved "NOT" (by decide))
      have hword : Text.sameWord (x.back 1).text "NOT" = true := by
        rw [Text.sameWord_iff, hnot]
        rfl
      have hnext : ["IN", "LIKE", "BETWEEN", "ILIKE"].any (x.whole.token x.size).isWord = false := by
        rw [Cut.severed, Token.joins, hkeyword, hword, Bool.true_and, Bool.or_eq_false_iff] at hs
        simpa using hs.1
      simp only [List.any_cons, List.any_nil, Bool.or_eq_false_iff] at hnext
      simp [hbare, hnot, hnext, x.isWord_finish]
    · simp [hbare, hnot]
  · simp [hbare]

theorem connected_cuts (hdeep : deeper.Steady x D) (least : Precedence) (left : Expr)
    (o : Option (Connective × Precedence)) : Cuts x D N
      (match o with
        | some (c, p) =>
          if p ≤ least then Pure.pure none else joined deeper left c p >>= fun e => Pure.pure (some e)
        | none => Pure.pure none)
      (match o with
        | some (c, p) =>
          if p ≤ least then Pure.pure none else joined deeper left c p >>= fun e => Pure.pure (some e)
        | none => Pure.pure none) := by
  rcases o with _ | ⟨c, p⟩
  · exact .pure _
  · dsimp only
    split
    · exact .pure _
    · exact (joined_cuts hdeep left c p).bind fun _ => .pure _

theorem moreOperands_cuts (hdeep : deeper.Steady x D) (least : Precedence) (left : Expr) :
    Cuts x D N (moreOperands deeper least left) (moreOperands deeper least left) := by
  intro n hn
  have hjoin := connected_cuts (N := N) hdeep least left
  refine .rules (.peek (.peekBehind (fun u _ => hjoin _ n hn) fun hone hs => ?_))
  obtain rfl := hone
  rw [connective_last hs]
  exact hjoin _ 1 hn

theorem operands_cuts (hdeep : deeper.Steady x D) (least : Precedence) (left : Expr) :
    Cuts x D N (iterate (moreOperands deeper least) left) (iterate (moreOperands deeper least) left) :=
  .iterate (fun e => .of_mirrors fun _ => moreOperands_mirrors hdeep.here least e)
    (fun e => moreOperands_cuts hdeep least e) left

theorem subexpr_cuts (hdeep : deeper.Steady x D) (least : Precedence) :
    Cuts x D N (subexpr deeper least) (subexpr deeper least) :=
  (operandFrom_cuts hdeep).cuts.bind fun left => operands_cuts hdeep least left

/-- An expression comes to the end where its first operand does. -/
theorem subexpr_ends (hdeep : deeper.Steady x D) (least : Precedence) {c : Cursor} (hd : c.depth = D)
    (h : x.Ends c (operandFrom deeper x.piece c)) : x.Ends c (subexpr deeper least x.piece c) :=
  Cuts.behind h hd fun left => operands_cuts hdeep least left

/-- The first word of a phrase that is cut off is read as an expression. -/
theorem subexpr_waits (hdeep : deeper.Steady x D) (least : Precedence) (c : Cursor) (h : x.Waits c)
    (hd : c.depth = D) : x.Ends c (subexpr deeper least x.piece c) :=
  subexpr_ends hdeep least hd ((operandFrom_cuts (N := 0) hdeep).waits c h hd)

/-! ### Names up to the cut -/

theorem eatWord_no {i : Input} {c : Cursor} {word : String}
    (h : (i.token c.index).isWord word = false) :
    ∃ e, eatWord word i c = (.ok false, e) ∧ e.index = c.index := by
  refine ⟨c.note c.index (Text.upper word), ?_, c.note_index ..⟩
  simp [eatWord, checkWord, peekWord, peek, peekNth, expectHere, expectNth, Bind.bind, Pure.pure, look, h]

theorem isSymbol_of_dot {t : Token} (h : t.isSymbol "." = true) :
    t.isSymbol "(" = false ∧ (t.kind == .string) = false := by
  unfold Token.isSymbol at h ⊢
  split at h
  case h_1 hk =>
    rw [beq_iff_eq] at h
    rw [h, hk]
    exact ⟨rfl, rfl⟩
  case h_2 hk =>
    rw [beq_iff_eq] at h
    rw [h, hk]
    exact ⟨rfl, rfl⟩
  case h_3 => cases h

/-- A name with neither a parenthesis nor a string behind it is the head of a chain. -/
theorem primary_name (deeper : Deeper) (operand : Parser Expr) {c : Cursor}
    (hkind : (x.piece.token c.index).kind = .quotedName ∨ (x.piece.token c.index).kind = .word ∧
      x.whole.dialect.lexical.isReserved (x.piece.token c.index).text = false)
    (hparen : (x.piece.token (c.index + 1)).isSymbol "(" = false)
    (hstring : ((x.piece.token (c.index + 1)).kind == .string) = false) :
    primary deeper operand x.piece c = chain deeper operand x.piece c := by
  rcases hkind with hkind | ⟨hkind, hfree⟩
  · simp [primary, peek, peekNth, look, Bind.bind, hkind]
  · have hform : wordForm? deeper operand x.piece.dialect (Text.upper (x.piece.token c.index).text) false = none :=
      wordForm_free x.readable hfree
    have hword : primary deeper operand x.piece c =
        wordExpr deeper operand (x.piece.token c.index) x.piece c := by
      simp [primary, peek, peekNth, look, Bind.bind, hkind]
    rw [hword, wordExpr_run, hparen, hstring, wordBehind_bare deeper operand hform, if_neg (by rw [hkind]; decide)]

/-- An operand that starts with names up to the cut is what they name. -/
theorem operandWith_names (hdeep : deeper.Steady x D) (hop : Operands x D N operand operand') (hN : 0 < N)
    {c : Cursor} (hd : c.depth = D) (hc : c.index < x.size) (hdotted : x.Dotted c.index) :
    x.Ends c (operandWith deeper operand' x.piece c) := by
  have hname := hdotted.head hc
  have hkind : (x.piece.token c.index).kind = .quotedName ∨ (x.piece.token c.index).kind = .word ∧
      x.whole.dialect.lexical.isReserved (x.piece.token c.index).text = false := by
    unfold Token.isName at hname
    split at hname
    case h_1 hword =>
      refine .inr ⟨hword, ?_⟩
      rw [Cut.isReserved hc (by simp [Token.isBareWord, hword]), hword]
      rfl
    case h_2 hquoted => exact .inl hquoted
    case h_3 => cases hname
  have hnot : (x.piece.token c.index).isWord "NOT" = false := by
    rcases hkind with hquoted | ⟨-, hfree⟩
    · simp [Token.isWord, Token.isBareWord, hquoted]
    · by_contra h
      rw [Bool.not_eq_false, Token.isWord, Bool.and_eq_true, Text.sameWord_iff] at h
      exact upper_ne_of_free hfree (x.readable.reserved "NOT" (by decide)) (h.2.trans rfl)
  obtain ⟨e, heat, he⟩ := eatWord_no hnot
  have hchain : x.Ends e (chain deeper operand' x.piece e) :=
    chain_names hdeep hop hN ((Parser.depth_of_run heat).trans hd) (by omega) (by rwa [he])
  rw [← he] at hdotted hkind
  have hnext : (x.piece.token (e.index + 1)).isSymbol "(" = false ∧
      ((x.piece.token (e.index + 1)).kind == .string) = false := by
    rcases Nat.lt_or_ge (e.index + 1) x.size with h | h
    · exact isSymbol_of_dot (hdotted.dot h)
    · rw [Cut.token_of_le h, x.isSymbol_finish, x.finish_kind]
      exact ⟨rfl, rfl⟩
  have hunary : unaryOp? (x.piece.token e.index) = none := by
    rcases hkind with hkind | ⟨hkind, -⟩ <;> simp [unaryOp?, hkind]
  have hrun : operandWith deeper operand' x.piece c = primary deeper operand' x.piece e := by
    refine (Parser.bind_ok heat).trans ?_
    simp [peek, peekNth, look, Bind.bind, hunary]
  rw [hrun, primary_name deeper operand' hkind hnext.1 hnext.2]
  exact hchain.weaken (Nat.le_of_eq he.symm)

/-- An expression that starts with names up to the cut is read up to the cut. -/
theorem subexpr_names (hdeep : deeper.Steady x D) (least : Precedence) {c : Cursor} (hd : c.depth = D)
    (hc : c.index < x.size) (hdotted : x.Dotted c.index) :
    x.Ends c (subexpr deeper least x.piece c) := by
  have hsize := x.piece_size
  refine subexpr_ends hdeep least hd ?_
  obtain ⟨r, hr⟩ : ∃ r, x.piece.tokens.size - c.index = r + 1 :=
    ⟨x.piece.tokens.size - c.index - 1, by omega⟩
  have hrun : operandFrom deeper x.piece c =
      operandWith deeper (operandUpTo deeper (r + 1)) x.piece c := by
    rw [operandFrom_run, hr]
    rfl
  rw [hrun]
  exact operandWith_names hdeep (operandUpTo_cuts hdeep 0 (r + 1) (Nat.le_refl _)) (Nat.succ_pos r)
    hd hc hdotted

end Expressions

/-! ## Queries -/

section Queries

variable {x : Cut} {D N : Nat} {deeper : Deeper}

theorem optionalAlias_cuts : Cuts x D N optionalAlias optionalAlias := by
  refine .test (.eatWord _) (Cuts.name.bind fun _ => .pure _) (.peek fun t => ?_)
  split
  · exact Cuts.name.bind fun _ => .pure _
  · exact .pure _

/-- The number of names before a star, for a qualified star that starts at `k`. -/
def stars (i : Input) (k : Nat) : Nat → Option Nat
  | 0 => none
  | n + 1 =>
    if (i.token k).isName && (i.token (k + 1)).isSymbol "." then
      if (i.token (k + 2)).isSymbol "*" then some 1 else (stars i (k + 2) n).map (· + 1)
    else none

theorem starParts_succ (k n : Nat) (i : Input) (c : Cursor) : starParts k (n + 1) i c =
    if (i.token (c.index + k)).isName && (i.token (c.index + (k + 1))).isSymbol "." then
      if (i.token (c.index + (k + 2))).isSymbol "*" then (.ok (some 1), c)
      else (starParts (k + 2) n >>= fun o => Pure.pure (o.map (· + 1))) i c
    else (.ok none, c) := by
  have hrun : starParts k (n + 1) i c =
      (if (i.token (c.index + k)).isName && (i.token (c.index + (k + 1))).isSymbol "." then
        peekNth (k + 2) >>= fun t => if t.isSymbol "*" then Pure.pure (some 1)
          else starParts (k + 2) n >>= fun o => Pure.pure (o.map (· + 1))
      else Pure.pure none : Parser (Option Nat)) i c := rfl
  rw [hrun]
  split
  · show (if (i.token (c.index + (k + 2))).isSymbol "*" then Pure.pure (some 1)
      else starParts (k + 2) n >>= fun o => Pure.pure (o.map (· + 1)) : Parser (Option Nat)) i c = _
    split <;> rfl
  · rfl

theorem starParts_run (k n : Nat) (i : Input) (c : Cursor) :
    starParts k n i c = (.ok (stars i (c.index + k) n), c) := by
  induction n generalizing k with
  | zero => rfl
  | succ n ih =>
    have hrun := ih (k + 2)
    rw [starParts_succ, stars]
    simp only [Nat.add_assoc]
    split
    · split
      · rfl
      · exact Parser.bind_ok hrun
    · rfl

theorem stars_pos {i : Input} {k a m : Nat} (h : stars i k a = some m) : 0 < m := by
  cases a with
  | zero => cases h
  | succ a =>
    rw [stars] at h
    split at h
    · split at h
      · cases h
        exact Nat.one_pos
      · obtain ⟨j, -, rfl⟩ := Option.map_eq_some_iff.mp h
        exact Nat.succ_pos j
    · cases h

theorem starAt_of_stars {i : Input} {k a m : Nat} (h : stars i k a = some m) : i.StarAt k m := by
  induction a generalizing k m with
  | zero => cases h
  | succ a ih =>
    rw [stars] at h
    split at h
    case isFalse => cases h
    case isTrue hhead =>
      rw [Bool.and_eq_true] at hhead
      split at h
      case isTrue hstar =>
        cases h
        refine ⟨fun j hj => ?_, hstar⟩
        obtain rfl : j = 0 := by omega
        exact hhead
      case isFalse =>
        obtain ⟨m, hrest, rfl⟩ := Option.map_eq_some_iff.mp h
        have hbehind := ih hrest
        refine ⟨fun j hj => ?_, ?_⟩
        · cases j with
          | zero => exact hhead
          | succ j =>
            have := hbehind.names j (by omega)
            rwa [show k + 2 + 2 * j = k + 2 * (j + 1) by omega] at this
        · have := hbehind.star
          rwa [show k + 2 + 2 * m = k + 2 * (m + 1) by omega] at this

/-- The star is found on both sides, or it is cut off from the names before it. -/
theorem stars_cut (k a b : Nat) (hk : k ≤ x.size) (ha : x.size < k + a) (hb : x.size < k + b) :
    stars x.piece k b = stars x.whole k a ∨
      stars x.piece k b = none ∧ ∃ m, stars x.whole k a = some m ∧ x.size ≤ k + 2 * m := by
  induction a generalizing k b with
  | zero => omega
  | succ a ih =>
    obtain ⟨b, rfl⟩ : ∃ i, b = i + 1 := ⟨b - 1, by omega⟩
    have hfinish {j : Nat} (hj : x.size ≤ j) : x.piece.token j = x.finish := Cut.token_of_le hj
    have hlost {j : Nat} (hj : x.size ≤ j) (n : Nat) : stars x.piece j n = none := by
      cases n with
      | zero => rfl
      | succ n => simp [stars, hfinish hj, Token.isName, x.finish_kind]
    -- a star that is not found and would have to be behind the cut
    have hnone (h : stars x.piece k (b + 1) = none) (hk : x.size ≤ k + 2) :
        stars x.piece k (b + 1) = stars x.whole k (a + 1) ∨ stars x.piece k (b + 1) = none ∧
          ∃ m, stars x.whole k (a + 1) = some m ∧ x.size ≤ k + 2 * m := by
      cases hwhole : stars x.whole k (a + 1) with
      | none => exact .inl h
      | some m =>
        have hpos := stars_pos hwhole
        exact .inr ⟨h, m, rfl, by omega⟩
    rcases Nat.lt_or_ge (k + 2) x.size with hk2 | hk2
    · rw [stars, stars, Cut.token_of_lt (show k < x.size by omega), Cut.token_of_lt (show k + 1 < x.size by omega),
        Cut.token_of_lt hk2]
      split
      · split
        · exact .inl rfl
        · rcases ih (k + 2) b (by omega) (by omega) (by omega) with hsame | ⟨hno, m, hm, hsize⟩
          · exact .inl (by rw [hsame])
          · exact .inr ⟨by rw [hno]; rfl, m + 1, by rw [hm]; rfl, by omega⟩
      · exact .inl rfl
    · refine hnone ?_ hk2
      rw [stars, hfinish hk2, x.isSymbol_finish, hlost hk2]
      split <;> rfl

/-- What follows the search for a star. If the star is cut off, none is found. -/
theorem starParts_then {β : Type} {item : Option Nat → Parser β} (hitem : ∀ o, Cuts x D N (item o) (item o))
    (hlost : ∀ c, c.depth = D → x.Parted c.index → x.Ends c (item none x.piece c)) :
    Cuts x D N (remaining >>= fun r => starParts 0 (r + 1) >>= item)
      (remaining >>= fun r => starParts 0 (r + 1) >>= item) := by
  intro n hn c hc hd
  have hsize := x.piece_size
  have hinside := x.inside
  have hrun (i : Input) : (remaining >>= fun r => starParts 0 (r + 1) >>= item) i c =
      item (stars i c.index (i.tokens.size - c.index + 1)) i c :=
    Parser.bind_ok (starParts_run 0 (i.tokens.size - c.index + 1) i c)
  rw [hrun, hrun]
  rcases stars_cut (x := x) c.index (x.whole.tokens.size - c.index + 1)
    (x.piece.tokens.size - c.index + 1) (by omega) (by omega) (by omega) with hsame | ⟨hnone, m, hm, hstar⟩
  · rw [hsame]
    exact hitem _ n hn c hc hd
  · rw [hnone]
    have hends : x.Ends c (item none x.piece c) := by
      rcases Nat.eq_or_lt_of_le (show c.index ≤ x.size by omega) with hend | hlt
      · exact (hitem none n hn c hc hd).1 (.inl hend)
      · exact hlost c hd ⟨m, starAt_of_stars hm, hlt, hstar⟩
    exact ⟨fun _ => hends, fun _ _ _ _ => .inr hends⟩

theorem starPart_cuts : Cuts x D N starPart starPart :=
  Cuts.name.bind fun _ => Cuts.advance.bind fun _ => .pure _

theorem times_starPart_cuts (k : Nat) : Cuts x D N (times k starPart) (times k starPart) := by
  induction k with
  | zero => exact .pure _
  | succ k ih => exact starPart_cuts.bind fun _ => ih.bind fun _ => .pure _

/-- An item of a projection. If a qualified star is cut off, its names are read as an expression. -/
theorem selectItem_cuts (hdeep : deeper.Steady x D) :
    Cuts x D N (selectItem deeper) (selectItem deeper) := by
  refine .test (.eatSymbol _) (.pure _) (starParts_then (fun o => ?_) fun c hd hparted => ?_)
  · match o with
    | some k => exact (times_starPart_cuts k).bind fun _ => Cuts.advance.bind fun _ => .pure _
    | none => exact (hdeep.expr 0 N).bind fun _ => optionalAlias_cuts.bind fun _ => .pure _
  · exact Cuts.behind (hdeep.names 0 c hd hparted) hd fun value => optionalAlias_cuts.bind fun _ => .pure _

theorem tableAlias_cuts : Cuts x D N tableAlias tableAlias := by
  refine optionalAlias_cuts.bind fun o => ?_
  cases o with
  | none => exact .pure _
  | some label => exact Cuts.optionalNameList.bind fun _ => .pure _

/-- The rest of a table-valued function whose call has been read. -/
def tableFunction (called : Expr) : Parser Relation := do
  let label ← tableAlias
  match called with
  | .call function => return .function function label
  | _ => unexpectedAt (← peek) "table function"

/-- What is not a call fails as a table; on the kept tokens it is found out at their end. -/
theorem tableFunction_cuts_of_ne {p : Parser Expr} (hp : Cuts x D N p p)
    (hne : Yields x.whole.dialect p fun e => ∀ f, e ≠ .call f)
    (hstrict : ∀ n, Mirrors x.self n p p fun m _ => m < n) :
    Cuts x D N (p >>= tableFunction) (p >>= tableFunction) := by
  intro n hn
  have hfail {e : Expr} (he : ∀ f, e ≠ .call f) : Fails (tableFunction e) := by
    refine .after fun label => ?_
    split
    case h_1 f => exact absurd rfl (he f)
    case h_2 => exact .after fun _ => .unexpectedAt _ _
  rcases Nat.lt_or_ge 1 n with htwo | hone
  · refine fun c hc _ => ⟨fun hlate => ?_, fun _ r e hrun => ?_⟩
    · obtain ⟨m, hm, hrest⟩ := hlate.rest
      omega
    · cases hcall : p x.whole c with
      | mk o d =>
        cases o with
        | error y =>
          rw [Parser.bind_error hcall] at hrun
          cases hrun
        | ok called =>
          obtain ⟨y, e', hno⟩ := hfail ((hne x.whole rfl).apply hcall) x.whole d
          rw [Parser.bind_ok hcall, hno] at hrun
          cases hrun
  · refine .bindMirrors (hstrict n) (hp n hn) fun m _ called hm => ?_
    obtain rfl : m = 0 := by omega
    refine CutsAt.bind (tableAlias_cuts 0 Nat.one_pos) fun m hm label => ?_
    obtain rfl : m = 0 := by omega
    split
    · exact .pure _
    · exact .unexpectedNext _

theorem tableFunction_cuts_of_call {p : Parser Expr} (hp : Cuts x D N p p)
    (hcall : Yields x.whole.dialect p fun e => ∃ f, e = .call f) :
    Cuts x D N (p >>= tableFunction) (p >>= tableFunction) := by
  refine fun n hn => .bindOf (P := fun _ e => ∃ f, e = .call f)
    (fun c _ e d hrun => (hcall x.piece rfl).apply hrun) (hp n hn) ?_
  rintro m hm _ ⟨f, rfl⟩
  exact (tableAlias_cuts.bind fun _ => .pure _) m (Nat.lt_of_le_of_lt hm hn)

theorem tableCall_cuts (hdeep : deeper.Steady x D) (name : String) (position : Position) :
    Cuts x D N (call deeper (operandFrom deeper) name position >>= tableFunction)
      (call deeper (operandFrom deeper) name position >>= tableFunction) := by
  have hextraction {separator : Parser Unit} (hs : ∀ N, Cuts x D N separator separator)
      (hs' : ∀ n, Mirrors x.self n separator separator Any) :
      Cuts x D N (extraction deeper separator >>= tableFunction)
        (extraction deeper separator >>= tableFunction) := by
    refine tableFunction_cuts_of_ne (extraction_cuts hdeep (hs N)) ?_ fun n => .parenthesized fun m _ => ?_
    · exact .parenthesized (.skip fun _ => .skip fun _ => .skip fun _ => .pure (by simp))
    · refine dateField_mirrors.andThen fun _ _ => (hs' _).andThen fun k _ => ?_
      exact (hdeep.here.expr 0 k).andThen fun _ _ => .pure trivial
  refine .dialectThen ?_
  dsimp only
  split
  · exact hextraction (fun _ => .expectWord _) fun _ => (Mirrors.expectWord _).any
  split
  · exact hextraction (fun _ => .expectSymbol _) fun _ => (Mirrors.expectSymbol (by decide)).any
  split
  · refine tableFunction_cuts_of_ne (conditional_cuts hdeep) ?_ fun n => .parenthesized fun m _ => ?_
    · exact .parenthesized (.skip fun _ => .skip fun _ => .skip fun _ => .skip fun _ => .skip fun _ =>
        .pure (by simp))
    · refine (hdeep.here.expr 0 m).andThen fun _ _ => (Mirrors.expectSymbol (by decide)).andThen fun k _ => ?_
      refine (hdeep.here.expr 0 k).andThen fun _ _ => (Mirrors.expectSymbol (by decide)).andThen fun j _ => ?_
      exact (hdeep.here.expr 0 j).andThen fun _ _ => .pure trivial
  split
  · refine tableFunction_cuts_of_ne ((Cuts.expectSymbol _).bind fun _ => (Cuts.expectSymbol _).bind
      fun _ => .pure _) (.skip fun _ => .skip fun _ => .pure (by simp)) fun n => ?_
    refine (Mirrors.expectSymbol (by decide)).bind fun m _ _ hm => ?_
    exact (Mirrors.expectSymbol (by decide)).bind fun k _ _ hk => .pure (by omega)
  · refine tableFunction_cuts_of_call ?_ (.skip fun _ => .skip fun r => .skip fun r' => .skip fun w =>
      .pure ⟨_, rfl⟩)
    refine (Cuts.expectSymbol _).bind fun _ => (callBody_cuts hdeep _).bind fun r => ?_
    refine (canonicalCall_cuts name _ _).bind fun r' => ?_
    refine (Cuts.optional (.eatWord _) ?_).bind fun _ => .pure _
    exact (window_cuts hdeep (operandFrom_cuts hdeep)).mono (Nat.le_succ N)

theorem relation_cuts (hdeep : deeper.Steady x D) : Cuts x D N (relation deeper) (relation deeper) := by
  refine .test (.eatSymbol _) ?_ (.peek fun t => Cuts.qualifiedName.bind fun table => ?_)
  · refine (hdeep.query N).bind fun q => (Cuts.expectSymbol _).bind fun _ => ?_
    exact tableAlias_cuts.bind fun _ => .pure _
  · refine .test (.peekSymbol _) ?_ (tableAlias_cuts.bind fun _ => .pure _)
    exact (Cuts.nameFunction _).bind fun _ => tableCall_cuts hdeep _ _

theorem joinWord_cuts (outer : Bool) (kind : JoinKind) :
    Cuts x D N (joinWord outer kind) (joinWord outer kind) := by
  unfold joinWord
  dsimp only
  split
  · exact (Cuts.eatWord _).bind fun _ => (Cuts.expectWord _).bind fun _ => .pure _
  · exact (Cuts.expectWord _).bind fun _ => .pure _

theorem joinKind_cuts (natural : Bool) : Cuts x D N (joinKind natural) (joinKind natural) := by
  refine .test (.eatWord _) (.pure _) (.test (.eatWord _) (joinWord_cuts _ _) ?_)
  refine .test (.eatWord _) (joinWord_cuts _ _) (.test (.eatWord _) (joinWord_cuts _ _) ?_)
  refine .supports _ fun full => .test (.onlyIf _ (.eatWord _)) (joinWord_cuts _ _) ?_
  refine .test (.onlyIf _ (.eatWord _)) (joinWord_cuts _ _) ?_
  dsimp only
  split
  · exact .stop
  · exact .pure _

theorem joinCondition_cuts (hdeep : deeper.Steady x D) (natural : Bool) (kind : JoinKind) :
    Cuts x D N (joinCondition deeper natural kind) (joinCondition deeper natural kind) := by
  unfold joinCondition
  split
  · exact .pure _
  split
  · exact .pure _
  refine .test (.eatWord _) ((hdeep.expr 0 N).bind fun _ => .pure _) (.supports _ fun named => ?_)
  exact .test (.onlyIf _ (.eatWord _)) (Cuts.nameList.bind fun _ => .pure _) .unexpected

theorem join_cuts (hdeep : deeper.Steady x D) : Cuts x D N (join deeper) (join deeper) := by
  refine (Cuts.onlyIf_supports _ (.eatWord _)).bind fun natural => ?_
  refine (joinKind_cuts natural).bind fun o => ?_
  cases o with
  | none => exact .pure _
  | some kind =>
    refine (relation_cuts hdeep).bind fun r => ?_
    exact (joinCondition_cuts hdeep natural kind).bind fun _ => .pure _

theorem source_cuts (hdeep : deeper.Steady x D) : Cuts x D N (source deeper) (source deeper) :=
  (relation_cuts hdeep).bind fun _ =>
    (Cuts.many (.of_mirrors fun _ => join_mirrors hdeep.here) (join_cuts hdeep)).bind fun _ => .pure _

theorem distinctness_cuts (hdeep : deeper.Steady x D) :
    Cuts x D N (distinctness deeper) (distinctness deeper) := by
  refine .test (.eatWord _) (.supports _ fun keyed => ?_) ((Cuts.eatWord _).bind fun _ => .pure _)
  intro n hn
  refine .peekWord "ON" (.peekBehind (fun u _ => ?_) fun hone hs => ?_)
  · dsimp only
    split
    · refine (Cuts.advance.bind fun _ => (Cuts.parens ?_).bind fun _ => .pure _) n hn
      exact .commaSeparated (hdeep.here.expr 0) (hdeep.expr 0 N)
    · exact .pure _
  · obtain rfl := hone
    have hpart : ((x.back 1).isWord "ON" && (x.whole.token x.size).isSymbol "(") = false := by
      by_contra h
      rw [Bool.not_eq_false, Bool.and_eq_true, Token.isWord, Bool.and_eq_true, Text.sameWord_iff] at h
      obtain ⟨⟨hbare, hon⟩, hopen⟩ := h
      have hkeyword := Cut.keyword_of_upper hbare (hon.trans rfl) (x.readable.reserved "ON" (by decide))
      rw [Cut.severed, Token.joins, hkeyword, hopen, hon, Bool.true_and, Bool.or_eq_false_iff] at hs
      exact absurd hs.2 (by decide)
    rw [x.isSymbol_finish, Bool.and_assoc, hpart, Bool.and_false, Bool.and_false]
    exact .pure _

theorem topCount_cuts (hdeep : deeper.Steady x D) : Cuts x D N (topCount deeper) (topCount deeper) := by
  refine .test (.eatSymbol _) ?_ (operandFrom_cuts hdeep).cuts
  exact (hdeep.expr 0 N).bind fun _ => (Cuts.expectSymbol _).bind fun _ => .pure _

theorem sources_cuts (hdeep : deeper.Steady x D) : Cuts x D N (sources deeper) (sources deeper) := by
  refine .test (.eatWord _) ?_ (.rules ?_)
  · exact .commaSeparated (fun _ => source_mirrors hdeep.here) (source_cuts hdeep)
  dsimp only
  split
  · exact .stop
  · exact .pure _

theorem select_cuts (hdeep : deeper.Steady x D) : Cuts x D N (select deeper) (select deeper) := by
  have hexpr := hdeep.expr 0 N
  refine (Cuts.expectWord _).bind fun _ => (distinctness_cuts hdeep).bind fun distinct => ?_
  refine (Cuts.optional (.rules (.onlyIf _ (.eatWord _))) (topCount_cuts hdeep)).bind fun top => ?_
  refine (Cuts.commaSeparated (fun _ => selectItem_mirrors hdeep.here) (selectItem_cuts hdeep)).bind
    fun items => (sources_cuts hdeep).bind fun sources => ?_
  refine (Cuts.optional (.eatWord _) hexpr).bind fun condition => ?_
  refine (Cuts.optionalWords (by decide) (hdeep.room_list 0) (.commaSeparated (hdeep.here.expr 0) hexpr)).bind
    fun groups => ?_
  refine (Cuts.optional (.eatWord _) hexpr).bind fun having => ?_
  exact (Cuts.optional (.onlyIf_supports _ (.eatWord _)) hexpr).bind fun qualify => .pure _

/-! ### Set operations -/

theorem setOperand_cuts (hdeep : deeper.Steady x D) :
    Cuts x D N (setOperand deeper) (setOperand deeper) := by
  refine .test (.checkWord _) ?_ (.test (.eatWord _) ?_ (.test (.eatSymbol _) ?_ .unexpected))
  · exact (select_cuts hdeep).bind fun _ => .pure _
  · refine (Cuts.commaSeparated (fun _ => ?_) (.parens ?_)).bind fun _ => .pure _
    · exact (Mirrors.parenthesized fun _ _ => .commaSeparated (hdeep.here.expr 0)).any
    · exact .commaSeparated (hdeep.here.expr 0) (hdeep.expr 0 N)
  · exact (hdeep.query N).bind fun _ => (Cuts.expectSymbol _).bind fun _ => .pure _

theorem setOp_cuts : Cuts x D N setOp setOp := by
  refine .test (.eatWord _) (.pure _) (.test (.eatWord _) (.pure _) ?_)
  refine .test (.eatWord _) (.pure _) (.rules ?_)
  exact .test (.onlyIf _ (.eatWord _)) (.pure _) (.pure _)

theorem setQuantifier_cuts : Cuts x D N setQuantifier setQuantifier :=
  .test (.eatWord _) (.pure _) (.test (.eatWord _) (.pure _) (.pure _))

theorem moreBodies_cuts (hdeep : deeper.Steady x D) (left : Body × Option Expr) :
    Cuts x D N (moreBodies deeper left) (moreBodies deeper left) := by
  refine setOp_cuts.bind fun o => ?_
  cases o with
  | none => exact .pure _
  | some op => exact setQuantifier_cuts.bind fun _ => (setOperand_cuts hdeep).bind fun _ => .pure _

theorem body_cuts (hdeep : deeper.Steady x D) : Cuts x D N (body deeper) (body deeper) :=
  (setOperand_cuts hdeep).bind fun first =>
    .iterate (fun left => .of_mirrors fun _ => moreBodies_mirrors hdeep.here left)
      (fun left => moreBodies_cuts hdeep left) first

/-! ### Row limits -/

theorem moreLimit_cuts (hdeep : deeper.Steady x D) (l : LimitClauses) :
    Cuts x D N (moreLimit deeper l) (moreLimit deeper l) := by
  have hexpr := hdeep.expr 0 N
  refine .rules ?_
  extract_lets expr free fetch behind
  refine .test (.onlyIf _ (.eatWord _)) (.test (.eatWord _) (.pure _) ?_) ?_
  · refine hexpr.bind fun first => .test (.onlyIf _ (.eatSymbol _)) ?_ (.pure _)
    exact hexpr.bind fun _ => .pure _
  refine .test (.onlyIf _ (.checkWord _)) ?_ (.test (.onlyIf _ (.eatWord _)) ?_ (.pure _))
  · refine Cuts.advance.bind fun token => hexpr.bind fun offset => ?_
    exact .test (.eatWord _) (.pure _) ((Cuts.eatWord _).bind fun _ => .pure _)
  · have hbehind (u : Unit) : Cuts x D N (behind u) (behind u) := by
      refine hexpr.bind fun count => .test (.eatWord _) ?_ ((Cuts.expectWord _).bind fun _ => ?_)
      all_goals exact (Cuts.expectWord _).bind fun _ => .pure _
    exact .test (.eatWord _) (hbehind ()) ((Cuts.expectWord _).bind hbehind)

/-- A word that is found and then taken is one of the tokens. -/
theorem YieldsOn.found {β : Type} {R : β → Prop} (b : Bool) (word : String) {f : Token → Parser β}
    {q : Parser β} (hf : ∀ t ∈ x.piece.tokens, t.isWord word = true → YieldsOn x.piece (f t) R)
    (hq : YieldsOn x.piece q R) :
    YieldsOn x.piece
      (Parser.onlyIf b (checkWord word) >>= fun b => if b then advance >>= f else q) R := by
  intro c r e hrun hnames
  cases b with
  | false => exact hq c r e hrun hnames
  | true =>
    cases hword : (x.piece.token c.index).isWord word with
    | false =>
      have hcheck : checkWord word x.piece c = (.ok false, c.note c.index (Text.upper word)) := by
        simp [checkWord, peekWord, Parser.peek, peekNth, expectHere, expectNth, Bind.bind, Pure.pure, look, hword]
      exact hq _ r e ((Parser.bind_ok hcheck).symm.trans hrun) hnames
    | true =>
      have hcheck : checkWord word x.piece c = (.ok true, c) := by
        simp [checkWord, peekWord, Parser.peek, peekNth, Bind.bind, Pure.pure, look, hword]
      have hlt : c.index < x.piece.tokens.size := by
        by_contra hge
        rw [Cut.token_of_le (by rw [← x.piece_size]; omega), x.isWord_finish] at hword
        cases hword
      have hmem : x.piece.token c.index ∈ x.piece.tokens := by
        rw [Input.token, Array.getElem?_eq_getElem hlt]
        exact Array.getElem_mem hlt
      have hstep : (advance >>= f) x.piece c =
          f (x.piece.token c.index) x.piece { c with index := c.index + 1 } :=
        Parser.bind_ok (by simp only [advance]; rw [if_pos hlt])
      exact hf _ hmem hword _ r e (hstep.symm.trans ((Parser.bind_ok hcheck).symm.trans hrun)) hnames

/-- The token of the offset, if there is one, is a word of the kept tokens. -/
def Cut.HasOffset (x : Cut) (l : LimitClauses) : Prop :=
  ∀ t ∈ l.offsetToken, t ∈ x.piece.tokens ∧ t.isWord "OFFSET" = true

theorem moreLimit_hasOffset (deeper : Deeper) {l : LimitClauses} (hl : x.HasOffset l) :
    YieldsOn x.piece (moreLimit deeper l) fun o => ∀ l' ∈ o, x.HasOffset l' := by
  have hkeep {l' : LimitClauses} (h : l'.offsetToken = l.offsetToken) :
      YieldsOn x.piece (Pure.pure (some l')) fun o => ∀ l' ∈ o, x.HasOffset l' := by
    refine .pure ?_
    rintro _ ⟨⟩
    rwa [Cut.HasOffset, h]
  refine .skip fun rules => ?_
  extract_lets expr free fetch behind
  refine .test (.test (hkeep rfl) (.skip fun first => .test (.skip fun _ => hkeep rfl) (hkeep rfl))) ?_
  refine .found _ _ (fun t ht hword => .skip fun offset => ?_) ?_
  · have htoken : YieldsOn x.piece
        (Pure.pure (some { l with offset := some offset, offsetToken := some t }))
        fun o => ∀ l' ∈ o, x.HasOffset l' := by
      refine .pure ?_
      rintro _ ⟨⟩ _ ⟨⟩
      exact ⟨ht, hword⟩
    exact .test htoken (.skip fun _ => htoken)
  · refine .test ?_ (.pure (by simp))
    have hbehind (u : Unit) : YieldsOn x.piece (behind u) fun o => ∀ l' ∈ o, x.HasOffset l' := by
      refine .skip fun count => .test (.skip fun _ => hkeep rfl) ?_
      exact .skip fun _ => .skip fun _ => hkeep rfl
    exact .test (hbehind ()) (.skip hbehind)

/-- Where the kept tokens end, no clause follows. -/
theorem Cut.Late.goesOn {c : Cursor} (h : x.Late c) (l : LimitClauses) (r : ReadingRules) :
    l.goesOn r (x.piece.token c.index) = false := by
  have hno : ∀ word ∈ ["LIMIT", "OFFSET", "FETCH"], (x.piece.token c.index).isWord word = false := by
    intro word hword
    have hother : Text.upper word ≠ "NOT" ∧ Text.upper word ∉ openerWords ∧ Text.upper word ∉ phraseWords := by
      revert word
      decide
    rcases h with hend | ⟨hlast, hsevered⟩ | ⟨hwaits, -⟩
    · rw [Cut.token_of_le (Nat.le_of_eq hend.symm), x.isWord_finish]
    · by_contra his
      rw [Cut.token_of_last hlast, Bool.not_eq_false, Token.isWord, Bool.and_eq_true, Text.sameWord_iff] at his
      rw [Cut.severed, Token.joins, Bool.and_eq_true, Bool.or_eq_true, Bool.and_eq_true, Bool.and_eq_true,
        Text.sameWord_iff, his.2, List.contains_iff_mem] at hsevered
      exact hsevered.2.elim (fun hnot => hother.1 (hnot.1.trans rfl)) fun hopen => hother.2.1 hopen.1
    · rw [Cut.token_of_last hwaits.last]
      exact hwaits.other hother.2.2
  simp [LimitClauses.goesOn, hno]

theorem iterate_run {σ : Type} (f : σ → Parser (Option σ)) (s : σ) (i : Input) (c : Cursor) :
    iterate f s i c = iterateUpTo f s (i.tokens.size - c.index + 1) i c := rfl

/-- An `OFFSET` clause that has been read stays. -/
theorem iterateLimit_isSome {i : Input} {deeper : Deeper} (k : Nat) {l l' : LimitClauses} {c c' : Cursor}
    (h : iterateUpTo (moreLimit deeper) l k i c = (.ok l', c')) (hl : l.offsetToken.isSome = true) :
    l'.offsetToken.isSome = true := by
  induction k generalizing l c with
  | zero =>
    obtain ⟨rfl, rfl⟩ : l = l' ∧ c = c' := by simpa [iterateUpTo, Pure.pure, look] using h
    exact hl
  | succ k ih =>
    obtain ⟨o, d, hstep, hrest⟩ := Parser.of_bind_ok h
    cases o with
    | none =>
      obtain ⟨rfl, rfl⟩ : l = l' ∧ d = c' := by simpa [Pure.pure, look] using hrest
      exact hl
    | some m => exact ih hrest (by rw [(moreLimit_grows hstep).hasOffset, hl, Bool.true_or])

/-- Without an `OFFSET` clause on the whole there is none on the kept tokens. -/
theorem iterateLimit_none (hdeep : deeper.Steady x D) (j k : Nat) {l l' : LimitClauses} {c c' : Cursor}
    (hd : c.depth = D) (hc : c.index ≤ x.size) (hk : x.size < c.index + k) (hl : l.offsetToken = none)
    (hwhole : x.Late c ∨ ∃ m e, iterateUpTo (moreLimit deeper) l k x.whole c = (.ok m, e) ∧ m.offsetToken = none)
    (h : iterateUpTo (moreLimit deeper) l j x.piece c = (.ok l', c')) : l'.offsetToken = none := by
  induction j generalizing l c k with
  | zero =>
    obtain ⟨rfl, rfl⟩ : l = l' ∧ c = c' := by simpa [iterateUpTo, Pure.pure, look] using h
    exact hl
  | succ j ih =>
    obtain ⟨o, d, hstep, hrest⟩ := Parser.of_bind_ok h
    have hclause := moreLimit_isSome hstep
    cases o with
    | none =>
      obtain ⟨rfl, rfl⟩ : l = l' ∧ d = c' := by simpa [Pure.pure, look] using hrest
      exact hl
    | some l₁ =>
      have hdepth := (Parser.depth_of_run hstep).trans hd
      by_cases hlate : x.Late c
      · rw [show x.piece.dialect = x.whole.dialect from rfl, hlate.goesOn] at hclause
        cases hclause
      obtain ⟨m, e, hm, hnone⟩ := hwhole.resolve_left hlate
      have hlt : c.index < x.size := Nat.lt_of_le_of_ne hc fun hend => hlate (.inl hend)
      obtain ⟨k, rfl⟩ : ∃ i, k = i + 1 := ⟨k - 1, by omega⟩
      obtain ⟨ow, dw, hstepw, hrestw⟩ := Parser.of_bind_ok hm
      -- the whole has the same clause, which is no `OFFSET`
      have hsame := (moreLimit_isSome hstepw).symm
      rw [← Cut.token_of_lt hlt] at hsame
      obtain ⟨m₁, rfl⟩ := Option.isSome_iff_exists.mp (hsame.symm.trans hclause.symm)
      have hword : (x.piece.token c.index).isWord "OFFSET" = false := by
        by_contra hword
        rw [Bool.not_eq_false] at hword
        have hsome := iterateLimit_isSome k hrestw (by
          rw [(moreLimit_grows hstepw).hasOffset, ← Cut.token_of_lt hlt, hword, Bool.or_true])
        rw [hnone] at hsome
        cases hsome
      have hl₁ : l₁.offsetToken = none := by
        rw [← Option.isNone_iff_eq_none, ← Option.not_isSome, (moreLimit_grows hstep).hasOffset, hl, hword]
        rfl
      have hmove : x.size - d.index < x.size - c.index :=
        Cut.Moves.of_mirrors (fun _ => moreLimit_mirrors hdeep.here l) (x.size - c.index) c (by omega) _ _ hstep rfl
      rcases (moreLimit_cuts hdeep l (x.size - c.index) (Nat.lt_succ_self _) c (by omega) hd).2 hlate _ _ hstepw with
        ⟨hpiece, -, hsize⟩ | hends
      · obtain ⟨hfirst, rfl⟩ := Prod.mk.inj (hstep.symm.trans hpiece)
        cases hfirst
        exact ih k hdepth hsize (by omega) hl₁ (.inr ⟨m, e, hrestw, hnone⟩) hrest
      · rw [hstep] at hends
        have hlate' := hends.late.2
        obtain ⟨r, hr, hrest'⟩ := hlate'.rest
        exact ih (x.size - d.index + 1) hdepth (by omega) (by omega) hl₁ (.inl hlate') hrest

/-- What follows the clauses of a row limit, if none of them is an `OFFSET`. -/
theorem limit_run {i : Input} {deeper : Deeper} {top : Option Expr} {ordered : Bool} {l : LimitClauses} {c d : Cursor}
    (h : iterate (moreLimit deeper) { count := top } i c = (.ok l, d)) (hl : l.offsetToken = none) :
    limit deeper top ordered i c =
      (Pure.pure (if l.count.isNone && l.offset.isNone then none else some ⟨l.count, l.offset⟩) :
        Parser (Option Limit)) i d := by
  rw [limit, Parser.bind_ok h, hl]
  rfl

/-- Without an ordering that the dialect asks for, a row limit that is read has no `OFFSET` clause. -/
theorem offsetToken_of_limit {i : Input} {deeper : Deeper} {top : Option Expr} {ordered : Bool} {l : LimitClauses}
    {a : Option Limit} {c d e : Cursor} (horder : (i.dialect.reading.offsetRequiresOrder && !ordered) = true)
    (hl : iterate (moreLimit deeper) { count := top } i c = (.ok l, d))
    (h : limit deeper top ordered i c = (.ok a, e)) : l.offsetToken = none := by
  by_contra hsome
  obtain ⟨token, htoken⟩ := Option.ne_none_iff_exists'.mp hsome
  have hno : i.dialect.reading.offsetRequiresOrder = true ∧ ordered = false := by simpa using horder
  rw [limit, Parser.bind_ok hl, htoken] at h
  simp [Parser.rules, look, Bind.bind, hno, unexpectedAt, fail] at h

/-- A `LIMIT` that is missing is reported at `OFFSET`. An ordering that is missing would be missing on the whole. -/
theorem limit_cuts (hdeep : deeper.Steady x D) (top : Option Expr) (ordered : Bool) :
    Cuts x D N (limit deeper top ordered) (limit deeper top ordered) := by
  have hclauses : Cuts x D N (iterate (moreLimit deeper) { count := top })
      (iterate (moreLimit deeper) { count := top }) :=
    .iterate (fun l => .of_mirrors fun _ => moreLimit_mirrors hdeep.here l) (fun l => moreLimit_cuts hdeep l) _
  cases horder : x.whole.dialect.reading.offsetRequiresOrder && !ordered with
  | false =>
    intro n hn
    refine .bindOf (P := fun _ l => x.HasOffset l) (fun c _ l e hrun => ?_) (hclauses n hn) fun m hm l hl => .rules ?_
    · refine (YieldsOn.iterate ?_ fun l hl => moreLimit_hasOffset deeper hl).apply hrun
      rintro _ ⟨⟩
    dsimp only
    rw [horder]
    split
    case h_2 => exact .pure _
    case h_1 token htoken =>
      obtain ⟨hmem, hword⟩ := hl token htoken
      rw [if_neg Bool.false_ne_true]
      split
      · exact .ends fun _ _ _ => .fault (.clause hmem hword)
      · exact .pure _
  | true =>
    intro n hn c hc hd
    have hinside := x.inside
    have hends (hwhole : x.Late c ∨ ∃ l e, iterate (moreLimit deeper) { count := top } x.whole c = (.ok l, e) ∧
        l.offsetToken = none) (h : x.Ends c (iterate (moreLimit deeper) { count := top } x.piece c)) :
        x.Ends c (limit deeper top ordered x.piece c) := by
      refine h.bind fun l e hrun _ he => ?_
      simp only [iterate_run] at hwhole hrun
      have hnone : l.offsetToken = none :=
        iterateLimit_none hdeep _ (x.whole.tokens.size - c.index + 1) hd (by omega) (by omega) rfl hwhole hrun
      rw [hnone]
      exact .pure he
    refine ⟨fun hlate => hends (.inl hlate) ((hclauses n hn c hc hd).1 hlate), fun hearly a e hrun => ?_⟩
    obtain ⟨l, d, hl, -⟩ := Parser.of_bind_ok hrun
    have hnone := offsetToken_of_limit horder hl hrun
    rcases (hclauses n hn c hc hd).2 hearly l d hl with ⟨hpiece, hle, hsize⟩ | h
    · refine .inl ⟨?_, ?_⟩
      · rw [limit_run hpiece hnone, ← hrun, limit_run hl hnone]
        rfl
      · rw [limit_run hl hnone] at hrun
        obtain ⟨-, rfl⟩ := Prod.mk.inj hrun
        exact ⟨hle, hsize⟩
    · exact .inr (hends (.inr ⟨l, d, hl, hnone⟩) h)

/-! ### Levels -/

theorem cte_cuts (hdeep : deeper.Steady x D) : Cuts x D N (cte deeper) (cte deeper) := by
  refine Cuts.name.bind fun label => Cuts.optionalNameList.bind fun columns => ?_
  refine (Cuts.expectWord _).bind fun _ => ?_
  exact (Cuts.parens (hdeep.query N)).bind fun _ => .pure _

theorem ctes_cuts (hdeep : deeper.Steady x D) : Cuts x D N (ctes deeper) (ctes deeper) :=
  (Cuts.eatWord _).bind fun _ =>
    (Cuts.commaSeparated (fun _ => cte_mirrors hdeep.here) (cte_cuts hdeep)).bind fun _ => .pure _

theorem queryWith_cuts (hdeep : deeper.Steady x D) :
    Cuts x D N (queryWith deeper) (queryWith deeper) := by
  refine (Cuts.optional (.eatWord _) (ctes_cuts hdeep)).bind fun ctes => ?_
  refine (body_cuts hdeep).bind fun r => (orderBy_cuts hdeep).bind fun order => ?_
  exact (limit_cuts hdeep _ _).bind fun _ => .pure _

/-- The first word of a phrase that is cut off starts no query. -/
theorem queryWith_waits (deeper : Deeper) (c : Cursor) (h : x.Waits c) :
    x.Ends c (queryWith deeper x.piece c) := by
  have hno {word : String} (hw : Text.upper word ∉ phraseWords) : (x.back 1).isWord word = false := h.other hw
  obtain ⟨c₁, hwith, h₁⟩ := h.eatWord (hno (show Text.upper "WITH" ∉ phraseWords by decide))
  obtain ⟨c₂, hselect, h₂⟩ := h₁.checkWord (hno (show Text.upper "SELECT" ∉ phraseWords by decide))
  obtain ⟨c₃, hvalues, h₃⟩ := h₂.eatWord (hno (show Text.upper "VALUES" ∉ phraseWords by decide))
  obtain ⟨c₄, hopen, h₄⟩ := h₃.eatSymbol "("
  have hoperand : setOperand deeper x.piece c₁ = (unexpected : Parser (Body × Option Expr)) x.piece c₄ := by
    rw [setOperand, Parser.bind_ok hselect, if_neg Bool.false_ne_true, Parser.bind_ok hvalues,
      if_neg Bool.false_ne_true, Parser.bind_ok hopen, if_neg Bool.false_ne_true]
  obtain ⟨f, d, hfail⟩ := Fails.unexpected (α := Body × Option Expr) x.piece c₄
  have hbody : body deeper x.piece c₁ = (.error f, d) := Parser.bind_error (hoperand.trans hfail)
  have hquery : queryWith deeper x.piece c = (.error f, d) :=
    (Parser.bind_ok (Parser.bind_ok hwith)).trans (Parser.bind_error hbody)
  have hblame : x.Ends c₄ ((unexpected : Parser (Body × Option Expr)) x.piece c₄) := h₄.unexpected
  rw [hfail] at hblame
  rw [hquery]
  exact .fault hblame.blames

/-- The productions of every level follow the whole up to the cut. -/
theorem nested_steady (x : Cut) (k : Nat) {D : Nat} (hD : maxDepth ≤ k + D) : (nested k).Steady x D := by
  induction k generalizing D with
  | zero =>
    rw [Nat.zero_add] at hD
    refine ⟨fun _ _ => .tooDeep hD, fun _ => .tooDeep hD, nested_local x.self 0, fun _ c e d hrun => ?_,
      fun _ c _ hparted => .fault (.star hparted)⟩
    cases hrun
  | succ k ih =>
    have hbelow : (nested k).Steady x (D + 1) := ih (by omega)
    have hexpr (p : Precedence) (N : Nat) : Cuts x D N (level (subexpr (nested k) p)) (level (subexpr (nested k) p)) :=
      .level (subexpr_waits hbelow p) (subexpr_cuts hbelow p)
    have hquery (N : Nat) : Cuts x D N (level (queryWith (nested k))) (level (queryWith (nested k))) :=
      .level (fun c h _ => queryWith_waits _ c h) (queryWith_cuts hbelow)
    refine ⟨hexpr, hquery, nested_local x.self (k + 1), fun p c e d hrun => ?_, fun p c hd hparted => ?_⟩
    · change level (subexpr (nested k) p) x.whole c = _ at hrun
      rcases Parser.level_cases hrun with ⟨-, hrefused⟩ | ⟨hdepth, -⟩
      · cases hrefused
      · exact hdepth
    · rcases Nat.lt_or_ge c.depth maxDepth with hdepth | hdepth
      · have hdown : c.down.depth = D + 1 := congrArg (· + 1) hd
        have hlt : c.down.index < x.size := hparted.lt
        have hends : x.Ends c.down (subexpr (nested k) p x.piece c.down) :=
          subexpr_names hbelow p hdown hlt hparted.dotted
        exact hends.level hdepth
      · rw [show (nested (k + 1)).expr p x.piece c = tooDeep x.piece c from if_pos hdepth]
        exact .fault (.star hparted)

end Queries

/-! ## Statements -/

section Statements

variable {x : Cut} {N : Nat}

theorem outermost_steady (x : Cut) : outermost.Steady x 0 := nested_steady x maxDepth (Nat.le_refl _)

theorem expr_cuts : Cuts x 0 N expr expr := (outermost_steady x).expr 0 N

theorem query_cuts : Cuts x 0 N query query := (outermost_steady x).query N

theorem returning_cuts : Cuts x 0 N returning returning :=
  .optionalList (.onlyIf_supports _ (.eatWord _))
    (.commaSeparated (fun _ => selectItem_mirrors (nested_local x.self _))
      (selectItem_cuts (outermost_steady x)))

/-- A list of names of which only the parenthesis is left. -/
theorem nameList_last {c : Cursor} (hd : c.depth = 0) (hc : c.index + 1 = x.size)
    (hopen : (x.back 1).isSymbol "(" = true) : x.Ends c (nameList x.piece c) := by
  have hsize := x.piece_size
  have htoken : (x.piece.token c.index).isSymbol "(" = true := by
    rwa [Cut.back, show x.size - 1 = c.index by omega] at hopen
  have hrun : expectSymbol "(" x.piece c = (.ok (), { c with index := c.index + 1 }) := by
    simp [expectSymbol, eatSymbol, checkSymbol, peekSymbol, peek, peekNth, advance, Bind.bind, Pure.pure, look,
      htoken, show c.index < x.piece.tokens.size by omega]
  have hrest : Cuts x 0 1 (commaSeparated name >>= fun ns => expectSymbol ")" >>= fun _ => Pure.pure ns)
      (commaSeparated name >>= fun ns => expectSymbol ")" >>= fun _ => Pure.pure ns) :=
    (Cuts.commaSeparated (fun _ => Mirrors.name.any) .name).bind fun _ =>
      (Cuts.expectSymbol _).bind fun _ => .pure _
  have hlist : nameList x.piece c = (commaSeparated name >>= fun ns => expectSymbol ")" >>= fun _ =>
      Pure.pure ns) x.piece { c with index := c.index + 1 } :=
    Parser.bind_ok hrun
  rw [hlist]
  exact ((hrest 0 Nat.one_pos { c with index := c.index + 1 } hc hd).1 (.inl hc)).weaken (Nat.le_succ _)

theorem insert_cuts : Cuts x 0 N insert insert := by
  refine (Cuts.expectWord _).bind fun _ => (Cuts.expectWord _).bind fun _ => ?_
  refine Cuts.qualifiedName.bind fun table n hn => ?_
  have hrest {N : Nat} (columns : List Name) : Cuts x 0 N
      (query >>= fun source => returning >>= fun items =>
        Pure.pure (⟨table, columns, source, items⟩ : Insert))
      (query >>= fun source => returning >>= fun items =>
        Pure.pure (⟨table, columns, source, items⟩ : Insert)) :=
    query_cuts.bind fun _ => returning_cuts.bind fun _ => .pure _
  refine .peekSymbol "(" (.peekBehind (fun u _ => ?_) fun hone _ => ?_)
  · dsimp only
    split
    · exact (Cuts.nameList.bind hrest) n hn
    · exact hrest [] n hn
  · obtain rfl := hone
    rw [x.isWord_finish]
    cases hopen : (x.back 1).isSymbol "(" with
    | false => exact hrest [] 1 hn
    | true =>
      refine .ends fun c hc hd => ?_
      have hlist : x.Ends c (nameList x.piece c) := nameList_last hd hc hopen
      exact Cuts.behind hlist hd fun columns => hrest columns

theorem assignment_cuts : Cuts x 0 N assignment assignment := by
  refine Cuts.name.bind fun first => ?_
  refine (Cuts.many (.of_mirrors fun _ => .optional (.eatSymbol (by decide)) fun _ _ => Mirrors.name.any)
    (.optional (.eatSymbol _) .name)).bind fun rest => (Cuts.expectSymbol _).bind fun _ => ?_
  exact expr_cuts.bind fun _ => .pure _

theorem condition_cuts :
    Cuts x 0 N (optional (eatWord "WHERE") expr) (optional (eatWord "WHERE") expr) :=
  .optional (.eatWord _) expr_cuts

theorem update_cuts : Cuts x 0 N update update := by
  refine (Cuts.expectWord _).bind fun _ => Cuts.qualifiedName.bind fun table => ?_
  refine optionalAlias_cuts.bind fun label => (Cuts.expectWord _).bind fun _ => ?_
  refine (Cuts.commaSeparated (fun _ => assignment_mirrors) assignment_cuts).bind fun assignments => ?_
  exact condition_cuts.bind fun _ => returning_cuts.bind fun _ => .pure _

theorem delete_cuts : Cuts x 0 N delete delete := by
  refine (Cuts.expectWord _).bind fun _ => (Cuts.expectWord _).bind fun _ => ?_
  refine Cuts.qualifiedName.bind fun table => condition_cuts.bind fun condition => ?_
  exact returning_cuts.bind fun _ => .pure _

theorem createView_cuts (orReplace : Bool) : Cuts x 0 N (createView orReplace) (createView orReplace) := by
  refine Cuts.qualifiedName.bind fun view => Cuts.optionalNameList.bind fun columns => ?_
  exact (Cuts.expectWord _).bind fun _ => query_cuts.bind fun _ => .pure _

theorem autoIncrement_cuts : Cuts x 0 N autoIncrement autoIncrement := by
  refine .test (.eatWord _) (.pure _) (.test (.eatWord _) (.pure _) (.test (.eatWord _) ?_ ?_))
  · refine .test (.eatSymbol _) ?_ (.pure _)
    refine (Cuts.commaSeparated (fun _ => operandFrom_mirrors (nested_local x.self _))
      (operandFrom_cuts (outermost_steady x)).cuts).bind fun _ => ?_
    exact (Cuts.expectSymbol _).bind fun _ => .pure _
  refine .test (.eatWord _) ?_ (.pure _)
  refine .test (.eatWord _) ?_ ((Cuts.expectWord _).bind fun _ => (Cuts.expectWord _).bind fun _ => ?_)
  all_goals exact (Cuts.expectWord _).bind fun _ => (Cuts.expectWord _).bind fun _ => .pure _

theorem columnOption_cuts : Cuts x 0 N columnOption columnOption := by
  refine .test (.eatWords (by decide) (by decide)) (.pure _) (.test (.eatWord _) (.pure _) ?_)
  refine .test (.eatWords (by decide) (by decide)) (.pure _) (.test (.eatWord _) (.pure _) (.test (.eatWord _) ?_ ?_))
  · exact ((outermost_steady x).expr _ N).bind fun _ => .pure _
  · exact .dialect (.test (.onlyIf _ autoIncrement_cuts) (.pure _) (.pure _))

theorem column_cuts : Cuts x 0 N column column :=
  Cuts.name.bind fun _ => dataType_cuts.bind fun _ =>
    (Cuts.many (.of_mirrors fun _ => columnOption_mirrors) columnOption_cuts).bind fun _ => .pure _

theorem tableConstraint_cuts : Cuts x 0 N tableConstraint tableConstraint := by
  refine .test (.eatWords (by decide) (by decide)) ?_ (.test (.eatWord _) ?_ (.pure _))
  · exact Cuts.nameList.bind fun _ => .pure _
  · exact Cuts.nameList.bind fun _ => .pure _

theorem tableElement_cuts : Cuts x 0 N tableElement tableElement := by
  refine tableConstraint_cuts.bind fun o => ?_
  cases o with
  | some constraint => exact .pure _
  | none => exact column_cuts.bind fun _ => .pure _

/-- A name before two words that were tested together, of which the last is missing. -/
theorem qualifiedName_early {c : Cursor} {w : String} (hd : c.depth = 0) (hc : c.index + 2 = x.size)
    (hend : x.size ≤ c.furthest) (hw : Text.upper w ∈ phraseWords) (hlast : (x.back 1).isWord w = true) :
    x.Ends c (qualifiedName x.piece c) := by
  have hsize := x.piece_size
  have hparts : Cuts x 0 2 (many dottedPart) (many dottedPart) :=
    .many (.of_mirrors fun _ => .dottedPart) .dottedPart
  cases hname : (x.piece.token c.index).isName with
  | true =>
    have hrun := name_run (i := x.piece) (c := c) (by omega) hname
    have hlate : x.Late { c with index := c.index + 1 } :=
      .inr (.inr ⟨Cut.waits_of_isWord hw hlast (by simp only; omega) hend, by simp only [hd]; decide⟩)
    rw [show qualifiedName x.piece c = _ from Parser.bind_ok hrun]
    refine Cut.Ends.weaken (e := { c with index := c.index + 1 }) (Nat.le_succ _) ?_
    exact ((hparts.bind fun _ => .pure _) 1 (by omega) { c with index := c.index + 1 }
      (by simp only; omega) hd).1 hlate
  | false =>
    have hrun : name x.piece c = (unexpected : Parser Name) x.piece (c.note c.index "identifier") := by
      simp [name, peek, peekNth, expectHere, expectNth, look, Bind.bind, hname]
    have hblame : x.Ends (c.note c.index "identifier")
        ((unexpected : Parser Name) x.piece (c.note c.index "identifier")) :=
      .unexpected (by rw [c.furthest_note]; omega)
    refine Cut.Ends.bind ?_ fun a e hok => ?_
    · rw [hrun]
      exact hblame.weaken (Nat.le_of_eq (c.note_index ..).symm)
    · rw [hrun] at hok
      cases hok

/-- What follows a test for three words and a name. -/
theorem eatWords_three {a b c : String} (ha : Text.upper a ∈ phraseWords) (hb : Text.upper b ∈ phraseWords) {β : Type}
    {f : Bool → QualifiedName → Parser β} (hf : ∀ g n, Cuts x 0 N (f g n) (f g n)) :
    Cuts x 0 N (eatWords [a, b, c] >>= fun g => qualifiedName >>= f g)
      (eatWords [a, b, c] >>= fun g => qualifiedName >>= f g) := by
  have hrest (g : Bool) : Cuts x 0 N (qualifiedName >>= f g) (qualifiedName >>= f g) :=
    Cuts.qualifiedName.bind (hf g)
  refine .wordsThen hrest fun k e hd hk hN h => .inr ?_
  have hindex := h.index
  have hshort := h.short
  simp only [List.length_cons, List.length_nil] at hshort
  have hdepth := (Parser.depth_of_run h.run).trans hd
  obtain ⟨w, hw, hback⟩ := h.last (by omega)
  have hphrase : Text.upper w ∈ phraseWords := by
    obtain rfl | rfl : w = a ∨ w = b := by simpa using hw
    · exact ha
    · exact hb
  rcases Nat.lt_or_ge (e.index + 1) x.size with hearly | hlast
  · exact Cuts.behind (qualifiedName_early hdepth (by omega) h.asked hphrase hback) hdepth fun table =>
      (hf false table).mono (by omega)
  · have hlast' : e.index + 1 = x.size := by omega
    have hlate : x.Late e := .inr (.inr ⟨Cut.waits_of_isWord hphrase hback hlast' h.asked, by rw [hdepth]; decide⟩)
    exact (hrest false 1 (by omega) e hlast' hdepth).1 hlate

/-- The rest of `CREATE TABLE` behind the name of the table. -/
def tableBehind (temporary guarded : Bool) (table : QualifiedName) : Parser CreateTable := do
  let elements ← optionalList (eatSymbol "(") (do
    let elements ← commaSeparated tableElement
    expectSymbol ")"
    return elements)
  let source ← optional (eatWord "AS") query
  if source.isNone && elements.isEmpty then unexpected
  let constraints := elements.filterMap Sum.getLeft?
  let columns := elements.filterMap Sum.getRight?
  return ⟨table, temporary, guarded, columns, constraints, source⟩

theorem tableBehind_cuts (temporary guarded : Bool) (table : QualifiedName) :
    Cuts x 0 N (tableBehind temporary guarded table) (tableBehind temporary guarded table) := by
  refine (Cuts.optionalList (.eatSymbol _) ?_).bind fun elements => ?_
  · exact (Cuts.commaSeparated (fun _ => tableElement_mirrors) tableElement_cuts).bind fun _ =>
      (Cuts.expectSymbol _).bind fun _ => .pure _
  refine (Cuts.optional (.eatWord _) query_cuts).bind fun source => ?_
  dsimp only
  split
  · exact .stop
  · exact .pure _

theorem createTable_cuts (temporary : Bool) :
    Cuts x 0 N (createTable temporary) (createTable temporary) := by
  have hguarded (b : Bool) : Cuts x 0 N
      (onlyIf b (eatWords ["IF", "NOT", "EXISTS"]) >>= fun guarded =>
        qualifiedName >>= tableBehind temporary guarded)
      (onlyIf b (eatWords ["IF", "NOT", "EXISTS"]) >>= fun guarded =>
        qualifiedName >>= tableBehind temporary guarded) := by
    cases b with
    | true => exact eatWords_three (by decide) (by decide) fun guarded table => tableBehind_cuts temporary guarded table
    | false =>
      exact (Cuts.pure false).bind fun guarded =>
        Cuts.qualifiedName.bind (tableBehind_cuts temporary guarded)
  exact fun n hn => .of_run (fun _ => rfl) (fun _ => rfl)
    (hguarded (x.whole.dialect.supports .ifNotExists) n hn)

theorem create_cuts : Cuts x 0 N create create := by
  refine (Cuts.expectWord _).bind fun _ => .test (.eatWord _) (.dialect ?_) ?_
  · refine (Cuts.expectWord _).bind fun _ => (Cuts.expectWord _).bind fun _ => ?_
    exact (createView_cuts true).bind fun _ => .pure _
  refine .test (.eatWord _) (Cuts.bind (.pure _) fun temporary => ?_)
    ((Cuts.eatWord _).bind fun temporary => ?_)
  all_goals
    refine .test (.onlyIf _ (.eatWord _)) ((createView_cuts false).bind fun _ => .pure _) ?_
    exact (Cuts.expectWord _).bind fun _ => (createTable_cuts _).bind fun _ => .pure _

theorem drop_cuts : Cuts x 0 N drop drop := by
  refine (Cuts.expectWord _).bind fun _ => .test (.eatWord _) ?_ ((Cuts.expectWord _).bind fun _ => ?_)
  all_goals
    refine (Cuts.onlyIf_supports _ (.eatWords (by decide) (by decide))).bind fun guarded => ?_
    refine (Cuts.commaSeparated (fun _ => .qualifiedName) .qualifiedName).bind fun names => ?_
    exact (Cuts.onlyIf_supports _ (.eatWord _)).bind fun _ => .pure _

theorem checkQuery_cuts : Cuts x 0 N checkQuery checkQuery :=
  .test (.checkWord _) (.pure _) (.test (.checkWord _) (.pure _) (.test (.checkWord _) (.pure _)
    (.checkSymbol _)))

theorem statement_cuts : Cuts x 0 N statement statement := by
  refine .test checkQuery_cuts (query_cuts.bind fun _ => .pure _) ?_
  refine .test (.checkWord _) (insert_cuts.bind fun _ => .pure _) ?_
  refine .test (.checkWord _) (update_cuts.bind fun _ => .pure _) ?_
  refine .test (.checkWord _) (delete_cuts.bind fun _ => .pure _) ?_
  refine .test (.checkWord _) create_cuts (.test (.checkWord _) (drop_cuts.bind fun _ => .pure _) ?_)
  exact .unexpected

/-! ### Lists of statements -/

theorem semicolon_moves : x.Moves semicolon := by
  intro n c hc o e hrun ho
  have hsize := x.piece_size
  cases ht : (x.piece.token c.index).isSymbol ";" with
  | false =>
    obtain ⟨d, hno, -⟩ := semicolon_no ht
    rw [hno] at hrun
    cases hrun
    cases ho
  | true =>
    have hlt : c.index < x.piece.tokens.size := by
      by_contra hge
      rw [Cut.token_of_le (by omega), x.isSymbol_finish] at ht
      cases ht
    rw [semicolon_yes ht hlt] at hrun
    obtain rfl : _ = e := congrArg Prod.snd hrun
    simp only
    omega

theorem semicolon_cuts : Cuts x 0 N semicolon semicolon := .test (.eatSymbol _) (.pure _) (.pure _)

theorem nextStatement_cuts : Cuts x 0 N nextStatement nextStatement := by
  refine (Cuts.many semicolon_moves semicolon_cuts).bind fun _ => .test .atEnd (.pure _) ?_
  refine Cuts.resetBinds.bind fun _ => statement_cuts.bind fun s => .test .atEnd (.pure _) ?_
  exact .test (.checkSymbol _) (.pure _) .stop

/-- A statement takes a token: otherwise it would have to end where it starts. -/
theorem nextStatement_moves : x.Moves nextStatement := by
  have hsize := x.piece_size
  intro n
  induction n with
  | zero =>
    intro c hc o e hrun ho
    obtain ⟨d, hend⟩ := nextStatement_end (i := x.piece) (c := c) (x.isSymbol_finish ";") (by omega)
    rw [hend] at hrun
    cases hrun
    cases ho
  | succ n ih =>
    intro c hc o e hrun ho
    cases ht : (x.piece.token c.index).isSymbol ";" with
    | true =>
      rw [nextStatement_skip ht (by omega)] at hrun
      have hstep := ih { c with index := c.index + 1 } (by simp only; omega) o e hrun ho
      omega
    | false =>
      obtain ⟨d, ⟨hindex, -⟩, -, hnext⟩ := nextStatement_start ht (by omega)
      rw [hnext] at hrun
      cases hstatement : statement x.piece d with
      | mk r k =>
        cases r with
        | error y =>
          rw [closedStatement, Parser.bind_error hstatement] at hrun
          cases hrun
        | ok s =>
          rw [closedStatement, Parser.bind_ok hstatement] at hrun
          obtain ⟨m, hm, hrest, -⟩ :=
            Cut.rest_of_mirrors (statement_mirrors (x := x.self) (n := n + 1)) (by omega) hstatement
          rcases Nat.eq_or_lt_of_le hm with rfl | hlt
          · have hk : k.index = c.index := by omega
            obtain ⟨y, e', hno⟩ := closing_no s (by omega) (by rwa [hk] : (x.piece.token k.index).isSymbol ";" = false)
            rw [hno] at hrun
            cases hrun
          · by_cases hclosed : x.piece.tokens.size ≤ k.index ∨ (x.piece.token k.index).isSymbol ";" = true
            · rw [closing_yes s hclosed] at hrun
              cases hrun
              omega
            · obtain ⟨hopen, hno⟩ := not_or.mp hclosed
              obtain ⟨y, e', hno⟩ := closing_no s (by omega) (Bool.eq_false_iff.mpr hno)
              rw [hno] at hrun
              cases hrun

theorem statements_cuts : Cuts x 0 N statements statements := .many nextStatement_moves nextStatement_cuts

end Statements

/-! ## Prefixes of the tokens of a text -/

/-- The first `k` tokens of a text, cut off from the rest. -/
def Cut.ofTokens {d : Dialect} (hd : d ∈ Dialect.builtins) {sql : String} {tokens : List Token}
    {finish : Token} (hlex : tokenize d.lexical sql = .ok (tokens, finish)) {k : Nat}
    (hk : k < tokens.length) : Cut where
  whole := .ofOpenTokens d tokens
  size := k
  finish := (Input.ofOpenTokens d (tokens.take k)).finish
  inside := hk
  finish_kind := rfl
  whole_finish := rfl
  readable := readable_of_mem_builtins hd
  semicolon := by
    have hall : ∀ d ∈ Dialect.builtins, d.reading.operator? ";" = none := by decide +kernel
    exact hall d hd
  accepts := by
    have hall : ∀ d ∈ Dialect.builtins, d.reading.unknownFunctions = .accept := by decide +kernel
    exact hall d hd
  lexed t ht := tokenize_lexed hlex t (by simpa [Input.ofOpenTokens] using ht)
  safeCast := by
    have hall : ∀ d ∈ Dialect.builtins, ∀ w ∈ d.writing.safeCast, w ∉ d.lexical.reserved := by decide +kernel
    exact hall d hd
  phrases := by
    have hall : ∀ d ∈ Dialect.builtins, ∀ w ∈ phraseWords, ∀ entry ∈ d.reading.nowWords, entry.1 ≠ w := by
      decide +kernel
    exact hall d hd

theorem Cut.whole_ofTokens {d : Dialect} (hd : d ∈ Dialect.builtins) {sql : String}
    {tokens : List Token} {finish : Token} (hlex : tokenize d.lexical sql = .ok (tokens, finish))
    {k : Nat} (hk : k < tokens.length) : (Cut.ofTokens hd hlex hk).whole = .ofOpenTokens d tokens :=
  rfl

theorem Cut.piece_ofTokens {d : Dialect} (hd : d ∈ Dialect.builtins) {sql : String}
    {tokens : List Token} {finish : Token} (hlex : tokenize d.lexical sql = .ok (tokens, finish))
    {k : Nat} (hk : k < tokens.length) :
    (Cut.ofTokens hd hlex hk).piece = .ofOpenTokens d (tokens.take k) := by
  simp [Cut.piece, Cut.ofTokens, Input.ofOpenTokens]

/-- What the kept tokens are refused with where the whole is read. -/
theorem Cut.blames_of_runFrom {x : Cut} {ss : List Statement}
    (hwhole : statements.runFrom x.whole = .ok ss) {f : Fault}
    (hcut : statements.runFrom x.piece = .error f) : x.Blames f := by
  unfold Parser.runFrom at hwhole hcut
  obtain ⟨hlate, hearly⟩ := statements_cuts (x := x) x.size (Nat.lt_succ_self _) {} (Nat.zero_add _) rfl
  have hends : x.Ends {} (statements x.piece {}) := by
    by_cases h : x.Late {}
    · exact hlate h
    · rcases hearly h ss _ (Prod.ext hwhole rfl) with ⟨hsame, -⟩ | hends
      · rw [hsame] at hcut
        cases hcut
      · exact hends
  match hrun : statements x.piece {} with
  | (.ok a, e) =>
    rw [hrun] at hcut
    cases hcut
  | (.error y, e) =>
    rw [hrun] at hcut hends
    cases hcut
    exact hends.blames

/-- The word before the cut is the last one of the kept tokens. -/
theorem Cut.back_one_of_severed {x : Cut} (h : x.severed = true) :
    x.piece.tokens.back? = some (x.back 1) := by
  have hpos : 0 < x.size := by
    by_contra hzero
    rw [Cut.severed, Token.joins, show x.back 1 = x.finish from token_of_le (by omega), x.finish_kind] at h
    cases h
  have hlast : x.size - 1 < x.piece.tokens.size := by
    rw [x.piece_size]
    omega
  rw [Cut.back, Input.token, Array.getElem?_eq_getElem hlast, Array.back?, x.piece_size]
  exact Array.getElem?_eq_getElem hlast

/-- A prefix of accepted tokens that is refused is refused at its end, unless it is refused because

* it parts a qualified star, whose names are then an expression one level too deep;
* it has an `OFFSET` and lacks the `LIMIT` that this depends on;
* its last word is a reserved one that the grammar takes only together with the next token, which is cut off. -/
theorem prefix_fails_at_end {d : Dialect} (hd : d ∈ Dialect.builtins) {sql : String}
    {tokens : List Token} {finish : Token} (hlex : tokenize d.lexical sql = .ok (tokens, finish))
    {ss : List Statement} (hwhole : readAll d tokens = .ok ss) {k : Nat} (hk : k < tokens.length)
    {f : Fault} (hcut : readAll d (tokens.take k) = .error f) :
    ∃ p expected found, f = .unexpected p expected found ∧
      (p = (Input.ofOpenTokens d (tokens.take k)).finish.position ∧ found = "end of input" ∨
        (∃ j n t, (Input.ofOpenTokens d tokens).StarAt j n ∧ j < k ∧ k ≤ j + 2 * n ∧ tokens[j]? = some t ∧
          p = t.position ∧ found = t.describe ∧ expected = [s!"at most {maxDepth} levels of nesting"]) ∨
        (∃ t ∈ tokens.take k, t.isWord "OFFSET" = true ∧ p = t.position ∧ found = t.describe ∧
          expected = ["LIMIT before OFFSET"]) ∨
        ∃ t next, (tokens.take k).getLast? = some t ∧ tokens[k]? = some next ∧
          t.joins next = true ∧ p = t.position ∧ found = t.describe) := by
  have hpiece := Cut.piece_ofTokens hd hlex hk
  have hsize : (Cut.ofTokens hd hlex hk).size = k := rfl
  have hread : statements.runFrom (Cut.ofTokens hd hlex hk).whole = .ok ss := by
    rw [Cut.whole_ofTokens]
    exact hwhole
  have hrefused : statements.runFrom (Cut.ofTokens hd hlex hk).piece = .error f := by
    rw [hpiece]
    exact hcut
  have hblames := Cut.blames_of_runFrom hread hrefused
  cases hblames with
  | finish expected => exact ⟨_, _, _, rfl, .inl ⟨rfl, rfl⟩⟩
  | star hparted =>
    obtain ⟨n, hstar, hlt, hn⟩ := hparted
    refine ⟨_, _, _, rfl, .inr (.inl ⟨_, n, _, hstar, hlt, hn, ?_, rfl, rfl, rfl⟩)⟩
    rw [Cut.token_of_lt hlt, Cut.whole_ofTokens]
    simp [Input.ofOpenTokens, Input.token, Nat.lt_trans hlt hk]
  | clause ht hword =>
    refine ⟨_, _, _, rfl, .inr (.inr (.inl ⟨_, ?_, hword, rfl, rfl, rfl⟩))⟩
    rw [hpiece] at ht
    simpa [Input.ofOpenTokens] using ht
  | severed h expected =>
    refine ⟨_, _, _, rfl, .inr (.inr (.inr ⟨_, _, ?_, ?_, h, rfl, rfl⟩))⟩
    · have hlast := Cut.back_one_of_severed h
      rw [hpiece] at hlast
      simpa [Input.ofOpenTokens] using hlast
    · simp [Cut.whole_ofTokens, hsize, Input.ofOpenTokens, Input.token, hk]

/-- What the first `k` tokens of a text are refused with, if the text is accepted. -/
def prefixFault (d : Dialect) (sql : String) (k : Nat) : Option Fault :=
  match tokenize d.lexical sql with
  | .error _ => none
  | .ok (tokens, _) =>
    match readAll d tokens, readAll d (tokens.take k) with
    | .ok _, .error f => some f
    | _, _ => none

theorem prefixFault_eq_some {d : Dialect} {sql : String} {k : Nat} {f : Fault}
    (h : prefixFault d sql k = some f) : ∃ tokens finish ss,
      tokenize d.lexical sql = .ok (tokens, finish) ∧ readAll d tokens = .ok ss ∧ k < tokens.length ∧
        readAll d (tokens.take k) = .error f := by
  unfold prefixFault at h
  split at h
  · cases h
  · rename_i tokens finish hlex
    split at h
    · rename_i ss y hwhole hcut
      cases h
      refine ⟨tokens, finish, ss, hlex, hwhole, ?_, hcut⟩
      by_contra hk
      rw [List.take_of_length_le (by omega), hwhole] at hcut
      cases hcut
    · cases h

/-- A word that needs the next token is not taken for the end. -/
theorem describe_of_joins {t next : Token} (h : t.joins next = true) : t.describe ≠ "end of input" := by
  rw [Token.joins, Bool.and_eq_true, beq_iff_eq] at h
  have hquoted : t.describe = s!"'{t.text}'" := by
    rw [Token.describe, h.1]
  intro hend
  have hhead := congrArg (·.toList.head?) (hquoted.symm.trans hend)
  simp at hhead

/-- A list of columns that is cut off behind a comma. -/
theorem openList_fails_at_end : ∃ tokens finish ss expected,
    tokenize Dialect.ansi.lexical "SELECT a, b FROM t" = .ok (tokens, finish) ∧
      readAll .ansi tokens = .ok ss ∧ readAll .ansi (tokens.take 3) = .error (.unexpected
        (Input.ofOpenTokens .ansi (tokens.take 3)).finish.position expected "end of input") := by
  have hfault : prefixFault .ansi "SELECT a, b FROM t" 3 =
      some (.unexpected ⟨1, 9, 8⟩ ["'*'", "NOT", "expression"] "end of input") := by
    decide +kernel
  obtain ⟨tokens, finish, ss, hlex, hwhole, hk, hcut⟩ := prefixFault_eq_some hfault
  obtain ⟨p, expected, found, hf, hwhy⟩ :=
    prefix_fails_at_end (d := .ansi) (by decide +kernel) hlex hwhole hk hcut
  cases hf
  rcases hwhy with ⟨hp, -⟩ | ⟨_, _, _, _, _, _, _, _, _, hnesting⟩ | ⟨t, -, -, -, -, hclause⟩ |
    ⟨t, next, -, -, hjoins, -, hfound⟩
  · exact ⟨tokens, finish, ss, _, hlex, hwhole, hp ▸ hcut⟩
  · exact absurd (congrArg List.length hnesting) (by decide)
  · simp at hclause
  · exact absurd hfound (Ne.symm (describe_of_joins hjoins))

/-- Accepted texts with prefixes that are refused before their end: an `OFFSET` without the `LIMIT` behind
it and a `NOT` without the `IN` behind it. -/
theorem prefix_fails_early :
    (∃ tokens finish ss,
      tokenize Dialect.mysql.lexical "SELECT a FROM t OFFSET 1 LIMIT 5" = .ok (tokens, finish) ∧
        readAll .mysql tokens = .ok ss ∧ 6 < tokens.length ∧ readAll .mysql (tokens.take 6) =
          .error (.unexpected ⟨1, 17, 16⟩ ["LIMIT before OFFSET"] "'OFFSET'")) ∧
      ∃ tokens finish ss expected,
        tokenize Dialect.mysql.lexical "SELECT a NOT IN (1)" = .ok (tokens, finish) ∧
          readAll .mysql tokens = .ok ss ∧ 3 < tokens.length ∧
          readAll .mysql (tokens.take 3) = .error (.unexpected ⟨1, 10, 9⟩ expected "'NOT'") := by
  have hnot : prefixFault .mysql "SELECT a NOT IN (1)" 3 = some (.unexpected ⟨1, 10, 9⟩
      ["','", "';'", "AS", "EXCEPT", "FROM", "GROUP", "HAVING", "INTERSECT", "LIMIT", "OFFSET", "ORDER",
        "UNION", "WHERE"] "'NOT'") := by
    decide +kernel
  refine ⟨prefixFault_eq_some (by decide +kernel), ?_⟩
  obtain ⟨tokens, finish, ss, h⟩ := prefixFault_eq_some hnot
  exact ⟨tokens, finish, ss, _, h⟩

end SqlDialects
