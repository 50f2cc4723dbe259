import SqlDialects.Proofs.ExprAccounts

/-!
# Statements account for their tokens

`nested_kept` by levels of nesting, and `statement_keeps`: every production moves forward, blames no
token before the place at which it started, and accounts for each token that it takes.
-/

namespace SqlDialects

open SqlDialects.Parser

/-! ## Queries -/

section Queries

variable {x : Filling} {k : Nat} {deeper : Deeper}

theorem optionalAlias_keeps : Keeps x k optionalAlias optionalAlias Same := by
  have hname (m : Nat) : Keeps x m (Parser.name >>= fun n => Pure.pure (some n))
      (Parser.name >>= fun n => Pure.pure (some n)) Same :=
    Keeps.name.skip fun _ _ => .pure ⟨rfl, rfl⟩
  refine .test (.eatWord _) (fun m => hname m) fun m => .peek (.ite ?_ (fun _ => hname m) fun _ => ?_)
  · rw [x.token_filled, Token.isName_fill]
  · exact .pure ⟨rfl, rfl⟩

/-- Names and dots before a star, which all have no values. -/
theorem starParts_keeps (j n : Nat) :
    Keeps x k (starParts j n) (starParts j n) fun m o o' ls =>
      m = k ∧ o' = o ∧ ls = 0 ∧ ∀ i ∈ o, ∀ l ≤ 2 * i, x.Plain (k + j + l) := by
  induction n generalizing j with
  | zero => exact .pure ⟨rfl, rfl, rfl, by simp⟩
  | succ n ih =>
    refine .peekNth j (.peekNth (j + 1) (.ite ?_ (fun h => .peekNth (j + 2) (.ite ?_ (fun hstar => ?_)
      fun _ => ?_)) fun _ => .pure ⟨rfl, rfl, rfl, by simp⟩))
    · rw [x.token_filled, x.token_filled, Token.isName_fill, Token.isSymbol_fill]
    · rw [x.token_filled, Token.isSymbol_fill]
    all_goals
      obtain ⟨hname, hdot⟩ := Bool.and_eq_true_iff.mp h
      have hname := Filling.Plain.of_name hname
      have hdot := Filling.Plain.of_symbol hdot
    · refine .pure ⟨rfl, rfl, rfl, fun i hi l hl => ?_⟩
      obtain rfl : 1 = i := by simpa using hi
      obtain rfl | rfl | rfl : l = 0 ∨ l = 1 ∨ l = 2 := by omega
      · exact hname
      · exact hdot
      · exact .of_symbol hstar
    · refine (ih (j + 2)).bind fun m o o' ls hR => .pure ?_
      obtain ⟨rfl, rfl, rfl, hplain⟩ := hR
      refine ⟨rfl, rfl, rfl, fun i hi l hl => ?_⟩
      obtain ⟨i, ho, rfl⟩ := Option.map_eq_some_iff.mp hi
      obtain rfl | rfl | ⟨l, rfl⟩ : l = 0 ∨ l = 1 ∨ ∃ l', l = l' + 2 := by
        rcases l with - | - | l
        · exact .inl rfl
        · exact .inr (.inl rfl)
        · exact .inr (.inr ⟨l, rfl⟩)
      · exact hname
      · exact hdot
      · have := hplain i ho l (by omega)
        rwa [show m + (j + 2) + l = m + j + (l + 2) by omega] at this

theorem starPart_keeps (hplain : x.Plain (k + 1)) :
    Keeps x k starPart starPart fun m a b ls => m = k + 2 ∧ b = a ∧ ls = 0 := by
  refine Keeps.name_at.bind fun m a b ls hR => ?_
  obtain ⟨rfl, rfl, rfl⟩ := hR
  exact (Keeps.advance hplain).bind fun m _ _ _ hm => .pure ⟨hm.1, rfl, by simp [hm.2.2.2]⟩

theorem times_starPart_keeps (n : Nat) (hplain : ∀ l ≤ 2 * n, x.Plain (k + l)) :
    Keeps x k (times n starPart) (times n starPart) fun m a b ls =>
      m = k + 2 * n ∧ b = a ∧ ls = 0 := by
  induction n generalizing k with
  | zero => exact .pure ⟨rfl, rfl, rfl⟩
  | succ n ih =>
    refine (starPart_keeps (hplain 1 (by omega))).bind fun m a b ls hR => ?_
    obtain ⟨rfl, rfl, rfl⟩ := hR
    refine (ih fun l hl => ?_).bind fun m as bs ls hR => .pure ?_
    · have := hplain (l + 2) (by omega)
      rwa [show k + (l + 2) = k + 2 + l by omega] at this
    · obtain ⟨rfl, rfl, rfl⟩ := hR
      exact ⟨by omega, rfl, rfl⟩

theorem selectItem_keeps (hdeep : deeper.Kept x) :
    Keeps x k (selectItem deeper) (selectItem deeper)
      (Means (SelectItem.fill x.value) fun item => leaves (itemNodes [item])) := by
  refine .test (.eatSymbol _) (fun _ => .pure ⟨by simp, by simp [itemNodes]⟩) fun _ => ?_
  refine .remaining ((starParts_keeps 0 _).bind fun m o o' ls hR => ?_)
  obtain ⟨rfl, rfl, rfl, hplain⟩ := hR
  cases o' with
  | none =>
    refine (hdeep.expr 0 m).andThen fun _ e => optionalAlias_keeps.skip fun _ label => ?_
    exact .pure ⟨by simp, by simp [itemNodes]⟩
  | some n =>
    have hplain := hplain n rfl
    refine (times_starPart_keeps n hplain).bind fun j parts parts' ls hR => ?_
    obtain ⟨rfl, rfl, rfl⟩ := hR
    refine (Keeps.advance_same (hplain _ (Nat.le_refl _))).skip fun _ _ => .pure ⟨by simp, ?_⟩
    simp [itemNodes]

/-! ### Sources -/

theorem tableAlias_keeps : Keeps x k tableAlias tableAlias Same := by
  refine optionalAlias_keeps.skip fun _ o => ?_
  cases o with
  | none => exact .pure ⟨rfl, rfl⟩
  | some label => exact Keeps.optionalNameList.skip fun _ _ => .pure ⟨rfl, rfl⟩

theorem relation_keeps (hdeep : deeper.Kept x) :
    Keeps x k (relation deeper) (relation deeper)
      (Means (Relation.fill x.value) fun r => leaves r.nodes) := by
  refine .test (.eatSymbol _) (fun m => ?_) fun m => .within fun hstart hroom => .peek ?_
  · refine (hdeep.query m).andThen fun _ q => (Keeps.expectSymbol _).skip fun _ _ => ?_
    refine tableAlias_keeps.skip fun _ label => .pure ⟨by simp, ?_⟩
    simp [Relation.nodes, Node.leaves]
  refine Keeps.qualifiedName.skip fun _ table => .test (.same_of_peeks (.peekSymbol _)) (fun _ => ?_)
    fun _ => tableAlias_keeps.skip fun _ label => .pure ⟨by simp, ?_⟩
  · refine (Keeps.nameFunction _).skip fun _ _ => ?_
    refine (call_keeps hdeep (fun _ => operandFrom_keeps hdeep) _ ⟨m, hstart, hroom, rfl⟩ _).andThen
      fun _ called => tableAlias_keeps.skip fun _ label => ?_
    cases called
    case call f => exact .pure ⟨by simp, by simp [Expr.nodes, Relation.nodes, Node.leaves]⟩
    all_goals exact .unexpectedHere _
  · simp [Relation.nodes, Node.leaves]

theorem joinWord_keeps (outer : Bool) (kind : JoinKind) :
    Keeps x k (joinWord outer kind) (joinWord outer kind) Same := by
  have hrest (m : Nat) : Keeps x m (Parser.expectWord "JOIN" >>= fun _ => Pure.pure (some kind))
      (Parser.expectWord "JOIN" >>= fun _ => Pure.pure (some kind)) Same :=
    (Keeps.expectWord _).skip fun _ _ => .pure ⟨rfl, rfl⟩
  cases outer with
  | true => exact (Keeps.eatWord _).skip fun m _ => hrest m
  | false => exact hrest k

theorem joinKind_keeps (natural : Bool) :
    Keeps x k (joinKind natural) (joinKind natural) Same := by
  refine .test (.eatWord _) (fun _ => .pure ⟨rfl, rfl⟩) fun _ => ?_
  refine .test (.eatWord _) (fun _ => joinWord_keeps _ _) fun _ => ?_
  refine .test (.eatWord _) (fun _ => joinWord_keeps _ _) fun _ => ?_
  refine .test (.eatWord _) (fun _ => joinWord_keeps _ _) fun _ => .supports _ ?_
  refine .test (.onlyIf _ (.eatWord _)) (fun _ => joinWord_keeps _ _) fun _ => ?_
  refine .test (.onlyIf _ (.eatWord _)) (fun _ => joinWord_keeps _ _) fun _ => ?_
  exact .ite rfl (fun _ => .before (q := unexpected) .unexpected) fun _ => .pure ⟨rfl, rfl⟩

theorem joinCondition_keeps (hdeep : deeper.Kept x) (natural : Bool) (kind : JoinKind) :
    Keeps x k (joinCondition deeper natural kind) (joinCondition deeper natural kind)
      (Means (JoinCondition.fill x.value) fun c => leaves c.nodes) := by
  refine .ite rfl (fun _ => .pure ⟨by simp, by simp [JoinCondition.nodes]⟩) fun _ => ?_
  refine .ite rfl (fun _ => .pure ⟨by simp, by simp [JoinCondition.nodes]⟩) fun _ => ?_
  refine .test (.eatWord _) (fun m => (hdeep.expr 0 m).andThen fun _ e => ?_) fun _ => .supports _ ?_
  · exact .pure ⟨by simp, by simp [JoinCondition.nodes]⟩
  · refine .test (.onlyIf _ (.eatWord _)) (fun _ => Keeps.nameList.skip fun _ columns => ?_)
      fun _ => .unexpected
    exact .pure ⟨by simp, by simp [JoinCondition.nodes]⟩

theorem join_keeps (hdeep : deeper.Kept x) :
    Keeps x k (join deeper) (join deeper)
      (Means (Option.map (Join.fill x.value)) fun o => o.elim 0 fun j => leaves (joinNodes [j])) := by
  refine (Keeps.onlyIf_supports _ (.eatWord _)).skip fun _ natural => ?_
  refine (joinKind_keeps natural).skip fun _ o => ?_
  cases o with
  | none => exact .pure ⟨rfl, rfl⟩
  | some kind =>
    refine (relation_keeps hdeep).andThen fun _ r => ?_
    refine (joinCondition_keeps hdeep natural kind).andThen fun _ c => .pure ⟨by simp, ?_⟩
    simp [joinNodes, Node.leaves]

theorem source_keeps (hdeep : deeper.Kept x) :
    Keeps x k (source deeper) (source deeper)
      (Means (Source.fill x.value) fun s => leaves (sourceNodes [s])) := by
  refine (relation_keeps hdeep).andThen fun _ r => ?_
  refine (Keeps.many fun _ => join_keeps hdeep).andThen fun _ joins => .pure ⟨by simp, ?_⟩
  simp [sourceNodes, leaves_joinNodes joins]

/-! ### Blocks -/

theorem distinctness_keeps (hdeep : deeper.Kept x) :
    Keeps x k (distinctness deeper) (distinctness deeper)
      (Means (Option.map (Distinct.fill x.value)) fun o => leaves (distinctNodes o)) := by
  refine .test (.eatWord _) (fun m => .supports _ ?_) fun _ => (Keeps.eatWord _).skip fun _ _ => ?_
  · refine (Keeps.peekWord "ON").bind fun j b b' ls hb => ?_
    obtain ⟨rfl, rfl, rfl, rfl⟩ := hb
    refine .peekNth 1 ?_
    rw [x.token_filled, Token.isSymbol_fill]
    refine .ite rfl (fun h => ?_) fun _ => .pure ⟨by simp, by simp [distinctNodes]⟩
    have hon : (x.input.token j).isWord "ON" = true := by
      simp only [Bool.and_eq_true] at h
      exact h.1.2
    refine (Keeps.advance_same (.of_word hon)).skip fun _ _ => ?_
    refine (Keeps.parenthesized (fun _ => .commaSeparated (hdeep.expr 0)) fun _ _ _ _ _ h => h).andThen
      fun _ keys => .pure ⟨by simp, ?_⟩
    simp [distinctNodes, leaves_exprNodes]
  · exact .pure ⟨rfl, by simp [distinctNodes]⟩

theorem topCount_keeps (hdeep : deeper.Kept x) :
    Keeps x k (topCount deeper) (topCount deeper) (ExprOf x) := by
  refine .test (.eatSymbol _) (fun m => ?_) fun _ => operandFrom_keeps hdeep
  exact (hdeep.expr 0 m).andThen fun _ e => (Keeps.expectSymbol _).skip fun _ _ => .pure ⟨rfl, by simp⟩

theorem sources_keeps (hdeep : deeper.Kept x) :
    Keeps x k (sources deeper) (sources deeper)
      (Means (List.map (Source.fill x.value)) fun ss => leaves (sourceNodes ss)) := by
  refine .test (.eatWord _) (fun _ => ?_) fun _ => .rules (.ite rfl (fun _ => ?_) fun _ => ?_)
  · refine (Keeps.commaSeparated fun _ => source_keeps hdeep).mono fun _ ss _ _ h => ⟨h.1, ?_⟩
    exact h.2.trans (leaves_sourceNodes ss).symm
  · exact .before (q := unexpected) .unexpected
  · exact .pure ⟨rfl, by simp [sourceNodes]⟩

theorem select_keeps (hdeep : deeper.Kept x) :
    Keeps x k (select deeper) (select deeper)
      (Means (fun r => (r.1.fill x.value, r.2.map (Expr.fill x.value))) fun r =>
        leaves r.1.nodes + leaves (optionNodes r.2)) := by
  have hexpr := hdeep.expr 0
  refine (Keeps.expectWord _).skip fun _ _ => (distinctness_keeps hdeep).andThen fun _ distinct => ?_
  refine (Keeps.optional (.rules (.onlyIf _ (.eatWord _))) fun _ => topCount_keeps hdeep).andThen
    fun _ top => ?_
  refine (Keeps.commaSeparated fun _ => selectItem_keeps hdeep).andThen fun _ items => ?_
  refine (sources_keeps hdeep).andThen fun _ sources => ?_
  refine (Keeps.optional (.eatWord _) hexpr).andThen fun _ condition => ?_
  refine (Keeps.optionalList (.eatWords _) fun _ => .commaSeparated hexpr).andThen fun _ groups => ?_
  refine (Keeps.optional (.eatWord _) hexpr).andThen fun _ having => ?_
  refine (Keeps.optional (.onlyIf_supports _ (.eatWord _)) hexpr).andThen
    fun _ qualify => .pure ⟨by simp, ?_⟩
  simp only [Select.nodes, leaves_cons, leaves_append, Node.leaves, leaves_itemNodes items,
    leaves_exprNodes, leaves_optionNodes, Multiset.coe_nil, zero_add, add_zero]
  ac_rfl

/-! ### Set operations -/

/-- An operand of a set operation and its count, with their values. -/
abbrev OperandOf (x : Filling) :
    Nat → Body × Option Expr → Body × Option Expr → Multiset Leaf → Prop :=
  Means (fun r => (r.1.fill x.value, r.2.map (Expr.fill x.value))) fun r =>
    leaves r.1.nodes + leaves (optionNodes r.2)

theorem fill_withTop (v : Nat → String) (b : Body) (top : Option Expr) :
    (withTop b top).fill v = withTop (b.fill v) (top.map (Expr.fill v)) := by
  cases top <;> simp [withTop, Query.ofBody]

theorem leaves_withTop (b : Body) (top : Option Expr) :
    leaves (withTop b top).nodes = leaves b.nodes + leaves (optionNodes top) := by
  cases top <;>
    simp [withTop, Query.ofBody, Body.nodes, Query.nodes, Node.leaves, withNodes, orderNodes, limitNodes,
      optionNodes]

theorem setOperand_keeps (hdeep : deeper.Kept x) :
    Keeps x k (setOperand deeper) (setOperand deeper) (OperandOf x) := by
  refine .test (.same_of_peeks (.checkWord _)) (fun _ => ?_) fun _ => ?_
  · refine (select_keeps hdeep).andThen fun _ r => .pure ⟨by simp, ?_⟩
    simp [Body.nodes, Node.leaves]
  refine .test (.eatWord _) (fun _ => ?_) fun _ => .test (.eatSymbol _) (fun m => ?_) fun _ => ?_
  · refine (Keeps.commaSeparated fun _ => .parenthesized (fun _ => .commaSeparated (hdeep.expr 0))
      fun _ _ _ _ _ h => h).andThen fun _ rows => .pure ⟨by simp, ?_⟩
    simp [Body.nodes, Node.leaves, leaves_rowNodes, leaves_exprNodes, optionNodes]
  · refine (hdeep.query m).andThen fun _ q => (Keeps.expectSymbol _).skip fun _ _ => .pure ⟨by simp, ?_⟩
    simp [Body.nodes, Node.leaves, optionNodes]
  · exact .unexpected

theorem setOp_keeps : Keeps x k setOp setOp Same :=
  .test (.eatWord _) (fun _ => .pure ⟨rfl, rfl⟩) fun _ =>
    .test (.eatWord _) (fun _ => .pure ⟨rfl, rfl⟩) fun _ =>
      .test (.eatWord _) (fun _ => .pure ⟨rfl, rfl⟩) fun _ =>
        .rules (.test (.onlyIf _ (.eatWord _)) (fun _ => .pure ⟨rfl, rfl⟩) fun _ => .pure ⟨rfl, rfl⟩)

theorem setQuantifier_keeps : Keeps x k setQuantifier setQuantifier Same :=
  .test (.eatWord _) (fun _ => .pure ⟨rfl, rfl⟩) fun _ =>
    .test (.eatWord _) (fun _ => .pure ⟨rfl, rfl⟩) fun _ => .pure ⟨rfl, rfl⟩

theorem moreBodies_keeps (hdeep : deeper.Kept x) (left : Body × Option Expr) :
    Keeps x k (moreBodies deeper left)
      (moreBodies deeper (left.1.fill x.value, left.2.map (Expr.fill x.value))) fun _ o o' ls =>
        o' = o.map (fun r => (r.1.fill x.value, r.2.map (Expr.fill x.value))) ∧
          leaves left.1.nodes + leaves (optionNodes left.2) + ls =
            leaves (o.getD left).1.nodes + leaves (optionNodes (o.getD left).2) ∧
          ∀ r ∈ o, True := by
  refine setOp_keeps.skip fun _ o => ?_
  cases o with
  | none => exact .pure ⟨rfl, by simp, by simp⟩
  | some op =>
    refine setQuantifier_keeps.skip fun _ quantifier => ?_
    refine (setOperand_keeps hdeep).andThen fun _ r => .pure ⟨?_, ?_, by simp⟩
    · simp [fill_withTop]
    · simp [Body.nodes, Node.leaves, leaves_withTop, optionNodes, add_assoc]

theorem body_keeps (hdeep : deeper.Kept x) : Keeps x k (body deeper) (body deeper) (OperandOf x) :=
  (setOperand_keeps hdeep).andThen fun _ _ =>
    (Keeps.iterate trivial fun _ left _ => moreBodies_keeps hdeep left).mono
      fun _ _ _ _ hR => ⟨hR.1, hR.2.1⟩

/-! ### Row limits -/

/-- The clauses with their numbers. -/
def Parser.LimitClauses.fill (v : Nat → String) (l : LimitClauses) : LimitClauses :=
  { l with count := l.count.map (Expr.fill v), offset := l.offset.map (Expr.fill v) }

/-- The values of the clauses. -/
def Parser.LimitClauses.leaves (l : LimitClauses) : Multiset Leaf :=
  SqlDialects.leaves (optionNodes l.count) + SqlDialects.leaves (optionNodes l.offset)

/-- The `OFFSET` clause was read behind the given place. -/
def Parser.LimitClauses.Placed (x : Filling) (l : LimitClauses) : Prop :=
  ∀ t ∈ l.offsetToken, x.IsPlace t.position

/-- Clauses behind `l`, with the values of all of them. -/
def LimitsOf (x : Filling) (l : LimitClauses) (_ : Nat) (o o' : Option LimitClauses)
    (ls : Multiset Leaf) : Prop :=
  o' = o.map (LimitClauses.fill x.value) ∧ l.leaves + ls = (o.getD l).leaves ∧ ∀ l' ∈ o, l'.Placed x

/-- A clause is read only where none was read before, so no count and no offset is lost. -/
theorem moreLimit_keeps (hdeep : deeper.Kept x) {l : LimitClauses} (hl : l.Placed x) :
    Keeps x k (moreLimit deeper l) (moreLimit deeper (l.fill x.value)) (LimitsOf x l) := by
  have hexpr := hdeep.expr 0
  have hplaced {l' : LimitClauses} (h : l'.offsetToken = l.offsetToken) :
      ∀ y ∈ some l', y.Placed x := by
    rintro _ ⟨⟩
    unfold LimitClauses.Placed
    rwa [h]
  refine .rules ?_
  extract_lets expr free fetch behind free' fetch' behind'
  have hfree : free' = free := by simp [free, free', LimitClauses.fill]
  have hfetch : fetch' = fetch := by simp [fetch, fetch', LimitClauses.fill]
  refine .testIf (by simp [LimitClauses.fill]) (.eatWord _) (fun h m => ?_) fun m => ?_
  · have hcount : l.count = none := by simpa using (Bool.and_eq_true_iff.mp h).2
    refine .test (.eatWord _) (fun _ => ?_) fun m => (hexpr m).andThen fun _ first => ?_
    · exact .pure ⟨rfl, by simp [LimitClauses.leaves], hplaced rfl⟩
    refine .testIf (by simp [LimitClauses.fill]) (.eatSymbol _) (fun h m => ?_) fun m => ?_
    · have hoffset : l.offset = none := by simpa using (Bool.and_eq_true_iff.mp h).2
      refine (hexpr m).andThen fun _ count => .pure ⟨rfl, ?_, hplaced rfl⟩
      simp [LimitClauses.leaves, hcount, hoffset, optionNodes, add_comm]
    · refine .pure ⟨rfl, ?_, hplaced rfl⟩
      simp [LimitClauses.leaves, hcount, optionNodes, add_comm]
  refine .lookIf (by rw [hfree]) (.checkWord _) (fun h hword => ?_) ?_
  · have hoffset : l.offset = none := by
      simpa using (Bool.and_eq_true_iff.mp (Bool.and_eq_true_iff.mp h).2).2
    refine .within fun hstart hroom => (Keeps.advance (.of_word hword)).bind fun j token token' _ hR => ?_
    obtain ⟨rfl, rfl, rfl, rfl⟩ := hR
    refine (hexpr _).after.andThen fun _ offset => ?_
    have hdone (i : Nat) : Keeps x i
        (Pure.pure (some { l with offset := some offset, offsetToken := some (x.input.token m) }))
        (Pure.pure (some { l.fill x.value with
          offset := some (offset.fill x.value), offsetToken := some (x.input.token m) }))
        (After (leaves offset.nodes) (LimitsOf x l)) := by
      refine .pure ⟨rfl, by simp [LimitClauses.leaves, hoffset, optionNodes], ?_⟩
      rintro _ ⟨⟩ _ ⟨⟩
      exact ⟨m, hstart, hroom, rfl⟩
    exact .test (.eatWord _) hdone fun _ => (Keeps.eatWord _).skip fun i _ => hdone i
  refine .testIf (by simp [hfetch, LimitClauses.fill]) (.eatWord _) (fun h m => ?_)
    fun _ => .pure ⟨rfl, by simp, by simp⟩
  have hcount : l.count = none := by simpa using (Bool.and_eq_true_iff.mp h).2
  have hbehind (u : Unit) (m : Nat) : Keeps x m (behind u) (behind' u) (LimitsOf x l) := by
    refine (hexpr m).andThen fun _ count => ?_
    have hdone (i : Nat) : Keeps x i
        (expectWord "ONLY" >>= fun _ => Pure.pure (some { l with count := some count }))
        (expectWord "ONLY" >>= fun _ =>
          Pure.pure (some { l.fill x.value with count := some (count.fill x.value) }))
        (After (leaves count.nodes) (LimitsOf x l)) := by
      refine (Keeps.expectWord _).skip fun _ _ => .pure ⟨rfl, ?_, hplaced rfl⟩
      simp [LimitClauses.leaves, hcount, optionNodes, add_comm]
    exact .test (.eatWord _) hdone fun _ => (Keeps.expectWord _).skip fun i _ => hdone i
  exact .test (.eatWord _) (hbehind ()) fun _ => (Keeps.expectWord _).skip fun i u => hbehind u i

theorem limitClauses_keeps (hdeep : deeper.Kept x) (top : Option Expr) :
    Keeps x k (iterate (moreLimit deeper) { count := top })
      (iterate (moreLimit deeper) { count := top.map (Expr.fill x.value) }) fun _ l l' ls =>
        l' = l.fill x.value ∧ leaves (optionNodes top) + ls = l.leaves ∧ l.Placed x := by
  have hstart : LimitClauses.Placed x { count := top } := by rintro _ ⟨⟩
  refine (Keeps.iterate hstart fun _ l hl => moreLimit_keeps hdeep hl).mono fun _ l l' ls hR => ?_
  exact ⟨hR.1, by simpa [LimitClauses.leaves, optionNodes] using hR.2.1, hR.2.2⟩

theorem limit_keeps (hdeep : deeper.Kept x) (top : Option Expr) (ordered : Bool) :
    Keeps x k (limit deeper top ordered) (limit deeper (top.map (Expr.fill x.value)) ordered)
      (After (leaves (optionNodes top))
        (Means (Option.map (Limit.fill x.value)) fun o => leaves (limitNodes o))) := by
  refine (limitClauses_keeps hdeep top).bind fun m l l' ls hR => .rules ?_
  obtain ⟨rfl, hls, hplaced⟩ := hR
  obtain ⟨count, offset, limited, token⟩ := l
  have hdone : Keeps x m
      (Pure.pure (if count.isNone && offset.isNone then none else some ⟨count, offset⟩))
      (Pure.pure (if (count.map (Expr.fill x.value)).isNone && (offset.map (Expr.fill x.value)).isNone
        then none else some ⟨count.map (Expr.fill x.value), offset.map (Expr.fill x.value)⟩))
      (After ls (After (leaves (optionNodes top))
        (Means (Option.map (Limit.fill x.value)) fun o => leaves (limitNodes o)))) := by
    refine .pure ⟨?_, ?_⟩
    · cases count <;> cases offset <;> simp
    · rw [add_zero, hls]
      cases count <;> cases offset <;> simp [LimitClauses.leaves, limitNodes, optionNodes]
  cases token with
  | none => exact hdone
  | some token =>
    have hplace := hplaced token rfl
    refine .ite rfl (fun _ => .before (q := unexpected) (.unexpectedAt _ hplace)) fun _ => ?_
    exact .ite rfl (fun _ => .before (q := unexpected) (.unexpectedAt _ hplace)) fun _ => hdone

/-! ### Levels -/

theorem cte_keeps (hdeep : deeper.Kept x) :
    Keeps x k (cte deeper) (cte deeper) (Means (Cte.fill x.value) fun t => leaves (cteNodes [t])) := by
  refine Keeps.name.skip fun _ label => Keeps.optionalNameList.skip fun _ columns => ?_
  refine (Keeps.expectWord _).skip fun _ _ => ?_
  refine (Keeps.parenthesized hdeep.query fun _ _ _ _ _ h => h).andThen fun _ q => .pure ⟨by simp, ?_⟩
  simp [cteNodes]

theorem ctes_keeps (hdeep : deeper.Kept x) :
    Keeps x k (ctes deeper) (ctes deeper)
      (Means (With.fill x.value) fun w => leaves (withNodes (some w))) := by
  refine (Keeps.eatWord _).skip fun _ recursive => ?_
  refine (Keeps.commaSeparated fun _ => cte_keeps hdeep).andThen fun _ tables => .pure ⟨by simp, ?_⟩
  simp [withNodes, leaves_cteNodes tables]

theorem queryWith_keeps (hdeep : deeper.Kept x) :
    Keeps x k (queryWith deeper) (queryWith deeper) (QueryOf x) := by
  refine (Keeps.optional (.eatWord _) fun _ => ctes_keeps hdeep).andThen fun _ ctes => ?_
  refine (body_keeps hdeep).andThen fun _ r => (orderBy_keeps hdeep).andThen fun _ order => ?_
  obtain ⟨b, top⟩ := r
  have hempty : (order.map (OrderItem.fill x.value)).isEmpty = order.isEmpty := by simp
  rw [hempty]
  refine (limit_keeps hdeep top _).bind fun _ limit limit' ls hR => .pure ⟨?_, ?_⟩
  · rw [hR.1]
    simp
  · have hwith : leaves (withNodes ctes) = ctes.elim 0 fun w => leaves (withNodes (some w)) := by
      cases ctes with
      | none => simp [withNodes]
      | some w => rfl
    have hlimit : leaves (optionNodes top) + ls = leaves (limitNodes limit) := hR.2
    simp only [Query.nodes, leaves_cons, leaves_append, Node.leaves, Multiset.coe_nil, zero_add,
      add_zero, hwith, ← hlimit, leaves_orderNodes order]
    ac_rfl

/-- The productions of every level account for their tokens. -/
theorem nested_kept (x : Filling) (n : Nat) : (nested n).Kept x := by
  induction n with
  | zero => exact ⟨fun _ _ => .unexpectedHere _, fun _ => .unexpectedHere _⟩
  | succ n ih => exact ⟨fun p _ => .level (subexpr_keeps ih p), fun _ => .level (queryWith_keeps ih)⟩

end Queries

/-! ## Statements -/

section Statements

variable {x : Filling} {k : Nat}

/-- A part from which a statement is made, with its values. -/
abbrev StatementOf {α : Type} (x : Filling) (statement : α → Statement) (_ : Nat) (a b : α)
    (ls : Multiset Leaf) : Prop :=
  statement b = (statement a).fill x.value ∧ ls = ↑(statement a).leaves

/-- A statement is made from its part. -/
theorem Keeps.made {α : Type} {p : Parser α} {make : α → Statement}
    (hp : Keeps x k p p (StatementOf x make)) :
    Keeps x k (p >>= fun a => Pure.pure (make a)) (p >>= fun a => Pure.pure (make a))
      (StatementOf x id) :=
  hp.bind fun _ _ _ _ h => .pure ⟨h.1, by rw [add_zero]; exact h.2⟩

theorem expr_keeps (x : Filling) (k : Nat) : Keeps x k expr expr (ExprOf x) :=
  (nested_kept x maxDepth).expr 0 k

theorem query_keeps (x : Filling) (k : Nat) : Keeps x k query query (QueryOf x) :=
  (nested_kept x maxDepth).query k

theorem returning_keeps : Keeps x k returning returning
    (Means (List.map (SelectItem.fill x.value)) fun items => leaves (itemNodes items)) := by
  refine (Keeps.optionalList (.onlyIf_supports _ (.eatWord _)) fun _ =>
    .commaSeparated fun _ => selectItem_keeps (nested_kept x _)).mono fun _ items _ _ h => ⟨h.1, ?_⟩
  exact h.2.trans (leaves_itemNodes items).symm

theorem condition_keeps : Keeps x k (optional (eatWord "WHERE") expr) (optional (eatWord "WHERE") expr)
    (Means (Option.map (Expr.fill x.value)) fun o => leaves (optionNodes o)) :=
  (Keeps.optional (.eatWord _) (expr_keeps x)).mono fun _ o _ _ h =>
    ⟨h.1, h.2.trans (leaves_optionNodes o).symm⟩

theorem insert_keeps : Keeps x k insert insert (StatementOf x .insert) := by
  refine (Keeps.expectWord _).skip fun _ _ => (Keeps.expectWord _).skip fun _ _ => ?_
  refine Keeps.qualifiedName.skip fun _ table => ?_
  refine (Keeps.same_of_peeks (.peekSymbol _)).skip fun m opened => .peekNth 1 ?_
  have hrest (columns : List Name) (m : Nat) : Keeps x m
      (query >>= fun source => returning >>= fun items =>
        Pure.pure (⟨table, columns, source, items⟩ : Insert))
      (query >>= fun source => returning >>= fun items =>
        Pure.pure (⟨table, columns, source, items⟩ : Insert)) (StatementOf x .insert) := by
    refine (query_keeps x m).andThen fun _ source => returning_keeps.andThen fun _ items => ?_
    exact .pure ⟨rfl, by simp [Statement.leaves, Statement.nodes, leaves]⟩
  refine .ite (by rw [x.token_filled, Token.isWord_fill]) (fun _ => ?_) fun _ => hrest [] m
  exact Keeps.nameList.skip fun m columns => hrest columns m

theorem assignment_keeps : Keeps x k assignment assignment
    (Means (Assignment.fill x.value) fun a => leaves a.value.nodes) := by
  refine Keeps.name.skip fun _ first => ?_
  refine (Keeps.many_same fun _ => .optional_same (.eatSymbol _) fun _ => .name).skip fun _ rest => ?_
  refine (Keeps.expectSymbol _).skip fun m _ => (expr_keeps x m).andThen fun _ value => ?_
  exact .pure ⟨rfl, by simp⟩

theorem leaves_assignments (assignments : List Assignment) :
    leaves (assignments.flatMap (·.value.nodes)) =
      (assignments.map fun a => leaves a.value.nodes).sum := by
  induction assignments with
  | nil => rfl
  | cons a assignments ih => simp [ih]

theorem update_keeps : Keeps x k update update (StatementOf x .update) := by
  refine (Keeps.expectWord _).skip fun _ _ => Keeps.qualifiedName.skip fun _ table => ?_
  refine optionalAlias_keeps.skip fun _ label => (Keeps.expectWord _).skip fun _ _ => ?_
  refine (Keeps.commaSeparated fun _ => assignment_keeps).andThen fun _ assignments => ?_
  refine condition_keeps.andThen fun _ condition => returning_keeps.andThen fun _ items => ?_
  refine .pure ⟨rfl, ?_⟩
  change _ = leaves (Statement.nodes _)
  simp [Statement.nodes, leaves_assignments]

theorem delete_keeps : Keeps x k delete delete (StatementOf x .delete) := by
  refine (Keeps.expectWord _).skip fun _ _ => (Keeps.expectWord _).skip fun _ _ => ?_
  refine Keeps.qualifiedName.skip fun _ table => condition_keeps.andThen fun _ condition => ?_
  refine returning_keeps.andThen fun _ items => .pure ⟨rfl, ?_⟩
  change _ = leaves (Statement.nodes _)
  simp [Statement.nodes]

theorem createView_keeps (orReplace : Bool) :
    Keeps x k (createView orReplace) (createView orReplace) (StatementOf x .createView) := by
  refine Keeps.qualifiedName.skip fun _ view => Keeps.optionalNameList.skip fun _ columns => ?_
  refine (Keeps.expectWord _).skip fun m _ => (query_keeps x m).andThen fun _ q => .pure ⟨rfl, ?_⟩
  change _ = leaves (Statement.nodes _)
  simp [Statement.nodes]

/-! ### Tables -/

/-- One more word. -/
theorem bareWords_snoc {i : Input} {m : Nat} {word : String}
    (h : ∀ j, k ≤ j → j < m → (i.token j).isBareWord = true) (hword : (i.token m).isWord word = true) :
    ∀ j, k ≤ j → j < m + 1 → (i.token j).isBareWord = true := by
  intro j hj hlt
  rcases Nat.lt_succ_iff_lt_or_eq.mp hlt with hlt | rfl
  · exact h j hj hlt
  · exact (Bool.and_eq_true_iff.mp hword).1

/-- The next word, behind others. -/
theorem Keeps.nextWord {α : Type} {p q : Parser α} {R : Nat → α → α → Multiset Leaf → Prop} {m : Nat}
    (h : ∀ j, k ≤ j → j < m → (x.input.token j).isBareWord = true) (word : String)
    (hp : (∀ j, k ≤ j → j < m + 1 → (x.input.token j).isBareWord = true) → Keeps x (m + 1) p q R) :
    Keeps x m (Parser.expectWord word >>= fun _ => p) (Parser.expectWord word >>= fun _ => q) R :=
  (Keeps.expectWord_at word).bind fun _ _ _ _ hR => by
    obtain ⟨hword, rfl, rfl⟩ := hR
    exact (hp (bareWords_snoc h hword)).after

/-- Generated values are asked for by words, with a list in parentheses behind them or without. -/
theorem autoIncrement_part : Keeps x k autoIncrement autoIncrement fun m a b ls =>
    b = a ∧ if a then x.input.IsWordsAndList k m else ls = 0 := by
  have hone {word : String} (h : (x.input.token k).isWord word = true) :
      ∀ j, k ≤ j → j < k + 1 → (x.input.token j).isBareWord = true :=
    bareWords_snoc (fun j hj hlt => by omega) h
  have hyes {m : Nat} (hm : k < m) (h : ∀ j, k ≤ j → j < m → (x.input.token j).isBareWord = true) :
      Keeps x m (Pure.pure true) (Pure.pure true) fun m a b ls =>
        b = a ∧ if a then x.input.IsWordsAndList k m else ls = 0 :=
    .pure ⟨rfl, m, hm, h, .inl rfl⟩
  refine .takes (.eatWord_at _) (fun h => hyes (Nat.lt_succ_self k) (hone h)) fun _ => ?_
  refine .takes (.eatWord_at _) (fun h => hyes (Nat.lt_succ_self k) (hone h)) fun _ => ?_
  refine .takes (.eatWord_at _) (fun h => ?_) fun _ => .takes (.eatWord_at _) (fun h => ?_)
    fun _ => .pure ⟨rfl, rfl⟩
  · refine .takes (.eatSymbol_at _) (fun hopen => ?_) fun _ => hyes (Nat.lt_succ_self k) (hone h)
    have hargs (m : Nat) : Keeps x m (operandFrom outermost) (operandFrom outermost)
        fun _ _ _ ls => True ∧ ∀ l ∈ ls, True :=
      (operandFrom_keeps (nested_kept x _)).mono fun _ _ _ _ _ => ⟨trivial, fun _ _ => trivial⟩
    refine (Keeps.forward (.commaSeparated_rel hargs)).bind fun j _ _ _ hj => ?_
    refine (Keeps.expectSymbol_at ")").bind fun m _ _ _ hclose => ?_
    obtain ⟨hclose, rfl, -⟩ := hclose
    exact .pure ⟨rfl, k + 1, Nat.lt_succ_self k, hone h, .inr ⟨by omega, hopen, by simpa using hclose⟩⟩
  · have hrest {m : Nat} (hm : k < m)
        (h : ∀ j, k ≤ j → j < m → (x.input.token j).isBareWord = true) :=
      Keeps.nextWord h "AS" fun h => .nextWord h "IDENTITY" fun h => hyes (by omega) h
    refine .takes (.eatWord_at _) (fun halways => ?_) fun _ => ?_
    · exact hrest (by omega) (bareWords_snoc (hone h) halways)
    · exact .nextWord (hone h) "BY" fun h => .nextWord h "DEFAULT" fun h => hrest (by omega) h

theorem autoIncrement_keeps : Keeps x k autoIncrement autoIncrement
    (Means id fun b => if b then {.generated} else 0) := by
  refine autoIncrement_part.part fun c a e b ls hc hrun _ hR => ?_
  obtain ⟨rfl, hR⟩ := hR
  cases b with
  | true => exact .inr ⟨.generated, ⟨hR, c, e, hrun, hc, rfl⟩, rfl, rfl⟩
  | false => exact .inl ⟨rfl, hR⟩

/-- An option of a column with its values. -/
abbrev OptionOf (x : Filling) :
    Nat → Option ColumnOption → Option ColumnOption → Multiset Leaf → Prop :=
  Means (Option.map (ColumnOption.fill x.value)) fun o => o.elim 0 fun c => ↑c.leaves

theorem columnOption_keeps : Keeps x k columnOption columnOption (OptionOf x) := by
  refine .test (.eatWords _) (fun _ => .pure ⟨rfl, rfl⟩) fun _ => ?_
  refine .test (.eatWord _) (fun _ => .pure ⟨rfl, rfl⟩) fun _ => ?_
  refine .test (.eatWords _) (fun _ => .pure ⟨rfl, rfl⟩) fun _ => ?_
  refine .test (.eatWord _) (fun _ => .pure ⟨rfl, rfl⟩) fun _ => ?_
  refine .test (.eatWord _) (fun m => ?_) fun m => .dialect ?_
  · refine ((nested_kept x _).expr _ m).andThen fun _ value => .pure ⟨rfl, ?_⟩
    simp [ColumnOption.leaves, leaves]
  · have hgenerated : Keeps x m (onlyIf x.input.dialect.autoIncrement.isSome autoIncrement)
        (onlyIf x.input.dialect.autoIncrement.isSome autoIncrement)
        (Means id fun b => if b then {.generated} else 0) := by
      cases x.input.dialect.autoIncrement.isSome with
      | true => exact autoIncrement_keeps
      | false => exact .pure ⟨rfl, rfl⟩
    refine hgenerated.andThen fun _ b => ?_
    cases b with
    | true => exact .pure ⟨rfl, rfl⟩
    | false => exact .pure ⟨rfl, rfl⟩

theorem leaves_column (c : Column) :
    (↑c.leaves : Multiset Leaf) =
      {.type c.type} + (c.options.map fun o => (↑o.leaves : Multiset Leaf)).sum := by
  have hoptions (options : List ColumnOption) :
      (↑(options.flatMap ColumnOption.leaves) : Multiset Leaf) =
        (options.map fun o => (↑o.leaves : Multiset Leaf)).sum := by
    induction options with
    | nil => rfl
    | cons o options ih => rw [List.flatMap_cons, ← Multiset.coe_add, ih, List.map_cons, List.sum_cons]
  rw [← hoptions]
  rfl

theorem column_keeps : Keeps x k column column (Means (Column.fill x.value) fun c => ↑c.leaves) := by
  refine Keeps.name.skip fun _ label => dataType_keeps.andThen fun _ type => ?_
  refine (Keeps.many fun _ => columnOption_keeps).andThen fun _ options => .pure ⟨rfl, ?_⟩
  rw [add_zero]
  exact (leaves_column ⟨label, type, options⟩).symm

theorem tableConstraint_keeps : Keeps x k tableConstraint tableConstraint Same := by
  refine .test (.eatWords _) (fun _ => Keeps.nameList.skip fun _ _ => .pure ⟨rfl, rfl⟩) fun _ => ?_
  exact .test (.eatWord _) (fun _ => Keeps.nameList.skip fun _ _ => .pure ⟨rfl, rfl⟩)
    fun _ => .pure ⟨rfl, rfl⟩

/-- A constraint or a column with its values. -/
abbrev ElementOf (x : Filling) :
    Nat → TableConstraint ⊕ Column → TableConstraint ⊕ Column → Multiset Leaf → Prop :=
  Means (Sum.map id (Column.fill x.value)) (Sum.elim (fun _ => 0) fun c => ↑c.leaves)

theorem tableElement_keeps : Keeps x k tableElement tableElement (ElementOf x) := by
  refine tableConstraint_keeps.skip fun _ o => ?_
  cases o with
  | some constraint => exact .pure ⟨rfl, rfl⟩
  | none => exact column_keeps.andThen fun _ c => .pure ⟨rfl, by simp⟩

theorem constraints_fill (v : Nat → String) (elements : List (TableConstraint ⊕ Column)) :
    (elements.map (Sum.map id (Column.fill v))).filterMap Sum.getLeft? =
      elements.filterMap Sum.getLeft? := by
  induction elements with
  | nil => rfl
  | cons e elements ih => cases e <;> simp [List.filterMap_cons, ih]

theorem columns_fill (v : Nat → String) (elements : List (TableConstraint ⊕ Column)) :
    (elements.map (Sum.map id (Column.fill v))).filterMap Sum.getRight? =
      (elements.filterMap Sum.getRight?).map (Column.fill v) := by
  induction elements with
  | nil => rfl
  | cons e elements ih => cases e <;> simp [List.filterMap_cons, ih]

theorem leaves_columns (elements : List (TableConstraint ⊕ Column)) :
    (↑((elements.filterMap Sum.getRight?).flatMap Column.leaves) : Multiset Leaf) =
      (elements.map (Sum.elim (fun _ => 0) fun c => ↑c.leaves)).sum := by
  induction elements with
  | nil => rfl
  | cons e elements ih =>
    cases e with
    | inl constraint => simpa [List.filterMap_cons] using ih
    | inr c => simp [← ih]

theorem createTable_keeps (temporary : Bool) :
    Keeps x k (createTable temporary) (createTable temporary) (StatementOf x .createTable) := by
  refine (Keeps.onlyIf_supports _ (.eatWords _)).skip fun _ guarded => ?_
  refine Keeps.qualifiedName.skip fun _ table => ?_
  refine (Keeps.optionalList (.eatSymbol _) fun _ => (Keeps.commaSeparated fun _ =>
    tableElement_keeps).andThen fun _ _ => (Keeps.expectSymbol _).skip fun _ _ =>
      .pure ⟨rfl, by rw [add_zero]⟩).andThen fun _ elements => ?_
  refine (Keeps.optional (.eatWord _) (query_keeps x)).andThen fun _ source => ?_
  refine .ite (by simp) (fun _ => .before (q := unexpected) .unexpected) fun _ => .pure ⟨?_, ?_⟩
  · simp only [constraints_fill, columns_fill, Statement.fill]
  · simp only [Statement.leaves, ← Multiset.coe_add, leaves_columns, add_zero]
    cases source <;> rfl

theorem create_keeps : Keeps x k create create (StatementOf x id) := by
  refine (Keeps.expectWord _).skip fun _ _ => .test (.eatWord _) (fun _ => .dialect ?_) fun _ => ?_
  · refine (Keeps.expectWord _).skip fun _ _ => (Keeps.expectWord _).skip fun _ _ => ?_
    exact (createView_keeps true).made
  have hrest (temporary : Bool) (m : Nat) : Keeps x m
      (onlyIf (!temporary) (eatWord "VIEW") >>= fun b =>
        if b then createView false >>= fun view => Pure.pure (.createView view)
        else expectWord "TABLE" >>= fun _ => createTable temporary >>= fun table =>
          Pure.pure (.createTable table))
      (onlyIf (!temporary) (eatWord "VIEW") >>= fun b =>
        if b then createView false >>= fun view => Pure.pure (.createView view)
        else expectWord "TABLE" >>= fun _ => createTable temporary >>= fun table =>
          Pure.pure (.createTable table)) (StatementOf x id) := by
    refine .test (.onlyIf _ (.eatWord _)) (fun _ => ?_) fun _ => (Keeps.expectWord _).skip fun _ _ => ?_
    · exact (createView_keeps false).made
    · exact (createTable_keeps temporary).made
  refine .test (.eatWord _) (fun m => ?_) fun _ => (Keeps.eatWord _).skip fun m temporary => ?_
  · exact hrest true m
  · exact hrest temporary m

theorem drop_keeps : Keeps x k drop drop (StatementOf x .drop) := by
  refine (Keeps.expectWord _).skip fun _ _ => ?_
  refine .test (.eatWord _) (fun _ => ?_) fun _ => (Keeps.expectWord _).skip fun _ _ => ?_
  all_goals
    refine (Keeps.onlyIf_supports _ (.eatWords _)).skip fun _ guarded => ?_
    refine (Keeps.commaSeparated_same fun _ => .qualifiedName).skip fun _ names => ?_
    exact (Keeps.onlyIf_supports _ (.eatWord _)).skip fun _ _ => .pure ⟨rfl, rfl⟩

theorem checkQuery_keeps : Keeps x k checkQuery checkQuery Same :=
  .test (.same_of_peeks (.checkWord _)) (fun _ => .pure ⟨rfl, rfl⟩) fun _ =>
    .test (.same_of_peeks (.checkWord _)) (fun _ => .pure ⟨rfl, rfl⟩) fun _ =>
      .test (.same_of_peeks (.checkWord _)) (fun _ => .pure ⟨rfl, rfl⟩) fun _ =>
        .same_of_peeks (.checkSymbol _)

/-- A statement accounts for all its tokens. -/
theorem statement_keeps : Keeps x k statement statement (StatementOf x id) := by
  refine .test checkQuery_keeps (fun m => Keeps.made ((query_keeps x m).mono ?_)) fun _ => ?_
  · rintro _ q _ _ ⟨rfl, rfl⟩
    exact ⟨rfl, rfl⟩
  refine .test (.same_of_peeks (.checkWord _)) (fun _ => insert_keeps.made) fun _ => ?_
  refine .test (.same_of_peeks (.checkWord _)) (fun _ => update_keeps.made) fun _ => ?_
  refine .test (.same_of_peeks (.checkWord _)) (fun _ => delete_keeps.made) fun _ => ?_
  refine .test (.same_of_peeks (.checkWord _)) (fun _ => create_keeps) fun _ => ?_
  exact .test (.same_of_peeks (.checkWord _)) (fun _ => drop_keeps.made) fun _ => .unexpected

end Statements

end SqlDialects
