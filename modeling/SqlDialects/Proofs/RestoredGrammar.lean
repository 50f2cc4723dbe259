import SqlDialects.Proofs.FirstTokens

/-!
# What the grammar reads is read where it is written

* `Expr.Restored` : an expression that is read where it is written;
* `call_parts`, `call_restored` : so is a call whose name can be written;
* `Deeper.Restoring`, `nested_restoring` : the productions of every level read expressions and queries that are
  read where they are written, up to parentheses.

The parts of what a production reads come from the productions below it, so the induction is on the number of levels.
-/

namespace SqlDialects

open Render

/-! ## Lists -/

theorem YieldsOn.commaSeparated_cons {α : Type} {i : Input} {p : Parser α} {P : α → Prop} {N : List Name → Prop}
    (hp : YieldsOn i p P N) : YieldsOn i (Parser.commaSeparated p) (fun as => as ≠ [] ∧ ∀ a ∈ as, P a) N :=
  hp.bind fun _ ha => (YieldsOn.afterCommas hp).bind fun _ has =>
    .pure ⟨by simp, List.forall_mem_cons.mpr ⟨ha, has⟩⟩

/-! ## Expressions -/

/-- The expression is read where it is written if it was read from the input. -/
def Expr.Restored (i : Input) (t : Target) (e : Expr) : Prop := Sourced i e.nodes → Rewrites false t id e

/-- The productions one level down read what is read where it is written. -/
structure Deeper.Restoring (i : Input) (t : Target) (deeper : Deeper) : Prop where
  expr : ∀ p, YieldsUnquoted i (deeper.expr p) (Expr.Restored i t)
  led : ∀ p k, YieldsAt (N := Unquoted) i k (deeper.expr p) (·.LedBy (i.token k))
  query : YieldsUnquoted i deeper.query fun q => Sourced i q.nodes → q.Restored t
  opened : deeper.Opened i
  traced : deeper.Traced i

/-- The parser reads operands that are read where they are written. -/
structure RestoringOperand (i : Input) (t : Target) (operand : Parser Expr) : Prop where
  expr : YieldsUnquoted i operand (Expr.Restored i t)
  led : ∀ k, YieldsAt (N := Unquoted) i k operand (·.LedBy (i.token k))

/-- The parts of a call are read where they are written. -/
def Call.PartsRestored (i : Input) (t : Target) (f : Call) : Prop :=
  (∀ e, .expr e ∈ f.args → e.Restored i t) ∧ ∀ w ∈ f.window, Sourced i (windowNodes (some w)) → w.IsWritten t

section Expressions

variable {i : Input} {t : Target} {deeper : Deeper} {operand : Parser Expr}

/-! ### Windows -/

theorem orderBy_restored (hdeep : deeper.Restoring i t) :
    YieldsUnquoted i (Parser.orderBy deeper) fun items => ∀ o ∈ items, o.key.Restored i t :=
  .optionalList_part (.commaSeparated
    ((hdeep.expr 0).bind fun _ hkey => .skip fun _ => .skip fun _ => .pure hkey))

/-- The keys of an ordering are written. -/
theorem keys_of_sourced {items : List OrderItem} (h : ∀ o ∈ items, o.key.Restored i t)
    (hsourced : Sourced i (orderNodes items)) : ∀ o ∈ items, Rewrites false t id o.key := by
  intro o ho
  have hnodes := all_orderNodes.mp hsourced o ho
  obtain ⟨key, ascending, nullsFirst⟩ := o
  refine h _ ho ?_
  simpa [orderNodes] using (all_cons.mp hnodes).2

theorem exprs_of_sourced {es : List Expr} (h : ∀ e ∈ es, e.Restored i t) (hsourced : Sourced i (exprNodes es)) :
    ∀ e ∈ es, Rewrites false t id e :=
  fun e he => h e he (all_exprNodes.mp hsourced e he)

theorem option_of_sourced {o : Option Expr} (h : ∀ e ∈ o, e.Restored i t) (hsourced : Sourced i (optionNodes o)) :
    ∀ e ∈ o, Rewrites false t id e :=
  fun e he => h e he (all_optionNodes.mp hsourced e he)

theorem frameBound_restored (hop : RestoringOperand i t operand) :
    YieldsUnquoted i (Parser.frameBound operand) fun b => Sourced i b.nodes → b.IsWritten t := by
  refine .test (.pure fun _ => trivial) (.of_at fun k => .word (fun _ => ?_) fun hno => ?_)
  · exact .test (.pure fun _ => trivial) (.skip fun _ => .pure fun _ => trivial)
  refine ((YieldsAt.of_yieldsOn hop.expr).and (hop.led k)).bind fun e he => ?_
  have hstart : e.startsUnbounded = false := by
    rw [← Bool.not_eq_true]
    exact fun hunbounded => Bool.false_ne_true (hno.symm.trans (he.2.unbounded hunbounded))
  refine .test (.pure fun hsourced => ?_) (.skip fun _ => .pure fun hsourced => ?_)
  · exact ⟨he.1 (all_cons.mp hsourced).2, hstart⟩
  · exact ⟨he.1 (all_cons.mp hsourced).2, hstart⟩

theorem windowFrame_restored (hop : RestoringOperand i t operand) :
    YieldsUnquoted i (Parser.windowFrame operand) fun f => Sourced i (frameNodes (some f)) →
      f.start.IsWritten t ∧ ∀ b ∈ f.stop, b.IsWritten t := by
  have hbounds (unit : FrameUnit) : YieldsUnquoted i (do
      if ← Parser.eatWord "BETWEEN" then
        let start ← Parser.frameBound operand
        Parser.expectWord "AND"
        let stop ← Parser.frameBound operand
        return ⟨unit, start, some stop⟩
      let start ← Parser.frameBound operand
      return ⟨unit, start, none⟩) fun f => Sourced i (frameNodes (some f)) →
        f.start.IsWritten t ∧ ∀ b ∈ f.stop, b.IsWritten t := by
    refine .test ?_ ?_
    · refine (frameBound_restored hop).bind fun start hstart => .skip fun _ => ?_
      refine (frameBound_restored hop).bind fun stop hstop => .pure fun hsourced => ?_
      obtain ⟨hfirst, hlast⟩ := all_append.mp hsourced
      exact ⟨hstart hfirst, by simpa using hstop hlast⟩
    · refine (frameBound_restored hop).bind fun start hstart => .pure fun hsourced => ?_
      exact ⟨hstart (all_append.mp hsourced).1, by simp⟩
  exact .test (hbounds _) (.skip fun _ => hbounds _)

theorem window_restored (hdeep : deeper.Restoring i t) (hop : RestoringOperand i t operand) :
    YieldsUnquoted i (Parser.window deeper operand) fun w => Sourced i (windowNodes (some w)) → w.IsWritten t := by
  refine .parenthesized ?_
  refine (YieldsOn.optionalList_part (.commaSeparated (hdeep.expr 0))).bind fun keys hkeys => ?_
  refine (orderBy_restored hdeep).bind fun order horder => ?_
  refine (YieldsOn.optional_part (windowFrame_restored hop)).bind fun frame hframe => .pure fun hsourced => ?_
  obtain ⟨hlists, hlast⟩ := all_append.mp hsourced
  obtain ⟨hfirst, hsecond⟩ := all_append.mp hlists
  refine ⟨exprs_of_sourced hkeys hfirst, keys_of_sourced horder hsecond, fun f hf => ?_, fun f hf => ?_⟩
  · obtain rfl := Option.mem_def.mp hf
    exact (hframe f rfl hlast).1
  · obtain rfl := Option.mem_def.mp hf
    exact (hframe f rfl hlast).2

/-! ### Calls -/

theorem mem_swapFirst {a : Arg} {args : List Arg} : a ∈ Parser.swapFirst args ↔ a ∈ args := by
  match args with
  | [] => rfl
  | [x] => rfl
  | x :: y :: rest =>
    simp only [Parser.swapFirst, List.mem_cons]
    tauto

theorem callArgs_restored (hdeep : deeper.Restoring i t) (upper : String) :
    YieldsUnquoted i (Parser.callArgs deeper upper) fun args => ∀ e, .expr e ∈ args → e.Restored i t := by
  have hargs {first : Expr} (h : first.Restored i t) :
      YieldsUnquoted i (do return .expr first :: (← Parser.afterCommas (deeper.expr 0)).map Arg.expr)
        fun args => ∀ e, .expr e ∈ args → e.Restored i t := by
    refine (YieldsOn.afterCommas (hdeep.expr 0)).bind fun rest hrest => .pure fun e he => ?_
    rcases List.mem_cons.mp he with heq | he
    · exact Arg.expr.inj heq ▸ h
    · obtain ⟨x, hx, heq⟩ := List.mem_map.mp he
      exact Arg.expr.inj heq ▸ hrest x hx
  unfold Parser.callArgs
  dsimp only
  split
  · refine (hdeep.expr _).bind fun needle hneedle => .test ?_ (hargs hneedle)
    refine (hdeep.expr 0).bind fun haystack hhaystack => .pure ?_
    simp only [List.mem_cons, Arg.expr.injEq, List.not_mem_nil, or_false]
    rintro e (rfl | rfl)
    · exact hhaystack
    · exact hneedle
  · refine (hdeep.expr 0).bind fun first hfirst => .test ?_ (hargs hfirst)
    refine (hdeep.expr 0).bind fun start hstart => ?_
    refine (YieldsOn.optional_part (hdeep.expr 0)).bind fun length hlength => .pure ?_
    simp only [List.mem_cons, Arg.expr.injEq, Option.mem_toList, Option.map_eq_some_iff,
      exists_eq_right]
    rintro e (rfl | rfl | he)
    · exact hfirst
    · exact hstart
    · exact hlength e he

theorem callBody_restored (hdeep : deeper.Restoring i t) (upper : String) :
    YieldsUnquoted i (Parser.callBody deeper upper) fun r => ∀ e, .expr e ∈ r.2 → e.Restored i t := by
  have hstar : YieldsUnquoted i (Pure.pure [Arg.star]) fun args => ∀ e, .expr e ∈ args → e.Restored i t :=
    .pure (by simp)
  refine .test (.pure (by simp)) (.skip fun distinct => .test ?_ ?_)
  · exact hstar.bind fun args hargs => .skip fun _ => .pure hargs
  · exact (callArgs_restored hdeep upper).bind fun args hargs => .skip fun _ => .pure hargs

theorem canonicalCall_restored {name : String} {args : List Arg} (h : ∀ e, .expr e ∈ args → e.Restored i t)
    (position : Position) :
    YieldsUnquoted i (Parser.canonicalCall name args position) fun r => ∀ e, .expr e ∈ r.2 → e.Restored i t := by
  refine .skip fun rules => ?_
  split
  · exact .pure h
  split
  · exact .pure h
  · exact .pure fun e he => h e (mem_swapFirst.mp he)
  · split
    · exact .pure h
    · split
      · exact .pure h
      · exact .fail _

theorem extraction_restored (hs : i.Suits t) (hdeep : deeper.Restoring i t) (separator : Parser Unit) :
    YieldsUnquoted i (Parser.extraction deeper separator) fun e => e.Restored i t ∧ ∀ f, e ≠ .call f := by
  refine .parenthesized (.skip fun field => .skip fun _ => ?_)
  refine (hdeep.expr 0).bind fun e he => .pure ⟨fun hsourced => ?_, by simp⟩
  exact extract_regains hs.stable field (he (all_cons.mp hsourced).2)

/-- What looks like a call and is none is read where it is written, and so are the parts of a call. -/
theorem call_parts (hs : i.Suits t) (hdeep : deeper.Restoring i t) (hop : RestoringOperand i t operand)
    (name : String) (position : Position) :
    YieldsUnquoted i (Parser.call deeper operand name position) fun e =>
      ((∀ f, e ≠ .call f) → e.Restored i t) ∧ ∀ f, e = .call f → f.PartsRestored i t := by
  have hextract (separator : Parser Unit) : YieldsUnquoted i (Parser.extraction deeper separator) fun e =>
      ((∀ f, e ≠ .call f) → e.Restored i t) ∧ ∀ f, e = .call f → f.PartsRestored i t :=
    (extraction_restored hs hdeep separator).mono fun e he => ⟨fun _ => he.1, fun f hf => absurd hf (he.2 f)⟩
  refine .dialect ?_
  rw [hs.dialect]
  dsimp only
  split
  · exact hextract _
  split
  · exact hextract _
  split
  · next hconditional =>
    rw [hs.stable.conditionals] at hconditional
    cases hconditional
  split
  · exact .skip fun _ => .skip fun _ => .pure ⟨fun _ _ => now_regains hs.stable _, by simp⟩
  · refine .skip fun _ => (callBody_restored hdeep _).bind fun r hargs => ?_
    refine (canonicalCall_restored hargs position).bind fun r hargs => ?_
    refine (YieldsOn.optional_part (window_restored hdeep hop)).bind fun w hw => .pure ?_
    refine ⟨fun hno => absurd rfl (hno _), ?_⟩
    rintro _ ⟨⟩
    exact ⟨hargs, hw⟩

/-- A call is read where it is written if the function that its name means can be written. -/
theorem call_restored (hs : i.Suits t) (hdeep : deeper.Restoring i t) (hop : RestoringOperand i t operand)
    {name : String} (position : Position)
    (hname : ∀ f, i.dialect.Means name f → ∃ ss, t.dialect.Says f.name ss) :
    YieldsUnquoted i (Parser.call deeper operand name position) (Expr.Restored i t) := by
  refine ((call_means name position).given.and (call_parts hs hdeep hop name position)).mono fun e he => ?_
  obtain ⟨hmeans, hother, hparts⟩ := he
  by_cases hcall : ∃ f, e = .call f
  · obtain ⟨f, rfl⟩ := hcall
    obtain ⟨hargs, hwindow⟩ := hparts f rfl
    obtain ⟨ss, hsays⟩ := hname f (hmeans f rfl)
    have hargsOf := (hmeans f rfl).args
    obtain ⟨canonical, args, distinct, window⟩ := f
    intro hsourced
    obtain ⟨hargNodes, hlast⟩ := all_append.mp (all_cons.mp (all_cons.mp hsourced).2).2
    refine call_regains hs.stable hsays hargsOf (fun e he => hargs e he ?_) fun w hw => hwindow w hw ?_
    · simpa [argNodes] using all_argNodes.mp hargNodes _ he
    · obtain rfl := Option.mem_def.mp hw
      exact hlast
  · exact hother fun f hf => hcall ⟨f, hf⟩

/-! ### Primaries -/

theorem chain_restored (hs : i.Suits t) (hdeep : deeper.Restoring i t) (hop : RestoringOperand i t operand) :
    YieldsUnquoted i (Parser.chain deeper operand) (Expr.Restored i t) := by
  refine .skip fun s => name_sourced.bind fun first hfirst => ?_
  refine (YieldsOn.many chainPart_sourced).bind fun rest hrest => .skip fun called => ?_
  have hwords : ∀ n ∈ first :: rest, i.Has n.shape := List.forall_mem_cons.mpr ⟨hfirst, hrest⟩
  split
  · refine .nameFunction fun hunquoted => call_restored hs hdeep hop _ fun f hmeans => ?_
    have hnamed : f.NamedBy i (first :: rest) := ⟨by simp, hunquoted, hwords, hmeans⟩
    obtain ⟨ms, -, -, hsays⟩ := hnamed.written hs
    exact ⟨_, hsays⟩
  · refine .pure fun hsourced => ?_
    cases rest with
    | nil => exact name_regains hs.stable.toExpressive (hs.reread hfirst)
    | cons n ns => exact path_regains hs.stable.toExpressive (by simp) fun n hn => hs.reread (hwords n hn)

theorem param_restored (hs : i.Suits t) : YieldsUnquoted i Parser.param (Expr.Restored i t) := by
  obtain ⟨-, hpositional, hnumbered, hnamed⟩ := hs.stable.params
  refine .skip fun s => .rules ?_
  rw [hs.dialect]
  extract_lets body found
  have hnone : YieldsUnquoted i (found none) (Expr.Restored i t) := .skip fun _ => .unexpected
  split
  · rw [hpositional]
    exact hnone
  · split
    · next k hk =>
      have hsome : YieldsUnquoted i (found (some (.numbered k))) (Expr.Restored i t) :=
        .skip fun _ => .pure fun _ => param_regains hs.stable (Text.lt_of_natOf? hk)
      exact hsome
    · rw [hnamed]
      exact hnone

theorem caseExpr_restored (hs : i.Suits t) (hdeep : deeper.Restoring i t) :
    YieldsUnquoted i (Parser.caseExpr deeper) (Expr.Restored i t) := by
  refine .skip fun _ => .skip fun simple => ?_
  extract_lets rest
  have hrest (o : Option Expr) (ho : ∀ e ∈ o, e.Restored i t) : YieldsUnquoted i (rest o) (Expr.Restored i t) := by
    refine (YieldsOn.many (P := fun b : Branch => b.condition.Restored i t ∧ b.result.Restored i t) (.optional_part
      ((hdeep.expr 0).bind fun c hc => .skip fun _ => (hdeep.expr 0).bind fun r hr => .pure ⟨hc, hr⟩))).bind
        fun branches hbranches => ?_
    extract_lets close
    have hclose (hne : branches ≠ []) (u : Unit) : YieldsUnquoted i (close u) (Expr.Restored i t) := by
      refine (YieldsOn.optional_part (hdeep.expr 0)).bind fun last hlast => .skip fun _ => .pure fun hsourced => ?_
      obtain ⟨hbelow, hend⟩ := all_append.mp (all_cons.mp hsourced).2
      obtain ⟨hfirst, hmiddle⟩ := all_append.mp hbelow
      refine case_regains hs.stable.toExpressive hne (option_of_sourced ho hfirst) (fun b hb => ?_)
        (option_of_sourced hlast hend)
      have hnodes := all_branchNodes.mp hmiddle b hb
      obtain ⟨condition, result⟩ := b
      simp only [branchNodes, List.append_nil, all_append] at hnodes
      exact ⟨(hbranches _ hb).1 hnodes.1, (hbranches _ hb).2 hnodes.2⟩
    split
    · exact YieldsOn.bind (P := fun _ => False) .unexpected fun _ h => h.elim
    · next hsome => exact hclose (by simpa using hsome) ()
  split
  · exact (YieldsOn.pure (by simp)).bind hrest
  · refine YieldsOn.bind (.map (hdeep.expr 0) fun e he => ?_) hrest
    rintro _ ⟨⟩
    exact he

theorem type_restored (hs : i.Suits t) : YieldsUnquoted i Parser.dataType (DataType.Restored t) :=
  (dataType_restored hs.stable.toLegible hs.stable.settled hs.stable.escapes hs.lexed hs.dialect).given

theorem castExpr_restored (hs : i.Suits t) (hdeep : deeper.Restoring i t) :
    YieldsUnquoted i (Parser.castExpr deeper false) (Expr.Restored i t) := by
  refine .skip fun _ => .parenthesized ?_
  refine (hdeep.expr 0).bind fun e he => .skip fun _ => (type_restored hs).bind fun type htype => .pure fun h => ?_
  exact cast_regains hs.stable.toExpressive htype (he (all_cons.mp h).2)

theorem existsExpr_restored (hs : i.Suits t) (hdeep : deeper.Restoring i t) (negated : Bool) :
    YieldsUnquoted i (Parser.existsExpr deeper negated) (Expr.Restored i t) :=
  (YieldsOn.parenthesized hdeep.query).bind fun _ hq => .pure fun hsourced =>
    exists_regains hs.stable (hq (all_cons.mp hsourced).2) negated

theorem intervalExpr_restored (hs : i.Suits t) :
    YieldsUnquoted i (Parser.intervalExpr operand) (Expr.Restored i t) := by
  refine .skip fun _ => .dialect ?_
  rw [hs.dialect, hs.stable.intervals]
  refine .skip fun s => ?_
  extract_lets close
  have hclose (u : Unit) : YieldsUnquoted i (close u) (Expr.Restored i t) :=
    .skip fun _ => .skip fun unit => .pure fun _ => interval_regains hs.stable _ unit
  split
  · exact hclose ()
  · exact .skip fun _ => .skip hclose

theorem wordForm_restored (hs : i.Suits t) (hdeep : deeper.Restoring i t) {word : String} {called : Bool}
    {form : Parser Expr} (h : Parser.wordForm? deeper operand t.dialect word called = some form) :
    YieldsUnquoted i form (Expr.Restored i t) := by
  have hliteral {l : Literal} (hnumber : ∀ w, l ≠ .number w) (htemporal : ∀ kind v, l ≠ .temporal kind v) :
      Expr.Restored i t (.literal l) := fun _ =>
    literal_regains hs.stable.toExpressive (fun w hw => absurd hw (hnumber w)) htemporal
  cases Parser.wordForm_cases h with
  | null => exact .skip fun _ => .pure (hliteral (by simp) (by simp))
  | truth _ => exact .skip fun _ => .pure (hliteral (by simp) (by simp))
  | branches => exact caseExpr_restored hs hdeep
  | cast => exact castExpr_restored hs hdeep
  | existence _ => exact .skip fun _ => existsExpr_restored hs hdeep false
  | interval _ => exact intervalExpr_restored hs
  | safeCast hsafe =>
    rw [hs.stable.safeCast] at hsafe
    cases hsafe
  | now _ => exact .skip fun _ => .pure fun _ => now_regains hs.stable _

theorem wordExpr_restored (hs : i.Suits t) (hdeep : deeper.Restoring i t) (hop : RestoringOperand i t operand)
    {s : Token} (hhas : i.Has s.shape) (hbare : s.isBareWord = true) :
    YieldsUnquoted i (Parser.wordExpr deeper operand s) (Expr.Restored i t) := by
  refine .dialect (.skip fun next => ?_)
  rw [hs.dialect]
  dsimp only
  split
  case h_1 form hform => exact wordForm_restored hs hdeep hform
  next hform =>
  split
  · refine .skip fun _ => .skip fun value => ?_
    split
    · next hvalid => exact .pure fun _ => temporal_regains hs.stable hvalid
    · exact YieldsOn.bind (P := fun _ => False) (.unexpectedAt _ _) fun _ h => h.elim
  split
  · next hcalled =>
    refine .skip fun _ => .skip fun _ => call_restored hs hdeep hop _ fun f hmeans => ?_
    rw [hs.dialect] at hmeans
    obtain ⟨swapped, hmeaning⟩ := hmeans.meaning
    simp only [Bool.and_eq_true, Bool.or_eq_true, beq_iff_eq, List.contains_eq_mem, decide_eq_true_eq] at hcalled
    obtain ⟨hopen, hkind⟩ := hcalled
    rw [hopen] at hform
    have hlexed := hs.lexed _ hhas
    rw [hs.dialect] at hlexed
    have hcallable := isCallable_of_wordForm hs.stable.toReadable (hs.isBare hhas hbare)
      (hkind.imp_left fun hword => (Token.word_of_isLexed hlexed hword).2)
      (Option.eq_none_iff_forall_ne_some.mpr hform)
    exact says_of_bare hs.stable.toFluent hcallable hmeans.plain hmeaning
  split
  · exact .skip fun _ => .skip fun _ => chain_restored hs hdeep hop
  · exact chain_restored hs hdeep hop

theorem primary_restored (hs : i.Suits t) (hdeep : deeper.Restoring i t) (hop : RestoringOperand i t operand) :
    YieldsUnquoted i (Parser.primary deeper operand) (Expr.Restored i t) := by
  refine .peek fun k => ?_
  split
  · refine .skip fun _ => .pure fun hsourced => literal_regains hs.stable.toExpressive ?_ (by simp)
    rintro _ ⟨⟩
    exact hs.lexed _ (all_cons.mp hsourced).1
  · exact .skip fun _ => .pure fun _ => literal_regains hs.stable.toExpressive (by simp) (by simp)
  · exact param_restored hs
  case h_4 hkind => exact wordExpr_restored hs hdeep hop ⟨k, rfl⟩ (by simp [Token.isBareWord, hkind])
  case h_5 hkind => exact wordExpr_restored hs hdeep hop ⟨k, rfl⟩ (by simp [Token.isBareWord, hkind])
  · exact chain_restored hs hdeep hop
  · split
    · refine .parenthesized (.of_at fun k => .peekQuery ?_)
      split
      · next hnext =>
        refine ((YieldsAt.of_yieldsOn hdeep.query).and (hdeep.opened k).given).bind fun q hq => .pure fun hsourced => ?_
        exact subquery_regains hs.stable (hq.1 (all_cons.mp hsourced).2) (hq.2.next hnext)
      · refine .of_yieldsOn ((hdeep.expr 0).bind fun e he => .pure fun hsourced => ?_)
        exact nested_regains hs.stable.toExpressive (he (all_cons.mp hsourced).2)
    · exact .skip fun _ => .unexpected
  · exact .skip fun _ => .unexpected

theorem operandWith_restored (hs : i.Suits t) (hdeep : deeper.Restoring i t) (hop : RestoringOperand i t operand) :
    YieldsUnquoted i (Parser.operandWith deeper operand) (Expr.Restored i t) := by
  have hd := hs.stable.toExpressive
  refine .test (.of_at fun k => .word (fun _ => existsExpr_restored hs hdeep true) fun hno => ?_) (.skip fun s => ?_)
  · refine ((YieldsAt.of_yieldsOn (hdeep.expr .not)).and (hdeep.led .not k)).bind fun e he => .pure fun hsourced => ?_
    refine unary_regains hd (fun _ => ?_) (he.1 (all_cons.mp hsourced).2)
    rw [← Bool.not_eq_true]
    exact fun hrows => Bool.false_ne_true (hno.symm.trans (he.2.rows hrows))
  split
  · next op hunary =>
    have hnot : op ≠ .not := by
      rintro rfl
      unfold Parser.unaryOp? at hunary
      split at hunary
      · repeat' split at hunary
        all_goals cases hunary
      · cases hunary
    refine .skip fun _ => (hdeep.expr .unary).bind fun e he => .pure fun hsourced => ?_
    exact unary_regains hd (fun h => absurd h hnot) (he (all_cons.mp hsourced).2)
  · exact primary_restored hs hdeep hop

theorem operandUpTo_restored (hs : i.Suits t) (hdeep : deeper.Restoring i t) (n : Nat) :
    RestoringOperand i t (Parser.operandUpTo deeper n) := by
  induction n with
  | zero => exact ⟨.unexpected, fun k => operandUpTo_led hs 0⟩
  | succ n ih => exact ⟨operandWith_restored hs hdeep ih, fun k => operandUpTo_led hs (n + 1)⟩

theorem operandFrom_restored (hs : i.Suits t) (hdeep : deeper.Restoring i t) :
    RestoringOperand i t (Parser.operandFrom deeper) :=
  ⟨.skip fun _ => (operandUpTo_restored hs hdeep _).expr, fun _ => operandFrom_led hs⟩

/-! ### Operators -/

theorem membership_restored (hs : i.Suits t) (hdeep : deeper.Restoring i t) {left : Expr} (hl : left.Restored i t)
    (negated : Bool) : YieldsUnquoted i (Parser.membership deeper left negated) (Expr.Restored i t) := by
  refine .parenthesized (.of_at fun k => .peekQuery ?_)
  split
  · next hnext =>
    refine ((YieldsAt.of_yieldsOn hdeep.query).and (hdeep.opened k).given).bind fun q hq => .pure fun hsourced => ?_
    obtain ⟨hfirst, hlast⟩ := all_append.mp (all_cons.mp hsourced).2
    exact inQuery_regains hs.stable (hl hfirst) (hq.1 hlast) (hq.2.next hnext) negated
  · refine .of_yieldsOn ((YieldsOn.commaSeparated_cons (hdeep.expr 0)).bind fun es hes => .pure fun hsourced => ?_)
    obtain ⟨hfirst, hlast⟩ := all_append.mp (all_cons.mp hsourced).2
    exact inList_regains hs.stable.toExpressive negated hes.1 (hl hfirst) (exprs_of_sourced hes.2 hlast)

theorem predicate_restored (hs : i.Suits t) (hdeep : deeper.Restoring i t) {left : Expr} (hl : left.Restored i t) :
    YieldsUnquoted i (Parser.predicate deeper left) (Expr.Restored i t) := by
  have hd := hs.stable.toExpressive
  have hlike (negated anyCase : Bool) : YieldsUnquoted i (do
      let pattern ← deeper.expr .comparison
      let escape ← Parser.optional (Parser.eatWord "ESCAPE") (Parser.operandFrom deeper)
      return Expr.like left pattern negated anyCase escape) (Expr.Restored i t) := by
    refine (hdeep.expr _).bind fun p hp => ?_
    refine (YieldsOn.optional_part (operandFrom_restored hs hdeep).expr).bind fun o ho => .pure fun hsourced => ?_
    obtain ⟨hbelow, hlast⟩ := all_append.mp (all_cons.mp hsourced).2
    obtain ⟨hfirst, hmiddle⟩ := all_append.mp hbelow
    exact like_regains hd negated anyCase (hl hfirst) (hp hmiddle) (option_of_sourced ho hlast)
  refine .skip fun negated => .test ?_ (.test (membership_restored hs hdeep hl negated) ?_)
  · refine (hdeep.expr _).bind fun low hlow => .skip fun _ => (hdeep.expr _).bind fun high hhigh => ?_
    refine .pure fun hsourced => ?_
    obtain ⟨hbelow, hlast⟩ := all_append.mp (all_cons.mp hsourced).2
    obtain ⟨hfirst, hmiddle⟩ := all_append.mp hbelow
    exact between_regains hd negated (hl hfirst) (hlow hmiddle) (hhigh hlast)
  · exact .test (hlike negated false) (.skip fun _ => hlike negated true)

theorem joined_restored (hs : i.Suits t) (hdeep : deeper.Restoring i t) {left : Expr} (hl : left.Restored i t)
    (c : Parser.Connective) (p : Precedence) :
    YieldsUnquoted i (Parser.joined deeper left c p) (Expr.Restored i t) := by
  have hd := hs.stable.toExpressive
  cases c with
  | binary op =>
    refine .skip fun _ => (hdeep.expr p).bind fun right hr => .pure fun hsourced => ?_
    obtain ⟨hfirst, hlast⟩ := all_append.mp (all_cons.mp hsourced).2
    exact binary_regains hd op (by simp) (hl hfirst) (hr hlast)
  | doubleColon =>
    refine .skip fun _ => (type_restored hs).bind fun type htype => .pure fun hsourced => ?_
    exact cast_regains hd htype (hl (all_cons.mp hsourced).2)
  | is =>
    refine .skip fun _ => .skip fun negated => .skip fun _ => .pure fun hsourced => ?_
    exact isNull_regains hd negated (hl (all_cons.mp hsourced).2)
  | predicate => exact predicate_restored hs hdeep hl

theorem subexpr_restored (hs : i.Suits t) (hdeep : deeper.Restoring i t) (least : Precedence) :
    YieldsUnquoted i (Parser.subexpr deeper least) (Expr.Restored i t) := by
  refine (operandFrom_restored hs hdeep).expr.bind fun left hl => .iterate hl fun e he => ?_
  refine .skip fun rules => .skip fun s => .skip fun next => ?_
  split
  · split
    · exact .pure (by simp)
    · refine (joined_restored hs hdeep he _ _).bind fun e' he' => .pure ?_
      rintro _ ⟨⟩
      exact he'
  · exact .pure (by simp)

end Expressions

/-! ## Names of sources and columns -/

section Names

variable {i : Input} {N : List Name → Prop}

theorem optionalAlias_has : YieldsOn (N := N) i Parser.optionalAlias fun o => ∀ n ∈ o, i.Has n.shape := by
  have hname : YieldsOn (N := N) i (do return some (← Parser.name)) fun o => ∀ n ∈ o, i.Has n.shape :=
    name_sourced.bind fun n hn => .pure (by simpa using hn)
  refine .test hname (.skip fun s => ?_)
  split
  · exact hname
  · exact .pure (by simp)

theorem nameList_has : YieldsOn (N := N) i Parser.nameList fun ns => ns ≠ [] ∧ ∀ n ∈ ns, i.Has n.shape :=
  .parenthesized (.commaSeparated_cons name_sourced)

theorem optionalNameList_has : YieldsOn (N := N) i Parser.optionalNameList fun ns => ∀ n ∈ ns, i.Has n.shape :=
  .optionalList_part (nameList_has.mono fun _ h => h.2)

theorem tableAlias_has : YieldsOn (N := N) i Parser.tableAlias fun label => ∀ n ∈ aliasNames label, i.Has n.shape := by
  refine optionalAlias_has.bind fun o ho => ?_
  cases o with
  | none => exact .pure (by simp [aliasNames])
  | some n =>
    exact optionalNameList_has.bind fun ns hns => .pure (List.forall_mem_cons.mpr ⟨ho n rfl, hns⟩)

theorem qualifiedName_has : YieldsOn (N := N) i Parser.qualifiedName fun ns => ns ≠ [] ∧ ∀ n ∈ ns, i.Has n.shape := by
  have hpart : YieldsOn (N := N) i Parser.dottedPart fun o => ∀ n ∈ o, i.Has n.shape :=
    .test (.skip fun _ => name_sourced.bind fun n hn => .pure (by simpa using hn)) (.pure (by simp))
  exact name_sourced.bind fun n hn => (YieldsOn.many hpart).bind fun ns hns =>
    .pure ⟨by simp, List.forall_mem_cons.mpr ⟨hn, hns⟩⟩

/-- A qualified star has a name before it. -/
theorem starParts_pos (k n : Nat) : YieldsOn (N := N) i (Parser.starParts k n) fun o => ∀ m ∈ o, m ≠ 0 := by
  induction n generalizing k with
  | zero => exact .pure (by simp)
  | succ n ih =>
    refine .skip fun first => .skip fun dot => ?_
    split
    · refine .skip fun third => ?_
      split
      · exact .pure (by simp)
      · refine (ih (k + 2)).bind fun o ho => .pure ?_
        simp only [Option.mem_def, Option.map_eq_some_iff]
        rintro m ⟨l, -, rfl⟩
        exact Nat.succ_ne_zero l
    · exact .pure (by simp)

theorem starParts_has (n : Nat) :
    YieldsOn (N := N) i (Parser.times n Parser.starPart) fun ns => ns.length = n ∧ ∀ m ∈ ns, i.Has m.shape := by
  induction n with
  | zero => exact .pure (by simp)
  | succ n ih =>
    have hpart : YieldsOn (N := N) i Parser.starPart fun m => i.Has m.shape :=
      name_sourced.bind fun m hm => .skip fun _ => .pure hm
    refine hpart.bind fun m hm => ih.bind fun ns hns => .pure ?_
    exact ⟨by simp [hns.1], List.forall_mem_cons.mpr ⟨hm, hns.2⟩⟩

end Names

/-! ## Queries -/

section Queries

variable {i : Input} {t : Target} {deeper : Deeper}

theorem selectItem_restored (hs : i.Suits t) (hdeep : deeper.Restoring i t) :
    YieldsUnquoted i (Parser.selectItem deeper) fun item => Sourced i (itemNodes [item]) → item.IsWritten t := by
  refine .test (.pure fun _ => .star) (.skip fun left => (starParts_pos 0 _).bind fun stars hstars => ?_)
  cases stars with
  | some n =>
    refine (starParts_has n).bind fun ns hns => .skip fun _ => .pure fun _ => .qualified ?_ (hs.keeps hns.2)
    rintro rfl
    exact hstars n rfl hns.1.symm
  | none =>
    refine (hdeep.expr 0).bind fun e he => optionalAlias_has.bind fun label hlabel => .pure fun hsourced => ?_
    refine .expr (he (all_append.mp hsourced).1) (hs.keeps fun n hn => hlabel n (by simpa using hn))

theorem relation_restored (hs : i.Suits t) (hdeep : deeper.Restoring i t) :
    YieldsUnquoted i (Parser.relation deeper) fun r => Sourced i r.nodes → r.Restored t := by
  refine .test ?_ (.skip fun s => qualifiedName_has.bind fun table htable => .test ?_ ?_)
  · refine hdeep.query.bind fun q hq => .skip fun _ => tableAlias_has.bind fun label hlabel => .pure fun hsourced => ?_
    exact derived_restored hs.stable (hq (all_cons.mp hsourced).2) (hs.keeps hlabel)
  · refine .nameFunction fun hunquoted => ?_
    refine ((call_means _ _).given.and (call_parts hs hdeep (operandFrom_restored hs hdeep) _ _)).bind fun e he => ?_
    refine tableAlias_has.bind fun label hlabel => ?_
    split
    · next f =>
      obtain ⟨hargs, hwindow⟩ := he.2.2 f rfl
      have hnamed : f.NamedBy i table := ⟨htable.1, hunquoted, htable.2, he.1 f rfl⟩
      obtain ⟨ms, hne, hname, hsays⟩ := hnamed.written hs
      obtain ⟨canonical, args, distinct, window⟩ := f
      refine .pure fun hsourced => ?_
      obtain ⟨hargNodes, hlast⟩ := all_append.mp (all_cons.mp (all_cons.mp hsourced).2).2
      refine function_restored hs.stable hne hsays hname hnamed.means.args (fun e he => hargs e he ?_)
        (fun w hw => hwindow w hw ?_) (hs.keeps hlabel)
      · simpa [argNodes] using all_argNodes.mp hargNodes _ he
      · obtain rfl := Option.mem_def.mp hw
        exact hlast
    · exact .skip fun s => .unexpectedAt s _
  · exact tableAlias_has.bind fun label hlabel => .pure fun _ =>
      table_restored hs.stable htable.1 (hs.keeps htable.2) (hs.keeps hlabel)

/-- A natural join has a kind other than `CROSS`. -/
theorem joinKind_natural (natural : Bool) : YieldsUnquoted i (Parser.joinKind natural) fun o =>
    ∀ kind ∈ o, natural = true → kind ≠ .cross := by
  have hword (outer : Bool) {kind : JoinKind} (h : natural = true → kind ≠ .cross) :
      YieldsUnquoted i (Parser.joinWord outer kind) fun o => ∀ kind ∈ o, natural = true → kind ≠ .cross := by
    have hend : YieldsUnquoted i (do
        Parser.expectWord "JOIN"
        return some kind) fun o => ∀ kind ∈ o, natural = true → kind ≠ .cross := .skip fun _ => .pure (by simpa using h)
    cases outer with
    | false => exact hend
    | true => exact .skip fun _ => hend
  refine .test (.pure (by simp)) (.test (hword _ (by simp)) (.test (hword _ (by simp)) (.test (hword _ (by simp)) ?_)))
  refine .skip fun full => .test (hword _ (by simp)) (.testIf (.onlyIf _ _) (fun hcross => hword _ ?_) ?_)
  · simpa using hcross
  · dsimp only
    split
    · exact YieldsOn.bind (P := fun _ => False) .unexpected fun _ h => h.elim
    · exact .pure (by simp)

theorem joinCondition_restored (hs : i.Suits t) (hdeep : deeper.Restoring i t) {natural : Bool} {kind : JoinKind}
    (hkind : natural = true → kind ≠ .cross) : YieldsUnquoted i (Parser.joinCondition deeper natural kind) fun c =>
      (Sourced i c.nodes → c.IsWritten t) ∧ c.isNone = (kind == .cross) := by
  unfold Parser.joinCondition
  split
  · next hnatural =>
    have hcross : (kind == .cross) = false := beq_eq_false_iff_ne.mpr (hkind hnatural)
    exact .pure ⟨fun _ => .natural, hcross.symm⟩
  split
  · next hcross => exact .pure ⟨fun _ => .none, hcross.symm⟩
  next hcross =>
  have hno : (kind == .cross) = false := by simpa using hcross
  refine .test ?_ (.skip fun supported => .test ?_ .unexpected)
  · exact (hdeep.expr 0).bind fun e he => .pure ⟨fun hsourced => .on (he hsourced), hno.symm⟩
  · exact nameList_has.bind fun ns hns => .pure ⟨fun _ => .columns hns.1 (hs.keeps hns.2), hno.symm⟩

theorem join_restored (hs : i.Suits t) (hdeep : deeper.Restoring i t) :
    YieldsUnquoted i (Parser.join deeper) fun o => ∀ j ∈ o, Sourced i (joinNodes [j]) → j.IsWritten t := by
  refine .skip fun supported => .skip fun natural => (joinKind_natural natural).bind fun o ho => ?_
  cases o with
  | none => exact .pure (by simp)
  | some kind =>
    refine (relation_restored hs hdeep).bind fun r hr => ?_
    refine (joinCondition_restored hs hdeep (ho kind rfl)).bind fun c hc => .pure ?_
    rintro _ ⟨⟩ hsourced
    obtain ⟨hbelow, -⟩ := all_append.mp (all_cons.mp hsourced).2
    obtain ⟨hfirst, hlast⟩ := all_append.mp hbelow
    exact ⟨hr hfirst, hc.1 hlast, hc.2⟩

theorem source_restored (hs : i.Suits t) (hdeep : deeper.Restoring i t) :
    YieldsUnquoted i (Parser.source deeper) fun s => Sourced i (sourceNodes [s]) → s.IsWritten t := by
  refine (relation_restored hs hdeep).bind fun r hr => ?_
  refine (YieldsOn.many (join_restored hs hdeep)).bind fun joins hjoins => .pure fun hsourced => ?_
  obtain ⟨hbelow, -⟩ := all_append.mp hsourced
  obtain ⟨hfirst, hlast⟩ := all_append.mp hbelow
  exact ⟨hr hfirst, fun j hj => hjoins j hj (all_joinNodes.mp hlast j hj)⟩

theorem distinctness_restored (hdeep : deeper.Restoring i t) :
    YieldsUnquoted i (Parser.distinctness deeper) fun o => ∀ keys, o = some (.on keys) →
      keys ≠ [] ∧ ∀ e ∈ keys, e.Restored i t := by
  refine .test (.skip fun supported => .skip fun on => .skip fun next => ?_) (.skip fun _ => .pure (by simp))
  dsimp only
  split
  · refine .skip fun _ => ?_
    refine (YieldsOn.parenthesized (.commaSeparated_cons (hdeep.expr 0))).bind fun keys hkeys => .pure ?_
    rintro _ ⟨⟩
    exact hkeys
  · exact .pure (by simp)

theorem sources_restored (hs : i.Suits t) (hdeep : deeper.Restoring i t) :
    YieldsUnquoted i (Parser.sources deeper) fun sources =>
      ∀ s ∈ sources, Sourced i (sourceNodes [s]) → s.IsWritten t := by
  refine .test (.commaSeparated (source_restored hs hdeep)) (.skip fun rules => ?_)
  dsimp only
  split
  · exact .skip fun _ => .pure (by simp)
  · exact .pure (by simp)

theorem select_restored (hs : i.Suits t) (hdeep : deeper.Restoring i t) :
    YieldsUnquoted i (Parser.select deeper) fun r => Sourced i r.1.nodes → r.1.IsWritten t := by
  refine .skip fun _ => (distinctness_restored hdeep).bind fun distinct hdistinct => .skip fun top => ?_
  refine (YieldsOn.commaSeparated_cons (selectItem_restored hs hdeep)).bind fun items hitems => ?_
  refine (sources_restored hs hdeep).bind fun sources hsources => ?_
  refine (YieldsOn.optional_part (hdeep.expr 0)).bind fun condition hcondition => ?_
  refine (YieldsOn.optionalList_part (.commaSeparated (hdeep.expr 0))).bind fun groups hgroups => ?_
  refine (YieldsOn.optional_part (hdeep.expr 0)).bind fun having hhaving => ?_
  refine (YieldsOn.optional_part (hdeep.expr 0)).bind fun qualify hqualify => .pure fun hsourced => ?_
  simp only [Select.nodes, all_cons, all_append] at hsourced
  obtain ⟨-, ⟨⟨⟨⟨⟨hkdistinct, hkitems⟩, hksources⟩, hkcondition⟩, hkgroups⟩, hkhaving⟩, hkqualify⟩ := hsourced
  exact {
    distinct := by
      rintro keys rfl
      obtain ⟨hne, hall⟩ := hdistinct keys rfl
      exact ⟨hne, exprs_of_sourced hall hkdistinct⟩
    nonempty := hitems.1
    items := fun item hitem => hitems.2 item hitem (all_itemNodes.mp hkitems item hitem)
    sources := fun s hmem => hsources s hmem (all_sourceNodes.mp hksources s hmem)
    condition := option_of_sourced hcondition hkcondition
    groupBy := exprs_of_sourced hgroups hkgroups
    having := option_of_sourced hhaving hkhaving
    qualify := option_of_sourced hqualify hkqualify }

/-! ### Set operations -/

/-- An operand of a set operation is read where it is written; no count belongs to it. -/
theorem setOperand_restored (hs : i.Suits t) (hdeep : deeper.Restoring i t) :
    YieldsUnquoted i (Parser.setOperand deeper) fun r =>
      r.2 = none ∧ (Sourced i r.1.nodes → r.1.OperandRestored t) := by
  have hnone : YieldsUnquoted i (Parser.select deeper) fun r => r.2 = none :=
    ((select_sourced hdeep.traced).mono fun r hr => hr.plain (by rw [hs.dialect]; simp [hs.stable.limits])).given
  refine .test ?_ (.test ?_ (.test ?_ .unexpected))
  · refine (hnone.and (select_restored hs hdeep)).bind fun r hr => .pure ⟨hr.1, fun hsourced => ?_⟩
    exact select_operandRestored hs.stable (hr.2 (all_cons.mp hsourced).2)
  · refine (YieldsOn.commaSeparated_cons (.parenthesized (.commaSeparated_cons (hdeep.expr 0)))).bind
      fun rows hrows => .pure ⟨rfl, fun hsourced => ?_⟩
    refine values_operandRestored hs.stable hrows.1 fun row hrow => ⟨(hrows.2 row hrow).1, ?_⟩
    exact exprs_of_sourced (hrows.2 row hrow).2 (all_rowNodes.mp (all_cons.mp hsourced).2 row hrow)
  · refine hdeep.query.bind fun q hq => .skip fun _ => .pure ⟨rfl, fun hsourced => ?_⟩
    exact query_operandRestored hs.stable (hq (all_cons.mp hsourced).2)

theorem body_restored (hs : i.Suits t) (hdeep : deeper.Restoring i t) :
    YieldsUnquoted i (Parser.body deeper) fun r => r.2 = none ∧ (Sourced i r.1.nodes → r.1.Restored t) := by
  refine (setOperand_restored hs hdeep).bind fun first hfirst => .iterate
    (I := fun r : Body × Option Expr => r.2 = none ∧ (Sourced i r.1.nodes → r.1.Restored t))
    ⟨hfirst.1, fun hsourced => (hfirst.2 hsourced).restored⟩ fun left hleft => .skip fun op => ?_
  cases op with
  | none => exact .pure (by simp)
  | some op =>
    refine .skip fun quantifier => (setOperand_restored hs hdeep).bind fun right hright => .pure ?_
    rintro _ ⟨⟩
    refine ⟨rfl, fun hsourced => ?_⟩
    rw [hleft.1, hright.1] at hsourced ⊢
    obtain ⟨hfirst, hlast⟩ := all_append.mp (all_cons.mp hsourced).2
    exact combine_restored hs.stable (hleft.2 hfirst) (hright.2 hlast)

/-! ### Row limits and common table expressions -/

/-- The parts of the row limit so far are read where they are written. -/
structure RestoredClauses (i : Input) (t : Target) (l : Parser.LimitClauses) : Prop where
  count : ∀ e ∈ l.count, e.Restored i t
  offset : ∀ e ∈ l.offset, e.Restored i t

theorem moreLimit_restored (hdeep : deeper.Restoring i t) {l : Parser.LimitClauses} (hl : RestoredClauses i t l) :
    YieldsUnquoted i (Parser.moreLimit deeper l) fun o => ∀ l' ∈ o, RestoredClauses i t l' := by
  have hsome {l' : Parser.LimitClauses} (h : RestoredClauses i t l') :
      YieldsUnquoted i (Pure.pure (some l')) fun o => ∀ l' ∈ o, RestoredClauses i t l' :=
    .pure (by simpa using h)
  refine .skip fun rules => ?_
  extract_lets expr free fetch behind
  refine .test (.test (hsome ⟨hl.count, hl.offset⟩) ?_) (.test ?_ (.test ?_ (.pure (by simp))))
  · refine (hdeep.expr 0).bind fun first hfirst => .test ?_ ?_
    · exact (hdeep.expr 0).bind fun count hcount =>
        hsome ⟨by simpa using hcount, by simpa using hfirst⟩
    · exact hsome ⟨by simpa using hfirst, hl.offset⟩
  · refine .skip fun token => (hdeep.expr 0).bind fun offset ho => ?_
    have hoffset : RestoredClauses i t { l with offset := some offset, offsetToken := some token } :=
      ⟨hl.count, by simpa using ho⟩
    exact .test (hsome hoffset) (.skip fun _ => hsome hoffset)
  · have hbehind (u : Unit) : YieldsUnquoted i (behind u) fun o => ∀ l' ∈ o, RestoredClauses i t l' := by
      refine (hdeep.expr 0).bind fun count hcount => ?_
      have hcount : RestoredClauses i t { l with count := some count } := ⟨by simpa using hcount, hl.offset⟩
      exact .test (.skip fun _ => hsome hcount) (.skip fun _ => .skip fun _ => hsome hcount)
    exact .test (hbehind ()) (.skip hbehind)

theorem limit_restored (hdeep : deeper.Restoring i t) (ordered : Bool) :
    YieldsUnquoted i (Parser.limit deeper none ordered) fun o => Sourced i (limitNodes o) → ∀ l ∈ o, l.IsWritten t := by
  have hstart : RestoredClauses i t { count := none } := ⟨by simp, by simp⟩
  refine (YieldsOn.iterate hstart fun l hl => moreLimit_restored hdeep hl).bind fun l hl => ?_
  refine .skip fun rules => ?_
  extract_lets close
  have hclose (u : Unit) :
      YieldsUnquoted i (close u) fun o => Sourced i (limitNodes o) → ∀ l ∈ o, l.IsWritten t := by
    refine .pure ?_
    split
    · simp
    · next hsome =>
      rintro hsourced _ ⟨⟩
      obtain ⟨hfirst, hlast⟩ := all_append.mp hsourced
      refine ⟨?_, option_of_sourced hl.count hfirst, option_of_sourced hl.offset hlast⟩
      simpa [Option.isSome_iff_ne_none, imp_iff_not_or] using hsome
  split
  case h_2 => exact hclose ()
  case h_1 token _ =>
    extract_lets next
    have hnext (u : Unit) :
        YieldsUnquoted i (next u) fun o => Sourced i (limitNodes o) → ∀ l ∈ o, l.IsWritten t := by
      simp only [next]
      split
      · exact .skip hclose
      · exact hclose u
    split
    · exact .skip hnext
    · exact hnext ()

theorem ctes_restored (hs : i.Suits t) (hdeep : deeper.Restoring i t) :
    YieldsUnquoted i (Parser.ctes deeper) fun w => Sourced i (withNodes (some w)) → w.IsWritten t := by
  have hcte : YieldsUnquoted i (Parser.cte deeper) fun c => Sourced i (cteNodes [c]) → c.IsWritten t := by
    refine name_sourced.bind fun label hlabel => optionalNameList_has.bind fun columns hcolumns => .skip fun _ => ?_
    refine (YieldsOn.parenthesized hdeep.query).bind fun q hq => .pure fun hsourced => ?_
    exact ⟨hq (all_append.mp hsourced).1, hs.keeps (List.forall_mem_cons.mpr ⟨hlabel, hcolumns⟩)⟩
  have hlist : YieldsUnquoted i (Parser.ctes deeper) fun w =>
      w.tables ≠ [] ∧ ∀ c ∈ w.tables, Sourced i (cteNodes [c]) → c.IsWritten t :=
    .skip fun recursive => (YieldsOn.commaSeparated_cons hcte).bind fun tables htables => .pure htables
  refine (hlist.and ctes_plain.given).mono fun w hw hsourced => ?_
  obtain ⟨⟨hne, htables⟩, hplain⟩ := hw
  obtain ⟨recursive, tables⟩ := w
  exact ⟨hne, fun table htable => htables table htable (all_cteNodes.mp hsourced table htable), hplain⟩

theorem queryWith_restored (hs : i.Suits t) (hdeep : deeper.Restoring i t) :
    YieldsUnquoted i (Parser.queryWith deeper) fun q => Sourced i q.nodes → q.Restored t := by
  refine (YieldsOn.optional_part (ctes_restored hs hdeep)).bind fun ctes hctes => ?_
  refine (body_restored hs hdeep).bind fun first hfirst => ?_
  obtain ⟨body, top⟩ := first
  obtain ⟨rfl, hbody⟩ := hfirst
  refine (orderBy_restored hdeep).bind fun order horder => ?_
  refine (limit_restored hdeep _).bind fun limit hlimit => .pure fun hsourced => ?_
  simp only [Query.nodes, all_cons, all_append] at hsourced
  obtain ⟨-, ⟨⟨hkctes, hkbody⟩, hkorder⟩, hklimit⟩ := hsourced
  refine Query.restored hs.stable ?_ (hbody hkbody) (keys_of_sourced horder hkorder) (hlimit hklimit)
  rintro w ⟨⟩
  exact hctes w rfl hkctes

/-- The productions of every level read what is read where it is written. -/
theorem nested_restoring (hs : i.Suits t) (n : Nat) : (Parser.nested n).Restoring i t := by
  have htop : i.dialect.reading.top = false := by
    rw [hs.dialect]
    simp [hs.stable.limits]
  have hstarts (n : Nat) : (∀ p k, YieldsAt (N := Unquoted) i k ((Parser.nested n).expr p) (·.LedBy (i.token k))) ∧
      (Parser.nested n).Opened i ∧ (Parser.nested n).Traced i :=
    ⟨fun p k => nested_led hs n p, nested_opened hs.finish htop n, nested_traced i n⟩
  induction n with
  | zero =>
    obtain ⟨hled, hopened, htraced⟩ := hstarts 0
    exact ⟨fun _ => .skip fun s => .unexpectedAt s _, hled, .skip fun s => .unexpectedAt s _, hopened, htraced⟩
  | succ n ih =>
    obtain ⟨hled, hopened, htraced⟩ := hstarts (n + 1)
    exact ⟨fun p => .level (subexpr_restored hs ih p), hled, .level (queryWith_restored hs ih), hopened, htraced⟩

end Queries

end SqlDialects
