import SqlDialects.Proofs.CallNames
import SqlDialects.Proofs.Independence
import SqlDialects.Proofs.Productions
import SqlDialects.Proofs.Vocabulary

/-!
# Where calls of functions come from

* `Call.IsCommon` : the arguments that the grammar of calls can make;
* `Dialect.Means` : a name whose call is the given one; `call_means` : so are all calls that are read;
* `CalledIn` : a call whose name stands at the head of tokens, as one callable word or with dots;
* `expr_calledIn` : an expression that is a call is read from such tokens;
* `CalledIn.sayable` : a function called without quotes can be written.

What is read from tokens is found out by comparison with what the grammar reads from them: a parser has
one result.
-/

namespace SqlDialects

open SqlDialects.Parser

/-! ## Calls -/

/-- The arguments of a call are none, a star, or expressions. -/
def Call.IsCommon (f : Call) : Prop :=
  f.args = [] ∧ f.distinct = false ∨ f.args = [.star] ∨ ∃ es, es ≠ [] ∧ f.args = es.map .expr

/-- The call `f` is what a call of `name` in the common form means. -/
structure Dialect.Means (d : Dialect) (name : String) (f : Call) : Prop where
  plain : d.isPlainCall name = true
  meaning : ∃ swapped, d.meaning? name = some (f.name, swapped)
  args : f.IsCommon

theorem swapFirstIf_map {α β : Type} (g : α → β) (swapped : Bool) (xs : List α) :
    swapFirstIf swapped (xs.map g) = (swapFirstIf swapped xs).map g := by
  cases swapped with
  | false => rfl
  | true =>
    match xs with
    | [] => rfl
    | [a] => rfl
    | a :: b :: rest => rfl

theorem swapFirstIf_ne_nil {α : Type} {swapped : Bool} {xs : List α} (h : xs ≠ []) :
    swapFirstIf swapped xs ≠ [] := by
  cases swapped with
  | false => exact h
  | true =>
    match xs with
    | [a] => simp [swapFirstIf, swapFirst]
    | a :: b :: rest => simp [swapFirstIf, swapFirst]

section Calls

variable {i : Input} {deeper : Deeper} {operand : Parser Expr}

theorem callArgs_common (upper : String) :
    YieldsOn i (callArgs deeper upper) fun args => ∃ es, es ≠ [] ∧ args = es.map Arg.expr := by
  have hargs (first : Expr) :
      YieldsOn i (do return .expr first :: (← afterCommas (deeper.expr 0)).map Arg.expr)
        fun args => ∃ es, es ≠ [] ∧ args = es.map Arg.expr :=
    .skip fun rest => .pure ⟨first :: rest, by simp, rfl⟩
  unfold callArgs
  dsimp only
  split
  · refine .skip fun needle => .test (.skip fun haystack => .pure ?_) (hargs needle)
    exact ⟨[haystack, needle], by simp, rfl⟩
  · refine .skip fun first => .test ?_ (hargs first)
    refine .skip fun start => .skip fun length => .pure ⟨first :: start :: length.toList, by simp, ?_⟩
    cases length <;> rfl

theorem callBody_common (upper : String) : YieldsOn i (callBody deeper upper) fun r =>
    ∀ name swapped window, Call.IsCommon ⟨name, swapFirstIf swapped r.2, r.1, window⟩ := by
  refine .test (.pure ?_) (.skip fun distinct => .test ?_ ?_)
  · intro name swapped window
    exact .inl ⟨by cases swapped <;> rfl, rfl⟩
  · refine (YieldsOn.pure (P := (· = [Arg.star])) rfl).bind fun args hargs => .skip fun _ => .pure ?_
    subst hargs
    intro name swapped window
    exact .inr (.inl (by cases swapped <;> rfl))
  · refine (callArgs_common upper).bind fun args hargs => .skip fun _ => .pure ?_
    obtain ⟨es, hne, rfl⟩ := hargs
    intro name swapped window
    exact .inr (.inr ⟨swapFirstIf swapped es, swapFirstIf_ne_nil hne, swapFirstIf_map _ _ _⟩)

theorem call_means (name : String) (position : Position) :
    YieldsOn i (call deeper operand name position) fun e =>
      ∀ f, e = .call f → i.dialect.Means name f := by
  refine .dialect ?_
  dsimp only
  split
  · exact .parenthesized (.skip fun _ => .skip fun _ => .skip fun _ => .pure (by simp))
  split
  · exact .parenthesized (.skip fun _ => .skip fun _ => .skip fun _ => .pure (by simp))
  split
  · exact .parenthesized (.skip fun _ => .skip fun _ => .skip fun _ => .skip fun _ => .skip fun _ =>
      .pure (by simp))
  split
  · exact .skip fun _ => .skip fun _ => .pure (by simp)
  next hextract hdatePart hif found hnow =>
  refine .skip fun _ => (callBody_common _).bind fun r hargs => ?_
  rw [canonicalCall_eq]
  refine YieldsOn.bind (P := fun x => ∃ swapped, i.dialect.meaning? name = some (x.1, swapped) ∧
    x.2 = swapFirstIf swapped r.2) (.dialect ?_) fun x hx => .skip fun window => .pure ?_
  · split
    · next canonical swapped hmeaning => exact .pure ⟨swapped, hmeaning, rfl⟩
    · exact .fail _
  rintro _ ⟨⟩
  obtain ⟨swapped, hmeaning, hswapped⟩ := hx
  refine ⟨?_, ⟨swapped, hmeaning⟩, ?_⟩
  · simp only [Dialect.isPlainCall, Bool.and_eq_true, Bool.not_eq_true', Option.isNone_iff_eq_none]
    refine ⟨⟨⟨by simpa using hextract, by simpa using hdatePart⟩, by simpa using hif⟩, ?_⟩
    rw [Option.eq_none_iff_forall_ne_some]
    exact fun entry => hnow entry.1 entry.2
  · rw [hswapped]
    exact hargs x.1 swapped window

/-! ## Expressions that are no calls -/

theorem param_ne_call : YieldsOn i param fun e => ∀ f, e ≠ .call f := by
  refine .skip fun t => .skip fun rules => ?_
  extract_lets body found
  have hfound (o : Option Param) : YieldsOn i (found o) fun e => ∀ f, e ≠ .call f := by
    cases o with
    | none => exact .skip fun _ => .unexpected
    | some p => exact .skip fun _ => .pure (by simp)
  split
  · split <;> exact .skip hfound
  · split <;> exact .skip hfound

theorem caseExpr_ne_call : YieldsOn i (caseExpr deeper) fun e => ∀ f, e ≠ .call f := by
  refine .skip fun _ => .skip fun simple => ?_
  extract_lets rest
  have hrest (o : Option Expr) : YieldsOn i (rest o) fun e => ∀ f, e ≠ .call f := by
    refine .skip fun branches => ?_
    extract_lets close
    have hclose (u : Unit) : YieldsOn i (close u) fun e => ∀ f, e ≠ .call f :=
      .skip fun last => .skip fun _ => .pure (by simp)
    split
    · exact .skip hclose
    · exact hclose ()
  split
  · exact .skip hrest
  · exact .skip hrest

theorem castExpr_ne_call (safe : Bool) :
    YieldsOn i (castExpr deeper safe) fun e => ∀ f, e ≠ .call f :=
  .skip fun _ => .parenthesized (.skip fun _ => .skip fun _ => .skip fun _ => .pure (by simp))

theorem existsExpr_ne_call (negated : Bool) :
    YieldsOn i (existsExpr deeper negated) fun e => ∀ f, e ≠ .call f :=
  .skip fun _ => .pure (by simp)

theorem intervalExpr_ne_call : YieldsOn i (intervalExpr operand) fun e => ∀ f, e ≠ .call f := by
  refine .skip fun _ => .dialect ?_
  split
  · exact .skip fun _ => .skip fun _ => .pure (by simp)
  · refine .skip fun t => ?_
    extract_lets close
    have hclose (u : Unit) : YieldsOn i (close u) fun e => ∀ f, e ≠ .call f :=
      .skip fun _ => .skip fun unit => .pure (by simp)
    split
    · exact hclose ()
    · exact .skip fun _ => .skip hclose

theorem wordForm_ne_call {d : Dialect} {word : String} {called : Bool} {form : Parser Expr}
    (h : wordForm? deeper operand d word called = some form) :
    YieldsOn i form fun e => ∀ f, e ≠ .call f := by
  cases wordForm_cases h with
  | null => exact .skip fun _ => .pure (by simp)
  | truth _ => exact .skip fun _ => .pure (by simp)
  | branches => exact caseExpr_ne_call
  | cast => exact castExpr_ne_call false
  | existence _ => exact .skip fun _ => existsExpr_ne_call false
  | interval _ => exact intervalExpr_ne_call
  | safeCast _ => exact castExpr_ne_call true
  | now _ => exact .skip fun _ => .pure (by simp)

theorem joined_ne_call (left : Expr) (c : Connective) (p : Precedence) :
    YieldsOn i (joined deeper left c p) fun e => ∀ f, e ≠ .call f := by
  cases c with
  | binary op => exact .skip fun _ => .skip fun _ => .pure (by simp)
  | doubleColon => exact .skip fun _ => .skip fun _ => .pure (by simp)
  | is => exact .skip fun _ => .skip fun _ => .skip fun _ => .pure (by simp)
  | predicate =>
    have hlike (negated anyCase : Bool) : YieldsOn i (do
        let pattern ← deeper.expr .comparison
        let escape ← Parser.optional (eatWord "ESCAPE") (operandFrom deeper)
        return Expr.like left pattern negated anyCase escape) fun e => ∀ f, e ≠ .call f :=
      .skip fun _ => .skip fun _ => .pure (by simp)
    refine .skip fun negated => .test ?_ (.test ?_ (.test (hlike negated false)
      (.skip fun _ => hlike negated true)))
    · exact .skip fun _ => .skip fun _ => .skip fun _ => .pure (by simp)
    · refine .parenthesized (.test (.skip fun _ => ?_) (.skip fun _ => ?_))
      · exact .pure (by simp)
      · exact .pure (by simp)

/-- What is joined to an operand is no call. -/
theorem iterate_eq_call (least : Precedence) (left : Expr) :
    YieldsOn i (iterate (moreOperands deeper least) left) fun e => ∀ f, e = .call f → left = .call f := by
  refine .iterate (fun _ h => h) fun e _ => .rules (.skip fun t => .skip fun next => ?_)
  split
  · split
    · exact .pure (by simp)
    · refine (joined_ne_call e _ _).bind fun e' he' => .pure ?_
      rintro _ ⟨⟩ f hf
      exact absurd hf (he' f)
  · exact .pure (by simp)

end Calls

/-! ## Names before parentheses -/

/-- Tokens without a parenthesis among which the names `ns` stand, if there are any tokens. -/
structure Named (us : List Shape) (ns : List Name) : Prop where
  inside : ∀ s ∈ us, s.isSymbol "(" = false
  names : ∀ n ∈ ns, n.shape ∈ us
  nil : ns = [] → us = []

theorem Named.empty : Named [] [] := ⟨by simp, by simp, fun _ => rfl⟩

theorem Named.cons {us : List Shape} {n : Name} {ns : List Name} (h : Named us ns) {s : Shape}
    (hs : s.isSymbol "." = true) : Named (s :: n.shape :: us) (n :: ns) := by
  have hopen : s.isSymbol "(" = false := by
    unfold Shape.isSymbol Token.isSymbol at hs ⊢
    split at hs <;> simp_all
  refine ⟨?_, ?_, by simp⟩
  · simpa [hopen, Name.isSymbol_shape] using h.inside
  · simpa using fun m hm => .inr (.inr (h.names m hm))

section Tokens

variable {d : Dialect} {i : Input} {c c' : Cursor} {ts : List Shape} {deeper : Deeper}
  {operand : Parser Expr} {f : Call}

theorem reads_unique {α : Type} {p : Parser α} {us : List Shape} {a b : α} (h : Reads d p ts a us)
    (hat : At d ts i c) (hrun : p i c = (.ok b, c')) : b = a ∧ At d us i c' := by
  obtain ⟨c'', hrun', hat'⟩ := reads_iff.mp h i c hat
  obtain ⟨heq, rfl⟩ := Prod.mk.inj (hrun.symm.trans hrun')
  exact ⟨Except.ok.inj heq, hat'⟩

theorem refuses_name (h : (headShape ts).isName = false) : Refuses d name ts := by
  refine .of_reads (a := ⟨"", false⟩) fun us => .peek fun t ht => ?_
  rw [← ht, Token.isName_shape] at h
  simp only [h]
  exact Refuses.noted.reads

theorem eq_shape_of_isName {s : Shape} (h : s.isName = true) : ∃ n : Name, s = n.shape := by
  obtain ⟨kind, text⟩ := s
  unfold Shape.isName Token.isName at h
  split at h
  case h_1 hkind => exact ⟨⟨text, false⟩, Prod.ext hkind rfl⟩
  case h_2 hkind => exact ⟨⟨text, true⟩, Prod.ext hkind rfl⟩
  case h_3 => cases h

theorem name_tokens {n : Name} (hat : At d ts i c) (hrun : name i c = (.ok n, c')) :
    ∃ us, ts = n.shape :: us ∧ At d us i c' := by
  cases hname : (headShape ts).isName with
  | false =>
    obtain ⟨fault, e, hfail⟩ := refuses_name hname i c hat
    cases hrun.symm.trans hfail
  | true =>
    cases ts with
    | nil => cases hname
    | cons s us =>
      obtain ⟨m, rfl⟩ := eq_shape_of_isName hname
      obtain ⟨rfl, hat'⟩ := reads_unique (ReadsOr.name m) hat hrun
      exact ⟨us, rfl, hat'⟩

theorem chainPart_tokens {o : Option Name} (hat : At d ts i c) (hrun : chainPart i c = (.ok o, c')) :
    (o = none ∧ At d ts i c') ∨
      ∃ n s us, o = some n ∧ ts = s :: n.shape :: us ∧ s.isSymbol "." = true ∧ At d us i c' := by
  obtain ⟨dot, e, hdot, hnext⟩ := of_bind_ok hrun
  obtain ⟨rfl, hat'⟩ := reads_unique (ReadsOr.peekSymbol rfl) hat hdot
  obtain ⟨next, e', hpeek, hrest⟩ := of_bind_ok hnext
  cases hpeek
  by_cases hpart : ((headShape ts).isSymbol "." && !(i.token (e.index + 1)).isSymbol "*") = true
  · rw [if_pos hpart] at hrest
    obtain ⟨t, e₁, hadvance, hbehind⟩ := of_bind_ok hrest
    obtain ⟨n, e₃, hname, hlast⟩ := of_bind_ok hbehind
    cases hlast
    obtain ⟨hsymbol, -⟩ := Bool.and_eq_true_iff.mp hpart
    cases ts with
    | nil => cases hsymbol
    | cons s us =>
      obtain ⟨e₂, t', hadvance', -, hat₁⟩ := ReadsOr.advance_at hat'
      obtain ⟨-, rfl⟩ := Prod.mk.inj (hadvance.symm.trans hadvance')
      obtain ⟨vs, rfl, hat₂⟩ := name_tokens hat₁ hname
      exact .inr ⟨n, s, vs, rfl, rfl, hsymbol, hat₂⟩
  · rw [if_neg hpart] at hrest
    cases hrest
    exact .inl ⟨rfl, hat'⟩

theorem chainParts_tokens (k : Nat) {ns : List Name} (hat : At d ts i c)
    (hrun : manyUpTo chainPart k i c = (.ok ns, c')) :
    ∃ us vs, ts = us ++ vs ∧ Named us ns ∧ At d vs i c' := by
  induction k generalizing c ts ns with
  | zero =>
    cases hrun
    exact ⟨[], ts, rfl, .empty, hat⟩
  | succ k ih =>
    obtain ⟨o, e, hpart, hrun⟩ := of_bind_ok hrun
    rcases chainPart_tokens hat hpart with ⟨rfl, hat'⟩ | ⟨n, s, us, rfl, rfl, hdot, hat'⟩
    · cases hrun
      exact ⟨[], ts, rfl, .empty, hat'⟩
    · obtain ⟨ms, e', hrest, hrun⟩ := of_bind_ok hrun
      cases hrun
      obtain ⟨vs, ws, rfl, hnamed, hat''⟩ := ih hat' hrest
      exact ⟨s :: n.shape :: vs, ws, rfl, hnamed.cons hdot, hat''⟩

/-- A call at the end of a chain has the names of the chain. -/
theorem chain_tokens (hat : At d ts i c) (hrun : chain deeper operand i c = (.ok (.call f), c')) :
    ∃ n ns us vs, ts = n.shape :: us ++ vs ∧ Named us ns ∧ (headShape vs).isSymbol "(" = true ∧
      d.Means (QualifiedName.dotted (n :: ns)) f := by
  obtain ⟨t, e, hpeek, hrun⟩ := of_bind_ok hrun
  cases hpeek
  obtain ⟨n, e₁, hname, hrun⟩ := of_bind_ok hrun
  obtain ⟨rest, rfl, hat₁⟩ := name_tokens hat hname
  obtain ⟨ns, e₂, hparts, hrun⟩ := of_bind_ok hrun
  obtain ⟨us, vs, rfl, hnamed, hat₂⟩ := chainParts_tokens (i.tokens.size - e₁.index + 1) hat₁ hparts
  obtain ⟨called, e₃, hpeek, hrun⟩ := of_bind_ok hrun
  obtain ⟨rfl, hat₃⟩ := reads_unique (ReadsOr.peekSymbol rfl) hat₂ hpeek
  split at hrun
  · next hcalled =>
    refine ⟨n, ns, us, vs, rfl, hnamed, (Bool.and_eq_true_iff.mp hcalled).1, ?_⟩
    obtain ⟨_, _, -, hrun⟩ := of_bind_ok hrun
    have hmeans := (call_means _ _).apply hrun f rfl
    rwa [hat.dialect] at hmeans
  · obtain ⟨heq, -⟩ := Prod.mk.inj hrun
    split at heq <;> cases heq

/-- The call `f` is read where the tokens `ts` start with a callable word or with a dotted name before a
parenthesis. -/
inductive CalledIn (d : Dialect) (ts : List Shape) (f : Call) : Prop where
  | bare {w : String} (hw : d.isCallable w = true) (hmeans : d.Means w f) : CalledIn d ts f
  | dotted {n : Name} {ns : List Name} {us vs : List Shape} (hts : ts = n.shape :: us ++ vs)
    (hnamed : Named us ns) (hne : ns ≠ []) (hmeans : d.Means (QualifiedName.dotted (n :: ns)) f) :
    CalledIn d ts f

/-- A word that introduces nothing by itself before a parenthesis is callable. -/
theorem isCallable_of_wordForm (hd : d.Readable) {w : String} (hw : d.isBare w = true)
    (hkind : d.lexical.isReserved w = false ∨ Text.upper w ∈ keywordFunctions)
    (hform : wordForm? deeper operand d (Text.upper w) true = none) : d.isCallable w = true := by
  have hreserved : Text.upper w ∉ reservedWords := fun hmem => by
    rcases hkind with hfree | hkey
    · exact upper_ne_of_free hfree (hd.reserved _ hmem) rfl
    · exact (by decide : ∀ x ∈ reservedWords, x ∉ keywordFunctions) _ hmem hkey
  have hother : Text.upper w ∉ d.formWords := by
    unfold wordForm? at hform
    unfold Dialect.formWords
    grind
  have hcallable : (!d.lexical.isReserved w || keywordFunctions.contains (Text.upper w)) = true := by
    simpa using hkind
  simpa [Dialect.isCallable, hw, hother] using hcallable

theorem temporalLiteral_ne_call (kind : TemporalKind) :
    YieldsOn i (temporalLiteral kind) fun e => ∀ f, e ≠ .call f := by
  refine .skip fun _ => .skip fun value => ?_
  split
  · exact .pure (by simp)
  · exact .skip fun _ => .pure (by simp)

/-- A chain that is no word before a parenthesis has two names or more. -/
theorem chain_calledIn (hat : At d ts i c)
    (hopen : (headShape ts).1 = .word → (nthShape ts 1).isSymbol "(" = false)
    (hquote : (headShape ts).1 ≠ .quotedName)
    (hrun : chain deeper operand i c = (.ok (.call f), c')) : CalledIn d ts f := by
  obtain ⟨n, ns, us, vs, rfl, hnamed, hcalled, hmeans⟩ := chain_tokens hat hrun
  refine .dotted rfl hnamed ?_ hmeans
  rintro rfl
  obtain rfl := hnamed.nil rfl
  have hword : n.shape.1 = .word := by
    unfold Name.shape at hquote ⊢
    split at hquote
    · exact absurd rfl hquote
    · next hno => rw [if_neg hno]
  have hno : (nthShape (n.shape :: vs) 1).isSymbol "(" = false := hopen hword
  rw [nthShape_succ] at hno
  exact absurd (hno.symm.trans hcalled) (by decide)

theorem wordExpr_calledIn (hd : d.Readable) (hat : At d ts i c) {t : Token} (ht : t.shape = headShape ts)
    (hkind : t.kind = .keyword ∨ t.kind = .word) (hlexed : t.shape.IsLexed d)
    (hrun : wordExpr deeper operand t i c = (.ok (.call f), c')) : CalledIn d ts f := by
  obtain ⟨_, _, hdialect, hword⟩ := of_bind_ok hrun
  cases hdialect
  obtain ⟨_, _, hpeek, hbehind⟩ := of_bind_ok hword
  cases hpeek
  have hnext : (i.token (c.index + 1)).shape = nthShape ts 1 := hat.token 1
  have hbare : d.isBare t.text = true := by
    rw [Token.shape] at hlexed
    rcases hkind with hkind | hkind <;> · rw [hkind] at hlexed; exact hlexed.1
  beta_reduce at hbehind
  rw [hat.dialect] at hbehind
  cases hform : wordForm? deeper operand d (Text.upper t.text)
      ((i.token (c.index + 1)).isSymbol "(") with
  | some form =>
    simp only [hform] at hbehind
    exact absurd rfl ((wordForm_ne_call hform).apply hbehind f)
  | none =>
    simp only [hform] at hbehind
    generalize (if (d.reading.typedLiterals && t.kind == Token.Kind.word &&
      (i.token (c.index + 1)).kind == Token.Kind.string) = true then
        TemporalKind.ofKeyword? (Text.upper t.text) else none) = temporal at hbehind
    cases temporal with
    | some kind => exact absurd rfl ((temporalLiteral_ne_call kind).apply hbehind f)
    | none =>
      simp only at hbehind
      split at hbehind
      · next hcalled =>
        simp only [Bool.and_eq_true, Bool.or_eq_true, beq_iff_eq, List.contains_eq_mem,
          decide_eq_true_eq] at hcalled
        obtain ⟨_, _, -, hnamed⟩ := of_bind_ok hbehind
        obtain ⟨_, _, -, hcall⟩ := of_bind_ok hnamed
        have hmeans := (call_means _ _).apply hcall f rfl
        rw [hat.dialect] at hmeans
        rw [hcalled.1] at hform
        refine .bare (isCallable_of_wordForm hd hbare (hcalled.2.imp_left fun hfree => ?_) hform) hmeans
        exact (Token.word_of_isLexed hlexed hfree).2
      next hcalled =>
      split at hbehind
      · obtain ⟨_, _, -, hfail⟩ := of_bind_ok hbehind
        obtain ⟨_, _, hfail, -⟩ := of_bind_ok hfail
        cases hfail
      · next hkeyword =>
        have hfree : t.kind = .word := hkind.resolve_left (by simpa using hkeyword)
        have hhead : (headShape ts).1 = .word := by rw [← ht, Token.shape, hfree]
        refine chain_calledIn hat (fun _ => ?_) (by simp [hhead]) hbehind
        rw [← hnext, Token.isSymbol_shape]
        simpa [hfree] using hcalled

theorem primary_calledIn (hd : d.Readable) (hat : At d ts i c) (hlexed : (headShape ts).IsLexed d)
    (hquote : (headShape ts).1 ≠ .quotedName)
    (hrun : primary deeper operand i c = (.ok (.call f), c')) : CalledIn d ts f := by
  obtain ⟨_, _, hpeek, hbehind⟩ := of_bind_ok hrun
  cases hpeek
  have hhead : (i.token (c.index + 0)).shape = headShape ts := hat.token 0
  have hother {p : Parser Expr} (h : YieldsOn i p fun e => ∀ f, e ≠ .call f) (e : Cursor)
      (hrun : p i e = (.ok (.call f), c')) : CalledIn d ts f := absurd rfl (h.apply hrun f)
  beta_reduce at hbehind
  generalize i.token (c.index + 0) = t at hhead hbehind
  cases hkind : t.kind with
  | number =>
    simp only [hkind] at hbehind
    exact hother (.skip fun _ => .pure (by simp)) _ hbehind
  | string =>
    simp only [hkind] at hbehind
    exact hother (.skip fun _ => .pure (by simp)) _ hbehind
  | param =>
    simp only [hkind] at hbehind
    exact hother param_ne_call _ hbehind
  | keyword =>
    simp only [hkind] at hbehind
    exact wordExpr_calledIn hd hat hhead (.inl hkind) (hhead ▸ hlexed) hbehind
  | word =>
    simp only [hkind] at hbehind
    exact wordExpr_calledIn hd hat hhead (.inr hkind) (hhead ▸ hlexed) hbehind
  | quotedName => exact absurd (by rw [← hhead, Token.shape, hkind]) hquote
  | punctuation =>
    simp only [hkind] at hbehind
    split at hbehind
    · refine hother (.parenthesized (.test (.skip fun _ => ?_) (.skip fun _ => ?_))) _ hbehind
      · exact .pure (by simp)
      · exact .pure (by simp)
    · exact hother (.skip fun _ => .unexpected) _ hbehind
  | operator | comment | blank | unknown | finish =>
    simp only [hkind] at hbehind
    exact hother (.skip fun _ => .unexpected) _ hbehind

theorem operandWith_calledIn (hd : d.Readable) (hat : At d ts i c) (hlexed : (headShape ts).IsLexed d)
    (hquote : (headShape ts).1 ≠ .quotedName)
    (hrun : operandWith deeper operand i c = (.ok (.call f), c')) : CalledIn d ts f := by
  obtain ⟨negated, e, hnot, hrest⟩ := of_bind_ok hrun
  cases negated with
  | true =>
    have hother : YieldsOn i (do
        if ← eatWord "EXISTS" then
          return ← existsExpr deeper true
        return Expr.unary .not (← deeper.expr .not)) fun e => ∀ f, e ≠ .call f :=
      .test (existsExpr_ne_call true) (.skip fun _ => .pure (by simp))
    exact absurd rfl (hother.apply hrest f)
  | false =>
    have hat' : At d ts i e := by
      cases hword : (headShape ts).isWord "NOT" with
      | false => exact (reads_unique (ReadsOr.eatWord_no hword) hat hnot).2
      | true =>
        cases ts with
        | nil => cases hword
        | cons s us => cases (reads_unique (ReadsOr.eatWord hword) hat hnot).1
    obtain ⟨_, _, hpeek, hbehind⟩ := of_bind_ok hrest
    cases hpeek
    beta_reduce at hbehind
    cases hop : unaryOp? (i.token (e.index + 0)) with
    | some op =>
      simp only [hop] at hbehind
      have hother (p : Precedence) : YieldsOn i (do
          let _ ← advance
          return Expr.unary op (← deeper.expr p)) fun e => ∀ f, e ≠ .call f :=
        .skip fun _ => .skip fun _ => .pure (by simp)
      exact absurd rfl ((hother _).apply hbehind f)
    | none =>
      simp only [hop] at hbehind
      exact primary_calledIn hd hat' hlexed hquote hbehind

/-- An expression that is a call starts with the name of the function. -/
theorem expr_calledIn (hd : d.Readable) (hat : At d ts i c) (hlexed : (headShape ts).IsLexed d)
    (hquote : (headShape ts).1 ≠ .quotedName) (hrun : expr i c = (.ok (.call f), c')) :
    CalledIn d ts f := by
  rw [expr_eq] at hrun
  rcases level_cases hrun with ⟨-, hrefused⟩ | ⟨-, e, hinner, -⟩
  · cases hrefused
  · obtain ⟨left, e', hleft, hloop⟩ := of_bind_ok hinner
    obtain rfl := (iterate_eq_call _ left).apply hloop f rfl
    have hoperand : operandWith (nested 127) (operandUpTo (nested 127) (i.tokens.size - c.index)) i c.down =
      (.ok (.call f), e') := hleft
    have hat' : At d ts i c.down := ⟨hat.dialect, hat.finish, hat.rest⟩
    exact operandWith_calledIn hd hat' hlexed hquote hoperand

end Tokens

/-! ## Functions that can be written -/

/-- A function that is called by a name without quotes can be written. -/
theorem CalledIn.sayable {d : Dialect} (hd : d.Fluent) {ts : List Shape} {f : Call} (h : CalledIn d ts f)
    (hlexed : ∀ s ∈ ts, s.IsLexed d)
    (hbare : ∀ s ∈ ts.takeWhile (!·.isSymbol "("), s.1 ≠ .quotedName) :
    (∃ ss, d.Says f.name ss) ∧ f.IsCommon := by
  cases h with
  | bare hw hmeans =>
    obtain ⟨swapped, hmeaning⟩ := hmeans.meaning
    exact ⟨says_of_bare hd hw hmeans.plain hmeaning, hmeans.args⟩
  | @dotted n ns us vs hts hnamed hne hmeans =>
    subst hts
    obtain ⟨swapped, hmeaning⟩ := hmeans.meaning
    have hinside : ∀ s ∈ n.shape :: us, s.isSymbol "(" = false := by
      simpa [Name.isSymbol_shape] using hnamed.inside
    have hnames : ∀ m ∈ n :: ns, m.shape ∈ n.shape :: us := by
      simpa using fun m hm => Or.inr (hnamed.names m hm)
    have hwords (m : Name) (hm : m ∈ n :: ns) : m.quoted = false ∧ d.isBare m.text = true ∧
        d.lexical.isReserved m.text = false := by
      have hmem := hnames m hm
      have htake : m.shape ∈ (n.shape :: us ++ vs).takeWhile (!·.isSymbol "(") := by
        rw [List.takeWhile_append_of_pos fun s hs => by simp [hinside s hs]]
        exact List.mem_append_left _ hmem
      have hkind := hbare _ htake
      have hword := hlexed _ (List.mem_append_left _ hmem)
      cases hquoted : m.quoted with
      | true => simp [Name.shape, hquoted] at hkind
      | false =>
        rw [Name.shape, hquoted] at hword
        exact ⟨rfl, hword⟩
    obtain ⟨m, ns, rfl⟩ := List.exists_cons_of_ne_nil hne
    exact ⟨says_of_dotted hd (fun x hx => (hwords x hx).1) (fun x hx => (hwords x hx).2.1)
      (fun x hx => (hwords x hx).2.2) hmeaning, hmeans.args⟩

end SqlDialects
