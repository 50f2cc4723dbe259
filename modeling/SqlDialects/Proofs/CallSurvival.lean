import SqlDialects.Proofs.GarbledCalls
import SqlDialects.Render.Statement

/-!
# Calls survive a round trip

* `Call.isFlat` : the calls of names, numbers, strings and operators;
* `Call.Fares` : a text that is read back as a call, unless the call is garbled; `Call.text_fares` : so is
  the text of a call;
* `expr_call_known` : what is known of a call that is read from a text;
* `call_survives_iff` : a call of names, numbers, strings and operators that is read from a text, written and
  read again is the same function of the same arguments if and only if it is not garbled.
-/

namespace SqlDialects

open Render

/-- Whether the arguments of a call are made of names, numbers, strings and operators, or stars, and no
window follows them. -/
def Call.isFlat (f : Call) : Bool :=
  f.window.isNone && f.args.all fun
    | .expr e => e.isFlat
    | .star => true

/-- The call that an expression is. -/
def Expr.call? : Expr → Option Call
  | .call f => some f
  | _ => none

theorem Expr.eq_of_call? {e : Expr} {f : Call} (h : e.call? = some f) : e = .call f := by
  unfold Expr.call? at h
  split at h
  · rw [Option.some.inj h]
  · cases h

/-- The text is read back as a call, which is `f` up to parentheses if and only if `f` is not garbled, or
refused if it is. -/
def Call.Fares (t : Target) (f : Call) (text : String) : Prop :=
  ∃ ts, Spelled t.dialect text ts ∧
    ((∃ g, Form t.dialect .atom ts (.call g) ∧
        (f.isGarbled t = false ↔ g.respell (.plain id) = f.respell (.plain id))) ∨
      f.isGarbled t = true ∧ Refuses t.dialect Parser.expr ts)

section Texts

variable {t : Target} {ss : List Shape} {f : Call}

/-- A call of the common form under the name of its function. -/
theorem callText_rereads (hd : t.dialect.Fluent) (hsaid : t.dialect.Says f.name ss)
    (hcommon : f.IsCommon) (hwindow : f.window = none) (hargs : ∀ e, .expr e ∈ f.args → Faithful t e)
    (hcut : f.isCutShort t = false) :
    Renders true t (argTexts f.args) fun texts =>
      f.Rereads t.dialect (t.callText f.name f.distinct texts) := by
  rcases hcommon with ⟨hempty, hdistinct⟩ | hstar | ⟨es, hne, hes⟩
  · rw [hempty]
    refine .pure ?_
    rw [callText_eq, hdistinct]
    have henclosed := enclosed_empty (d := t.dialect) (Text.upper (t.dialect.saying f.name).1)
    rw [← hdistinct] at henclosed
    have hspelled (swapped : Bool) : Spelled t.dialect
        ((if false = true then "DISTINCT " else "") ++ String.intercalate ", " (swapFirstIf swapped []))
        [] := by
      cases swapped <;> exact Spelled.empty _
    refine hsaid.rereads hwindow (hspelled _) henclosed ?_
    · rw [hempty]
      cases (t.dialect.saying f.name).2 <;> rfl
  · rw [hstar]
    refine Renders.bind (P := (· = [])) (.pure rfl) ?_
    rintro _ rfl
    refine .pure ?_
    rw [callText_eq]
    refine hsaid.rereads hwindow (spelled_distinct hd.toLegible f.distinct ?_)
      (enclosed_star (Text.upper (t.dialect.saying f.name).1) f.distinct) ?_
    · cases (t.dialect.saying f.name).2 <;> exact spelled_star hd
    · rw [hstar]
      cases (t.dialect.saying f.name).2 <;> rfl
  · rw [hes, argTexts_map]
    refine (exprTexts_all fun e he => (hargs e (by simpa [hes] using he)).whole hd.toExpressive).mono
      fun texts htexts => ?_
    have hfirst : Text.upper (t.dialect.saying f.name).1 = "POSITION" →
        ∀ e ∈ (swapFirstIf (t.dialect.saying f.name).2 es).head?, .comparison < t.precedence e := by
      intro hposition e he
      simp only [Call.isCutShort, hposition, hes, swapFirstIf_map, beq_self_eq_true, Bool.true_and,
        List.head?_map, Option.mem_def.mp he, Option.map_some, Option.any_some,
        decide_eq_false_iff_not] at hcut
      exact not_le.mp hcut
    have hswapped := forall₂_swapFirstIf (htexts.imp fun _ _ h => h.1) (t.dialect.saying f.name).2
    obtain ⟨ts, es', hspelled, henclosed, hrespell⟩ :=
      args_enclosed hd _ f.distinct (swapFirstIf_ne_nil hne) hswapped hfirst
    rw [callText_eq]
    refine hsaid.rereads hwindow hspelled henclosed ?_
    rw [respellArgs_map, hrespell, ← respellArgs_map, ← swapFirstIf_map, hes, respellArgs_swapFirstIf]

/-- The text of a call in the common form. -/
theorem callText_fares (hd : t.dialect.Fluent) (hsaid : t.dialect.Says f.name ss)
    (hcommon : f.IsCommon) (hwindow : f.window = none) (hargs : ∀ e, .expr e ∈ f.args → Faithful t e)
    (hasks : t.asksPosition f.name f.args f.window = false) :
    Renders true t (argTexts f.args) fun texts => f.Fares t (t.callText f.name f.distinct texts) := by
  have hgarbled : f.isGarbled t = f.isCutShort t := by
    rw [Call.isGarbled, hasks, Bool.false_and, Bool.false_or]
  unfold Call.Fares
  rw [hgarbled]
  cases hcut : f.isCutShort t with
  | false =>
    refine (callText_rereads hd hsaid hcommon hwindow hargs hcut).mono fun texts htexts => ?_
    obtain ⟨ts, g, hspelled, hform, heq⟩ := htexts
    exact ⟨ts, hspelled, .inl ⟨g, hform, by simpa using heq⟩⟩
  | true =>
    refine (callText_refused hd hsaid hcommon hargs hcut).mono fun texts htexts => ?_
    obtain ⟨ts, hspelled, hrefuses⟩ := htexts
    exact ⟨ts, hspelled, .inr ⟨rfl, hrefuses⟩⟩

/-- The text of a search in the form with `IN`. -/
theorem positionText_fares (hd : t.dialect.Fluent) (hargs : ∀ e, .expr e ∈ f.args → Faithful t e)
    (hasks : t.asksPosition f.name f.args f.window = true) :
    Renders true t (positionText f.args) (f.Fares t) := by
  have hgarbled : f.isGarbled t = f.distinct := by
    rw [Call.isGarbled, isCutShort_of_asksPosition hd hasks, hasks, Bool.true_and, Bool.or_false]
  obtain ⟨name, args, distinct, window⟩ := f
  simp only [Target.asksPosition] at hasks
  split at hasks
  · next haystack needle hspelling =>
    obtain rfl : name = "STRPOS" := hd.position _ (Table.mem_of_get? hspelling) rfl
    refine (position_rereads hd fun e he => ?_).mono fun text htext => ?_
    · have hfaithful := hargs e (by simpa using he)
      exact ⟨hfaithful.rewrites, hfaithful.same⟩
    obtain ⟨ts, g, hspelled, hform, heq⟩ := htext
    refine ⟨ts, hspelled, .inl ⟨g, hform, ?_⟩⟩
    rw [hgarbled, heq]
    cases distinct with
    | false => simp
    | true => exact iff_of_false (by simp) fun h => nomatch congrArg Call.distinct h
  · cases hasks

/-- The text of a call is read back as the call if and only if it is not garbled. -/
theorem Call.text_fares (hd : t.dialect.Fluent) (hsaid : t.dialect.Says f.name ss)
    (hcommon : f.IsCommon) (hwindow : f.window = none) (hargs : ∀ e, .expr e ∈ f.args → Faithful t e) :
    Renders true t f.text (f.Fares t) := by
  have hplain := callText_fares hd hsaid hcommon hwindow hargs
  have hposition := positionText_fares hd hargs
  obtain ⟨name, args, distinct, window⟩ := f
  obtain rfl : window = none := hwindow
  rw [Call.text]
  refine .target ?_
  cases hasks : t.asksPosition name args none with
  | false =>
    refine (hplain hasks).bind fun texts htexts => ?_
    rw [overText]
    refine Renders.bind (P := (· = "")) (.pure rfl) ?_
    rintro _ rfl
    exact .pure (by simpa using htexts)
  | true => exact hposition hasks

end Texts

/-- A call that is read from a text: its function can be written if its name has no quotes, and its arguments
come from the text. -/
theorem expr_call_known {d : Dialect} (hd : d.Fluent) {sql : String} {tokens : List Token} {finish : Token}
    (htokens : tokenize d.lexical sql = .ok (tokens, finish))
    (hbare : ∀ t ∈ tokens.takeWhile (!·.isSymbol "("), t.kind ≠ .quotedName) {f : Call} {c : Cursor}
    (hrun : Parser.expr (.ofTokens d tokens finish) {} = (.ok (.call f), c)) :
    ∃ ss, d.Says f.name ss ∧ f.IsCommon ∧
      ∀ e, .expr e ∈ f.args → Sourced (.ofTokens d tokens finish) e.nodes := by
  have hat : At d (tokens.map Token.shape) (.ofTokens d tokens finish) {} :=
    ⟨rfl, tokenize_finish htokens, by simp [Input.ofTokens]⟩
  have hlexed : ∀ s ∈ tokens.map Token.shape, s.IsLexed d := by
    simpa using tokenize_lexed htokens
  have hshapes : ∀ s ∈ (tokens.map Token.shape).takeWhile (!·.isSymbol "("), s.1 ≠ .quotedName := by
    rw [List.takeWhile_map]
    intro s hs
    obtain ⟨t, ht, rfl⟩ := List.mem_map.mp hs
    exact hbare t ht
  have hhead : (headShape (tokens.map Token.shape)).IsLexed d ∧
      (headShape (tokens.map Token.shape)).1 ≠ .quotedName := by
    cases tokens with
    | nil => exact ⟨trivial, by simp [Shape.finish]⟩
    | cons t tokens =>
      refine ⟨hlexed _ (by simp), fun hquoted => ?_⟩
      have hopen : t.isSymbol "(" = false := by
        simp [Token.isSymbol, show t.kind = .quotedName from hquoted]
      exact hbare t (by simp [hopen]) hquoted
  have hcalled := expr_calledIn hd.toReadable hat hhead.1 hhead.2 hrun
  obtain ⟨⟨ss, hsaid⟩, hcommon⟩ := hcalled.sayable hd hlexed hshapes
  refine ⟨ss, hsaid, hcommon, fun e he => ?_⟩
  have hsourced := ((nested_traced (.ofTokens d tokens finish) Parser.maxDepth).expr 0).apply hrun
  obtain ⟨name, args, distinct, window⟩ := f
  simp only [Expr.nodes, Call.nodes, all_cons, all_append, Node.IsSourced, true_and] at hsourced
  simpa [argNodes] using all_argNodes.mp hsourced.1 _ he

/-- A call read from a text, of names, numbers, strings and operators, is written and read back as the same
function of the same arguments, with its `DISTINCT`, if and only if it is not garbled, unless the text nests
too deep. -/
theorem call_survives_iff {d : Dialect} (hd : d ∈ Dialect.builtins) {layout : Layout}
    (hidentify : layout.identify = false) {sql : String} {tokens : List Token} {finish : Token}
    (htokens : tokenize d.lexical sql = .ok (tokens, finish))
    (hbare : ∀ t ∈ tokens.takeWhile (!·.isSymbol "("), t.kind ≠ .quotedName) {f : Call} {c : Cursor}
    (hrun : Parser.expr (.ofTokens d tokens finish) {} = (.ok (.call f), c)) (hflat : f.isFlat = true) :
    ∃ text tokens' finish', renderExpr d layout (.call f) = .ok text ∧
      tokenize d.lexical text = .ok (tokens', finish') ∧
      (((∃ g c', Parser.expr (.ofTokens d tokens' finish') {} = (.ok (.call g), c') ∧
          tokens'.length ≤ c'.index ∧ g.respell (.plain id) = f.respell (.plain id)) ↔
            f.isGarbled { dialect := d, layout } = false) ∨
        ∃ fault c', Parser.expr (.ofTokens d tokens' finish') {} = (.error fault, c') ∧
          fault.TooDeep) := by
  have hfluent := fluent_of_mem_builtins hd
  obtain ⟨ss, hsaid, hcommon, hsourced⟩ := expr_call_known hfluent htokens hbare hrun
  obtain ⟨hwindow, hargs⟩ := Bool.and_eq_true_iff.mp hflat
  have hfaithful (e : Expr) (he : .expr e ∈ f.args) : Faithful { dialect := d, layout } e :=
    flat_faithful hfluent hidentify (isLexed_ofTokens htokens) rfl
      (List.all_eq_true.mp hargs (.expr e) he) (hsourced e he)
  have hfares := Call.text_fares (t := { dialect := d, layout }) hfluent hsaid hcommon
    (Option.isNone_iff_eq_none.mp hwindow) hfaithful
  have hrenders : Renders true { dialect := d, layout } (Expr.call f).text
      (f.Fares { dialect := d, layout }) := by
    simp only [Expr.text, Expr.texts, single]
    refine Renders.bind (P := fun texts => ∃ text, texts = [text] ∧
      f.Fares { dialect := d, layout } text) (hfares.bind fun text h => .pure ⟨text, rfl, h⟩) ?_
    rintro _ ⟨text, rfl, h⟩
    exact .target (.pure h)
  obtain ⟨text, m, htext, ts, hspelled, hback⟩ :=
    (hrenders 0).resolve_right fun hfails => absurd hfails.1 (by decide)
  obtain ⟨tokens', finish', htokens', hat⟩ := hspelled.tokenize
  refine ⟨text, tokens', finish', by rw [renderExpr, Render.run, htext]; rfl, htokens', ?_⟩
  rcases hback with ⟨g, hform, hiff⟩ | ⟨hgarbled, hrefuses⟩
  · have hparses := hform.expr_zero (Ends.nil d 0) Parser.maxDepth
    rw [List.append_nil] at hparses
    rcases hparses _ _ hat with ⟨c', hok, hend⟩ | hdeep
    · refine .inl ⟨?_, fun hclean => ⟨g, c', hok, ?_, hiff.mp hclean⟩⟩
      · rintro ⟨g', c'', hok', -, heq⟩
        cases hok.symm.trans hok'
        exact hiff.mpr heq
      · have hlength := hend.length
        simpa [Input.ofTokens, Nat.sub_eq_zero_iff_le] using hlength
    · exact .inr hdeep
  · obtain ⟨fault, c', hfails⟩ := hrefuses _ _ hat
    refine .inl ⟨?_, fun hclean => absurd (hclean.symm.trans hgarbled) (by decide)⟩
    rintro ⟨g, c'', hok, -⟩
    cases hfails.symm.trans hok

/-- A search that is called with the needle first. -/
theorem call_survives_iff_located : ∃ tokens finish f c,
    tokenize Dialect.mysql.lexical "Locate(DISTINCT b + 1, t.a)" = .ok (tokens, finish) ∧
      Parser.expr (.ofTokens .mysql tokens finish) {} = (.ok (.call f), c) ∧
      f.name = "STRPOS" ∧ f.distinct = true ∧ f.isGarbled { dialect := .mysql } = false ∧
      ∃ text tokens' finish', renderExpr .mysql {} (.call f) = .ok text ∧
        tokenize Dialect.mysql.lexical text = .ok (tokens', finish') ∧
        (((∃ g c', Parser.expr (.ofTokens .mysql tokens' finish') {} = (.ok (.call g), c') ∧
            tokens'.length ≤ c'.index ∧ g.respell (.plain id) = f.respell (.plain id)) ↔
              f.isGarbled { dialect := .mysql } = false) ∨
          ∃ fault c', Parser.expr (.ofTokens .mysql tokens' finish') {} = (.error fault, c') ∧
            fault.TooDeep) := by
  obtain ⟨⟨tokens, finish⟩, htokens, hfacts⟩ := exists_ok (show
    (tokenize Dialect.mysql.lexical "Locate(DISTINCT b + 1, t.a)").toOption.map (fun r =>
      ((r.1.takeWhile (!·.isSymbol "(")).all (·.kind != .quotedName),
        ((Parser.expr (.ofTokens .mysql r.1 r.2) {}).1.toOption.bind Expr.call?).map fun f =>
          (f.name, f.distinct, f.isFlat, f.isGarbled { dialect := .mysql }))) =
      some (true, some ("STRPOS", true, true, false)) by decide +kernel)
  obtain ⟨hbare, hcall⟩ := Prod.mk.inj hfacts
  obtain ⟨f, hf, hfields⟩ := Option.map_eq_some_iff.mp hcall
  obtain ⟨e, he, hf⟩ := Option.bind_eq_some_iff.mp hf
  obtain rfl := Expr.eq_of_call? hf
  cases hrun : Parser.expr (.ofTokens .mysql tokens finish) {} with
  | mk r c =>
    obtain rfl : r = .ok (.call f) := by
      rw [hrun] at he
      cases r with
      | ok x => exact congrArg Except.ok (Option.some.inj he)
      | error fault => cases he
    simp only [Prod.mk.injEq] at hfields
    obtain ⟨hname, hdistinct, hflat, hgarbled⟩ := hfields
    exact ⟨tokens, finish, f, c, htokens, hrun, hname, hdistinct, hgarbled,
      call_survives_iff (by decide +kernel) rfl htokens (by simpa using hbare) hrun hflat⟩

end SqlDialects
