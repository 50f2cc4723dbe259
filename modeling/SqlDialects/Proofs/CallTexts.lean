import SqlDialects.Proofs.CallOrigins
import SqlDialects.Proofs.Origins
import SqlDialects.Proofs.Rereading

/-!
# The texts of calls are read back

* `Expr.isFlat` : expressions of names, numbers, strings and binary operators;
* `flat_rewrites` : where they come from a text of the dialect they are read back, names and all;
* `exprTexts_all` : lists of expressions are written one by one;
* `Call.Rereads` : a text that is read back as a call, up to parentheses;
* `Says.rereads`, `position_rereads` : the text of a call under a name that means it, and of a search in the
  form with `IN`;
* `args_enclosed` : what stands between the parentheses of a call.
-/

namespace SqlDialects

open Render

/-- Whether an expression is made of names, numbers, strings, binary operators and parentheses. -/
def Expr.isFlat : Expr → Bool
  | .name _ => true
  | .path _ => true
  | .literal (.number _) => true
  | .literal (.string _) => true
  | .binary l _ r => l.isFlat && r.isFlat
  | .nested e => e.isFlat
  | _ => false

/-- Every token of the input is one that the dialect finds again. -/
def Input.IsLexed (i : Input) : Prop := ∀ s, i.Has s → s.IsLexed i.dialect

theorem isLexed_ofTokens {d : Dialect} {sql : String} {tokens : List Token} {finish : Token}
    (h : tokenize d.lexical sql = .ok (tokens, finish)) : (Input.ofTokens d tokens finish).IsLexed := by
  rintro s ⟨k, rfl⟩
  unfold Input.token
  cases hget : (Input.ofTokens d tokens finish).tokens[k]? with
  | none =>
    have hfinish := tokenize_finish h
    simp only [Option.getD_none]
    rw [show (Input.ofTokens d tokens finish).finish.shape = (.finish, "") from hfinish]
    trivial
  | some t =>
    have hmem : t ∈ tokens := by
      have hlist : tokens[k]? = some t := by simpa [Input.ofTokens] using hget
      exact List.mem_of_getElem? hlist
    exact tokenize_lexed h t hmem

section Flat

variable {t : Target} {i : Input}

theorem needsQuotes_of_isBare {w : String} (hbare : t.dialect.isBare w = true)
    (hfree : t.dialect.lexical.isReserved w = false) : t.needsQuotes w = false := by
  unfold Dialect.isBare at hbare
  unfold Target.needsQuotes
  cases hlist : w.toList with
  | nil =>
    rw [hlist] at hbare
    cases hbare
  | cons c cs =>
    rw [hlist, Bool.and_eq_true] at hbare
    simp [hbare, hfree]

/-- A name of a text stays as it is where no layout puts it in quotes. -/
theorem reread_of_has (hidentify : t.layout.identify = false) (hi : i.IsLexed)
    (hdialect : i.dialect = t.dialect) {n : Name} (hn : i.Has n.shape) : t.reread n = n := by
  obtain ⟨text, quoted⟩ := n
  have hlexed := hi _ hn
  rw [hdialect] at hlexed
  cases quoted with
  | true => simp [Target.reread]
  | false =>
    have hword : t.dialect.isBare text = true ∧ t.dialect.lexical.isReserved text = false := hlexed
    simp [Target.reread, hidentify, needsQuotes_of_isBare hword.1 hword.2]

theorem joins_symbol (hd : t.dialect.Fluent) {op : BinaryOp} (h : t.dialect.Joins op) :
    ∃ s, t.binaryForm op = .symbol s ∧ t.dialect.readOp op = op := by
  rcases h with rfl | rfl | ⟨rule, hrule, rfl⟩
  · exact ⟨"AND", rfl, by simp [Dialect.readOp]⟩
  · exact ⟨"OR", rfl, by simp [Dialect.readOp]⟩
  · have hback := hd.joins rule hrule
    unfold Dialect.joinsBack at hback
    split at hback
    · next s hform => exact ⟨s, hform, by simpa using hback⟩
    · cases hback

/-- A flat expression of a text is written and read back as it is, up to parentheses. -/
theorem flat_rewrites (hd : t.dialect.Fluent) (hidentify : t.layout.identify = false) (hi : i.IsLexed)
    (hdialect : i.dialect = t.dialect) : (e : Expr) → e.isFlat = true → Sourced i e.nodes →
      Rewrites true t id e ∧ e.respell (t.dialect.respelling id) = e.respell (.plain id)
  | .name n, _, hs => by
    have hn : i.Has n.shape := by simpa [Expr.nodes] using hs
    exact ⟨name_regains hd.toExpressive (reread_of_has hidentify hi hdialect hn), by rfl⟩
  | .path ns, _, hs => by
    obtain ⟨hlength, hns⟩ : 2 ≤ ns.length ∧ ∀ n ∈ ns, i.Has n.shape := by simpa [Expr.nodes] using hs
    refine ⟨path_regains hd.toExpressive hlength fun n hn => ?_, by rfl⟩
    exact reread_of_has hidentify hi hdialect (hns n hn)
  | .literal (.number w), _, hs => by
    have hw : i.Has (.number, w) := by simpa [Expr.nodes] using hs
    refine ⟨literal_regains hd.toExpressive ?_ (by simp), by rfl⟩
    rintro _ ⟨⟩
    exact hi _ hw
  | .literal (.string v), _, _ =>
    ⟨literal_regains hd.toExpressive (by simp) (by simp), by rfl⟩
  | .binary l op r, he, hs => by
    simp only [Expr.isFlat, Bool.and_eq_true] at he
    simp only [Expr.nodes, all_cons, all_append, Node.IsSourced, hdialect] at hs
    obtain ⟨hop, hl, hr⟩ := hs
    obtain ⟨hlwrites, hleq⟩ := flat_rewrites hd hidentify hi hdialect l he.1 hl
    obtain ⟨hrwrites, hreq⟩ := flat_rewrites hd hidentify hi hdialect r he.2 hr
    obtain ⟨s, hform, hread⟩ := joins_symbol hd hop
    refine ⟨binary_regains hd.toExpressive op (fun _ => by simp [hform]) hlwrites hrwrites, ?_⟩
    rw [Expr.respell, respell_symbol hform, hread, hleq, hreq, Expr.respell, plain_binary]
  | .nested e, he, hs => by
    simp only [Expr.isFlat] at he
    simp only [Expr.nodes, all_cons] at hs
    obtain ⟨hwrites, heq⟩ := flat_rewrites hd hidentify hi hdialect e he hs.2
    exact ⟨nested_regains hd.toExpressive hwrites, by rw [Expr.respell, heq, Expr.respell]⟩

/-- The text is read back as the expression `e`, up to parentheses. -/
def RegainsItself (t : Target) (text : String) (e : Expr) : Prop :=
  Regains t id e (t.precedence e) text (e.respell (.plain id))

theorem argTexts_map (es : List Expr) : argTexts (es.map .expr) = exprTexts es := by
  induction es with
  | nil => rfl
  | cons e es ih => simp only [List.map_cons, argTexts, exprTexts, ih]

/-- A list of expressions is written one by one. -/
theorem exprTexts_all {R : String → Expr → Prop} {es : List Expr}
    (h : ∀ e ∈ es, Renders true t (whole e.texts) fun text => R text e) :
    Renders true t (exprTexts es) fun texts => List.Forall₂ R texts es := by
  induction es with
  | nil => exact .pure .nil
  | cons e es ih =>
    simp only [exprTexts]
    refine (h e (by simp)).bind fun text htext => ?_
    exact (ih fun x hx => h x (by simp [hx])).bind fun texts htexts => .pure (.cons htext htexts)

end Flat

/-! ## Lists of arguments -/

theorem swapFirstIf_swapFirstIf {α : Type} (swapped : Bool) (xs : List α) :
    swapFirstIf swapped (swapFirstIf swapped xs) = xs := by
  cases swapped with
  | false => rfl
  | true =>
    match xs with
    | [] => rfl
    | [a] => rfl
    | a :: b :: rest => rfl

theorem forall₂_swapFirstIf {α β : Type} {R : α → β → Prop} {xs : List α} {ys : List β}
    (h : List.Forall₂ R xs ys) (swapped : Bool) :
    List.Forall₂ R (swapFirstIf swapped xs) (swapFirstIf swapped ys) := by
  cases swapped with
  | false => exact h
  | true =>
    cases h with
    | nil => exact .nil
    | cons hfirst htail =>
      cases htail with
      | nil => exact .cons hfirst .nil
      | cons hsecond hrest => exact .cons hsecond (.cons hfirst hrest)

theorem respellArgs_swapFirstIf (r : Respelling) (swapped : Bool) (args : List Arg) :
    respellArgs r (swapFirstIf swapped args) = swapFirstIf swapped (respellArgs r args) := by
  cases swapped with
  | false => rfl
  | true =>
    match args with
    | [] => rfl
    | [a] => cases a <;> rfl
    | a :: b :: rest => cases a <;> cases b <;> rfl

section Bodies

variable {d : Dialect} {t : Target} {p : Precedence} {ts us : List Shape} {tss : List (List Shape)}
  {e h : Expr} {es : List Expr}

/-- The first argument of `POSITION` is no comparison. -/
theorem callArgs_position (hfirst : Form d p ts e) (hp : .comparison < p) (hes : Elements d tss es)
    (n : Nat) (rest : List Shape) :
    Parses d (Parser.callArgs (Parser.nested n) "POSITION")
      (betweenCommas (ts :: tss) ++ .mark ")" :: rest) ((e :: es).map .expr) (.mark ")" :: rest) := by
  have hends : Ends d .comparison (behindCommas tss ++ .mark ")" :: rest) := by
    cases tss with
    | nil => exact .mark d _ (by decide) _
    | cons => exact .mark d _ (by decide) _
  have hin : (headShape (behindCommas tss ++ .mark ")" :: rest)).isWord "IN" = false := by
    cases tss <;> rfl
  rw [betweenCommas, List.append_assoc]
  refine ReadsOr.bind (hfirst.expr_lt hp hends n) (ReadsOr.no (ReadsOr.eatWord_no hin) ?_)
  refine (ReadsOr.afterCommas (hes.parses n) (fun us => .mark d 0 (by decide) us)
    (.mark d 0 (by decide) _) rfl).bind ?_
  exact .pure _

/-- A search in the form with `IN`. -/
theorem callArgs_in (hneedle : Form d p ts e) (hp : .comparison < p) {q : Precedence}
    (hhaystack : Form d q us h) (n : Nat) (rest : List Shape) :
    Parses d (Parser.callArgs (Parser.nested n) "POSITION")
      (ts ++ d.bare "IN" :: us ++ .mark ")" :: rest) [.expr h, .expr e] (.mark ")" :: rest) := by
  have hends : Ends d .comparison (d.bare "IN" :: (us ++ .mark ")" :: rest)) := by
    refine ⟨Shape.isClear_bare d "IN", ?_, fun hescape => ?_⟩
    · have hnext := nextConnective_predicate (d := d) (w := "IN") (by simp [Dialect.predicateWords])
        false (us ++ .mark ")" :: rest)
      rw [nextPrecedence, show d.bare "IN" :: (us ++ .mark ")" :: rest) =
        d.negation false ++ d.bare "IN" :: (us ++ .mark ")" :: rest) from rfl, hnext]
      exact le_rfl
    · rw [headShape_cons, Shape.isWord_bare] at hescape
      cases hescape
  rw [List.append_assoc, List.cons_append]
  refine ReadsOr.bind (hneedle.expr_lt hp hends n) ?_
  refine ReadsOr.yes (ReadsOr.eatWord (Shape.isWord_bare d "IN" "IN")) ?_
  exact (hhaystack.expr_zero (.mark d 0 (by decide) _) n).bind (.pure _)

/-- Expressions that are read back as they are, one by one. -/
theorem elements_of_regainsItself {texts : List String} (h : List.Forall₂ (RegainsItself t) texts es) :
    ∃ tss es', List.Forall₂ (Spelled t.dialect) texts tss ∧ Elements t.dialect tss es' ∧
      respellAll (.plain id) es' = respellAll (.plain id) es := by
  have hsome : List.Forall₂ (RegainsSome t id) texts (es.map fun e => e.respell (.plain id)) := by
    rw [List.forall₂_map_right_iff]
    exact h.imp fun text e he => ⟨e, _, he⟩
  rw [respellAll_eq_map _ es]
  exact elements_of_regains hsome

theorem spelled_distinct (hd : d.Legible) (distinct : Bool) {s : String} (hs : Spelled d s ts) :
    Spelled d ((if distinct then "DISTINCT " else "") ++ s)
      ((if distinct then [d.bare "DISTINCT"] else []) ++ ts) := by
  cases distinct with
  | false => simpa using hs
  | true =>
    have hjoined : Spelled d ("DISTINCT" ++ " " ++ s) (d.bare "DISTINCT" :: ts) :=
      (Spelled.word hd rfl).join Spelled.blank_mem hs
    exact hjoined.of_eq rfl

theorem spelled_star (hd : d.Fluent) : Spelled d "*" [(.operator, "*")] := by
  intro h hh
  refine .single (isToken_operator hd.toLegible (fun c hc => ?_) (hd.star.2 h hh) ?_ ?_ ?_)
  · obtain rfl : '*' = c := by simpa using hc
    exact ⟨hd.star.1, by decide⟩
  · decide
  · simp
  · simp

/-- Written arguments are read back between the parentheses of a call. Only the first one of `POSITION`
must bind tighter than a comparison. -/
theorem args_enclosed (hd : t.dialect.Fluent) (upper : String) (distinct : Bool) {texts : List String}
    (hne : es ≠ []) (h : List.Forall₂ (RegainsItself t) texts es)
    (hfirst : upper = "POSITION" → ∀ e ∈ es.head?, .comparison < t.precedence e) :
    ∃ ts es', Spelled t.dialect ((if distinct then "DISTINCT " else "") ++ String.intercalate ", " texts) ts ∧
      Enclosed t.dialect upper ts distinct (es'.map .expr) ∧
        respellAll (.plain id) es' = respellAll (.plain id) es := by
  cases h with
  | nil => exact absurd rfl hne
  | @cons text e texts es htext hrest =>
    obtain ⟨e', ⟨ts, hspelled, hform, -⟩, heq⟩ := htext
    obtain ⟨tss, es', hall, helements, hrespell⟩ := elements_of_regainsItself hrest
    have helements' : Elements t.dialect (ts :: tss) (e' :: es') := .cons ⟨_, hform⟩ helements
    refine ⟨_, e' :: es', spelled_distinct hd.toLegible distinct
      (Spelled.commaList hd.toLegible (by simp [Spelled.listGaps]) (.cons hspelled hall)), ?_, ?_⟩
    · refine enclosed_args distinct (helements'.opens (by simp)) fun n rest => ?_
      by_cases hposition : upper = "POSITION"
      · subst hposition
        exact callArgs_position hform (hfirst rfl e rfl) helements n rest
      · exact callArgs_elements helements' (by simp) hposition n rest
    · rw [respellAll, respellAll, heq, hrespell]

end Bodies

/-! ## Calls -/

/-- The text is read back as the call `f`, up to parentheses. -/
def Call.Rereads (d : Dialect) (f : Call) (text : String) : Prop :=
  ∃ ts g, Spelled d text ts ∧ Form d .atom ts (.call g) ∧
    g.respell (.plain id) = f.respell (.plain id)

section Calls

variable {d : Dialect} {t : Target} {ss ts : List Shape} {f : Call}

/-- The text of a call under a name that means it. -/
theorem Dialect.Says.rereads (h : d.Says f.name ss) (hwindow : f.window = none) {s : String}
    (hs : Spelled d s ts) {args : List Arg}
    (henclosed : Enclosed d (Text.upper (d.saying f.name).1) ts f.distinct args)
    (hargs : respellArgs (.plain id) args =
      swapFirstIf (d.saying f.name).2 (respellArgs (.plain id) f.args)) :
    f.Rereads d ((d.saying f.name).1 ++ "(" ++ s ++ ")") := by
  refine ⟨_, _, h.callee.spelled hs, h.callee.enclosed h.meaning henclosed, ?_⟩
  obtain ⟨name, fargs, distinct, window⟩ := f
  subst hwindow
  simp only [Call.respell, respellArgs_swapFirstIf, hargs, swapFirstIf_swapFirstIf]

/-- A search is written in the form with `IN`, the needle as an operand of a comparison. -/
theorem position_rereads (hd : t.dialect.Fluent) {haystack needle : Expr}
    (hwrites : ∀ e ∈ [haystack, needle],
      Rewrites true t id e ∧ e.respell (t.dialect.respelling id) = e.respell (.plain id)) :
    Renders true t (positionText [.expr haystack, .expr needle])
      (Call.Rereads t.dialect ⟨"STRPOS", [.expr haystack, .expr needle], false, none⟩) := by
  obtain ⟨⟨hhaystack, hhaystackEq⟩, hneedle, hneedleEq⟩ :=
    And.intro (hwrites haystack (by simp)) (hwrites needle (by simp))
  simp only [positionText]
  refine (hneedle.operand hd.toExpressive true (by decide)).bind ?_
  rintro ntext ⟨p, ⟨n', ⟨ns, hns, hnform, -⟩, hneq⟩, -, hp⟩
  refine (hhaystack.whole hd.toExpressive).bind ?_
  rintro htext ⟨h', ⟨hs, hhs, hhform, -⟩, hheq⟩
  have hbody : Spelled t.dialect (ntext ++ " IN " ++ htext) (ns ++ t.dialect.bare "IN" :: hs) :=
    (hns.join Spelled.blank_mem ((Spelled.word (w := "IN") hd.toLegible rfl).join Spelled.blank_mem
      hhs)).of_eq (by simp)
  have henclosed : Enclosed t.dialect (Text.upper "POSITION") (ns ++ t.dialect.bare "IN" :: hs) false
      [.expr h', .expr n'] :=
    enclosed_args false
      (hnform.opens.append (by simp) (Shape.isClear_bare t.dialect "IN"))
      fun n rest => callArgs_in hnform (hp rfl) hhform n rest
  have hcallee := callee_bare hd.toLegible hd.positionCall.1 hd.positionCall.2
  refine .pure ⟨_, _, (hcallee.spelled hbody).of_eq (by simp), hcallee.enclosed rfl henclosed, ?_⟩
  simp only [swapFirstIf, Bool.false_eq_true, if_false, Call.respell, respellArgs, hheq, hneq,
    hhaystackEq, hneedleEq]

end Calls

end SqlDialects
