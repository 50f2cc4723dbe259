import SqlDialects.Proofs.Saying
import SqlDialects.Transpile

/-!
# Layout never decides success

* `Alike` : two writers, one in a target and one in the same target with another layout, fail by one
  fault or succeed with one highest ordinal and related results;
* `Even` : a writer that is alike to itself;
* `Expr.texts_even`, `Query.text_even`, `Statement.text_even` : writing a tree is even;
* `validate_agrees` : a text is valid exactly if its dialect writes it again in any layout, and an
  invalid one is refused by the same fault in all of them.
-/

namespace SqlDialects

open Render

/-- The same target with another layout. -/
def Target.laid (t : Target) (l : Layout) : Target := { t with layout := l }

@[simp] theorem Target.laid_dialect (t : Target) (l : Layout) : (t.laid l).dialect = t.dialect := rfl

/-! ## Two runs -/

/-- `p` in the target `t` and `q` in its variant with the layout `l` fail by one fault, or succeed with
one highest ordinal and results that `R` relates. -/
structure Alike {α β : Type} (t : Target) (l : Layout) (p : Render α) (q : Render β)
    (R : α → β → Prop) : Prop where
  runs : ∀ n, (∃ e, p t n = .error e ∧ q (t.laid l) n = .error e) ∨
    ∃ a b m, p t n = .ok (a, m) ∧ q (t.laid l) n = .ok (b, m) ∧ R a b

namespace Alike

variable {α β γ δ : Type} {t : Target} {l : Layout} {p : Render α} {q : Render β}
  {R R' : α → β → Prop} {S : γ → δ → Prop} {g : α → Render γ} {h : β → Render δ}

theorem pure {a : α} {b : β} (hab : R a b) : Alike t l (Pure.pure a) (Pure.pure b) R :=
  ⟨fun n => .inr ⟨a, b, n, rfl, rfl, hab⟩⟩

theorem done (a : α) (b : β) : Alike t l (Pure.pure a) (Pure.pure b) fun _ _ => True :=
  pure trivial

theorem bind (hp : Alike t l p q R) (hg : ∀ a b, R a b → Alike t l (g a) (h b) S) :
    Alike t l (p >>= g) (q >>= h) S := by
  refine ⟨fun n => ?_⟩
  rw [bind_run, bind_run]
  rcases hp.runs n with ⟨e, he, he'⟩ | ⟨a, b, m, ha, hb, hab⟩
  · rw [he, he']
    exact .inl ⟨e, rfl, rfl⟩
  · rw [ha, hb]
    exact (hg a b hab).runs m

theorem target {g : Target → Render γ} {h : Target → Render δ}
    (hgh : Alike t l (g t) (h (t.laid l)) S) :
    Alike t l (Render.target >>= g) (Render.target >>= h) S :=
  ⟨hgh.runs⟩

theorem mono (hp : Alike t l p q R) (hR : ∀ a b, R a b → R' a b) : Alike t l p q R' := by
  refine ⟨fun n => ?_⟩
  rcases hp.runs n with hfail | ⟨a, b, m, ha, hb, hab⟩
  · exact .inl hfail
  · exact .inr ⟨a, b, m, ha, hb, hR a b hab⟩

theorem unsupported (construct : String) :
    Alike t l (Render.unsupported construct) (Render.unsupported construct) R :=
  ⟨fun _ => .inl ⟨_, rfl, rfl⟩⟩

/-- A second attempt starts from the same ordinal in both runs. -/
theorem orElse {p' : Render α} {q' : Render β} (hp : Alike t l p q R) (hp' : Alike t l p' q' R) :
    Alike t l (Render.orElse p p') (Render.orElse q q') R := by
  refine ⟨fun n => ?_⟩
  unfold Render.orElse
  rcases hp.runs n with ⟨e, he, he'⟩ | ⟨a, b, m, ha, hb, hab⟩
  · rw [he, he']
    exact hp'.runs n
  · rw [ha, hb]
    exact .inr ⟨a, b, m, rfl, rfl, hab⟩

/-- The results of two runs that are alike, without the ordinals. -/
theorem run (hp : Alike t l p q R) :
    (∃ e, p.run t = .error e ∧ q.run (t.laid l) = .error e) ∨
      ∃ a b, p.run t = .ok a ∧ q.run (t.laid l) = .ok b ∧ R a b := by
  unfold Render.run
  rcases hp.runs 0 with ⟨e, he, he'⟩ | ⟨a, b, m, ha, hb, hab⟩
  · rw [he, he']
    exact .inl ⟨e, rfl, rfl⟩
  · rw [ha, hb]
    exact .inr ⟨a, b, rfl, rfl, hab⟩

end Alike

/-- `p` fails by one fault in both layouts, or succeeds in both with one highest ordinal. -/
abbrev Even {α : Type} (t : Target) (l : Layout) (p : Render α) : Prop :=
  Alike t l p p fun _ _ => True

namespace Even

variable {α β : Type} {t : Target} {l : Layout} {p : Render α} {g h : α → Render β}

/-- What follows an even writer has to be alike for any two of its results. -/
theorem bind {S : β → β → Prop} (hp : Even t l p) (hg : ∀ a b, Alike t l (g a) (h b) S) :
    Alike t l (p >>= g) (p >>= h) S :=
  Alike.bind hp fun a b _ => hg a b

theorem map (hp : Even t l p) (f f' : α → β) :
    Alike t l (p >>= fun a => Pure.pure (f a)) (p >>= fun a => Pure.pure (f' a)) fun _ _ => True :=
  hp.bind fun _ _ => .done _ _

theorem mapIn (hp : Even t l p) (f : Target → α → β) :
    Even t l (p >>= fun a => Render.target >>= fun t => Pure.pure (f t a)) :=
  hp.bind fun _ _ => .target (.done _ _)

theorem require (c : Construct) : Even t l (Render.require c) := by
  refine .target ?_
  rw [Target.laid_dialect]
  by_cases hc : t.dialect.supports c = true
  · simp only [hc]
    exact .done () ()
  · simp only [hc]
    exact .unsupported _

theorem requireIf {g h : Unit → Render β} (b : Bool) (c : Construct)
    (hg : Alike t l (g ()) (h ()) fun _ _ => True) :
    Alike t l (if b then Render.require c >>= g else g ())
      (if b then Render.require c >>= h else h ()) fun _ _ => True := by
  cases b with
  | false => exact hg
  | true => exact (require c).bind fun _ _ => hg

end Even

/-! ## Parts with their operands written -/

section Parts

variable {t : Target} {l : Layout}

theorem whole_even {p : Render (List String)} (h : Even t l p) : Even t l (whole p) :=
  h.mapIn Target.whole

theorem single_even {p : Render String} (h : Even t l p) : Even t l (single p) :=
  h.map _ _

theorem operand_even {p : Render (List String)} (h : Even t l p) (e : Expr) (parent : Precedence)
    (right : Bool) : Even t l (operand e parent right p) :=
  (whole_even h).mapIn fun t text => t.wrap e parent right text

theorem block_even {p : Render String} (h : Even t l p) : Even t l (block p) :=
  h.mapIn Target.block

theorem literal_even (v : Literal) : Even t l (literal v) := by
  refine .target ?_
  cases v with
  | number _ | string _ | null => exact .done _ _
  | boolean b =>
    rw [Target.laid_dialect]
    cases t.dialect.writing.booleans <;> exact .done _ _
  | temporal kind value =>
    rw [Target.laid_dialect]
    cases t.dialect.writing.temporals
    case keyword | cast => exact .done _ _
    case function => cases kind <;> exact .done _ _

/-- The two runs have written the same ordinals, so they agree about what a bare mark would bind. -/
theorem ordinal_even (k : Nat) (positional : Bool) : Even t l (ordinal k positional) := by
  refine Alike.bind (R := Eq) ⟨fun n => .inr ⟨_, _, _, rfl, rfl, rfl⟩⟩ ?_
  rintro inSequence _ rfl
  refine .target ?_
  rw [Target.laid_dialect]
  cases t.dialect.params with
  | dollar | atName | colon | questionNumbered => exact .done _ _
  | question =>
    cases inSequence with
    | true => exact .done _ _
    | false => exact .unsupported _

theorem param_even (p : Param) : Even t l (param p) := by
  cases p with
  | positional k => exact ordinal_even k true
  | numbered k => exact ordinal_even k false
  | named name =>
    refine .target ?_
    rw [Target.laid_dialect]
    cases t.dialect.writing.namedParamMark with
    | some mark => exact .done _ _
    | none => exact .unsupported _

theorem now_even (kind : TemporalKind) : Even t l (now kind) := by
  refine .target ?_
  rw [Target.laid_dialect]
  cases kind with
  | timestamp => exact .done _ _
  | date =>
    dsimp only
    cases t.dialect.writing.currentDate with
    | some text => exact .done _ _
    | none => exact .unsupported _
  | time =>
    dsimp only
    cases t.dialect.writing.currentTime with
    | some text => exact .done _ _
    | none => exact .unsupported _

theorem binary_even {p q : Render (List String)} (left right : Expr) (op : BinaryOp)
    (hp : Even t l p) (hq : Even t l q) : Even t l (binary left op right p q) := by
  have hsame : (t.laid l).binaryForm op = t.binaryForm op := rfl
  refine .target ?_
  rw [hsame]
  cases t.binaryForm op with
  | symbol s => exact (operand_even hp ..).bind fun _ _ => (operand_even hq ..).map _ _
  | function name => exact (whole_even hp).bind fun _ _ => (whole_even hq).map _ _
  | chain => exact hp.bind fun _ _ => hq.map _ _
  | none => exact .unsupported _

theorem interval_even {p : Render (List String)} (e : Expr) (unit : Option DateField)
    (hp : Even t l p) : Even t l (interval e unit p) := by
  refine .target ?_
  rw [Target.laid_dialect]
  cases t.dialect.writing.interval with
  | none => exact .unsupported _
  | some style =>
    cases style with
    | quoted =>
      dsimp only
      split
      · exact .done _ _
      · exact .done _ _
      · exact (operand_even hp ..).map _ _
      · exact .unsupported _
    | bare =>
      dsimp only
      split
      · split
        · exact .done _ _
        · exact .unsupported _
      · exact (operand_even hp ..).map _ _
      · exact .unsupported _

theorem pattern_even {p q : Render (List String)} (left right : Expr) (negated anyCase : Bool)
    (hp : Even t l p) (hq : Even t l q) : Even t l (pattern left right negated anyCase p q) := by
  refine .target ?_
  rw [Target.laid_dialect]
  dsimp only
  split
  · exact (operand_even hp ..).bind fun _ _ => (operand_even hq ..).map _ _
  · exact (whole_even hp).bind fun _ _ => (whole_even hq).map _ _

theorem aliased_even (r r' : String) (label : Option TableAlias) :
    Alike t l (aliased r label) (aliased r' label) fun _ _ => True := by
  refine .target ?_
  cases label <;> exact .done _ _

theorem joinWords_even (natural : Bool) (kind : JoinKind) : Even t l (joinWords natural kind) := by
  unfold joinWords
  refine Even.requireIf natural .naturalJoin ?_
  exact Even.requireIf (kind == .full) .fullOuterJoin (.done _ _)

/-- Whether the arbitrary ordering is written depends on the number of keys only. -/
theorem ordering_even (needed : Bool) {keys keys' : List String} (h : keys.length = keys'.length) :
    Alike t l (ordering needed keys) (ordering needed keys') fun _ _ => True := by
  have hempty : keys.isEmpty = keys'.isEmpty := by
    rw [Bool.eq_iff_iff, List.isEmpty_iff_length_eq_zero, List.isEmpty_iff_length_eq_zero, h]
  unfold ordering
  rw [hempty]
  split
  · exact single_even (.target (.done _ _))
  · exact .done _ _

/-! ## Row limits -/

theorem limitOffset_even {count offset : Render (Option String)} (hc : Even t l count)
    (ho : Even t l offset) : Even t l (limitOffset count offset) :=
  hc.bind fun _ _ => ho.bind fun _ _ => .target (.done _ _)

theorem limitComma_even {count offset : Render (Option String)} (hc : Even t l count)
    (ho : Even t l offset) : Even t l (limitComma count offset) :=
  ho.bind fun _ _ => hc.map _ _

theorem limitClauses_even {count offset : Render (Option String)} (hasCount hasOffset : Bool)
    (hc : Even t l count) (ho : Even t l offset) :
    Even t l (limitClauses hasCount hasOffset count offset) := by
  refine .target ?_
  rw [Target.laid_dialect]
  dsimp only
  cases t.dialect.writing.limitStyle with
  | limitOffset =>
    dsimp only
    split
    · exact .orElse (limitOffset_even hc ho) (limitComma_even hc ho)
    · exact limitOffset_even hc ho
  | offsetLimit | fetchFirst => exact ho.bind fun _ _ => hc.map _ _
  | limitOnly =>
    cases hasOffset with
    | true => exact .unsupported _
    | false => exact hc.map _ _
  | top fetch =>
    cases fetch with
    | false => exact .unsupported _
    | true => exact ho.bind fun _ _ => hc.map _ _

/-- A count is carried by the `SELECT` in both layouts or in neither. -/
theorem topText_even (body : Body) {limit : Option Limit}
    (hcount : ∀ x ∈ limit, ∀ e ∈ x.count, Even t l e.texts) :
    Alike t l (topText body limit) (topText body limit) fun a b => a.isSome = b.isSome := by
  rw [topText.eq_def]
  cases limit with
  | none => exact .pure rfl
  | some x =>
    obtain ⟨count, offset⟩ := x
    have hsame : (t.laid l).hasTop body ⟨count, offset⟩ = t.hasTop body ⟨count, offset⟩ := rfl
    refine .target ?_
    rw [hsame]
    split
    · split
      · exact .pure rfl
      · exact (whole_even (hcount _ rfl _ rfl)).bind fun _ _ => .pure rfl
      · exact .pure rfl
    · exact .pure rfl

theorem query_even {ctes : Option With} {body : Body} {order : List OrderItem}
    {limit : Option Limit} (hw : Even t l (withTexts ctes))
    (htop : Alike t l (topText body limit) (topText body limit) fun a b => a.isSome = b.isSome)
    (hb : ∀ top top', Alike t l (body.text top) (body.text top') fun _ _ => True)
    (ho : Alike t l (orderTexts order) (orderTexts order) fun a b => a.length = b.length)
    (hl : Even t l (limitTexts limit)) : Even t l (Query.text ⟨ctes, body, order, limit⟩) := by
  simp only [Query.text]
  refine .target (hw.bind fun _ _ => htop.bind fun top top' hsome => ?_)
  refine (hb top top').bind fun _ _ _ => ho.bind fun keys keys' hlength => ?_
  have hnone : top'.isNone = top.isNone := by
    rw [← Option.not_isSome, ← Option.not_isSome, hsome]
  rw [hnone, ← hsome]
  refine (ordering_even _ hlength).bind fun _ _ _ => ?_
  split
  · exact .done _ _
  · exact hl.map _ _

theorem select_even {distinct : Option Distinct} {items : List SelectItem}
    {sources : List Source} {condition : Option Expr} {groupBy : List Expr}
    {having qualify : Option Expr} (hx : Even t l (distinctText distinct))
    (hi : Even t l (itemTexts items)) (hs : Even t l (sourceTexts sources))
    (hc : Even t l (optionTexts condition)) (hg : Even t l (exprTexts groupBy))
    (hh : Even t l (optionTexts having)) (hq : Even t l (optionTexts qualify))
    (top top' : Option String) :
    Alike t l (Select.text ⟨distinct, items, sources, condition, groupBy, having, qualify⟩ top)
      (Select.text ⟨distinct, items, sources, condition, groupBy, having, qualify⟩ top')
      fun _ _ => True := by
  simp only [Select.text]
  refine .target (hx.bind fun _ _ => hi.bind fun _ _ => hs.bind fun _ _ => ?_)
  refine hc.bind fun _ _ => hg.bind fun _ _ => hh.bind fun _ _ => ?_
  cases qualify with
  | none => exact hq.map _ _
  | some e => exact (Even.require _).bind fun _ _ => hq.map _ _

end Parts

/-! ## Trees -/

section Trees

variable (t : Target) (l : Layout)

mutual

theorem Expr.texts_even : ∀ e : Expr, Even t l e.texts
  | .name _ | .path _ => by
    simp only [Expr.texts]
    exact .target (.done _ _)
  | .literal v => by
    simp only [Expr.texts]
    exact single_even (literal_even v)
  | .param p => by
    simp only [Expr.texts]
    exact single_even (param_even p)
  | .binary left op right => by
    simp only [Expr.texts]
    exact binary_even left right op (Expr.texts_even left) (Expr.texts_even right)
  | .unary op e => by
    simp only [Expr.texts]
    exact (operand_even (Expr.texts_even e) ..).map _ _
  | .call f => by
    simp only [Expr.texts]
    exact single_even (Call.text_even f)
  | .cast e type safe => by
    simp only [Expr.texts]
    refine .target ?_
    rw [Target.laid_dialect]
    split
    · exact .unsupported _
    · exact (whole_even (Expr.texts_even e)).map _ _
    · exact (whole_even (Expr.texts_even e)).map _ _
  | .case subject branches otherwise => by
    simp only [Expr.texts]
    refine (optionTexts_even subject).bind fun _ _ => (branchTexts_even branches).bind fun _ _ => ?_
    exact (optionTexts_even otherwise).map _ _
  | .cond condition yes no => by
    simp only [Expr.texts]
    refine (whole_even (Expr.texts_even condition)).bind fun _ _ => ?_
    refine (whole_even (Expr.texts_even yes)).bind fun _ _ => ?_
    refine (whole_even (Expr.texts_even no)).bind fun _ _ => .target ?_
    rw [Target.laid_dialect]
    cases t.dialect.writing.ifFunction <;> exact .done _ _
  | .between e negated low high => by
    simp only [Expr.texts]
    refine (operand_even (Expr.texts_even e) ..).bind fun _ _ => ?_
    refine (operand_even (Expr.texts_even low) ..).bind fun _ _ => ?_
    exact (operand_even (Expr.texts_even high) ..).map _ _
  | .inList e items negated => by
    simp only [Expr.texts]
    refine (exprTexts_even items).bind fun _ _ => ?_
    exact (operand_even (Expr.texts_even e) ..).map _ _
  | .inQuery e q negated => by
    simp only [Expr.texts]
    refine (operand_even (Expr.texts_even e) ..).bind fun _ _ => ?_
    exact (block_even (Query.text_even q)).map _ _
  | .like e p negated anyCase escape => by
    simp only [Expr.texts]
    refine (pattern_even e p negated anyCase (Expr.texts_even e) (Expr.texts_even p)).bind
      fun _ _ => ?_
    exact (escapeText_even escape).map _ _
  | .isNull e negated => by
    simp only [Expr.texts]
    exact (operand_even (Expr.texts_even e) ..).map _ _
  | .exists q negated => by
    simp only [Expr.texts]
    exact (block_even (Query.text_even q)).map _ _
  | .subquery q => by
    simp only [Expr.texts]
    exact single_even (block_even (Query.text_even q))
  | .nested e => by
    simp only [Expr.texts]
    exact (whole_even (Expr.texts_even e)).map _ _
  | .extract field e => by
    simp only [Expr.texts]
    refine .target ?_
    rw [Target.laid_dialect]
    split
    · exact (whole_even (Expr.texts_even e)).map _ _
    · exact (whole_even (Expr.texts_even e)).map _ _
    · exact .unsupported _
  | .interval e unit => by
    simp only [Expr.texts]
    exact single_even (interval_even e unit (Expr.texts_even e))
  | .now kind => by
    simp only [Expr.texts]
    exact single_even (now_even kind)

theorem optionTexts_even : ∀ o : Option Expr, Even t l (optionTexts o)
  | none => by
    simp only [optionTexts]
    exact .done _ _
  | some e => by
    simp only [optionTexts]
    exact (whole_even (Expr.texts_even e)).map _ _

theorem optionText_even : ∀ o : Option Expr, Even t l (optionText o)
  | none => by
    simp only [optionText]
    exact .done _ _
  | some e => by
    simp only [optionText]
    exact (whole_even (Expr.texts_even e)).map _ _

theorem escapeText_even : ∀ o : Option Expr, Even t l (escapeText o)
  | none => by
    simp only [escapeText]
    exact .done _ _
  | some e => by
    simp only [escapeText]
    exact (operand_even (Expr.texts_even e) ..).map _ _

theorem exprTexts_even : ∀ es : List Expr, Even t l (exprTexts es)
  | [] => by
    simp only [exprTexts]
    exact .done _ _
  | e :: es => by
    simp only [exprTexts]
    exact (whole_even (Expr.texts_even e)).bind fun _ _ => (exprTexts_even es).map _ _

theorem branchTexts_even : ∀ bs : List Branch, Even t l (branchTexts bs)
  | [] => by
    simp only [branchTexts]
    exact .done _ _
  | ⟨condition, result⟩ :: rest => by
    simp only [branchTexts]
    refine (whole_even (Expr.texts_even condition)).bind fun _ _ => ?_
    refine (whole_even (Expr.texts_even result)).bind fun _ _ => ?_
    exact (branchTexts_even rest).map _ _

theorem Call.text_even : ∀ f : Call, Even t l f.text
  | ⟨name, args, distinct, window⟩ => by
    have hsame : (t.laid l).asksPosition name args window = t.asksPosition name args window := rfl
    simp only [Call.text]
    refine .target ?_
    rw [hsame]
    split
    · next h => exact positionText_even args h
    · exact (argTexts_even args).bind fun _ _ => (overText_even window).map _ _

theorem positionText_even : ∀ args : List Arg, ∀ {name : String} {window : Option Window},
    t.asksPosition name args window = true → Even t l (positionText args)
  | [.expr haystack, .expr needle] => fun _ => by
    simp only [positionText]
    refine (operand_even (Expr.texts_even needle) ..).bind fun _ _ => ?_
    exact (whole_even (Expr.texts_even haystack)).map _ _
  | [] | [_] | .star :: _ :: _ | [.expr _, .star] | .expr _ :: _ :: _ :: _ => fun h => by
    obtain ⟨-, _, _, heq, -⟩ := Target.asksPosition_iff.mp h
    simp at heq

theorem argTexts_even : ∀ args : List Arg, Even t l (argTexts args)
  | [] => by
    simp only [argTexts]
    exact .done _ _
  | .star :: rest => by
    simp only [argTexts]
    exact (argTexts_even rest).map _ _
  | .expr e :: rest => by
    simp only [argTexts]
    exact (whole_even (Expr.texts_even e)).bind fun _ _ => (argTexts_even rest).map _ _

theorem overText_even : ∀ w : Option Window, Even t l (overText w)
  | none => by
    simp only [overText]
    exact .done _ _
  | some ⟨partitionBy, order, frame⟩ => by
    simp only [overText]
    refine (exprTexts_even partitionBy).bind fun _ _ => (orderTexts_even order).bind fun _ _ _ => ?_
    exact (frameText_even frame).map _ _

/-- As many keys are written in one layout as in the other. -/
theorem orderTexts_even : ∀ items : List OrderItem,
    Alike t l (orderTexts items) (orderTexts items) fun a b => a.length = b.length
  | [] => by
    simp only [orderTexts]
    exact .pure rfl
  | ⟨key, _, nullsFirst⟩ :: rest => by
    have hrest (f f' : List String → List String) (hf : ∀ a, (f a).length = a.length + 1)
        (hf' : ∀ a, (f' a).length = a.length + 1) : Alike t l
          (orderTexts rest >>= fun a => Pure.pure (f a))
          (orderTexts rest >>= fun a => Pure.pure (f' a)) fun a b => a.length = b.length := by
      refine (orderTexts_even rest).bind fun a b hab => .pure ?_
      rw [hf, hf', hab]
    simp only [orderTexts]
    refine (whole_even (Expr.texts_even key)).bind fun _ _ => ?_
    cases nullsFirst with
    | none => exact hrest _ _ (fun _ => rfl) fun _ => rfl
    | some _ => exact (Even.require _).bind fun _ _ => hrest _ _ (fun _ => rfl) fun _ => rfl

theorem frameText_even : ∀ f : Option Frame, Even t l (frameText f)
  | none => by
    simp only [frameText]
    exact .done _ _
  | some ⟨unit, start, stop⟩ => by
    simp only [frameText]
    refine (Bound.text_even start).bind fun _ _ => (stopText_even stop).bind fun stop stop' => ?_
    cases stop <;> cases stop' <;> exact .done _ _

theorem stopText_even : ∀ b : Option Bound, Even t l (stopText b)
  | none => by
    simp only [stopText]
    exact .done _ _
  | some b => by
    simp only [stopText]
    exact (Bound.text_even b).map _ _

theorem Bound.text_even : ∀ b : Bound, Even t l b.text
  | .unboundedPreceding | .unboundedFollowing | .currentRow => by
    simp only [Bound.text]
    exact .done _ _
  | .preceding e | .following e => by
    simp only [Bound.text]
    exact (operand_even (Expr.texts_even e) ..).map _ _

theorem Query.text_even : ∀ q : Query, Even t l q.text
  | ⟨ctes, body, order, limit⟩ =>
    query_even (withTexts_even ctes) (topText_even body (countTexts_even limit))
      (Body.text_even body) (orderTexts_even order) (limitTexts_even limit)

theorem countTexts_even : ∀ limit : Option Limit, ∀ x ∈ limit, ∀ e ∈ x.count, Even t l e.texts
  | none => by simp
  | some ⟨none, _⟩ => by simp
  | some ⟨some e, _⟩ => by simpa using Expr.texts_even e

theorem limitTexts_even : ∀ limit : Option Limit, Even t l (limitTexts limit)
  | none => by
    simp only [limitTexts]
    exact .done _ _
  | some ⟨count, offset⟩ => by
    simp only [limitTexts]
    exact limitClauses_even _ _ (optionText_even count) (optionText_even offset)

theorem withTexts_even : ∀ w : Option With, Even t l (withTexts w)
  | none => by
    simp only [withTexts]
    exact .done _ _
  | some ⟨recursive, tables⟩ => by
    simp only [withTexts]
    exact (cteTexts_even tables).bind fun _ _ => .target (.done _ _)

theorem cteTexts_even : ∀ tables : List Cte, Even t l (cteTexts tables)
  | [] => by
    simp only [cteTexts]
    exact .done _ _
  | ⟨_, _, query⟩ :: rest => by
    simp only [cteTexts]
    refine (block_even (Query.text_even query)).bind fun _ _ => .target ?_
    exact (cteTexts_even rest).map _ _

theorem Body.text_even : ∀ (b : Body) (top top' : Option String),
    Alike t l (b.text top) (b.text top') fun _ _ => True
  | .select s, top, top' => by
    simp only [Body.text]
    exact Select.text_even s top top'
  | .query q, _, _ => by
    simp only [Body.text]
    exact block_even (Query.text_even q)
  | .values rows, _, _ => by
    simp only [Body.text]
    exact (rowTexts_even rows).bind fun _ _ => .target (.done _ _)
  | .combine op quantifier left right, _, _ => by
    simp only [Body.text]
    refine .target (Even.bind (Body.text_even left none none) fun _ _ => ?_)
    exact Even.map (Body.text_even right none none) _ _

theorem rowTexts_even : ∀ rows : List (List Expr), Even t l (rowTexts rows)
  | [] => by
    simp only [rowTexts]
    exact .done _ _
  | row :: rest => by
    simp only [rowTexts]
    exact (exprTexts_even row).bind fun _ _ => (rowTexts_even rest).map _ _

theorem Select.text_even : ∀ (s : Select) (top top' : Option String),
    Alike t l (s.text top) (s.text top') fun _ _ => True
  | ⟨distinct, items, sources, condition, groupBy, having, qualify⟩, top, top' =>
    select_even (distinctText_even distinct) (itemTexts_even items) (sourceTexts_even sources)
      (optionTexts_even condition) (exprTexts_even groupBy) (optionTexts_even having)
      (optionTexts_even qualify) top top'

theorem distinctText_even : ∀ x : Option Distinct, Even t l (distinctText x)
  | none | some .all => by
    simp only [distinctText]
    exact .done _ _
  | some (.on keys) => by
    simp only [distinctText]
    exact (Even.require _).bind fun _ _ => (exprTexts_even keys).map _ _

theorem itemTexts_even : ∀ items : List SelectItem, Even t l (itemTexts items)
  | [] => by
    simp only [itemTexts]
    exact .done _ _
  | .star :: rest => by
    simp only [itemTexts]
    exact (itemTexts_even rest).map _ _
  | .qualifiedStar table :: rest => by
    simp only [itemTexts]
    exact .target ((itemTexts_even rest).map _ _)
  | .expr e _ :: rest => by
    simp only [itemTexts]
    refine (whole_even (Expr.texts_even e)).bind fun _ _ => .target ?_
    exact (itemTexts_even rest).map _ _

theorem sourceTexts_even : ∀ sources : List Source, Even t l (sourceTexts sources)
  | [] => by
    simp only [sourceTexts]
    exact .done _ _
  | ⟨relation, joins⟩ :: rest => by
    simp only [sourceTexts]
    refine (Relation.text_even relation).bind fun _ _ => (joinTexts_even joins).bind fun _ _ => ?_
    exact (sourceTexts_even rest).map _ _

theorem Relation.text_even : ∀ r : Relation, Even t l r.text
  | .table name label => by
    simp only [Relation.text]
    exact .target (aliased_even ..)
  | .derived q label => by
    simp only [Relation.text]
    exact (block_even (Query.text_even q)).bind fun _ _ => aliased_even ..
  | .function call label => by
    simp only [Relation.text]
    exact (Call.text_even call).bind fun _ _ => aliased_even ..

theorem joinTexts_even : ∀ joins : List Join, Even t l (joinTexts joins)
  | [] => by
    simp only [joinTexts]
    exact .done _ _
  | ⟨relation, kind, condition⟩ :: rest => by
    simp only [joinTexts]
    refine (joinWords_even ..).bind fun _ _ => (Relation.text_even relation).bind fun _ _ => ?_
    refine (JoinCondition.text_even condition).bind fun _ _ => .target ?_
    exact (joinTexts_even rest).map _ _

theorem JoinCondition.text_even : ∀ c : JoinCondition, Even t l c.text
  | .on e => by
    simp only [JoinCondition.text]
    exact (whole_even (Expr.texts_even e)).map _ _
  | .using columns => by
    simp only [JoinCondition.text]
    exact (Even.require _).bind fun _ _ => .target (.done _ _)
  | .natural | .none => by
    simp only [JoinCondition.text]
    exact .done _ _

end

/-! ## Statements -/

theorem conditionTexts_even (condition : Option Expr) : Even t l (conditionTexts condition) :=
  (optionTexts_even t l condition).map _ _

theorem returningText_even (items : List SelectItem) : Even t l (returningText items) := by
  unfold returningText
  by_cases hempty : items.isEmpty = true
  · rw [if_pos hempty]
    exact .done _ _
  · rw [if_neg hempty]
    refine (Even.require _).bind fun _ _ => (itemTexts_even t l items).bind fun _ _ => ?_
    exact .target (.done _ _)

theorem assignmentTexts_even (assignments : List Assignment) :
    Even t l (assignmentTexts assignments) := by
  induction assignments with
  | nil => exact .done _ _
  | cons a rest ih =>
    exact (whole_even (Expr.texts_even t l a.value)).bind fun _ _ => .target (ih.map _ _)

theorem ColumnOption.text_even (o : ColumnOption) : Even t l o.text := by
  cases o with
  | notNull | null | primaryKey | unique => exact .done _ _
  | default value => exact (operand_even (Expr.texts_even t l value) ..).map _ _
  | autoIncrement =>
    refine .target ?_
    rw [Target.laid_dialect]
    cases t.dialect.autoIncrement with
    | none => exact .unsupported _
    | some form => cases form <;> exact .done _ _

theorem optionsText_even (options : List ColumnOption) : Even t l (optionsText options) := by
  induction options with
  | nil => exact .done _ _
  | cons o rest ih => exact (ColumnOption.text_even t l o).bind fun _ _ => ih.map _ _

theorem columnTexts_even (columns : List Column) : Even t l (columnTexts columns) := by
  induction columns with
  | nil => exact .done _ _
  | cons c rest ih => exact .target ((optionsText_even t l c.options).bind fun _ _ => ih.map _ _)

theorem asQuery_even (head head' : String) (q : Query) :
    Alike t l (asQuery head q) (asQuery head' q) fun _ _ => True :=
  (Query.text_even t l q).bind fun _ _ => .target (.done _ _)

theorem CreateTable.text_even (c : CreateTable) : Even t l c.text := by
  refine .target (Even.requireIf c.ifNotExists .ifNotExists ?_)
  refine (columnTexts_even t l c.columns).bind fun _ _ => ?_
  cases c.query with
  | none => exact .done _ _
  | some q => exact asQuery_even t l _ _ q

/-- Writing a statement fails by one fault in all layouts or in none. -/
theorem Statement.text_even (s : Statement) : Even t l s.text := by
  cases s with
  | query q => exact Query.text_even t l q
  | insert i =>
    refine .target ((Query.text_even t l i.source).bind fun _ _ => ?_)
    exact (returningText_even t l i.returning).map _ _
  | update u =>
    refine .target ((assignmentTexts_even t l u.assignments).bind fun _ _ => ?_)
    refine (conditionTexts_even t l u.condition).bind fun _ _ => ?_
    exact (returningText_even t l u.returning).map _ _
  | delete d =>
    refine .target ((conditionTexts_even t l d.condition).bind fun _ _ => ?_)
    exact (returningText_even t l d.returning).map _ _
  | createTable c => exact CreateTable.text_even t l c
  | createView c => exact .target (asQuery_even t l _ _ c.query)
  | drop d =>
    refine .target (Even.requireIf d.ifExists .ifExists ?_)
    exact Even.requireIf d.cascade .dropCascade (.done _ _)

end Trees

/-! ## Texts -/

/-- A statement is refused by one fault in both layouts, or written in both. -/
theorem render_agrees (d : Dialect) (layout other : Layout) (s : Statement) :
    (∃ f, render d layout s = .error f ∧ render d other s = .error f) ∨
      ∃ a b, render d layout s = .ok a ∧ render d other s = .ok b := by
  rcases (Statement.text_even { dialect := d, layout } other s).run with hfail | ⟨a, b, ha, hb, -⟩
  · exact .inl hfail
  · exact .inr ⟨a, b, ha, hb⟩

theorem renderAll_agrees (d : Dialect) (layout other : Layout) (ss : List Statement) :
    (∃ f, renderAll d layout ss = .error f ∧ renderAll d other ss = .error f) ∨
      ∃ a b, renderAll d layout ss = .ok a ∧ renderAll d other ss = .ok b := by
  induction ss with
  | nil => exact .inr ⟨[], [], rfl, rfl⟩
  | cons s rest ih =>
    unfold renderAll
    rcases render_agrees d layout other s with ⟨f, hf, hf'⟩ | ⟨a, b, ha, hb⟩
    · rw [hf, hf']
      exact .inl ⟨f, rfl, rfl⟩
    · rw [ha, hb]
      rcases ih with ⟨f, hf, hf'⟩ | ⟨as, bs, has, hbs⟩
      · rw [hf, hf']
        exact .inl ⟨f, rfl, rfl⟩
      · rw [has, hbs]
        exact .inr ⟨_, _, rfl, rfl⟩

theorem transpile_agrees (r : Registry) (sql read write : String) (layout other : Layout) :
    (∃ f, r.transpile sql read write layout = .error f ∧
      r.transpile sql read write other = .error f) ∨
      ∃ a b, r.transpile sql read write layout = .ok a ∧
        r.transpile sql read write other = .ok b := by
  unfold Registry.transpile
  cases r.resolve read with
  | error f => exact .inl ⟨f, rfl, rfl⟩
  | ok source =>
    cases r.resolve write with
    | error f => exact .inl ⟨f, rfl, rfl⟩
    | ok target =>
      cases hparse : parse source sql with
      | error f => exact .inl ⟨f, by simp [hparse, Bind.bind, Except.bind]⟩
      | ok ss => simpa [hparse, Bind.bind, Except.bind] using renderAll_agrees target layout other ss

/-- A text is valid in a dialect exactly if the dialect writes it again, in whatever layout; the
message and the place that an invalid text gets are those of the fault in that layout. -/
theorem validate_agrees (r : Registry) (sql dialect : String) (layout : Layout) :
    ((r.validate sql dialect).isValid = true ↔
        ∃ texts, r.transpile sql dialect dialect layout = .ok texts) ∧
      ((r.validate sql dialect).isValid = false →
        ∃ f, r.transpile sql dialect dialect layout = .error f ∧
          r.validate sql dialect = .invalid f.message (f.position?.map Position.line)
            (f.position?.map Position.column)) := by
  unfold Registry.validate
  rcases transpile_agrees r sql dialect dialect {} layout with ⟨f, hf, hf'⟩ | ⟨a, b, ha, hb⟩
  · rw [hf, hf']
    refine ⟨?_, fun _ => ⟨f, rfl, rfl⟩⟩
    simp [Verdict.isValid, Verdict.ofFault]
  · rw [ha, hb]
    simp [Verdict.isValid]

/-- A text that ends behind `FROM` is refused with one fault, on one line or on several. -/
theorem openFrom_refused :
    ∃ f, Registry.builtin.transpile "SELECT * FROM" "ansi" "ansi" { pretty := true } = .error f ∧
      Registry.builtin.validate "SELECT * FROM" "ansi" = .invalid f.message
        (f.position?.map Position.line) (f.position?.map Position.column) :=
  (validate_agrees ..).2 (by decide +kernel)

end SqlDialects
