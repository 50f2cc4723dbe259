import SqlDialects.Proofs.Layout
import SqlDialects.Proofs.Sayable

/-!
# When writing succeeds

* `Asks` : a writer succeeds only if the dialect has a form for some constructs and nodes, and it does
  succeed if the dialect has one for all of them;
* `Expr.texts_asks`, `Query.text_asks`, `Statement.text_asks` : writing a tree asks for the constructs
  and the nodes of the tree, and for nothing else.

Counted parameters are the one exception: where they are bare, whether one can be written depends on
those written before it.
-/

namespace SqlDialects

open Render

theorem Render.bind_run {α β : Type} (p : Render α) (g : α → Render β) (t : Target) (n : Nat) :
    (p >>= g) t n = match p t n with
      | .ok (a, m) => g a t m
      | .error e => .error e :=
  rfl

theorem Render.target_run {β : Type} (g : Target → Render β) (t : Target) (n : Nat) :
    (Render.target >>= g) t n = g t t n :=
  rfl

/-- `p` succeeds only if the dialect writes the constructs `cs` and can say the nodes `ns`, counted
parameters apart, and succeeds if it does and can. -/
structure Asks {α : Type} (t : Target) (p : Render α) (cs : List Construct) (ns : List Node) :
    Prop where
  needs : ∀ n r, p t n = .ok r → (∀ c ∈ cs, t.dialect.writes c = true) ∧
    ∀ x ∈ ns, x.isSayable t.dialect = true ∨ x.isCounted = true
  enough : (∀ c ∈ cs, t.dialect.writes c = true) → (∀ x ∈ ns, x.isSayable t.dialect = true) →
    ∀ n, ∃ r, p t n = .ok r

namespace Asks

variable {α β : Type} {t : Target} {p : Render α} {g : α → Render β} {cs cs' : List Construct}
  {ns ns' : List Node}

theorem pure (a : α) : Asks t (Pure.pure a) [] [] :=
  ⟨fun _ _ _ => by simp, fun _ _ n => ⟨(a, n), rfl⟩⟩

theorem bind (hp : Asks t p cs ns) (hg : ∀ a, Asks t (g a) cs' ns') :
    Asks t (p >>= g) (cs ++ cs') (ns ++ ns') := by
  constructor
  · intro n r h
    simp only [Bind.bind] at h
    split at h
    case h_1 a m heq =>
      obtain ⟨hc, hx⟩ := hp.needs n _ heq
      obtain ⟨hc', hx'⟩ := (hg a).needs m r h
      exact ⟨List.forall_mem_append.mpr ⟨hc, hc'⟩, List.forall_mem_append.mpr ⟨hx, hx'⟩⟩
    case h_2 => cases h
  · intro hc hx n
    obtain ⟨hc, hc'⟩ := List.forall_mem_append.mp hc
    obtain ⟨hx, hx'⟩ := List.forall_mem_append.mp hx
    obtain ⟨⟨a, m⟩, heq⟩ := hp.enough hc hx n
    obtain ⟨r, heq'⟩ := (hg a).enough hc' hx' m
    exact ⟨r, by simp only [Bind.bind, heq, heq']⟩

theorem target {g : Target → Render β} (h : Asks t (g t) cs ns) :
    Asks t (Render.target >>= g) cs ns :=
  ⟨fun n => h.needs n, fun hc hx n => h.enough hc hx n⟩

theorem of_run {q : Render α} (h : ∀ n, p t n = q t n) (hq : Asks t q cs ns) : Asks t p cs ns :=
  ⟨fun n r hr => hq.needs n r (h n ▸ hr), fun hc hx n => h n ▸ hq.enough hc hx n⟩

/-- What is asked for matters, not in which order. -/
theorem congr (h : Asks t p cs ns) (hc : ∀ c, c ∈ cs ↔ c ∈ cs') (hn : ∀ x, x ∈ ns ↔ x ∈ ns') :
    Asks t p cs' ns' := by
  constructor
  · intro n r heq
    obtain ⟨h₁, h₂⟩ := h.needs n r heq
    exact ⟨fun c hmem => h₁ c ((hc c).mpr hmem), fun x hmem => h₂ x ((hn x).mpr hmem)⟩
  · intro h₁ h₂
    exact h.enough (fun c hmem => h₁ c ((hc c).mp hmem)) fun x hmem => h₂ x ((hn x).mp hmem)

/-- A step that asks for nothing. -/
theorem step (hp : Asks t p cs ns) (hg : ∀ a, Asks t (g a) [] []) : Asks t (p >>= g) cs ns := by
  simpa using hp.bind hg

theorem map (hp : Asks t p cs ns) (f : α → β) : Asks t (p >>= fun a => Pure.pure (f a)) cs ns :=
  hp.step fun a => pure (f a)

theorem mapIn (hp : Asks t p cs ns) (f : Target → α → β) :
    Asks t (p >>= fun a => Render.target >>= fun t => Pure.pure (f t a)) cs ns :=
  hp.step fun a => target (pure (f t a))

theorem require {c : Construct} (hc : t.dialect.writes c = t.dialect.supports c) :
    Asks t (Render.require c) [c] [] := by
  have hrun (n : Nat) : Render.require c t n =
      if t.dialect.supports c then .ok ((), n)
      else .error (.unsupported c.describe t.dialect.name none) := by
    cases h : t.dialect.supports c <;>
      simp [Render.require, Bind.bind, Render.target, h, Pure.pure, Render.unsupported]
  constructor
  · intro n r h
    rw [hrun] at h
    split at h
    case isTrue hs => simp [hc, hs]
    case isFalse => cases h
  · intro h _ n
    have hs : t.dialect.supports c = true := by simpa [hc] using h
    exact ⟨((), n), by rw [hrun, if_pos hs]⟩

/-- A construct that is asked for where `b` holds. -/
theorem requireIf {g : Unit → Render β} {c : Construct}
    (hc : t.dialect.writes c = t.dialect.supports c) (b : Bool) (hg : Asks t (g ()) cs ns) :
    Asks t (if b then Render.require c >>= g else g ()) ((if b then [c] else []) ++ cs) ns := by
  cases b with
  | false => exact hg
  | true => exact (require hc).bind fun _ => hg

/-- What fails asks for something that the dialect does not write. -/
theorem unsupported (construct : String)
    (h : (∃ c ∈ cs, t.dialect.writes c = false) ∨
      ∃ x ∈ ns, x.isSayable t.dialect = false ∧ x.isCounted = false) :
    Asks t (Render.unsupported construct : Render α) cs ns := by
  constructor
  · intro n r heq
    cases heq
  · intro hc hx
    rcases h with ⟨c, hmem, hno⟩ | ⟨x, hmem, hno, -⟩
    · rw [hc c hmem] at hno
      cases hno
    · rw [hx x hmem] at hno
      cases hno

theorem orElse {q : Render α} (hp : Asks t p cs ns) (hq : Asks t q cs ns) :
    Asks t (Render.orElse p q) cs ns := by
  constructor
  · intro n r h
    rw [Render.orElse] at h
    split at h
    case h_1 r' heq => exact hp.needs n _ heq
    case h_2 => exact hq.needs n _ h
  · intro hc hx n
    obtain ⟨r, heq⟩ := hp.enough hc hx n
    exact ⟨r, by rw [Render.orElse, heq]⟩

/-- The constructs of a node are asked for by asking for the node. -/
theorem node {x : Node} (h : Asks t p x.constructs ns) (hs : x.isSpelled t.dialect = true) :
    Asks t p [] (x :: ns) := by
  have hx : x.isSayable t.dialect = true ↔ ∀ c ∈ x.constructs, t.dialect.writes c = true := by
    rw [Node.isSayable, hs, Bool.and_true, List.all_eq_true]
  constructor
  · intro n r heq
    obtain ⟨hc, hns⟩ := h.needs n r heq
    exact ⟨by simp, List.forall_mem_cons.mpr ⟨.inl (hx.mpr hc), hns⟩⟩
  · intro _ hns
    obtain ⟨hnode, hns⟩ := List.forall_mem_cons.mp hns
    exact h.enough (hx.mp hnode) hns

end Asks

/-- A node that has no form and no constructs cannot be said. -/
theorem Node.isSayable_eq_false {x : Node} {d : Dialect} (h : x.isSpelled d = false) :
    x.isSayable d = false := by
  rw [Node.isSayable, h, Bool.and_false]

/-! ## Parts with their operands written -/

section Parts

variable {t : Target} {ns ms : List Node}

theorem whole_asks {p : Render (List String)} (h : Asks t p [] ns) : Asks t (whole p) [] ns :=
  h.mapIn Target.whole

theorem single_asks {p : Render String} (h : Asks t p [] ns) : Asks t (single p) [] ns :=
  h.map fun text => [text]

theorem operand_asks {p : Render (List String)} (h : Asks t p [] ns) (e : Expr)
    (parent : Precedence) (right : Bool) : Asks t (operand e parent right p) [] ns :=
  (whole_asks h).mapIn fun t text => t.wrap e parent right text

theorem block_asks {p : Render String} (h : Asks t p [] ns) : Asks t (block p) [] ns :=
  h.mapIn Target.block

theorem literal_asks (v : Literal) : Asks t (literal v) [] [.expr (.literal v)] := by
  refine .node (.target ?_) rfl
  cases v with
  | number _ | string _ | null => exact .pure _
  | boolean b => cases t.dialect.writing.booleans <;> exact .pure _
  | temporal kind value =>
    cases t.dialect.writing.temporals
    case keyword | cast => exact .pure _
    case function => cases kind <;> exact .pure _

/-- A counted parameter is written wherever parameters carry their numbers. -/
theorem ordinal_asks (k : Nat) (positional : Bool) {x : Node} (hx : x.isCounted = true)
    (hsay : x.isSayable t.dialect = true → t.dialect.params ≠ .question) :
    Asks t (ordinal k positional) [] [x] := by
  constructor
  · intro _ _ _
    simp [hx]
  · intro _ h n
    have hne := hsay (h x (by simp))
    cases hp : t.dialect.params with
    | question => exact absurd hp hne
    | dollar | atName | colon | questionNumbered =>
      exact ⟨_, by simp [ordinal, bindInSequence, Bind.bind, Render.target, hp, Pure.pure]; rfl⟩

theorem param_asks (p : Param) : Asks t (param p) [] [.expr (.param p)] := by
  have hsay (q : Param) (hq : Node.isSpelled t.dialect (.expr (.param q)) =
      (t.dialect.params != .question)) (h : Node.isSayable t.dialect (.expr (.param q)) = true) :
      t.dialect.params ≠ .question := by
    rw [Node.isSayable, hq, Bool.and_eq_true, bne_iff_ne] at h
    exact h.2
  cases p with
  | positional k => exact ordinal_asks k true rfl (hsay _ rfl)
  | numbered k => exact ordinal_asks k false rfl (hsay _ rfl)
  | named name =>
    refine .target ?_
    cases hmark : t.dialect.writing.namedParamMark with
    | some mark =>
      exact .node (.pure _) (by simp [Node.isSpelled, hmark])
    | none =>
      refine .unsupported _ (.inr ⟨_, List.mem_singleton_self _, ?_, rfl⟩)
      exact Node.isSayable_eq_false (by simp [Node.isSpelled, hmark])

theorem now_asks (kind : TemporalKind) : Asks t (now kind) [] [.expr (.now kind)] := by
  have hno (hs : t.dialect.saysNow kind = false) (text : String) :
      Asks t (Render.unsupported text : Render String) [] [.expr (.now kind)] :=
    .unsupported _ (.inr ⟨_, List.mem_singleton_self _, Node.isSayable_eq_false hs, rfl⟩)
  refine .target ?_
  cases kind with
  | timestamp => exact .node (.pure _) rfl
  | date =>
    cases h : t.dialect.writing.currentDate with
    | some text =>
      simp only [h]
      exact .node (.pure _) (by simp [Node.isSpelled, Dialect.saysNow, h])
    | none =>
      simp only [h]
      exact hno (by simp [Dialect.saysNow, h]) _
  | time =>
    cases h : t.dialect.writing.currentTime with
    | some text =>
      simp only [h]
      exact .node (.pure _) (by simp [Node.isSpelled, Dialect.saysNow, h])
    | none =>
      simp only [h]
      exact hno (by simp [Dialect.saysNow, h]) _

theorem binary_asks {l r : Render (List String)} (left right : Expr) (op : BinaryOp)
    (hl : Asks t l [] ns) (hr : Asks t r [] ms) :
    Asks t (binary left op right l r) [] (.expr (.binary left op right) :: (ns ++ ms)) := by
  have hsame : Node.isSpelled t.dialect (.expr (.binary left op right)) =
      (t.binaryForm op != .none) := rfl
  refine .target ?_
  cases hform : t.binaryForm op with
  | symbol s =>
    refine .node ?_ (by simp [hsame, hform])
    exact (operand_asks hl ..).bind fun a => (operand_asks hr ..).map _
  | function name =>
    refine .node ?_ (by simp [hsame, hform])
    exact (whole_asks hl).bind fun a => (whole_asks hr).map _
  | chain =>
    refine .node ?_ (by simp [hsame, hform])
    exact hl.bind fun a => hr.map _
  | none =>
    refine .unsupported _ (.inr ⟨_, List.mem_cons_self, ?_, rfl⟩)
    exact Node.isSayable_eq_false (by simp [hsame, hform])

/-- An amount that stands in quotes asks for nothing. -/
theorem quotedAmount_asks {α : Type} {e : Expr} {text : String}
    (h : Target.quotedAmount? e = some text) (a : α) : Asks t (Pure.pure a) [] e.nodes := by
  unfold Target.quotedAmount? at h
  split at h
  case h_1 | h_2 =>
    simp only [Expr.nodes]
    exact .node (.pure a) rfl
  case h_3 => cases h

theorem interval_asks {p : Render (List String)} (e : Expr) (unit : Option DateField)
    (h : Asks t p [] e.nodes) :
    Asks t (interval e unit p) [] (.expr (.interval e unit) :: e.nodes) := by
  have hno (hs : t.dialect.saysInterval e unit = false) (text : String) :
      Asks t (Render.unsupported text : Render String) [] (.expr (.interval e unit) :: e.nodes) :=
    .unsupported _ (.inr ⟨_, List.mem_cons_self, Node.isSayable_eq_false hs, rfl⟩)
  have hyes {p : Render String} (hp : Asks t p [] e.nodes)
      (hs : t.dialect.saysInterval e unit = true) :
      Asks t p [] (.expr (.interval e unit) :: e.nodes) :=
    .node hp hs
  refine .target ?_
  cases hstyle : t.dialect.writing.interval with
  | none => exact hno (by simp [Dialect.saysInterval, hstyle]) _
  | some style =>
    cases style with
    | quoted =>
      cases hq : Target.quotedAmount? e with
      | some text =>
        cases unit <;>
          exact hyes (quotedAmount_asks hq _) (by simp [Dialect.saysInterval, hstyle, hq])
      | none =>
        cases unit with
        | some u => exact hyes ((operand_asks h ..).map _) (by simp [Dialect.saysInterval, hstyle])
        | none => exact hno (by simp [Dialect.saysInterval, hstyle, hq]) _
    | bare =>
      dsimp only
      split
      case h_1 text =>
        cases hsplit : splitInterval? text with
        | some amount =>
          have hs : t.dialect.saysInterval (.literal (.string text)) none = true := by
            simp [Dialect.saysInterval, hstyle, hsplit]
          exact hyes (quotedAmount_asks rfl _) hs
        | none => exact hno (by simp [Dialect.saysInterval, hstyle, hsplit]) _
      case h_2 e u _ =>
        exact hyes ((operand_asks h ..).map _) (by simp [Dialect.saysInterval, hstyle])
      case h_3 hne =>
        refine hno ?_ _
        unfold Dialect.saysInterval
        simp only [hstyle]

theorem pattern_asks {l r : Render (List String)} (left right : Expr) (negated anyCase : Bool)
    (hl : Asks t l [] ns) (hr : Asks t r [] ms) :
    Asks t (pattern left right negated anyCase l r) [] (ns ++ ms) := by
  refine .target ?_
  dsimp only
  split
  · exact (operand_asks hl ..).bind fun a => (operand_asks hr ..).map _
  · exact (whole_asks hl).bind fun a => (whole_asks hr).map _

theorem aliased_asks (relation : String) (label : Option TableAlias) :
    Asks t (aliased relation label) [] [] := by
  refine .target ?_
  cases label <;> exact .pure _

theorem joinWords_asks (natural : Bool) (kind : JoinKind) :
    Asks t (joinWords natural kind) ((if natural then [.naturalJoin] else []) ++
      if kind = .full then [.fullOuterJoin] else []) [] := by
  cases natural <;> cases kind
  case false.full => exact (Asks.require rfl).bind fun _ => .pure _
  case true.full =>
    exact (Asks.require rfl).bind fun _ => (Asks.require rfl).bind fun _ => .pure _
  case true.inner | true.left | true.right | true.cross =>
    exact (Asks.require rfl).bind fun _ => .pure _
  all_goals exact .pure _

theorem ordering_asks (needed : Bool) (keys : List String) :
    Asks t (ordering needed keys) [] [] := by
  unfold ordering
  split
  · exact single_asks (.target (.pure _))
  · exact .pure _

/-! ## Row limits -/

theorem limitOffset_asks {count offset : Render (Option String)} (hc : Asks t count [] ns)
    (ho : Asks t offset [] ms) : Asks t (limitOffset count offset) [] (ns ++ ms) := by
  refine hc.bind fun c => ?_
  exact ho.mapIn fun t o =>
    let c := c <|> if o.isSome then t.dialect.writing.maxLimit else none
    (c.map fun c => s!"LIMIT {c}").toList ++ (o.map fun o => s!"OFFSET {o}").toList

theorem limitComma_asks {count offset : Render (Option String)} (hc : Asks t count [] ns)
    (ho : Asks t offset [] ms) : Asks t (limitComma count offset) [] (ns ++ ms) := by
  have h : Asks t (limitComma count offset) [] (ms ++ ns) :=
    ho.bind fun o => hc.map fun c =>
      let offset := o.getD ""
      let count := c.getD ""
      [s!"LIMIT {offset}, {count}"]
  exact h.congr (fun _ => .rfl) (by simp [or_comm])

/-- The clauses of a row limit that no `SELECT` carries: an offset is asked for, and where there is
`TOP` alone they cannot be written. -/
theorem limitClauses_asks {count offset : Render (Option String)} {hasCount hasOffset : Bool}
    (hc : Asks t count [] ns) (ho : Asks t offset [] ms) (hnone : hasOffset = false → ms = [])
    (htop : t.dialect.writing.limitStyle ≠ .top false) :
    Asks t (limitClauses hasCount hasOffset count offset)
      (if hasOffset then [.offset] else []) (ns ++ ms) := by
  have hoffset {p : Render (List String)} (hp : Asks t p [] (ns ++ ms))
      (hw : t.dialect.writes .offset = true) :
      Asks t p (if hasOffset then [.offset] else []) (ns ++ ms) := by
    constructor
    · intro n r heq
      exact ⟨by cases hasOffset <;> simp [hw], (hp.needs n r heq).2⟩
    · intro _ hns
      exact hp.enough (by simp) hns
  have hboth (f : Option String → Option String → List String) :
      Asks t (offset >>= fun o => count >>= fun c => Pure.pure (f o c)) [] (ns ++ ms) := by
    have h : Asks t (offset >>= fun o => count >>= fun c => Pure.pure (f o c)) [] (ms ++ ns) :=
      ho.bind fun o => hc.map (f o)
    exact h.congr (fun _ => .rfl) (by simp [or_comm])
  refine .target ?_
  dsimp only
  cases hstyle : t.dialect.writing.limitStyle with
  | limitOffset =>
    refine hoffset ?_ (by simp [Dialect.writes, hstyle])
    dsimp only
    split
    · exact .orElse (limitOffset_asks hc ho) (limitComma_asks hc ho)
    · exact limitOffset_asks hc ho
  | offsetLimit =>
    refine hoffset ?_ (by simp [Dialect.writes, hstyle])
    exact hboth fun o c => (o.map fun o => s!"OFFSET {o}").toList ++
      (c.map fun c => s!"LIMIT {c}").toList
  | fetchFirst =>
    refine hoffset ?_ (by simp [Dialect.writes, hstyle])
    exact hboth fun o c => (o.map fun o => s!"OFFSET {o} ROWS").toList ++
      (c.map fun c => s!"FETCH FIRST {c} ROWS ONLY").toList
  | limitOnly =>
    cases hasOffset with
    | true => exact .unsupported _ (.inl ⟨.offset, by simp, by simp [Dialect.writes, hstyle]⟩)
    | false =>
      rw [hnone rfl, List.append_nil]
      exact hc.map _
  | top fetch =>
    cases fetch with
    | false => exact absurd hstyle htop
    | true =>
      refine hoffset ?_ (by simp [Dialect.writes, hstyle])
      exact hboth fun o c =>
        let offset := o.getD "0"
        s!"OFFSET {offset} ROWS" :: (c.map fun c => s!"FETCH NEXT {c} ROWS ONLY").toList

/-! ## Nodes -/

/-- The count behind `TOP`. -/
def countText : Expr → Render String
  | .literal (.number digits) => return s!"TOP {digits}"
  | e => do
    let text ← whole e.texts
    return s!"TOP ({text})"

theorem countText_asks {e : Expr} (h : Asks t e.texts [] e.nodes) :
    Asks t (countText e) [] e.nodes := by
  unfold countText
  split
  · simp only [Expr.nodes]
    exact .node (.pure _) rfl
  · exact (whole_asks h).map _

theorem topText_bind_eq_none {α : Type} {body : Body} {limit : Option Limit}
    (h : ∀ l ∈ limit, t.hasTop body l = false) (g : Option String → Render α) (n : Nat) :
    (topText body limit >>= g) t n = g none t n := by
  rw [topText.eq_def]
  cases limit with
  | none => rfl
  | some l =>
    obtain ⟨count, offset⟩ := l
    have hl : ¬t.hasTop body ⟨count, offset⟩ = true := by simp [h _ rfl]
    dsimp only
    rw [bind_run, target_run, if_neg hl]
    rfl

theorem topText_bind_eq_some {α : Type} {body : Body} {e : Expr} {offset : Option Expr}
    (h : t.hasTop body ⟨some e, offset⟩ = true) (g : Option String → Render α) (n : Nat) :
    (topText body (some ⟨some e, offset⟩) >>= g) t n =
      (countText e >>= fun text => g (some text)) t n := by
  by_cases hnum : ∃ digits, e = .literal (.number digits)
  · obtain ⟨digits, rfl⟩ := hnum
    rw [topText, bind_run, target_run, if_pos h]
    rfl
  · have hne : ∀ digits, e = .literal (.number digits) → False := fun digits he => hnum ⟨digits, he⟩
    rw [topText.eq_3 _ _ _ hne, countText.eq_2 _ hne, bind_run, target_run, if_pos h]
    simp only [bind_run]
    cases whole e.texts t n <;> rfl

/-- A row limit that neither the `SELECT` nor a clause can carry cannot be said. -/
theorem query_isSayable_eq_false {q : Query} {l : Limit} (hl : q.limit = some l)
    (htop : t.dialect.writing.limitStyle = .top false) (hno : t.hasTop q.body l = false) :
    Node.isSayable t.dialect (.query q) = false := by
  rw [Node.isSayable, Bool.and_eq_false_iff]
  cases ho : l.offset with
  | some e =>
    left
    simp [Node.constructs, hl, ho, Dialect.writes, htop]
  | none =>
    right
    simpa [Node.isSpelled, hl, Dialect.saysLimit, htop, Target.hasTop, ho] using hno

/-- The clauses behind the ordering of a query whose `SELECT` does not carry its row limit. -/
theorem limitTexts_asks {q : Query} (hno : ∀ l ∈ q.limit, t.hasTop q.body l = false)
    (hl : ∀ l ∈ q.limit, Asks t (optionText l.count) [] (optionNodes l.count) ∧
      Asks t (optionText l.offset) [] (optionNodes l.offset)) :
    Asks t (limitTexts q.limit) [] (.query q :: limitNodes q.limit) := by
  cases hlimit : q.limit with
  | none =>
    simp only [limitTexts, limitNodes]
    refine .node ?_ (by simp [Node.isSpelled, hlimit])
    simpa [Node.constructs, hlimit] using Asks.pure (t := t) []
  | some l =>
    obtain ⟨count, offset⟩ := l
    obtain ⟨hc, ho⟩ := hl _ hlimit
    simp only [limitTexts, limitNodes]
    by_cases htop : t.dialect.writing.limitStyle = .top false
    · have hrun (n : Nat) : limitClauses count.isSome offset.isSome (optionText count)
          (optionText offset) t n =
          Render.unsupported (if offset.isSome then "OFFSET" else "TOP") t n := by
        rw [limitClauses, target_run]
        simp only [htop]
        rfl
      refine .of_run hrun (.unsupported _ (.inr ⟨_, List.mem_cons_self, ?_, rfl⟩))
      exact query_isSayable_eq_false hlimit htop (hno _ hlimit)
    · refine .node ?_ (by simp [Node.isSpelled, hlimit, Dialect.saysLimit, htop])
      have hnone : offset.isSome = false → optionNodes offset = [] := by
        cases offset <;> simp [optionNodes]
      simpa [Node.constructs, hlimit] using limitClauses_asks hc ho hnone htop

/-- The query whose `SELECT` carries its row limit, and any other. -/
theorem query_asks {ctes : Option With} {body : Body} {order : List OrderItem}
    {limit : Option Limit} (hw : Asks t (withTexts ctes) [] (withNodes ctes))
    (hb : ∀ top, Asks t (body.text top) [] body.nodes)
    (ho : Asks t (orderTexts order) [] (orderNodes order))
    (hcount : ∀ l ∈ limit, ∀ e ∈ l.count, Asks t e.texts [] e.nodes)
    (hlimit : ∀ l ∈ limit, Asks t (optionText l.count) [] (optionNodes l.count) ∧
      Asks t (optionText l.offset) [] (optionNodes l.offset)) :
    Asks t (Query.text ⟨ctes, body, order, limit⟩) [] (Query.nodes ⟨ctes, body, order, limit⟩) := by
  simp only [Query.text, Query.nodes]
  refine .target ?_
  by_cases hcarried : ∃ l ∈ limit, t.hasTop body l = true
  · obtain ⟨⟨count, offset⟩, rfl, htop⟩ := hcarried
    obtain ⟨fetch, hstyle, hsome, rfl, hselect⟩ := Target.hasTop_iff.mp htop
    obtain ⟨e, rfl⟩ := Option.isSome_iff_exists.mp hsome
    have hspelled : Node.isSpelled t.dialect (.query ⟨ctes, body, order, some ⟨some e, none⟩⟩) =
        true := by
      simp [Node.isSpelled, Dialect.saysLimit, hselect]
    refine .node (.congr (?_ : Asks t _ [] (withNodes ctes ++ (e.nodes ++ (body.nodes ++
      orderNodes order)))) (by simp [Node.constructs]) fun x => ?_) hspelled
    · refine hw.bind fun w => ?_
      refine .of_run (fun n => topText_bind_eq_some htop _ n) ?_
      refine (countText_asks (hcount _ rfl e rfl)).bind fun top => (hb top).bind fun b => ?_
      exact ho.step fun keys => (ordering_asks ..).map _
    · simp only [limitNodes, optionNodes, List.mem_append]
      grind
  · have hno (l : Limit) (hl : l ∈ limit) : t.hasTop body l = false := by
      simpa using fun h => hcarried ⟨l, hl, h⟩
    refine .congr (?_ : Asks t _ [] (withNodes ctes ++ (body.nodes ++ (orderNodes order ++
      (.query ⟨ctes, body, order, limit⟩ :: limitNodes limit))))) (fun _ => .rfl) fun x => ?_
    · refine hw.bind fun w => .of_run (fun n => topText_bind_eq_none hno _ n) ?_
      refine (hb none).bind fun b => ho.bind fun keys => (ordering_asks ..).bind fun _ => ?_
      exact (limitTexts_asks (q := ⟨ctes, body, order, limit⟩) hno hlimit).map _
    · simp only [List.mem_append, List.mem_cons]
      grind

theorem combine_asks (op : SetOp) (quantifier : SetQuantifier) {left right : Body}
    (hl : Asks t (left.text none) [] left.nodes) (hr : Asks t (right.text none) [] right.nodes)
    (top : Option String) : Asks t (Body.text (.combine op quantifier left right) top) []
      (Body.nodes (.combine op quantifier left right)) := by
  simp only [Body.text, Body.nodes]
  exact .node (.target (hl.bind fun l => hr.map _)) rfl

theorem select_asks {distinct : Option Distinct} {items : List SelectItem}
    {sources : List Source} {condition : Option Expr} {groupBy : List Expr}
    {having qualify : Option Expr}
    (hx : Asks t (distinctText distinct)
      (if distinct.any Distinct.isKeyed then [.distinctOn] else []) (distinctNodes distinct))
    (hi : Asks t (itemTexts items) [] (itemNodes items))
    (hs : Asks t (sourceTexts sources) [] (sourceNodes sources))
    (hc : Asks t (optionTexts condition) [] (optionNodes condition))
    (hg : Asks t (exprTexts groupBy) [] (exprNodes groupBy))
    (hh : Asks t (optionTexts having) [] (optionNodes having))
    (hq : Asks t (optionTexts qualify) [] (optionNodes qualify)) (top : Option String) :
    Asks t (Select.text ⟨distinct, items, sources, condition, groupBy, having, qualify⟩ top) []
      (Select.nodes ⟨distinct, items, sources, condition, groupBy, having, qualify⟩) := by
  simp only [Select.text, Select.nodes, List.append_assoc]
  refine .node (.target ?_) rfl
  refine hx.bind fun x => hi.bind fun i => hs.bind fun s => hc.bind fun c => hg.bind fun g => ?_
  refine hh.bind fun h => ?_
  cases qualify with
  | none => exact hq.map _
  | some e => exact (Asks.require rfl).bind fun _ => hq.map _

theorem join_asks {relation : Relation} {kind : JoinKind} {condition : JoinCondition}
    {rest : List Join} (hs : Asks t relation.text [] relation.nodes)
    (hc : Asks t condition.text (if condition.isUsing then [.joinUsing] else []) condition.nodes)
    (hr : Asks t (joinTexts rest) [] (joinNodes rest)) :
    Asks t (joinTexts (⟨relation, kind, condition⟩ :: rest)) []
      (joinNodes (⟨relation, kind, condition⟩ :: rest)) := by
  simp only [joinTexts, joinNodes, List.append_assoc]
  refine .node ?_ rfl
  exact .congr ((joinWords_asks ..).bind fun w => hs.bind fun s => hc.bind fun c =>
    .target (hr.map _)) (by simp [Node.constructs]) (fun _ => .rfl)

theorem orderItem_asks {key : Expr} {ascending nullsFirst : Option Bool} {rest : List OrderItem}
    (hk : Asks t key.texts [] key.nodes) (hr : Asks t (orderTexts rest) [] (orderNodes rest)) :
    Asks t (orderTexts (⟨key, ascending, nullsFirst⟩ :: rest)) []
      (orderNodes (⟨key, ascending, nullsFirst⟩ :: rest)) := by
  simp only [orderTexts, orderNodes]
  refine .node ?_ rfl
  cases nullsFirst with
  | none => exact (whole_asks hk).bind fun k => hr.map _
  | some _ => exact (whole_asks hk).bind fun k => (Asks.require rfl).bind fun _ => hr.map _

theorem cast_asks {e : Expr} (he : Asks t e.texts [] e.nodes) (type : DataType) (safe : Bool) :
    Asks t (Expr.texts (.cast e type safe)) [] (Expr.nodes (.cast e type safe)) := by
  simp only [Expr.texts, Expr.nodes]
  refine .target ?_
  cases safe with
  | false => exact .node ((whole_asks he).map _) rfl
  | true =>
    cases hword : t.dialect.writing.safeCast with
    | none =>
      refine .unsupported _ (.inr ⟨_, List.mem_cons_self, ?_, rfl⟩)
      simp [Node.isSayable, Node.constructs, Dialect.writes, hword]
    | some word =>
      refine .node ?_ rfl
      constructor
      · intro n r h
        refine ⟨by simp [Node.constructs, Dialect.writes, hword], ?_⟩
        exact (((whole_asks he).map _).needs n r h).2
      · intro _ h
        exact ((whole_asks he).map _).enough (by simp) h

theorem extract_asks {e : Expr} (he : Asks t e.texts [] e.nodes) (field : DateField) :
    Asks t (Expr.texts (.extract field e)) [] (Expr.nodes (.extract field e)) := by
  simp only [Expr.texts, Expr.nodes]
  refine .target ?_
  cases hform : t.dialect.writing.extract with
  | none =>
    refine .unsupported _ (.inr ⟨_, List.mem_cons_self, ?_, rfl⟩)
    exact Node.isSayable_eq_false (by simp [Node.isSpelled, hform])
  | some form =>
    have hspelled : Node.isSpelled t.dialect (.expr (.extract field e)) = true := by
      simp [Node.isSpelled, hform]
    cases form <;> exact .node ((whole_asks he).map _) hspelled

/-- A call for a position writes its needle before its haystack. -/
theorem call_asks {name : String} {args : List Arg} {distinct : Bool} {window : Option Window}
    (hp : t.asksPosition name args window = true → Asks t (positionText args) [] (argNodes args))
    (ha : Asks t (argTexts args) [] (argNodes args))
    (hw : Asks t (overText window) [] (windowNodes window)) :
    Asks t (Call.text ⟨name, args, distinct, window⟩) []
      (Call.nodes ⟨name, args, distinct, window⟩) := by
  simp only [Call.text, Call.nodes]
  refine .node (.target ?_) rfl
  split
  case isTrue h =>
    obtain ⟨-, haystack, needle, rfl, rfl⟩ := Target.asksPosition_iff.mp h
    simpa [windowNodes, Node.constructs] using hp h
  case isFalse => exact ha.bind fun a => hw.map _

end Parts

/-! ## Trees -/

mutual

theorem Expr.texts_asks (t : Target) : ∀ e : Expr, Asks t e.texts [] e.nodes
  | .name x => by
    simp only [Expr.texts, Expr.nodes]
    exact .node (.target (.pure _)) rfl
  | .path parts => by
    simp only [Expr.texts, Expr.nodes]
    exact .node (.target (.pure _)) rfl
  | .literal v => by
    simp only [Expr.texts, Expr.nodes]
    exact single_asks (literal_asks v)
  | .param p => by
    simp only [Expr.texts, Expr.nodes]
    exact single_asks (param_asks p)
  | .binary left op right => by
    simp only [Expr.texts, Expr.nodes]
    exact binary_asks left right op (Expr.texts_asks t left) (Expr.texts_asks t right)
  | .unary op e => by
    simp only [Expr.texts, Expr.nodes]
    exact .node ((operand_asks (Expr.texts_asks t e) ..).map _) rfl
  | .call f => by
    simp only [Expr.texts, Expr.nodes]
    exact .node (single_asks (Call.text_asks t f)) rfl
  | .cast e type safe => cast_asks (Expr.texts_asks t e) type safe
  | .case subject branches otherwise => by
    simp only [Expr.texts, Expr.nodes, List.append_assoc]
    refine .node ?_ rfl
    refine (optionTexts_asks t subject).bind fun s => (branchTexts_asks t branches).bind fun b => ?_
    exact (optionTexts_asks t otherwise).map _
  | .cond condition yes no => by
    simp only [Expr.texts, Expr.nodes, List.append_assoc]
    refine .node ?_ rfl
    refine (whole_asks (Expr.texts_asks t condition)).bind fun c => ?_
    refine (whole_asks (Expr.texts_asks t yes)).bind fun y => ?_
    refine (whole_asks (Expr.texts_asks t no)).step fun n => .target ?_
    cases t.dialect.writing.ifFunction <;> exact .pure _
  | .between e negated low high => by
    simp only [Expr.texts, Expr.nodes, List.append_assoc]
    refine .node ?_ rfl
    refine (operand_asks (Expr.texts_asks t e) ..).bind fun a => ?_
    exact (operand_asks (Expr.texts_asks t low) ..).bind fun b =>
      (operand_asks (Expr.texts_asks t high) ..).map _
  | .inList e items negated => by
    simp only [Expr.texts, Expr.nodes]
    refine .node ?_ rfl
    exact .congr ((exprTexts_asks t items).bind fun b =>
      (operand_asks (Expr.texts_asks t e) ..).map _) (fun _ => .rfl) (by simp [or_comm])
  | .inQuery e q negated => by
    simp only [Expr.texts, Expr.nodes]
    refine .node ?_ rfl
    exact (operand_asks (Expr.texts_asks t e) ..).bind fun a =>
      (block_asks (Query.text_asks t q)).map _
  | .like e p negated anyCase escape => by
    simp only [Expr.texts, Expr.nodes]
    refine .node ?_ rfl
    exact (pattern_asks e p negated anyCase (Expr.texts_asks t e) (Expr.texts_asks t p)).bind
      fun a => (escapeText_asks t escape).map _
  | .isNull e negated => by
    simp only [Expr.texts, Expr.nodes]
    exact .node ((operand_asks (Expr.texts_asks t e) ..).map _) rfl
  | .exists q negated => by
    simp only [Expr.texts, Expr.nodes]
    exact .node ((block_asks (Query.text_asks t q)).map _) rfl
  | .subquery q => by
    simp only [Expr.texts, Expr.nodes]
    exact .node (single_asks (block_asks (Query.text_asks t q))) rfl
  | .nested e => by
    simp only [Expr.texts, Expr.nodes]
    exact .node ((whole_asks (Expr.texts_asks t e)).map _) rfl
  | .extract field e => extract_asks (Expr.texts_asks t e) field
  | .interval e unit => by
    simp only [Expr.texts, Expr.nodes]
    exact single_asks (interval_asks e unit (Expr.texts_asks t e))
  | .now kind => by
    simp only [Expr.texts, Expr.nodes]
    exact single_asks (now_asks kind)

theorem optionTexts_asks (t : Target) :
    ∀ o : Option Expr, Asks t (optionTexts o) [] (optionNodes o)
  | none => by
    simp only [optionTexts, optionNodes]
    exact .pure _
  | some e => by
    simp only [optionTexts, optionNodes]
    exact (whole_asks (Expr.texts_asks t e)).map _

theorem escapeText_asks (t : Target) :
    ∀ o : Option Expr, Asks t (escapeText o) [] (optionNodes o)
  | none => by
    simp only [escapeText, optionNodes]
    exact .pure _
  | some e => by
    simp only [escapeText, optionNodes]
    exact (operand_asks (Expr.texts_asks t e) ..).map _

theorem exprTexts_asks (t : Target) : ∀ es : List Expr, Asks t (exprTexts es) [] (exprNodes es)
  | [] => by
    simp only [exprTexts, exprNodes]
    exact .pure _
  | e :: es => by
    simp only [exprTexts, exprNodes]
    exact (whole_asks (Expr.texts_asks t e)).bind fun a => (exprTexts_asks t es).map _

theorem branchTexts_asks (t : Target) :
    ∀ bs : List Branch, Asks t (branchTexts bs) [] (branchNodes bs)
  | [] => by
    simp only [branchTexts, branchNodes]
    exact .pure _
  | ⟨condition, result⟩ :: rest => by
    simp only [branchTexts, branchNodes, List.append_assoc]
    refine (whole_asks (Expr.texts_asks t condition)).bind fun c => ?_
    exact (whole_asks (Expr.texts_asks t result)).bind fun r => (branchTexts_asks t rest).map _

theorem Call.text_asks (t : Target) : ∀ f : Call, Asks t f.text [] f.nodes
  | ⟨_, args, _, window⟩ =>
    call_asks (positionText_asks t args) (argTexts_asks t args) (overText_asks t window)

theorem positionText_asks (t : Target) : ∀ args : List Arg, ∀ {name : String}
    {window : Option Window}, t.asksPosition name args window = true →
      Asks t (positionText args) [] (argNodes args)
  | [.expr haystack, .expr needle] => fun _ => by
    simp only [positionText, argNodes, List.append_nil]
    exact .congr ((operand_asks (Expr.texts_asks t needle) ..).bind fun a =>
      (whole_asks (Expr.texts_asks t haystack)).map _) (fun _ => .rfl) (by simp [or_comm])
  | [] | [_] | .star :: _ :: _ | [.expr _, .star] | .expr _ :: _ :: _ :: _ => fun h => by
    obtain ⟨-, _, _, heq, -⟩ := Target.asksPosition_iff.mp h
    simp at heq

theorem argTexts_asks (t : Target) : ∀ args : List Arg, Asks t (argTexts args) [] (argNodes args)
  | [] => by
    simp only [argTexts, argNodes]
    exact .pure _
  | .star :: rest => by
    simp only [argTexts, argNodes]
    exact (argTexts_asks t rest).map _
  | .expr e :: rest => by
    simp only [argTexts, argNodes]
    exact (whole_asks (Expr.texts_asks t e)).bind fun a => (argTexts_asks t rest).map _

theorem overText_asks (t : Target) :
    ∀ w : Option Window, Asks t (overText w) [] (windowNodes w)
  | none => by
    simp only [overText, windowNodes]
    exact .pure _
  | some ⟨partitionBy, order, frame⟩ => by
    simp only [overText, windowNodes, List.append_assoc]
    refine (exprTexts_asks t partitionBy).bind fun k => (orderTexts_asks t order).bind fun o => ?_
    exact (frameText_asks t frame).map _

theorem orderTexts_asks (t : Target) :
    ∀ items : List OrderItem, Asks t (orderTexts items) [] (orderNodes items)
  | [] => by
    simp only [orderTexts, orderNodes]
    exact .pure _
  | ⟨key, _, _⟩ :: rest => orderItem_asks (Expr.texts_asks t key) (orderTexts_asks t rest)

theorem frameText_asks (t : Target) :
    ∀ f : Option Frame, Asks t (frameText f) [] (frameNodes f)
  | none => by
    simp only [frameText, frameNodes]
    exact .pure _
  | some ⟨unit, start, stop⟩ => by
    simp only [frameText, frameNodes]
    refine (Bound.text_asks t start).bind fun s => (stopText_asks t stop).step fun e => ?_
    cases e <;> exact .pure _

theorem stopText_asks (t : Target) :
    ∀ b : Option Bound, Asks t (stopText b) [] (stopNodes b)
  | none => by
    simp only [stopText, stopNodes]
    exact .pure _
  | some b => by
    simp only [stopText, stopNodes]
    exact (Bound.text_asks t b).map _

theorem Bound.text_asks (t : Target) : ∀ b : Bound, Asks t b.text [] b.nodes
  | .unboundedPreceding | .unboundedFollowing | .currentRow => by
    simp only [Bound.text, Bound.nodes]
    exact .node (.pure _) rfl
  | .preceding e | .following e => by
    simp only [Bound.text, Bound.nodes]
    exact .node ((operand_asks (Expr.texts_asks t e) ..).map _) rfl

theorem Query.text_asks (t : Target) : ∀ q : Query, Asks t q.text [] q.nodes
  | ⟨ctes, body, order, limit⟩ =>
    query_asks (withTexts_asks t ctes) (Body.text_asks t body) (orderTexts_asks t order)
      (countTexts_asks t limit) (limitParts_asks t limit)

theorem countTexts_asks (t : Target) :
    ∀ limit : Option Limit, ∀ l ∈ limit, ∀ e ∈ l.count, Asks t e.texts [] e.nodes
  | none => by simp
  | some ⟨none, _⟩ => by simp
  | some ⟨some e, _⟩ => by simpa using Expr.texts_asks t e

theorem limitParts_asks (t : Target) : ∀ limit : Option Limit, ∀ l ∈ limit,
    Asks t (optionText l.count) [] (optionNodes l.count) ∧
      Asks t (optionText l.offset) [] (optionNodes l.offset)
  | none => by simp
  | some ⟨count, offset⟩ => by simpa using ⟨optionText_asks t count, optionText_asks t offset⟩

theorem optionText_asks (t : Target) :
    ∀ o : Option Expr, Asks t (optionText o) [] (optionNodes o)
  | none => by
    simp only [optionText, optionNodes]
    exact .pure _
  | some e => by
    simp only [optionText, optionNodes]
    exact (whole_asks (Expr.texts_asks t e)).map _

theorem withTexts_asks (t : Target) : ∀ w : Option With, Asks t (withTexts w) [] (withNodes w)
  | none => by
    simp only [withTexts, withNodes]
    exact .pure _
  | some ⟨recursive, tables⟩ => by
    simp only [withTexts, withNodes]
    exact (cteTexts_asks t tables).step fun _ => .target (.pure _)

theorem cteTexts_asks (t : Target) :
    ∀ tables : List Cte, Asks t (cteTexts tables) [] (cteNodes tables)
  | [] => by
    simp only [cteTexts, cteNodes]
    exact .pure _
  | ⟨_, _, query⟩ :: rest => by
    simp only [cteTexts, cteNodes]
    exact (block_asks (Query.text_asks t query)).bind fun _ => .target ((cteTexts_asks t rest).map _)

theorem Body.text_asks (t : Target) : ∀ (b : Body) (top : Option String),
    Asks t (b.text top) [] b.nodes
  | .select s, top => by
    simp only [Body.text, Body.nodes]
    exact .node (Select.text_asks t s top) rfl
  | .query q, _ => by
    simp only [Body.text, Body.nodes]
    exact .node (block_asks (Query.text_asks t q)) rfl
  | .values rows, _ => by
    simp only [Body.text, Body.nodes]
    exact .node ((rowTexts_asks t rows).step fun _ => .target (.pure _)) rfl
  | .combine op quantifier left right, top =>
    combine_asks op quantifier (Body.text_asks t left none) (Body.text_asks t right none) top

theorem rowTexts_asks (t : Target) :
    ∀ rows : List (List Expr), Asks t (rowTexts rows) [] (rowNodes rows)
  | [] => by
    simp only [rowTexts, rowNodes]
    exact .pure _
  | row :: rest => by
    simp only [rowTexts, rowNodes]
    exact (exprTexts_asks t row).bind fun _ => (rowTexts_asks t rest).map _

theorem Select.text_asks (t : Target) : ∀ (s : Select) (top : Option String),
    Asks t (s.text top) [] s.nodes
  | ⟨distinct, items, sources, condition, groupBy, having, qualify⟩, top =>
    select_asks (distinctText_asks t distinct) (itemTexts_asks t items) (sourceTexts_asks t sources)
      (optionTexts_asks t condition) (exprTexts_asks t groupBy) (optionTexts_asks t having)
      (optionTexts_asks t qualify) top

theorem distinctText_asks (t : Target) : ∀ x : Option Distinct, Asks t (distinctText x)
    (if x.any Distinct.isKeyed then [.distinctOn] else []) (distinctNodes x)
  | none => by
    simp only [distinctText, distinctNodes]
    exact .pure _
  | some .all => by
    simp only [distinctText, distinctNodes]
    exact .pure _
  | some (.on keys) => by
    simp only [distinctText, distinctNodes]
    exact (Asks.require rfl).bind fun _ => (exprTexts_asks t keys).map _

theorem itemTexts_asks (t : Target) :
    ∀ items : List SelectItem, Asks t (itemTexts items) [] (itemNodes items)
  | [] => by
    simp only [itemTexts, itemNodes]
    exact .pure _
  | .star :: rest => by
    simp only [itemTexts, itemNodes]
    exact (itemTexts_asks t rest).map _
  | .qualifiedStar table :: rest => by
    simp only [itemTexts, itemNodes]
    exact .target ((itemTexts_asks t rest).map _)
  | .expr e _ :: rest => by
    simp only [itemTexts, itemNodes]
    exact (whole_asks (Expr.texts_asks t e)).bind fun _ => .target ((itemTexts_asks t rest).map _)

theorem sourceTexts_asks (t : Target) :
    ∀ sources : List Source, Asks t (sourceTexts sources) [] (sourceNodes sources)
  | [] => by
    simp only [sourceTexts, sourceNodes]
    exact .pure _
  | ⟨relation, joins⟩ :: rest => by
    simp only [sourceTexts, sourceNodes, List.append_assoc]
    refine (Relation.text_asks t relation).bind fun _ => (joinTexts_asks t joins).bind fun _ => ?_
    exact (sourceTexts_asks t rest).map _

theorem Relation.text_asks (t : Target) : ∀ r : Relation, Asks t r.text [] r.nodes
  | .table name label => by
    simp only [Relation.text, Relation.nodes]
    exact .node (.target (aliased_asks ..)) rfl
  | .derived q label => by
    simp only [Relation.text, Relation.nodes]
    exact .node ((block_asks (Query.text_asks t q)).step fun _ => aliased_asks ..) rfl
  | .function call label => by
    simp only [Relation.text, Relation.nodes]
    exact .node ((Call.text_asks t call).step fun _ => aliased_asks ..) rfl

theorem joinTexts_asks (t : Target) :
    ∀ joins : List Join, Asks t (joinTexts joins) [] (joinNodes joins)
  | [] => by
    simp only [joinTexts, joinNodes]
    exact .pure _
  | ⟨relation, _, condition⟩ :: rest =>
    join_asks (Relation.text_asks t relation) (JoinCondition.text_asks t condition)
      (joinTexts_asks t rest)

theorem JoinCondition.text_asks (t : Target) : ∀ c : JoinCondition,
    Asks t c.text (if c.isUsing then [.joinUsing] else []) c.nodes
  | .on e => by
    simp only [JoinCondition.text, JoinCondition.nodes]
    exact (whole_asks (Expr.texts_asks t e)).map _
  | .using columns => by
    simp only [JoinCondition.text, JoinCondition.nodes]
    exact (Asks.require rfl).step fun _ => .target (.pure _)
  | .natural => by
    simp only [JoinCondition.text, JoinCondition.nodes]
    exact .pure _
  | .none => by
    simp only [JoinCondition.text, JoinCondition.nodes]
    exact .pure _

end

/-! ## Statements -/

section Statements

variable {t : Target}

theorem conditionTexts_asks (condition : Option Expr) :
    Asks t (conditionTexts condition) [] (optionNodes condition) :=
  (optionTexts_asks t condition).map _

theorem returningText_asks (items : List SelectItem) :
    Asks t (returningText items) (returningConstructs items) (itemNodes items) := by
  unfold returningText returningConstructs
  cases items with
  | nil =>
    simp only [itemNodes]
    exact .pure _
  | cons item rest =>
    exact (Asks.require rfl).bind fun _ => (itemTexts_asks t (item :: rest)).step fun _ =>
      .target (.pure _)

theorem assignmentTexts_asks (assignments : List Assignment) :
    Asks t (assignmentTexts assignments) [] (assignments.flatMap (·.value.nodes)) := by
  induction assignments with
  | nil => exact .pure _
  | cons a rest ih =>
    rw [List.flatMap_cons]
    exact (whole_asks (Expr.texts_asks t a.value)).bind fun _ => .target (ih.map _)

theorem columnOption_asks (o : ColumnOption) : Asks t o.text o.constructs o.nodes := by
  cases o with
  | notNull | null | primaryKey | unique => exact .pure _
  | default value => exact (operand_asks (Expr.texts_asks t value) ..).map _
  | autoIncrement =>
    refine .target ?_
    cases hform : t.dialect.autoIncrement with
    | none =>
      exact .unsupported _ (.inl ⟨.autoIncrement, List.mem_singleton_self _,
        by simp [Dialect.writes, hform]⟩)
    | some form =>
      have hw : t.dialect.writes .autoIncrement = true := by simp [Dialect.writes, hform]
      have hpure (text : String) :
          Asks t (Pure.pure text) (ColumnOption.constructs .autoIncrement) [] :=
        ⟨fun _ _ _ => by simp [ColumnOption.constructs, hw], fun _ _ n => ⟨(text, n), rfl⟩⟩
      cases form <;> exact hpure _

theorem optionsText_asks (options : List ColumnOption) :
    Asks t (optionsText options) (options.flatMap ColumnOption.constructs)
      (options.flatMap ColumnOption.nodes) := by
  induction options with
  | nil => exact .pure _
  | cons o rest ih => exact (columnOption_asks o).bind fun _ => ih.map _

theorem columnTexts_asks (columns : List Column) :
    Asks t (columnTexts columns)
      (columns.flatMap fun column => column.options.flatMap ColumnOption.constructs)
      (columns.flatMap Column.nodes) := by
  induction columns with
  | nil => exact .pure _
  | cons c rest ih => exact .target ((optionsText_asks c.options).bind fun _ => ih.map _)

theorem asQuery_asks (head : String) (q : Query) : Asks t (asQuery head q) [] q.nodes :=
  (Query.text_asks t q).step fun _ => .target (.pure _)

theorem insert_asks (i : Insert) :
    Asks t i.text (returningConstructs i.returning) (i.source.nodes ++ itemNodes i.returning) :=
  .target ((Query.text_asks t i.source).bind fun _ => (returningText_asks i.returning).map _)

theorem update_asks (u : Update) : Asks t u.text (returningConstructs u.returning)
    (u.assignments.flatMap (·.value.nodes) ++ optionNodes u.condition ++
      itemNodes u.returning) := by
  rw [List.append_assoc]
  exact .target ((assignmentTexts_asks u.assignments).bind fun _ =>
    (conditionTexts_asks u.condition).bind fun _ => (returningText_asks u.returning).map _)

theorem delete_asks (d : Delete) : Asks t d.text (returningConstructs d.returning)
    (optionNodes d.condition ++ itemNodes d.returning) :=
  .target ((conditionTexts_asks d.condition).bind fun _ => (returningText_asks d.returning).map _)

theorem createTable_asks (c : CreateTable) : Asks t c.text
    ((if c.ifNotExists then [.ifNotExists] else []) ++
      c.columns.flatMap fun column => column.options.flatMap ColumnOption.constructs)
    (c.columns.flatMap Column.nodes ++ (c.query.map Query.nodes).getD []) := by
  refine .target (.requireIf rfl c.ifNotExists ?_)
  refine .congr ((columnTexts_asks c.columns).bind fun _ => (?_ : Asks t _ []
    ((c.query.map Query.nodes).getD []))) (by simp) (fun _ => .rfl)
  cases c.query with
  | none => exact .pure _
  | some q => exact asQuery_asks _ q

theorem drop_asks (d : Drop) : Asks t d.text
    ((if d.ifExists then [.ifExists] else []) ++ if d.cascade then [.dropCascade] else []) [] := by
  rw [← List.append_nil (if d.cascade then _ else _)]
  exact .target (.requireIf rfl d.ifExists (.requireIf rfl d.cascade (.pure _)))

/-- A statement is written exactly where the dialect writes its constructs and can say its nodes,
counted parameters apart. -/
theorem Statement.text_asks (s : Statement) : Asks t s.text s.ownConstructs s.nodes := by
  cases s with
  | query q => exact Query.text_asks t q
  | insert i => exact insert_asks i
  | update u => exact update_asks u
  | delete d => exact delete_asks d
  | createTable c => exact createTable_asks c
  | createView c => exact .target (asQuery_asks _ c.query)
  | drop d => exact drop_asks d

end Statements

end SqlDialects
