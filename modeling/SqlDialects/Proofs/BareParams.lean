import SqlDialects.Proofs.BindOrder

/-!
# Every bare parameter is written for the ordinal of its place

* `Dialect.BindsBare` : what the theory asks of a dialect; `bindsBare_of_mem_builtins` for those that
  come with the library;
* `Expr.texts_writes`, `Query.text_writes`, `Select.text_writes`, ... : the texts of trees, one
  induction over all of them;
* `bare_params_in_order_iff` : the places of a text read `1, 2, ...` exactly if the tree keeps the
  order.
-/

namespace SqlDialects

open Render

/-- A dialect that writes bare parameters. Its quotes are no marks, and a count in front of the
projection never stands behind keys that are written later. -/
structure Dialect.BindsBare (d : Dialect) : Prop where
  question : d.params = .question
  apart : d.QuotesApart
  top : ∀ fetch, d.writing.limitStyle = .top fetch → d.supports .distinctOn = false

section Limits

variable {d : Dialect} {l : Layout} {ns ms : List Node} {n m k : Nat}

/-- A clause of a text that may be missing. -/
theorem WrittenOption.clause {f : Marking → Option String} (hf : WrittenOption d ns n f m)
    (left right : String) :
    WrittenAll d ns n (fun b => ((f b).map fun c => left ++ c ++ right).toList) m := by
  rcases hf with ⟨rfl, rfl, hf⟩ | ⟨g, hf, hg⟩
  · simpa [hf] using WrittenAll.nil d _
  · simpa [hf] using (hg.around left right).single

theorem limitOffset_steady {C O : Marking → Render (Option String)}
    (hC : ∀ n, Steady d l C n (WrittenOption d ns n))
    (hO : ∀ n, Steady d l O n (WrittenOption d ms n)) :
    Steady d l (fun b => limitOffset (C b) (O b)) n (WrittenAll d (ns ++ ms) n) := by
  refine (hC n).bind fun f m hf => (hO m).bind fun g k hg => .target (fun _ => rfl) (.pure ?_)
  have hoffset := hg.clause "OFFSET " ""
  rcases hf with ⟨rfl, rfl, hf⟩ | ⟨c, hf, hc⟩
  · -- without a count the greatest one is written, which has no places
    have hmost : WrittenAll d [] m (fun b =>
        ((if (g b).isSome then d.writing.maxLimit else none).map fun c => "LIMIT " ++ c).toList)
        m := by
      rcases hg with ⟨-, -, hg⟩ | ⟨o, hg, -⟩
      · simpa [hg] using WrittenAll.nil d m
      · simpa [hg] using WrittenAll.const d m _
    simpa [hf] using hmost.append hoffset
  · have hcount := (hc.around "LIMIT " "").single
    simpa [hf] using hcount.append hoffset

theorem limitComma_steady {C O : Marking → Render (Option String)}
    (hC : ∀ n, Steady d l C n (WrittenOption d ns n))
    (hO : ∀ n, Steady d l O n (WrittenOption d ms n)) :
    Steady d l (fun b => limitComma (C b) (O b)) n (WrittenAll d (ms ++ ns) n) := by
  have htext {f : Marking → Option String} {ns : List Node} {n m : Nat}
      (hf : WrittenOption d ns n f m) : Written d ns n (fun b => (f b).getD "") m := by
    rcases hf with ⟨rfl, rfl, hf⟩ | ⟨g, hf, hg⟩
    · simpa [hf] using Written.const d _ ""
    · simpa [hf] using hg
  refine (hO n).bind fun f m hf => (hC m).bind fun g k hg => .pure (Written.single ?_)
  simpa [String.append_assoc] using
    ((htext hf).append ((htext hg).around ", " "")).around "LIMIT " ""

theorem limitClauses_steady {C O : Marking → Render (Option String)} (hasCount hasOffset : Bool)
    (hC : ∀ n, Steady d l C n (WrittenOption d ns n))
    (hO : ∀ n, Steady d l O n (WrittenOption d ms n)) (ho : hasOffset = false → ms = []) :
    Steady d l (fun b => limitClauses hasCount hasOffset (C b) (O b)) n
      (WrittenAll d (ns ++ ms) n) := by
  have hfirst : Steady d l (fun b => limitOffset (C b) (O b)) n (WrittenAll d (ns ++ ms) n) :=
    limitOffset_steady hC hO
  have hsecond : Steady d l (fun b => limitComma (C b) (O b)) n (WrittenAll d (ns ++ ms) n) :=
    (limitComma_steady hC hO).mono fun f m hf => hf.permNodes List.perm_append_comm
  -- the offset stands before the count, between the given texts
  have hoffsetFirst (a z a' z' : String) : Steady d l (fun b => do
      let offset := (← O b).map fun o => a ++ o ++ z
      let count := (← C b).map fun c => a' ++ c ++ z'
      return offset.toList ++ count.toList) n (WrittenAll d (ns ++ ms) n) := by
    refine (hO n).bind fun f m hf => (hC m).bind fun g k hg => .pure ?_
    exact ((hf.clause a z).append (hg.clause a' z')).permNodes List.perm_append_comm
  refine .target (fun _ => rfl) ?_
  dsimp only
  cases d.writing.limitStyle with
  | limitOffset =>
    dsimp only
    split
    · exact hfirst.orElse hsecond
    · exact hfirst
  | offsetLimit =>
    simpa only [String.append_empty, toString_text] using
      hoffsetFirst "OFFSET " "" "LIMIT " ""
  | fetchFirst => exact hoffsetFirst "OFFSET " " ROWS" "FETCH FIRST " " ROWS ONLY"
  | limitOnly =>
    cases hasOffset with
    | true => exact .inr fun b => ⟨_, rfl⟩
    | false =>
      obtain rfl := ho rfl
      refine (hC n).bind fun f m hf => .pure ?_
      simpa using hf.clause "LIMIT " ""
  | top fetch =>
    cases fetch with
    | false => exact .inr fun b => ⟨_, rfl⟩
    | true =>
      refine (hO n).bind fun f m hf => (hC m).bind fun g k hg => .pure ?_
      have hoffset : Written d ms n (fun b => "OFFSET " ++ (f b).getD "0" ++ " ROWS") m := by
        rcases hf with ⟨rfl, rfl, hf⟩ | ⟨o, hf, ho⟩
        · simpa [hf] using Written.const d _ "OFFSET 0 ROWS"
        · simpa [hf] using ho.around "OFFSET " " ROWS"
      have hcount := hg.clause "FETCH NEXT " " ROWS ONLY"
      simpa using (WrittenAll.cons hoffset hcount).permNodes List.perm_append_comm

end Limits

section Clauses

variable {d : Dialect} {l : Layout} {ns ms : List Node} {n m k : Nat}

theorem block_steady (hd : d.BindsBare) {P : Marking → Render String}
    (hP : Steady d l P n (Written d ns n)) :
    Steady d l (fun b => Render.block (P b)) n (Written d ns n) :=
  hP.bind fun _ _ hf => .target (fun _ => rfl) (.pure (hf.block hd.apart))

theorem aliased_steady {f : Marking → String} (hf : Written d ns n f m)
    (label : Option TableAlias) :
    Steady d l (fun b => aliased (f b) label) m (Written d ns n) := by
  refine .target (fun _ => rfl) ?_
  cases label with
  | none => exact .pure hf
  | some a => simpa [String.append_assoc] using .pure (hf.around "" _)

theorem joinWords_steady (natural : Bool) (kind : JoinKind) :
    Steady d l (fun _ => joinWords natural kind) n (Written d [] n) := by
  unfold joinWords
  cases natural with
  | true =>
    refine .require _ fun _ => ?_
    cases kind
    case full => exact .require _ fun _ => .pure (.const d n _)
    all_goals exact .pure (.const d n _)
  | false =>
    cases kind
    case full => exact .require _ fun _ => .pure (.const d n _)
    all_goals exact .pure (.const d n _)

/-- No texts may be replaced by texts without places. -/
theorem WrittenAll.replace {f g : Marking → List String} (hf : WrittenAll d ns n f m)
    (he : ∀ b, (f b).isEmpty = true) (hg : FollowAll g []) : WrittenAll d ns n g m := by
  obtain ⟨ks, ⟨Ts, rfl, hT⟩, hp⟩ := hf
  obtain rfl : Ts = [] := by simpa [hT] using he .plain
  exact ⟨[], hg, hp⟩

/-- A clause that a list makes, and other texts for no list. -/
theorem WrittenAll.clause {f : Marking → List String} (hf : WrittenAll d ns n f m)
    (xs : List String) (c : List String → String)
    (hc : ∀ g ks, FollowAll g ks → Follows (fun b => c (g b)) ks) :
    WrittenAll d ns n (fun b => if (f b).isEmpty then xs else [c (f b)]) m := by
  rcases hf.isEmpty with he | he
  · simpa only [he, if_true] using hf.replace he (.const xs)
  · simp only [he, Bool.false_eq_true, if_false]
    exact hf.imp fun ks h => ⟨.single (hc _ _ h.1), h.2⟩

/-- A keyword in front of each text. -/
theorem WrittenAll.keyword {f : Marking → List String} (hf : WrittenAll d ns n f m)
    (word : String) : WrittenAll d ns n (fun b => (f b).map fun text => word ++ text) m :=
  hf.map fun h ls hh => by simpa using hh.around word ""

theorem WrittenAll.listClause {t : Target} (ht : t.dialect.QuotesApart)
    {f : Marking → List String} (hf : WrittenAll d ns n f m) (word : String) (xs : List String) :
    WrittenAll d ns n (fun b => if (f b).isEmpty then xs else [t.listClause word (f b)]) m :=
  hf.clause xs (t.listClause word) fun _ _ hg => Follows.listClause ht (.const word) hg

theorem WrittenAll.commaClause {f : Marking → List String} (hf : WrittenAll d ns n f m)
    (word : String) :
    WrittenAll d ns n
      (fun b => if (f b).isEmpty then [] else [word ++ String.intercalate ", " (f b)]) m :=
  hf.clause [] (fun xs => word ++ String.intercalate ", " xs) fun g ks hg => by
    simpa using (hg.intercalate ", ").around word ""

/-- An arbitrary ordering stands only where there is none. -/
theorem ordering_steady {f : Marking → List String} (hf : WrittenAll d ns n f m)
    (needed : Marking → Bool) (hneeded : ∀ b, needed b = needed .plain) :
    Steady d l (fun b => ordering (needed b) (f b)) m
      (fun g k => k = m ∧ WrittenAll d ns n g m) := by
  simp only [ordering, hneeded]
  rcases hf.isEmpty with he | he
  · simp only [he, Bool.true_and]
    split
    · have hnull : Steady d l (fun _ => arbitraryOrder) m (fun g k => k = m ∧ Follows g []) :=
        .target (fun _ => rfl) (.pure ⟨rfl, .const _⟩)
      refine hnull.bind fun g k hg => .pure ⟨hg.1, ?_⟩
      exact hf.replace he (.single hg.2)
    · exact .pure ⟨rfl, hf⟩
  · simp only [he, Bool.false_and, Bool.false_eq_true, if_false]
    exact .pure ⟨rfl, hf⟩

/-- The count in front of a projection that can carry one: none, or one in a dialect without keys
that stand before it. -/
def WrittenTop (d : Dialect) (carries : Bool) (ns : List Node) (n : Nat)
    (f : Marking → Option String) (m : Nat) : Prop :=
  (ns = [] ∧ m = n ∧ ∀ b, f b = none) ∨
    (carries = true ∧ d.supports .distinctOn = false ∧
      ∃ g, (∀ b, f b = some (g b)) ∧ Written d ns n g m)

/-- What cannot carry a count has none. -/
theorem WrittenTop.eq_none {carries : Bool} {f : Marking → Option String}
    (hf : WrittenTop d carries ns n f m) (hc : carries = false) :
    ns = [] ∧ m = n ∧ ∀ b, f b = none := by
  rcases hf with h | ⟨h, -⟩
  · exact h
  · rw [hc] at h
    cases h

/-- The count behind a fixed text. -/
theorem WrittenTop.after {carries : Bool} {f : Marking → Option String}
    (hf : WrittenTop d carries ns n f m) (word : String) :
    Written d ns n (fun b => word ++ ((f b).map fun text => " " ++ text).getD "") m := by
  rcases hf with ⟨rfl, rfl, hf⟩ | ⟨-, -, g, hf, hg⟩
  · simpa [hf] using Written.const d _ word
  · simpa [hf, String.append_assoc] using hg.around (word ++ " ") ""

end Clauses

/-! ## One step

What a node writes, given what its parts write. -/

/-- `p` writes the nodes `ns` as one text. -/
def Writes (d : Dialect) (l : Layout) (p : Render String) (ns : List Node) : Prop :=
  ∀ n, Steady d l (fun _ => p) n (Written d ns n)

/-- `p` writes the nodes `ns` as several texts. -/
def WritesAll (d : Dialect) (l : Layout) (p : Render (List String)) (ns : List Node) : Prop :=
  ∀ n, Steady d l (fun _ => p) n (WrittenAll d ns n)

section Exprs

variable {d : Dialect} {l : Layout} {e e₁ e₂ e₃ : Expr} {q : Query}

theorem cast_writes (he : WritesAll d l e.texts e.nodes) (type : DataType) (safe : Bool) :
    WritesAll d l (Expr.cast e type safe).texts (Expr.cast e type safe).nodes := by
  intro n
  simp only [Expr.texts, Expr.nodes]
  refine .target (fun _ => rfl) ?_
  dsimp only
  have hcast (word : String) : Steady d l (fun _ => do
      let text ← whole e.texts
      return [word ++ "(" ++ text ++ " AS " ++
        Target.dataType { dialect := d, layout := l } type ++ ")"]) n
      (WrittenAll d (.expr (.cast e type safe) :: e.nodes) n) := by
    refine (whole_steady (he n)).bind fun f m hf => .pure (Written.node ?_ rfl rfl).single
    simpa [String.append_assoc] using hf.around (word ++ "(")
      (" AS " ++ Target.dataType { dialect := d, layout := l } type ++ ")")
  cases safe with
  | false => exact hcast "CAST"
  | true =>
    cases d.writing.safeCast with
    | none => exact .unsupported _
    | some word => exact hcast word

theorem case_writes {subject otherwise : Option Expr} {branches : List Branch}
    (hs : WritesAll d l (optionTexts subject) (optionNodes subject))
    (hb : WritesAll d l (branchTexts branches) (branchNodes branches))
    (ho : WritesAll d l (optionTexts otherwise) (optionNodes otherwise)) :
    WritesAll d l (Expr.case subject branches otherwise).texts
      (Expr.case subject branches otherwise).nodes := by
  intro n
  simp only [Expr.texts, Expr.nodes]
  refine (hs n).bind fun f m hf => (hb m).bind fun g k hg => (ho k).bind fun h k' hh => ?_
  have hall := (((WrittenAll.const d n ["CASE"]).append hf).append hg).append (hh.keyword "ELSE ")
  have hend := hall.append (WrittenAll.const d k' ["END"])
  refine .pure (Written.node ?_ rfl rfl).single
  simpa using hend.intercalate " "

theorem cond_writes (h₁ : WritesAll d l e₁.texts e₁.nodes) (h₂ : WritesAll d l e₂.texts e₂.nodes)
    (h₃ : WritesAll d l e₃.texts e₃.nodes) :
    WritesAll d l (Expr.cond e₁ e₂ e₃).texts (Expr.cond e₁ e₂ e₃).nodes := by
  intro n
  simp only [Expr.texts, Expr.nodes]
  refine (whole_steady (h₁ n)).bind fun f m hf => ?_
  refine (whole_steady (h₂ m)).bind fun g k hg => ?_
  refine (whole_steady (h₃ k)).bind fun h k' hh => .target (fun _ => rfl) ?_
  dsimp only
  cases d.writing.ifFunction with
  | some function =>
    refine .pure (Written.node ?_ rfl rfl).single
    simpa [String.append_assoc] using
      ((hf.append (hg.around ", " "")).append (hh.around ", " "")).around (function ++ "(") ")"
  | none =>
    refine .pure (Written.node ?_ rfl rfl).single
    simpa [String.append_assoc] using
      ((hf.append (hg.around " THEN " "")).append (hh.around " ELSE " "")).around
        "CASE WHEN " " END"

theorem between_writes (h₁ : WritesAll d l e₁.texts e₁.nodes)
    (h₂ : WritesAll d l e₂.texts e₂.nodes) (h₃ : WritesAll d l e₃.texts e₃.nodes)
    (negated : Bool) :
    WritesAll d l (Expr.between e₁ negated e₂ e₃).texts (Expr.between e₁ negated e₂ e₃).nodes := by
  intro n
  simp only [Expr.texts, Expr.nodes]
  refine (operand_steady (h₁ n) ..).bind fun f m hf => ?_
  refine (operand_steady (h₂ m) ..).bind fun g k hg => ?_
  refine (operand_steady (h₃ k) ..).bind fun h k' hh => ?_
  refine .pure (Written.node ?_ rfl rfl).single
  simpa [String.append_assoc] using
    (hf.append (hg.around (" " ++ negation negated ++ "BETWEEN ") "")).append
      (hh.around " AND " "")

/-- The list of a membership test is written first and stands behind the operand. -/
theorem inList_writes {items : List Expr} (he : WritesAll d l e.texts e.nodes)
    (hi : WritesAll d l (exprTexts items) (exprNodes items)) (negated : Bool) :
    WritesAll d l (Expr.inList e items negated).texts (Expr.inList e items negated).nodes := by
  intro n
  simp only [Expr.texts, Expr.nodes]
  refine (hi n).bind fun f m hf => ?_
  refine (operand_steady (he m) ..).bind fun g k hg => ?_
  obtain ⟨ks, hf, hp⟩ := hf
  obtain ⟨ls, hg, hq⟩ := hg
  have hplaces : Places d (.expr (.inList e items negated) :: (e.nodes ++ exprNodes items)) n
      (ls ++ ks) k :=
    (hp.exchanged hq rfl (by simp [Node.keepsOrder, oneSided, Bool.or_comm])).permNodes
      (.cons _ List.perm_append_comm)
  have htext := hg.append ((hf.intercalate ", ").around (" " ++ negation negated ++ "IN (") ")")
  refine .pure (Written.single ⟨ls ++ ks, ?_, hplaces⟩)
  simpa [String.append_assoc] using htext

theorem inQuery_writes (hd : d.BindsBare) (he : WritesAll d l e.texts e.nodes)
    (hq : Writes d l q.text q.nodes) (negated : Bool) :
    WritesAll d l (Expr.inQuery e q negated).texts (Expr.inQuery e q negated).nodes := by
  intro n
  simp only [Expr.texts, Expr.nodes]
  refine (operand_steady (he n) ..).bind fun f m hf => ?_
  refine (block_steady hd (hq m)).bind fun g k hg => ?_
  refine .pure (Written.node ?_ rfl rfl).single
  simpa [String.append_assoc] using hf.append (hg.around (" " ++ negation negated ++ "IN ") "")

theorem like_writes {escape : Option Expr} (h₁ : WritesAll d l e₁.texts e₁.nodes)
    (h₂ : WritesAll d l e₂.texts e₂.nodes)
    (hx : Writes d l (escapeText escape) (optionNodes escape)) (negated anyCase : Bool) :
    WritesAll d l (Expr.like e₁ e₂ negated anyCase escape).texts
      (Expr.like e₁ e₂ negated anyCase escape).nodes := by
  intro n
  simp only [Expr.texts, Expr.nodes]
  refine (pattern_steady e₁ e₂ negated anyCase h₁ h₂).bind fun f m hf => ?_
  exact (hx m).bind fun g k hg => .pure ((hf.append hg).node rfl rfl).single

theorem isNull_writes (he : WritesAll d l e.texts e.nodes) (negated : Bool) :
    WritesAll d l (Expr.isNull e negated).texts (Expr.isNull e negated).nodes := by
  intro n
  simp only [Expr.texts, Expr.nodes]
  refine (operand_steady (he n) ..).bind fun f m hf => .pure (Written.node ?_ rfl rfl).single
  simpa [String.append_assoc] using hf.around "" (" IS " ++ negation negated ++ "NULL")

theorem exists_writes (hd : d.BindsBare) (hq : Writes d l q.text q.nodes) (negated : Bool) :
    WritesAll d l (Expr.exists q negated).texts (Expr.exists q negated).nodes := by
  intro n
  simp only [Expr.texts, Expr.nodes]
  refine (block_steady hd (hq n)).bind fun f m hf => .pure (Written.node ?_ rfl rfl).single
  simpa [String.append_assoc] using hf.around (negation negated ++ "EXISTS ") ""

theorem nested_writes (he : WritesAll d l e.texts e.nodes) :
    WritesAll d l (Expr.nested e).texts (Expr.nested e).nodes := by
  intro n
  simp only [Expr.texts, Expr.nodes]
  refine (whole_steady (he n)).bind fun f m hf => .pure (Written.node ?_ rfl rfl).single
  simpa using hf.around "(" ")"

theorem extract_writes (he : WritesAll d l e.texts e.nodes) (field : DateField) :
    WritesAll d l (Expr.extract field e).texts (Expr.extract field e).nodes := by
  intro n
  simp only [Expr.texts, Expr.nodes]
  refine .target (fun _ => rfl) ?_
  dsimp only
  cases d.writing.extract with
  | none => exact .unsupported _
  | some style =>
    cases style with
    | standard =>
      refine (whole_steady (he n)).bind fun f m hf => .pure (Written.node ?_ rfl rfl).single
      simpa [String.append_assoc] using hf.around ("EXTRACT(" ++ field.keyword ++ " FROM ") ")"
    | datePart =>
      refine (whole_steady (he n)).bind fun f m hf => .pure (Written.node ?_ rfl rfl).single
      simpa [String.append_assoc] using hf.around ("DATEPART(" ++ field.datepart ++ ", ") ")"

theorem branch_writes {rest : List Branch} (h₁ : WritesAll d l e₁.texts e₁.nodes)
    (h₂ : WritesAll d l e₂.texts e₂.nodes)
    (hr : WritesAll d l (branchTexts rest) (branchNodes rest)) :
    WritesAll d l (branchTexts (⟨e₁, e₂⟩ :: rest)) (branchNodes (⟨e₁, e₂⟩ :: rest)) := by
  intro n
  simp only [branchTexts, branchNodes]
  refine (whole_steady (h₁ n)).bind fun f m hf => ?_
  refine (whole_steady (h₂ m)).bind fun g k hg => ?_
  refine (hr k).bind fun h k' hh => .pure (.cons ?_ hh)
  simpa [String.append_assoc] using (hf.append (hg.around " THEN " "")).around "WHEN " ""

end Exprs

section Calls

variable {d : Dialect} {l : Layout} {name : String} {args : List Arg} {distinct : Bool}
  {window : Option Window}

theorem position_writes {haystack needle : Expr} (h₁ : WritesAll d l haystack.texts haystack.nodes)
    (h₂ : WritesAll d l needle.texts needle.nodes) :
    Writes d l (positionText [.expr haystack, .expr needle])
      (argNodes [.expr haystack, .expr needle]) := by
  intro n
  simp only [positionText, argNodes, List.append_nil]
  refine (operand_steady (h₂ n) ..).bind fun f m hf => ?_
  refine (whole_steady (h₁ m)).bind fun g k hg => .pure ?_
  refine Written.permNodes ?_ List.perm_append_comm
  simpa [String.append_assoc] using (hf.append (hg.around " IN " "")).around "POSITION(" ")"

theorem position_other_writes (h : ∀ haystack needle, args ≠ [.expr haystack, .expr needle]) :
    Writes d l (positionText args) (argNodes args) := by
  intro n
  rw [positionText]
  · exact .unsupported _
  · exact h

theorem call_writes (hp : Target.asksPosition { dialect := d, layout := l } name args window = true →
      Writes d l (positionText args) (argNodes args))
    (ha : ∀ n, Steady d l (fun _ => argTexts args) n (WrittenEach d (args.map Arg.nodes) n))
    (hw : Writes d l (overText window) (windowNodes window)) :
    Writes d l (Call.text ⟨name, args, distinct, window⟩)
      (Call.nodes ⟨name, args, distinct, window⟩) := by
  intro n
  simp only [Call.text, Call.nodes]
  refine .target (fun _ => rfl) ?_
  split
  · next hpos =>
    obtain ⟨hspell, haystack, needle, rfl, rfl⟩ := Target.asksPosition_iff.mp hpos
    refine (hp hpos n).mono fun f m hf => ?_
    simpa [windowNodes] using hf.node (x := .call ⟨name, _, distinct, none⟩) rfl
      (by simp [Node.keepsOrder, hspell])
  · refine (ha n).bind fun f m hf => (hw m).bind fun g k hg => .pure ?_
    have hargs := hf.calledArgs (t := { dialect := d, layout := l }) rfl
      ⟨name, args, distinct, window⟩
    have htext := ((hargs.intercalate ", ").around
      (Target.calledName { dialect := d, layout := l } name ++ "(" ++
        (if distinct then "DISTINCT " else "")) ")").append hg
    simpa [Target.callText_eq, String.append_assoc] using htext

theorem over_writes {keys : List Expr} {order : List OrderItem} {frame : Option Frame}
    (hk : WritesAll d l (exprTexts keys) (exprNodes keys))
    (ho : WritesAll d l (orderTexts order) (orderNodes order))
    (hr : WritesAll d l (frameText frame) (frameNodes frame)) :
    Writes d l (overText (some ⟨keys, order, frame⟩)) (windowNodes (some ⟨keys, order, frame⟩)) := by
  intro n
  simp only [overText, windowNodes]
  refine (hk n).bind fun f m hf => (ho m).bind fun g k hg => (hr k).bind fun h k' hh => .pure ?_
  have hparts := ((hf.commaClause "PARTITION BY ").append (hg.commaClause "ORDER BY ")).append hh
  exact (hparts.intercalate " ").around " OVER (" ")"

theorem order_writes {key : Expr} {ascending nullsFirst : Option Bool} {rest : List OrderItem}
    (hk : WritesAll d l key.texts key.nodes)
    (hr : WritesAll d l (orderTexts rest) (orderNodes rest)) :
    WritesAll d l (orderTexts (⟨key, ascending, nullsFirst⟩ :: rest))
      (orderNodes (⟨key, ascending, nullsFirst⟩ :: rest)) := by
  intro n
  simp only [orderTexts, orderNodes]
  refine (whole_steady (hk n)).bind fun f m hf => ?_
  have hrest (direction nulls : String) : Steady d l (fun b => do
      return (f b ++ direction ++ nulls) :: (← orderTexts rest)) m
      (WrittenAll d (.order ⟨key, ascending, nullsFirst⟩ :: (key.nodes ++ orderNodes rest)) n) := by
    refine (hr m).bind fun g k hg => .pure ((WrittenAll.cons ?_ hg).node rfl rfl)
    simpa [String.append_assoc] using hf.around "" (direction ++ nulls)
  cases nullsFirst with
  | none => exact hrest _ _
  | some first => exact .require _ fun _ => hrest _ _

theorem frame_writes {unit : FrameUnit} {start : Bound} {stop : Option Bound}
    (hs : Writes d l start.text start.nodes)
    (ho : ∀ n, Steady d l (fun _ => stopText stop) n (WrittenOption d (stopNodes stop) n)) :
    WritesAll d l (frameText (some ⟨unit, start, stop⟩)) (frameNodes (some ⟨unit, start, stop⟩)) := by
  intro n
  simp only [frameText, frameNodes]
  refine (hs n).bind fun f m hf => (ho m).bind fun g k hg => ?_
  rcases hg with ⟨hnil, rfl, hg⟩ | ⟨h, hg, hh⟩
  · simp only [hg, hnil]
    refine .pure (Written.single ?_)
    simpa using hf.around _ ""
  · simp only [hg]
    refine .pure (Written.single ?_)
    have hboth := hf.append (hh.around " AND " "")
    cases unit with
    | rows => simpa [String.append_assoc] using hboth.around "ROWS BETWEEN " ""
    | range => simpa [String.append_assoc] using hboth.around "RANGE BETWEEN " ""

end Calls

section Queries

variable {d : Dialect} {l : Layout}

/-- What is known of the `TOP` count of a query: it is missing, or it writes the row limit. -/
def CountWritten (d : Dialect) (body : Body) (limit : Option Limit) (n : Nat)
    (f : Marking → Option String) (m : Nat) : Prop :=
  ∃ ns, (ns = [] ∧ (∀ b, (f b).isSome = false) ∨ ns = limitNodes limit ∧ ∀ b, (f b).isSome = true) ∧
    WrittenTop d body.isSelect ns n f m

theorem CountWritten.none (d : Dialect) (body : Body) (limit : Option Limit) (n : Nat) :
    CountWritten d body limit n (fun _ => none) n :=
  ⟨[], .inl ⟨rfl, fun _ => rfl⟩, .inl ⟨rfl, rfl, fun _ => rfl⟩⟩

theorem CountWritten.some (hd : d.BindsBare) {body : Body} {e : Expr} {offset : Option Expr}
    {n m : Nat} {f : Marking → String} (hf : Written d e.nodes n f m)
    (htop : Target.hasTop { dialect := d, layout := l } body ⟨some e, offset⟩ = true) :
    CountWritten d body (some ⟨some e, offset⟩) n (fun b => some (f b)) m := by
  obtain ⟨fetch, hstyle, -, rfl, hbody⟩ := Target.hasTop_iff.mp htop
  refine ⟨_, .inr ⟨rfl, fun _ => rfl⟩, .inr ⟨hbody, hd.top fetch hstyle, f, fun _ => rfl, ?_⟩⟩
  simpa [limitNodes, optionNodes] using hf

theorem top_steady (hd : d.BindsBare) {body : Body} {e : Expr} {offset : Option Expr} {n : Nat}
    (he : WritesAll d l e.texts e.nodes) :
    Steady d l (fun _ => topText body (some ⟨some e, offset⟩)) n
      (CountWritten d body (some ⟨some e, offset⟩) n) := by
  by_cases hnum : ∃ digits, e = .literal (.number digits)
  · obtain ⟨digits, rfl⟩ := hnum
    rw [topText]
    refine .target (fun _ => rfl) ?_
    split
    · next htop =>
      refine .pure (.some hd ?_ htop)
      simpa [Expr.nodes] using
        (Written.const d n _).node (x := .expr (.literal (.number digits))) rfl rfl
    · exact .pure (.none ..)
  · rw [topText]
    · refine .target (fun _ => rfl) ?_
      split
      · next htop =>
        refine (whole_steady (he n)).bind fun f m hf => .pure ?_
        exact .some hd (hf.around "TOP (" ")") htop
      · exact .pure (.none ..)
    · exact fun digits h => hnum ⟨digits, h⟩

theorem top_none_steady {body : Body} {offset : Option Expr} {n : Nat} :
    Steady d l (fun _ => topText body (some ⟨none, offset⟩)) n
      (CountWritten d body (some ⟨none, offset⟩) n) := by
  simp only [topText]
  refine .target (fun _ => rfl) ?_
  split <;> exact .pure (.none ..)

/-- What is known of a body behind the `TOP` count that it carries. -/
def BodyWrites (d : Dialect) (l : Layout) (body : Body) : Prop :=
  ∀ (top : Marking → Option String) (ns : List Node) (n m : Nat),
    WrittenTop d body.isSelect ns n top m →
    Steady d l (fun b => body.text (top b)) m (Written d (ns ++ body.nodes) n)

theorem query_writes (hd : d.BindsBare) {ctes : Option With} {body : Body}
    {order : List OrderItem} {limit : Option Limit}
    (hc : WritesAll d l (withTexts ctes) (withNodes ctes))
    (ht : ∀ n, Steady d l (fun _ => topText body limit) n (CountWritten d body limit n))
    (hb : BodyWrites d l body) (ho : WritesAll d l (orderTexts order) (orderNodes order))
    (hl : WritesAll d l (limitTexts limit) (limitNodes limit)) :
    Writes d l (Query.text ⟨ctes, body, order, limit⟩) (Query.nodes ⟨ctes, body, order, limit⟩) := by
  intro n
  simp only [Query.text, Query.nodes]
  refine .target (fun _ => rfl) ?_
  refine (hc n).bind fun w m hw => (ht m).bind fun top k htop => ?_
  obtain ⟨ns, hns, htop⟩ := htop
  refine (hb top ns m k htop).bind fun f k₁ hf => (ho k₁).bind fun o k₂ ho => ?_
  have hnone : ∀ b, (top b).isNone = (top .plain).isNone := by
    intro b
    rcases htop with ⟨-, -, h⟩ | ⟨-, -, g, h, -⟩ <;> simp [h]
  refine (ordering_steady ho _ fun b => by rw [hnone b]).bind fun o k' ho => ?_
  obtain ⟨rfl, ho⟩ := ho
  have hclause := ho.listClause (t := { dialect := d, layout := l }) hd.apart "ORDER BY" []
  have hfront := hw.append (hf.single.append hclause)
  rcases hns with ⟨rfl, hnone⟩ | ⟨rfl, hsome⟩
  · simp only [hnone, Bool.false_eq_true, if_false]
    refine (hl k').bind fun g j hg => .pure (Written.node ?_ rfl rfl)
    simpa [List.append_assoc] using (hfront.append hg).clauses
  · -- the count was written before the projection and belongs behind the ordering
    simp only [hsome, if_true]
    refine .pure (Written.node ?_ rfl rfl)
    have hnodes : (withNodes ctes ++ (limitNodes limit ++ body.nodes ++ orderNodes order)).Perm
        (withNodes ctes ++ body.nodes ++ orderNodes order ++ limitNodes limit) := by
      simp only [List.append_assoc]
      refine List.Perm.append_left _ ?_
      exact List.perm_append_comm.trans (by simp)
    refine Written.permNodes ?_ hnodes
    simpa using hfront.clauses

theorem with_writes {recursive : Bool} {tables : List Cte}
    (ht : WritesAll d l (cteTexts tables) (cteNodes tables)) :
    WritesAll d l (withTexts (some ⟨recursive, tables⟩)) (withNodes (some ⟨recursive, tables⟩)) := by
  intro n
  simp only [withTexts, withNodes]
  refine (ht n).bind fun f m hf => .target (fun _ => rfl) (.pure (Written.single ?_))
  simpa using (hf.intercalate _).around _ ""

theorem cte_writes (hd : d.BindsBare) {name : Name} {columns : List Name} {q : Query}
    {rest : List Cte} (hq : Writes d l q.text q.nodes)
    (hr : WritesAll d l (cteTexts rest) (cteNodes rest)) :
    WritesAll d l (cteTexts (⟨name, columns, q⟩ :: rest))
      (cteNodes (⟨name, columns, q⟩ :: rest)) := by
  intro n
  simp only [cteTexts, cteNodes]
  refine (block_steady hd (hq n)).bind fun f m hf => .target (fun _ => rfl) ?_
  refine (hr m).bind fun g k hg => .pure (.cons ?_ hg)
  simpa using hf.around _ ""

theorem combine_writes (op : SetOp) (quantifier : SetQuantifier) (hd : d.BindsBare)
    {left right : Body} (hl : BodyWrites d l left) (hr : BodyWrites d l right) :
    Writes d l (Body.text (.combine op quantifier left right) none)
      (Body.nodes (.combine op quantifier left right)) := by
  intro n
  simp only [Body.text, Body.nodes]
  refine .target (fun _ => rfl) ?_
  refine (hl _ [] n n (.inl ⟨rfl, rfl, fun _ => rfl⟩)).bind fun f k hf => ?_
  refine (hr _ [] k k (.inl ⟨rfl, rfl, fun _ => rfl⟩)).bind fun g k' hg => .pure ?_
  have hright : Written d right.nodes k (fun b =>
      if right.isCombine then Target.block { dialect := d, layout := l } (g b) else g b) k' := by
    split
    · exact hg.block hd.apart
    · exact hg
  have hword := (Written.const d k (Target.setWord { dialect := d, layout := l } op
    quantifier)).single
  refine Written.node ?_ rfl rfl
  simpa using (hf.single.append (hword.append hright.single)).clauses

theorem row_writes {row : List Expr} {rest : List (List Expr)}
    (h : WritesAll d l (exprTexts row) (exprNodes row))
    (hr : WritesAll d l (rowTexts rest) (rowNodes rest)) :
    WritesAll d l (rowTexts (row :: rest)) (rowNodes (row :: rest)) := by
  intro n
  simp only [rowTexts, rowNodes]
  refine (h n).bind fun f m hf => (hr m).bind fun g k hg => .pure (.cons ?_ hg)
  simpa using (hf.intercalate ", ").around "(" ")"

end Queries

section Selects

variable {d : Dialect} {l : Layout}

/-- What is known of the word that removes duplicates, with the count behind it. -/
def DistinctSteady (d : Dialect) (l : Layout) (x : Option Distinct) : Prop :=
  ∀ (top : Marking → Option String) (ns : List Node) (n m : Nat), WrittenTop d true ns n top m →
    Steady d l (fun _ => distinctText x) m fun f k => Written d (ns ++ distinctNodes x) n
      (fun b => "SELECT" ++ f b ++ ((top b).map fun text => " " ++ text).getD "") k

theorem distinct_on_steady {keys : List Expr} (h : WritesAll d l (exprTexts keys) (exprNodes keys)) :
    DistinctSteady d l (some (.on keys)) := by
  intro top ns n m htop
  simp only [distinctText, distinctNodes]
  refine .require _ fun hon => ?_
  rcases htop with ⟨rfl, rfl, htop⟩ | ⟨-, hoff, -⟩
  · refine (h m).bind fun f k hf => .pure ?_
    simpa [htop, String.append_assoc] using
      ((hf.intercalate ", ").around " DISTINCT ON (" ")").around "SELECT" ""
  · rw [hoff] at hon
    cases hon

theorem select_writes (hd : d.BindsBare) {distinct : Option Distinct} {items : List SelectItem}
    {sources : List Source} {condition : Option Expr} {groupBy : List Expr}
    {having qualify : Option Expr} (hx : DistinctSteady d l distinct)
    (hi : WritesAll d l (itemTexts items) (itemNodes items))
    (hs : WritesAll d l (sourceTexts sources) (sourceNodes sources))
    (hc : WritesAll d l (optionTexts condition) (optionNodes condition))
    (hg : WritesAll d l (exprTexts groupBy) (exprNodes groupBy))
    (hh : WritesAll d l (optionTexts having) (optionNodes having))
    (hq : WritesAll d l (optionTexts qualify) (optionNodes qualify)) :
    BodyWrites d l (.select ⟨distinct, items, sources, condition, groupBy, having, qualify⟩) := by
  intro top ns n m htop
  simp only [Body.text, Body.nodes, Select.text, Select.nodes]
  refine .target (fun _ => rfl) ?_
  refine (hx top ns n m htop).bind fun f k hf => (hi k).bind fun g k₁ hg' => ?_
  refine (hs k₁).bind fun tables k₂ htables => (hc k₂).bind fun c k₃ hc' => ?_
  refine (hg k₃).bind fun groups k₄ hgroups => (hh k₄).bind fun hv k₅ hhv => ?_
  have hhead := (hf.listClause (t := { dialect := d, layout := l }) hd.apart hg').single
  have hfrom := htables.listClause (t := { dialect := d, layout := l }) hd.apart "FROM"
    (d.writing.dummyTable.map fun table => "FROM " ++ table).toList
  have hgroup := hgroups.listClause (t := { dialect := d, layout := l }) hd.apart "GROUP BY" []
  have hfront := (((hhead.append hfrom).append (hc'.keyword "WHERE ")).append hgroup).append
    (hhv.keyword "HAVING ")
  have hall := fun (qf : Marking → List String) (k₆ : Nat)
    (hqf : WrittenAll d (optionNodes qualify) k₅ qf k₆) =>
    (hfront.append (hqf.keyword "QUALIFY ")).clauses (t := { dialect := d, layout := l })
  have hnodes (xs : List Node) (s : Select) (g : Marking → String) (k : Nat)
      (h : Written d (ns ++ xs) n g k) :
      Written d (ns ++ .body (.select s) :: .select s :: xs) n g k :=
    (h.node (x := .select s) rfl rfl |>.node (x := .body (.select s)) rfl rfl).permNodes
      ((List.perm_middle.symm.cons _).trans List.perm_middle.symm)
  cases qualify with
  | none =>
    refine (hq k₅).bind fun qf k₆ hqf => .pure ?_
    exact hnodes _ _ _ _ (by simpa [List.append_assoc] using hall qf k₆ hqf)
  | some e =>
    refine .require _ fun _ => (hq k₅).bind fun qf k₆ hqf => .pure ?_
    exact hnodes _ _ _ _ (by simpa [List.append_assoc] using hall qf k₆ hqf)

theorem item_writes {e : Expr} {label : Option Name} {rest : List SelectItem}
    (he : WritesAll d l e.texts e.nodes) (hr : WritesAll d l (itemTexts rest) (itemNodes rest)) :
    WritesAll d l (itemTexts (.expr e label :: rest)) (itemNodes (.expr e label :: rest)) := by
  intro n
  simp only [itemTexts, itemNodes]
  refine (whole_steady (he n)).bind fun f m hf => .target (fun _ => rfl) ?_
  refine (hr m).bind fun g k hg => .pure (.cons ?_ hg)
  cases label with
  | none => exact hf
  | some a => simpa [String.append_assoc] using hf.around "" _

theorem source_writes {relation : Relation} {joins : List Join} {rest : List Source}
    (hs : Writes d l relation.text relation.nodes) (hj : Writes d l (joinTexts joins) (joinNodes joins))
    (hr : WritesAll d l (sourceTexts rest) (sourceNodes rest)) :
    WritesAll d l (sourceTexts (⟨relation, joins⟩ :: rest)) (sourceNodes (⟨relation, joins⟩ :: rest)) := by
  intro n
  simp only [sourceTexts, sourceNodes]
  refine (hs n).bind fun f m hf => (hj m).bind fun g k hg => ?_
  exact (hr k).bind fun h k' hh => .pure (.cons (hf.append hg) hh)

theorem join_writes {relation : Relation} {kind : JoinKind} {condition : JoinCondition}
    {rest : List Join} (hs : Writes d l relation.text relation.nodes)
    (hc : Writes d l condition.text condition.nodes)
    (hr : Writes d l (joinTexts rest) (joinNodes rest)) :
    Writes d l (joinTexts (⟨relation, kind, condition⟩ :: rest))
      (joinNodes (⟨relation, kind, condition⟩ :: rest)) := by
  intro n
  simp only [joinTexts, joinNodes]
  refine (joinWords_steady condition.isNatural kind).bind fun w m hw => ?_
  refine (hs m).bind fun f k hf => (hc k).bind fun g k₁ hg => .target (fun _ => rfl) ?_
  refine (hr k₁).bind fun h k₂ hh => .pure (Written.node ?_ rfl rfl)
  have hall := ((hw.around (Target.separator { dialect := d, layout := l }) " ").append
    hf).append (hg.append hh)
  simpa [String.append_assoc] using hall

end Selects

/-! ## Trees -/

mutual

theorem Expr.texts_writes {d : Dialect} (hd : d.BindsBare) (l : Layout) :
    ∀ e : Expr, WritesAll d l e.texts e.nodes
  | .name x => fun n => by
    simp only [Expr.texts, Expr.nodes]
    exact .target (fun _ => rfl) (.pure ((Written.const d n _).node rfl rfl).single)
  | .path parts => fun n => by
    simp only [Expr.texts, Expr.nodes]
    exact .target (fun _ => rfl) (.pure ((Written.const d n _).node rfl rfl).single)
  | .literal v => fun n => by
    simp only [Expr.texts, Expr.nodes]
    exact single_steady (literal_steady v)
  | .param p => fun n => by
    simp only [Expr.texts, Expr.nodes]
    exact single_steady (param_steady hd.question p)
  | .binary left op right => fun n => by
    simp only [Expr.texts, Expr.nodes]
    exact (binary_steady left right op (Expr.texts_writes hd l left)
      (Expr.texts_writes hd l right)).mono fun f m hf => hf.node rfl rfl
  | .unary op e => fun n => by
    simp only [Expr.texts, Expr.nodes]
    refine (operand_steady (Expr.texts_writes hd l e n) ..).bind fun f m hf => ?_
    exact .pure ((hf.unaryText op).node rfl rfl).single
  | .call f => fun n => by
    simp only [Expr.texts, Expr.nodes]
    exact single_steady ((Call.text_writes hd l f n).mono fun g m hg => hg.node rfl rfl)
  | .cast e type safe => cast_writes (Expr.texts_writes hd l e) type safe
  | .case subject branches otherwise =>
    case_writes (optionTexts_writes hd l subject) (branchTexts_writes hd l branches)
      (optionTexts_writes hd l otherwise)
  | .cond condition yes no =>
    cond_writes (Expr.texts_writes hd l condition) (Expr.texts_writes hd l yes)
      (Expr.texts_writes hd l no)
  | .between e negated low high =>
    between_writes (Expr.texts_writes hd l e) (Expr.texts_writes hd l low)
      (Expr.texts_writes hd l high) negated
  | .inList e items negated =>
    inList_writes (Expr.texts_writes hd l e) (exprTexts_writes hd l items) negated
  | .inQuery e q negated =>
    inQuery_writes hd (Expr.texts_writes hd l e) (Query.text_writes hd l q) negated
  | .like e p negated anyCase escape =>
    like_writes (Expr.texts_writes hd l e) (Expr.texts_writes hd l p)
      (escapeText_writes hd l escape) negated anyCase
  | .isNull e negated => isNull_writes (Expr.texts_writes hd l e) negated
  | .exists q negated => exists_writes hd (Query.text_writes hd l q) negated
  | .subquery q => fun n => by
    simp only [Expr.texts, Expr.nodes]
    exact single_steady ((block_steady hd (Query.text_writes hd l q n)).mono
      fun g m hg => hg.node rfl rfl)
  | .nested e => nested_writes (Expr.texts_writes hd l e)
  | .extract field e => extract_writes (Expr.texts_writes hd l e) field
  | .interval e unit => fun n => by
    simp only [Expr.texts, Expr.nodes]
    exact single_steady (interval_steady e unit (Expr.texts_writes hd l e n))
  | .now kind => fun n => by
    simp only [Expr.texts, Expr.nodes]
    exact single_steady (now_steady kind)

theorem optionTexts_writes {d : Dialect} (hd : d.BindsBare) (l : Layout) :
    ∀ o : Option Expr, WritesAll d l (optionTexts o) (optionNodes o)
  | none => fun n => by
    simp only [optionTexts, optionNodes]
    exact .pure (.nil d n)
  | some e => fun n => by
    simp only [optionTexts, optionNodes]
    exact (whole_steady (Expr.texts_writes hd l e n)).bind fun f m hf => .pure hf.single

theorem escapeText_writes {d : Dialect} (hd : d.BindsBare) (l : Layout) :
    ∀ o : Option Expr, Writes d l (escapeText o) (optionNodes o)
  | none => fun n => by
    simp only [escapeText, optionNodes]
    exact .pure (.const d n "")
  | some e => fun n => by
    simp only [escapeText, optionNodes]
    refine (operand_steady (Expr.texts_writes hd l e n) ..).bind fun f m hf => .pure ?_
    simpa using hf.around " ESCAPE " ""

theorem exprTexts_writes {d : Dialect} (hd : d.BindsBare) (l : Layout) :
    ∀ es : List Expr, WritesAll d l (exprTexts es) (exprNodes es)
  | [] => fun n => by
    simp only [exprTexts, exprNodes]
    exact .pure (.nil d n)
  | e :: es => fun n => by
    simp only [exprTexts, exprNodes]
    refine (whole_steady (Expr.texts_writes hd l e n)).bind fun f m hf => ?_
    exact (exprTexts_writes hd l es m).bind fun g k hg => .pure (.cons hf hg)

theorem branchTexts_writes {d : Dialect} (hd : d.BindsBare) (l : Layout) :
    ∀ bs : List Branch, WritesAll d l (branchTexts bs) (branchNodes bs)
  | [] => fun n => by
    simp only [branchTexts, branchNodes]
    exact .pure (.nil d n)
  | ⟨condition, result⟩ :: rest =>
    branch_writes (Expr.texts_writes hd l condition) (Expr.texts_writes hd l result)
      (branchTexts_writes hd l rest)

theorem Call.text_writes {d : Dialect} (hd : d.BindsBare) (l : Layout) :
    ∀ f : Call, Writes d l f.text f.nodes
  | ⟨_, args, _, window⟩ =>
    call_writes (fun _ => positionText_writes hd l args) (argTexts_writes hd l args)
      (overText_writes hd l window)

theorem positionText_writes {d : Dialect} (hd : d.BindsBare) (l : Layout) :
    ∀ args : List Arg, Writes d l (positionText args) (argNodes args)
  | [.expr haystack, .expr needle] =>
    position_writes (Expr.texts_writes hd l haystack) (Expr.texts_writes hd l needle)
  | [] | [_] | .star :: _ :: _ | [.expr _, .star] | .expr _ :: _ :: _ :: _ =>
    position_other_writes (by simp)

theorem argTexts_writes {d : Dialect} (hd : d.BindsBare) (l : Layout) :
    ∀ (args : List Arg) (n : Nat),
      Steady d l (fun _ => argTexts args) n (WrittenEach d (args.map Arg.nodes) n)
  | [], n => by
    simp only [argTexts]
    exact .pure ⟨rfl, fun _ => rfl⟩
  | .star :: rest, n => by
    simp only [argTexts]
    refine (argTexts_writes hd l rest n).bind fun f m hf => ?_
    exact .pure ⟨_, f, n, fun _ => rfl, .const d n "*", hf⟩
  | .expr e :: rest, n => by
    simp only [argTexts]
    refine (whole_steady (Expr.texts_writes hd l e n)).bind fun f m hf => ?_
    refine (argTexts_writes hd l rest m).bind fun g k hg => ?_
    exact .pure ⟨f, g, m, fun _ => rfl, hf, hg⟩

theorem overText_writes {d : Dialect} (hd : d.BindsBare) (l : Layout) :
    ∀ w : Option Window, Writes d l (overText w) (windowNodes w)
  | none => fun n => by
    simp only [overText, windowNodes]
    exact .pure (.const d n "")
  | some ⟨partitionBy, order, frame⟩ =>
    over_writes (exprTexts_writes hd l partitionBy) (orderTexts_writes hd l order)
      (frameText_writes hd l frame)

theorem orderTexts_writes {d : Dialect} (hd : d.BindsBare) (l : Layout) :
    ∀ os : List OrderItem, WritesAll d l (orderTexts os) (orderNodes os)
  | [] => fun n => by
    simp only [orderTexts, orderNodes]
    exact .pure (.nil d n)
  | ⟨key, _, _⟩ :: rest => order_writes (Expr.texts_writes hd l key) (orderTexts_writes hd l rest)

theorem frameText_writes {d : Dialect} (hd : d.BindsBare) (l : Layout) :
    ∀ f : Option Frame, WritesAll d l (frameText f) (frameNodes f)
  | none => fun n => by
    simp only [frameText, frameNodes]
    exact .pure (.nil d n)
  | some ⟨_, start, stop⟩ => frame_writes (Bound.text_writes hd l start) (stopText_writes hd l stop)

theorem stopText_writes {d : Dialect} (hd : d.BindsBare) (l : Layout) :
    ∀ (o : Option Bound) (n : Nat),
      Steady d l (fun _ => stopText o) n (WrittenOption d (stopNodes o) n)
  | none, n => by
    simp only [stopText, stopNodes]
    exact .pure (.inl ⟨rfl, rfl, fun _ => rfl⟩)
  | some b, n => by
    simp only [stopText, stopNodes]
    exact (Bound.text_writes hd l b n).bind fun f m hf => .pure (.inr ⟨f, fun _ => rfl, hf⟩)

theorem Bound.text_writes {d : Dialect} (hd : d.BindsBare) (l : Layout) :
    ∀ x : Bound, Writes d l x.text x.nodes
  | .unboundedPreceding => fun n => by
    simp only [Bound.text, Bound.nodes]
    exact .pure ((Written.const d n _).node rfl rfl)
  | .unboundedFollowing => fun n => by
    simp only [Bound.text, Bound.nodes]
    exact .pure ((Written.const d n _).node rfl rfl)
  | .currentRow => fun n => by
    simp only [Bound.text, Bound.nodes]
    exact .pure ((Written.const d n _).node rfl rfl)
  | .preceding e => fun n => by
    simp only [Bound.text, Bound.nodes]
    refine (operand_steady (Expr.texts_writes hd l e n) ..).bind fun f m hf => ?_
    exact .pure (Written.node (by simpa using hf.around "" " PRECEDING") rfl rfl)
  | .following e => fun n => by
    simp only [Bound.text, Bound.nodes]
    refine (operand_steady (Expr.texts_writes hd l e n) ..).bind fun f m hf => ?_
    exact .pure (Written.node (by simpa using hf.around "" " FOLLOWING") rfl rfl)

theorem Query.text_writes {d : Dialect} (hd : d.BindsBare) (l : Layout) :
    ∀ q : Query, Writes d l q.text q.nodes
  | ⟨ctes, body, order, limit⟩ =>
    query_writes hd (withTexts_writes hd l ctes) (topText_steady hd l body limit)
      (Body.text_writes hd l body) (orderTexts_writes hd l order) (limitTexts_writes hd l limit)

theorem topText_steady {d : Dialect} (hd : d.BindsBare) (l : Layout) (body : Body) :
    ∀ (limit : Option Limit) (n : Nat),
      Steady d l (fun _ => topText body limit) n (CountWritten d body limit n)
  | none, n => by
    simp only [topText]
    exact .pure (.none ..)
  | some ⟨none, _⟩, _ => top_none_steady
  | some ⟨some e, _⟩, _ => top_steady hd (Expr.texts_writes hd l e)

theorem limitTexts_writes {d : Dialect} (hd : d.BindsBare) (l : Layout) :
    ∀ limit : Option Limit, WritesAll d l (limitTexts limit) (limitNodes limit)
  | none => fun n => by
    simp only [limitTexts, limitNodes]
    exact .pure (.nil d n)
  | some ⟨count, offset⟩ => fun n => by
    simp only [limitTexts, limitNodes]
    refine limitClauses_steady _ _ (optionText_steady hd l count) (optionText_steady hd l offset) ?_
    cases offset with
    | none => intro _; simp only [optionNodes]
    | some o => intro h; cases h

theorem optionText_steady {d : Dialect} (hd : d.BindsBare) (l : Layout) :
    ∀ (o : Option Expr) (n : Nat),
      Steady d l (fun _ => optionText o) n (WrittenOption d (optionNodes o) n)
  | none, n => by
    simp only [optionText, optionNodes]
    exact .pure (.inl ⟨rfl, rfl, fun _ => rfl⟩)
  | some e, n => by
    simp only [optionText, optionNodes]
    refine (whole_steady (Expr.texts_writes hd l e n)).bind fun f m hf => ?_
    exact .pure (.inr ⟨f, fun _ => rfl, hf⟩)

theorem withTexts_writes {d : Dialect} (hd : d.BindsBare) (l : Layout) :
    ∀ w : Option With, WritesAll d l (withTexts w) (withNodes w)
  | none => fun n => by
    simp only [withTexts, withNodes]
    exact .pure (.nil d n)
  | some ⟨_, tables⟩ => with_writes (cteTexts_writes hd l tables)

theorem cteTexts_writes {d : Dialect} (hd : d.BindsBare) (l : Layout) :
    ∀ ts : List Cte, WritesAll d l (cteTexts ts) (cteNodes ts)
  | [] => fun n => by
    simp only [cteTexts, cteNodes]
    exact .pure (.nil d n)
  | ⟨_, _, q⟩ :: rest => cte_writes hd (Query.text_writes hd l q) (cteTexts_writes hd l rest)

theorem Body.text_writes {d : Dialect} (hd : d.BindsBare) (l : Layout) :
    ∀ body : Body, BodyWrites d l body
  | .select s => Select.text_writes hd l s
  | .query q => fun top ns n m h => by
    obtain ⟨rfl, rfl, -⟩ := h.eq_none rfl
    simp only [Body.text, Body.nodes]
    exact (block_steady hd (Query.text_writes hd l q m)).mono fun f k hf => hf.node rfl rfl
  | .values rows => fun top ns n m h => by
    obtain ⟨rfl, rfl, -⟩ := h.eq_none rfl
    simp only [Body.text, Body.nodes]
    refine (rowTexts_writes hd l rows m).bind fun f k hf => .target (fun _ => rfl) (.pure ?_)
    exact ((Written.const d m "VALUES").listClause hd.apart hf).node rfl rfl
  | .combine op quantifier left right => fun top ns n m h => by
    obtain ⟨rfl, rfl, htop⟩ := h.eq_none rfl
    simp only [htop]
    exact combine_writes op quantifier hd (Body.text_writes hd l left) (Body.text_writes hd l right) m

theorem rowTexts_writes {d : Dialect} (hd : d.BindsBare) (l : Layout) :
    ∀ rows : List (List Expr), WritesAll d l (rowTexts rows) (rowNodes rows)
  | [] => fun n => by
    simp only [rowTexts, rowNodes]
    exact .pure (.nil d n)
  | row :: rest => row_writes (exprTexts_writes hd l row) (rowTexts_writes hd l rest)

theorem Select.text_writes {d : Dialect} (hd : d.BindsBare) (l : Layout) :
    ∀ s : Select, BodyWrites d l (.select s)
  | ⟨distinct, items, sources, condition, groupBy, having, qualify⟩ =>
    select_writes hd (distinctText_steady hd l distinct) (itemTexts_writes hd l items)
      (sourceTexts_writes hd l sources) (optionTexts_writes hd l condition)
      (exprTexts_writes hd l groupBy) (optionTexts_writes hd l having)
      (optionTexts_writes hd l qualify)

theorem distinctText_steady {d : Dialect} (hd : d.BindsBare) (l : Layout) :
    ∀ x : Option Distinct, DistinctSteady d l x
  | none => fun top ns n m h => by
    simp only [distinctText, distinctNodes, List.append_nil]
    exact .pure (by simpa using h.after "SELECT")
  | some .all => fun top ns n m h => by
    simp only [distinctText, distinctNodes, List.append_nil]
    exact .pure (by simpa using h.after "SELECT DISTINCT")
  | some (.on keys) => distinct_on_steady (exprTexts_writes hd l keys)

theorem itemTexts_writes {d : Dialect} (hd : d.BindsBare) (l : Layout) :
    ∀ items : List SelectItem, WritesAll d l (itemTexts items) (itemNodes items)
  | [] => fun n => by
    simp only [itemTexts, itemNodes]
    exact .pure (.nil d n)
  | .star :: rest => fun n => by
    simp only [itemTexts, itemNodes]
    refine (itemTexts_writes hd l rest n).bind fun f m hf => .pure ?_
    exact .cons (.const d n "*") hf
  | .qualifiedStar table :: rest => fun n => by
    simp only [itemTexts, itemNodes]
    refine .target (fun _ => rfl) ((itemTexts_writes hd l rest n).bind fun f m hf => .pure ?_)
    exact .cons (.const d n (Target.path { dialect := d, layout := l } table ++ ".*")) hf
  | .expr e _ :: rest => item_writes (Expr.texts_writes hd l e) (itemTexts_writes hd l rest)

theorem sourceTexts_writes {d : Dialect} (hd : d.BindsBare) (l : Layout) :
    ∀ sources : List Source, WritesAll d l (sourceTexts sources) (sourceNodes sources)
  | [] => fun n => by
    simp only [sourceTexts, sourceNodes]
    exact .pure (.nil d n)
  | ⟨relation, joins⟩ :: rest =>
    source_writes (Relation.text_writes hd l relation) (joinTexts_writes hd l joins)
      (sourceTexts_writes hd l rest)

theorem Relation.text_writes {d : Dialect} (hd : d.BindsBare) (l : Layout) :
    ∀ r : Relation, Writes d l r.text r.nodes
  | .table name label => fun n => by
    simp only [Relation.text, Relation.nodes]
    exact .target (fun _ => rfl) (aliased_steady ((Written.const d n _).node rfl rfl) label)
  | .derived q label => fun n => by
    simp only [Relation.text, Relation.nodes]
    refine (block_steady hd (Query.text_writes hd l q n)).bind fun f m hf => ?_
    exact aliased_steady (hf.node rfl rfl) label
  | .function call label => fun n => by
    simp only [Relation.text, Relation.nodes]
    refine (Call.text_writes hd l call n).bind fun f m hf => ?_
    exact aliased_steady (hf.node rfl rfl) label

theorem joinTexts_writes {d : Dialect} (hd : d.BindsBare) (l : Layout) :
    ∀ joins : List Join, Writes d l (joinTexts joins) (joinNodes joins)
  | [] => fun n => by
    simp only [joinTexts, joinNodes]
    exact .pure (.const d n "")
  | ⟨relation, _, condition⟩ :: rest =>
    join_writes (Relation.text_writes hd l relation) (JoinCondition.text_writes hd l condition)
      (joinTexts_writes hd l rest)

theorem JoinCondition.text_writes {d : Dialect} (hd : d.BindsBare) (l : Layout) :
    ∀ c : JoinCondition, Writes d l c.text c.nodes
  | .on e => fun n => by
    simp only [JoinCondition.text, JoinCondition.nodes]
    refine (whole_steady (Expr.texts_writes hd l e n)).bind fun f m hf => .pure ?_
    simpa using hf.around " ON " ""
  | .using columns => fun n => by
    simp only [JoinCondition.text, JoinCondition.nodes]
    exact .require _ fun _ => .target (fun _ => rfl) (.pure (.const d n _))
  | .natural => fun n => by
    simp only [JoinCondition.text, JoinCondition.nodes]
    exact .pure (.const d n "")
  | .none => fun n => by
    simp only [JoinCondition.text, JoinCondition.nodes]
    exact .pure (.const d n "")

end

end SqlDialects
