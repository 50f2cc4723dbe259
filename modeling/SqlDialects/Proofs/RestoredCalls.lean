import SqlDialects.Proofs.RestoredLeaves

/-!
# Calls with their windows

* `OrderForm`, `BoundForm`, `FrameForm`, `OverForm` : the tokens of the parts of a window;
* `Operates` : a parser of operands that have no level of their own;
* `OrderForm.reads`, `OverForm.reads`, ... : what the grammar makes of these tokens;
* `CallForm` : the tokens behind the name of a function, which are read as a call wherever one stands;
* `Call.text_returned` : the text of a call is its name and such tokens.
-/

namespace SqlDialects

open Render

/-! ## Lists of expressions -/

/-- The tokens of an expression of some precedence. -/
def ElementForm (d : Dialect) (ts : List Shape) (e : Expr) : Prop := ∃ p, Form d p ts e

theorem ElementForm.reads {d : Dialect} {ts rest : List Shape} {e : Expr} (h : ElementForm d ts e)
    (hrest : Ends d 0 rest) (n : Nat) : Parses d ((Parser.nested n).expr 0) (ts ++ rest) e rest := by
  obtain ⟨p, hform⟩ := h
  exact hform.expr_zero hrest n

theorem listwise_all : Listwise respellAll where
  nil r := by rw [respellAll]
  cons r a as := by rw [respellAll, respellAll, respellAll]; rfl

section Expressions

variable {t : Target} {e : Expr} {es : List Expr}

/-- A text that is read back as a respelled expression returns this expression. -/
theorem Regains.returned {p : Precedence} {text : String}
    (h : Regains t id e p text (e.respell (t.dialect.respelling id))) :
    Returned t respellAll (ElementForm t.dialect) text e := by
  obtain ⟨e', ⟨ts, hspelled, hform, -⟩, heq⟩ := h
  refine ⟨ts, e', hspelled, ⟨p, hform⟩, ?_⟩
  rw [respellAll, respellAll, respellAll, respellAll, heq]

theorem exprTexts_returned (hd : t.dialect.Expressive) (hes : ∀ e ∈ es, Rewrites false t id e) :
    Renders false t (exprTexts es) fun texts =>
      List.Forall₂ (Returned t respellAll (ElementForm t.dialect)) texts es := by
  induction es with
  | nil => exact .pure .nil
  | cons e es ih =>
    rw [exprTexts]
    refine ((hes e (by simp)).whole hd).bind fun text htext => ?_
    refine (ih fun x hx => hes x (by simp [hx])).bind fun texts htexts => ?_
    exact .pure (.cons htext.returned htexts)

end Expressions

/-! ## Keys of an ordering -/

/-- A key of an ordering. -/
def Parser.orderItem (deeper : Deeper) : Parser OrderItem := do
  let key ← deeper.expr 0
  let ascending ← direction
  let nullsFirst ← optional (do onlyIf (← supports .nullsOrdering) (eatWord "NULLS")) (do
    if ← eatWord "FIRST" then return true
    if ← eatWord "LAST" then return false
    unexpected)
  return ⟨key, ascending, nullsFirst⟩

theorem Parser.orderBy_eq (deeper : Deeper) : orderBy deeper =
    optionalList (eatWords ["ORDER", "BY"]) (commaSeparated (orderItem deeper)) := rfl

/-- The direction of a key. -/
def Dialect.directionShapes (d : Dialect) (ascending : Option Bool) : List Shape :=
  (ascending.map fun a => d.bare (if a then "ASC" else "DESC")).toList

/-- The place of nulls among the values of a key. -/
def Dialect.nullsShapes (d : Dialect) : Option Bool → List Shape
  | none => []
  | some first => [d.bare "NULLS", d.bare (if first then "FIRST" else "LAST")]

/-- The tokens of a key of an ordering. -/
structure OrderForm (d : Dialect) (ts : List Shape) (o : OrderItem) : Prop where
  key : ∃ us, ElementForm d us o.key ∧ ts = us ++ (d.directionShapes o.ascending ++ d.nullsShapes o.nullsFirst)
  nulls : o.nullsFirst.isSome = true → d.supports .nullsOrdering = true

section Orders

variable {d : Dialect} {t : Target} {ts rest : List Shape} {o : OrderItem} {items : List OrderItem}

theorem directionShapes_read (ascending : Option Bool) (hrest : NoneNext rest ["ASC", "DESC"]) :
    Parses d Parser.direction (d.directionShapes ascending ++ rest) ascending rest := by
  cases ascending with
  | none => exact .no (hrest.eatWord (by simp)) (.no (hrest.eatWord (by simp)) (.pure none))
  | some a =>
    cases a with
    | true => exact .yes (ReadsOr.eatBare d (w := "ASC") rfl) (.pure _)
    | false =>
      refine .no (ReadsOr.eatBare_no d (w := "DESC") rfl) ?_
      exact .yes (ReadsOr.eatBare d (w := "DESC") rfl) (.pure _)

theorem EndsKey.nulls (hd : d.Readable) (hrest : EndsKey d rest) (nullsFirst : Option Bool) :
    Ends d 0 (d.nullsShapes nullsFirst ++ rest) ∧ NoneNext (d.nullsShapes nullsFirst ++ rest) ["ASC", "DESC"] := by
  cases nullsFirst with
  | none => exact ⟨hrest.ends, hrest.words.mono (by simp)⟩
  | some first => exact ⟨.bare hd 0 rfl _, .bare d _ (by decide)⟩

theorem OrderForm.reads (h : OrderForm d ts o) (hd : d.Readable) (hrest : EndsKey d rest) (n : Nat) :
    Parses d (Parser.orderItem (Parser.nested n)) (ts ++ rest) o rest := by
  obtain ⟨key, ascending, nullsFirst⟩ := o
  obtain ⟨⟨us, hkey, rfl⟩, hnulls⟩ := h
  obtain ⟨hends, hwords⟩ := hrest.nulls hd nullsFirst
  have hbehind : Ends d 0 (d.directionShapes ascending ++ (d.nullsShapes nullsFirst ++ rest)) := by
    cases ascending with
    | none => exact hends
    | some a =>
      cases a with
      | true => exact .bare hd 0 (w := "ASC") rfl _
      | false => exact .bare hd 0 (w := "DESC") rfl _
  rw [List.append_assoc, List.append_assoc]
  refine (hkey.reads hbehind n).bind ((directionShapes_read ascending hwords).bind ?_)
  refine ReadsOr.bind (a := nullsFirst) (u := rest) ?_ (.pure _)
  cases nullsFirst with
  | none => exact .optional_no (.supports (.onlyIf_no (hrest.words.eatWord (by simp))))
  | some first =>
    refine .optional (.supports (.onlyIf_yes (hnulls rfl) (ReadsOr.eatBare d (w := "NULLS") rfl))) ?_
    cases first with
    | true => exact .yes (ReadsOr.eatBare d (w := "FIRST") rfl) (.pure _)
    | false =>
      refine .no (ReadsOr.eatBare_no d (w := "LAST") rfl) ?_
      exact .yes (ReadsOr.eatBare d (w := "LAST") rfl) (.pure _)

theorem listwise_order : Listwise respellOrder where
  nil r := by rw [respellOrder]
  cons r a as := by
    obtain ⟨key, ascending, nullsFirst⟩ := a
    rw [respellOrder, respellOrder, respellOrder]
    rfl

/-- What is asked for may be used in what follows. -/
theorem Renders.required {α : Type} {c : Construct} {g : Unit → Render α} {Q : α → Prop}
    (h : t.dialect.supports c = true → Renders false t (g ()) Q) :
    Renders false t (Render.require c >>= g) Q := by
  cases hc : t.dialect.supports c with
  | true => exact .require (by simp) (h hc)
  | false =>
    intro n
    refine .inr ⟨rfl, .unsupported c.describe t.dialect.name none, ?_⟩
    simp [Render.require, Bind.bind, Render.target, hc, Render.unsupported]

/-- A construct that is asked for under a condition. -/
theorem Renders.requiredIf {α : Type} {c : Construct} {g : Unit → Render α} {Q : α → Prop} {b : Bool}
    (h : (b = true → t.dialect.supports c = true) → Renders false t (g ()) Q) :
    Renders false t (if b = true then Render.require c >>= g else g ()) Q := by
  cases b with
  | true => exact .required fun hsupports => h fun _ => hsupports
  | false => exact h (by simp)

theorem isSome_respellOption (r : Respelling) (o : Option Expr) : (respellOption r o).isSome = o.isSome := by
  cases o <;> simp [respellOption]

/-- A part that is read back respelled is there where it was written. -/
theorem isSome_of_respellOption {r r' : Respelling} {o o' : Option Expr} (h : respellOption r o' = respellOption r' o) :
    o'.isSome = o.isSome := by
  rw [← isSome_respellOption r, h, isSome_respellOption]

theorem spelled_direction (hd : d.Legible) {s : String} (hs : Spelled d s ts) (ascending : Option Bool) :
    Spelled d (s ++ (ascending.map fun a => if a then " ASC" else " DESC").getD "")
      (ts ++ d.directionShapes ascending) := by
  cases ascending with
  | none => simpa [Dialect.directionShapes] using hs
  | some a =>
    cases a with
    | true => exact (hs.join Spelled.blank_mem (.word (w := "ASC") hd rfl)).of_eq (by simp)
    | false => exact (hs.join Spelled.blank_mem (.word (w := "DESC") hd rfl)).of_eq (by simp)

theorem spelled_nulls (hd : d.Legible) {s : String} (hs : Spelled d s ts) (nullsFirst : Option Bool) :
    Spelled d (s ++ (nullsFirst.map fun f => if f then " NULLS FIRST" else " NULLS LAST").getD "")
      (ts ++ d.nullsShapes nullsFirst) := by
  have hnulls : Spelled d "NULLS" [d.bare "NULLS"] := .word hd rfl
  cases nullsFirst with
  | none => simpa [Dialect.nullsShapes] using hs
  | some first =>
    cases first with
    | true =>
      exact (hs.join Spelled.blank_mem (hnulls.join Spelled.blank_mem
        (.word (w := "FIRST") hd rfl))).of_eq (by simp)
    | false =>
      exact (hs.join Spelled.blank_mem (hnulls.join Spelled.blank_mem
        (.word (w := "LAST") hd rfl))).of_eq (by simp)

/-- The keys of an ordering are returned one by one. -/
theorem orderTexts_returned (hd : t.dialect.Expressive) (h : ∀ o ∈ items, Rewrites false t id o.key) :
    Renders false t (orderTexts items) fun texts =>
      List.Forall₂ (Returned t respellOrder (OrderForm t.dialect)) texts items := by
  induction items with
  | nil => exact .pure .nil
  | cons o items ih =>
    obtain ⟨key, ascending, nullsFirst⟩ := o
    have hmore := ih fun x hx => h x (by simp [hx])
    rw [orderTexts]
    refine ((h ⟨key, ascending, nullsFirst⟩ (by simp)).whole hd).bind ?_
    rintro text ⟨e', ⟨ts, hspelled, hform, -⟩, heq⟩
    have hdone (hnulls : nullsFirst.isSome = true → t.dialect.supports .nullsOrdering = true) :
        Returned t respellOrder (OrderForm t.dialect)
          (text ++ (ascending.map fun a => if a then " ASC" else " DESC").getD "" ++
            (nullsFirst.map fun f => if f then " NULLS FIRST" else " NULLS LAST").getD "")
          ⟨key, ascending, nullsFirst⟩ := by
      refine ⟨_, ⟨e', ascending, nullsFirst⟩,
        spelled_nulls hd.toLegible (spelled_direction hd.toLegible hspelled ascending) nullsFirst,
        ⟨⟨ts, ⟨_, hform⟩, by simp⟩, hnulls⟩, ?_⟩
      simp only [respellOrder, heq]
    dsimp only
    split
    · refine .required fun hsupports => hmore.bind fun texts htexts => ?_
      exact .pure (.cons (hdone fun _ => hsupports) htexts)
    · next hno =>
      exact hmore.bind fun texts htexts => .pure (.cons (hdone fun hsome => absurd hsome hno) htexts)

end Orders

/-! ## Windows -/

/-- The parser `operand` reads operands of fewer than `k` tokens, up to the end of the text. -/
def Operates (d : Dialect) (k : Nat) (operand : Parser Expr) : Prop :=
  ∀ {p : Precedence} {ts rest : List Shape} {e : Expr}, Form d p ts e → p.IsOperand → Ends d p rest →
    (ts ++ rest).length < k → Parses d operand (ts ++ rest) e rest

theorem operates_upTo (d : Dialect) (n k : Nat) : Operates d k (Parser.operandUpTo (Parser.nested n) k) :=
  fun hform hp hrest hk => hform.operand hp n k _ hrest hk

theorem operates_from (d : Dialect) (n k : Nat) : Operates d k (Parser.operandFrom (Parser.nested n)) :=
  fun hform hp hrest _ => hform.operandFrom hp hrest n

/-- The word of the unit of a window frame. -/
def FrameUnit.word : FrameUnit → String
  | rows => "ROWS"
  | range => "RANGE"

/-- The tokens of an end of a window frame. -/
inductive BoundForm (d : Dialect) : List Shape → Bound → Prop where
  | unboundedPreceding : BoundForm d (["UNBOUNDED", "PRECEDING"].map d.bare) .unboundedPreceding
  | unboundedFollowing : BoundForm d (["UNBOUNDED", "FOLLOWING"].map d.bare) .unboundedFollowing
  | currentRow : BoundForm d (["CURRENT", "ROW"].map d.bare) .currentRow
  | preceding {p : Precedence} {ts : List Shape} {e : Expr} (h : Form d p ts e) (hp : p.IsOperand)
    (hunbounded : (headShape ts).isWord "UNBOUNDED" = false) :
    BoundForm d (ts ++ [d.bare "PRECEDING"]) (.preceding e)
  | following {p : Precedence} {ts : List Shape} {e : Expr} (h : Form d p ts e) (hp : p.IsOperand)
    (hunbounded : (headShape ts).isWord "UNBOUNDED" = false) :
    BoundForm d (ts ++ [d.bare "FOLLOWING"]) (.following e)

/-- The tokens of the ends of a window frame, one or two. -/
def BoundsForm (d : Dialect) (ts : List Shape) (start : Bound) : Option Bound → Prop
  | none => BoundForm d ts start
  | some stop => ∃ us vs, BoundForm d us start ∧ BoundForm d vs stop ∧
      ts = d.bare "BETWEEN" :: (us ++ d.bare "AND" :: vs)

/-- The tokens of a window frame that may be missing. -/
def FrameForm (d : Dialect) (ts : List Shape) : Option Frame → Prop
  | none => ts = []
  | some f => ∃ us, BoundsForm d us f.start f.stop ∧ ts = d.bare f.unit.word :: us

/-- The tokens of a window that may be missing. -/
def OverForm (d : Dialect) (ts : List Shape) : Option Window → Prop
  | none => ts = []
  | some w => ∃ ps os fs, Keys d (ElementForm d) ["PARTITION", "BY"] ps w.partitionBy ∧
      Keys d (OrderForm d) ["ORDER", "BY"] os w.orderBy ∧ FrameForm d fs w.frame ∧
        ts = d.bare "OVER" :: inParens (ps ++ (os ++ fs))

section Windows

variable {d : Dialect} {t : Target} {k : Nat} {operand : Parser Expr} {p : Precedence} {ts us rest : List Shape}
  {e : Expr}

/-- The distance of an end of a window frame opens like no other end. -/
theorem distance_reads (hd : d.Readable) (hop : Operates d k operand) (h : Form d p ts e) (hp : p.IsOperand)
    (hunbounded : (headShape ts).isWord "UNBOUNDED" = false) {w : String}
    (hw : w = "PRECEDING" ∨ w = "FOLLOWING") (hk : (ts ++ d.bare w :: rest).length < k) {b : Bound}
    (hlast : Parses d (do
      if ← Parser.eatWord "PRECEDING" then return .preceding e
      Parser.expectWord "FOLLOWING"
      return .following e) (d.bare w :: rest) b rest) :
    Parses d (Parser.frameBound operand) (ts ++ d.bare w :: rest) b rest := by
  have hends : Ends d p (d.bare w :: rest) := by
    rcases hw with rfl | rfl <;> exact .bare hd p rfl _
  have hahead := h.opens.ahead _ hends.isClear
  have hcurrent : ReadsOr.wordsMatch (ts ++ d.bare w :: rest) ["CURRENT", "ROW"] = false := by
    rw [misleads, Bool.or_eq_false_iff] at hahead
    have htail : headShape (ts ++ d.bare w :: rest).tail = nthShape (ts ++ d.bare w :: rest) 1 := by
      cases ts with
      | nil => exact absurd rfl h.opens.ne_nil
      | cons s ts => rfl
    simp only [ReadsOr.wordsMatch, htail, Bool.and_true]
    exact hahead.2
  refine .no (ReadsOr.eatWords_no hcurrent) (.no (ReadsOr.eatWord_no ?_) ?_)
  · rwa [headShape_append h.opens.ne_nil]
  · exact (hop h hp hends hk).bind hlast

theorem BoundForm.reads {b : Bound} (h : BoundForm d ts b) (hd : d.Readable) (hop : Operates d k operand)
    (hk : (ts ++ rest).length < k) : Parses d (Parser.frameBound operand) (ts ++ rest) b rest := by
  have hunbounded (us : List Shape) : Parses d (Parser.eatWords ["CURRENT", "ROW"])
      (d.bare "UNBOUNDED" :: us) false (d.bare "UNBOUNDED" :: us) := by
    refine ReadsOr.eatWords_no ?_
    rw [ReadsOr.wordsMatch, headShape_cons, Shape.isWord_bare,
      show Text.sameWord "UNBOUNDED" "CURRENT" = false from rfl, Bool.false_and]
  cases h with
  | unboundedPreceding =>
    refine .no (hunbounded _) (.yes (ReadsOr.eatBare d rfl) ?_)
    exact .yes (ReadsOr.eatBare d rfl) (.pure _)
  | unboundedFollowing =>
    refine .no (hunbounded _) (.yes (ReadsOr.eatBare d rfl) (.no (ReadsOr.eatBare_no d rfl) ?_))
    exact (ReadsOr.expectWord (Shape.isWord_bare d "FOLLOWING" "FOLLOWING")).bind (.pure _)
  | currentRow => exact .yes (eatWords_bare d ["CURRENT", "ROW"] rest) (.pure _)
  | preceding hform hp hstart =>
    rw [List.append_assoc, List.singleton_append] at hk ⊢
    refine distance_reads hd hop hform hp hstart (.inl rfl) hk ?_
    exact .yes (ReadsOr.eatBare d rfl) (.pure _)
  | following hform hp hstart =>
    rw [List.append_assoc, List.singleton_append] at hk ⊢
    refine distance_reads hd hop hform hp hstart (.inr rfl) hk (.no (ReadsOr.eatBare_no d rfl) ?_)
    exact (ReadsOr.expectWord (Shape.isWord_bare d "FOLLOWING" "FOLLOWING")).bind (.pure _)

/-- An end of a window frame does not start like a pair of them. -/
theorem BoundForm.between {b : Bound} (h : BoundForm d ts b) (rest : List Shape) :
    (headShape (ts ++ rest)).isWord "BETWEEN" = false := by
  have hform {p : Precedence} {us : List Shape} {e : Expr} (h : Form d p us e) (vs : List Shape) :
      (headShape (us ++ vs)).isWord "BETWEEN" = false := by
    rw [headShape_append h.opens.ne_nil]
    exact h.opens.word "BETWEEN" (by decide)
  cases h with
  | unboundedPreceding => exact Shape.isWord_bare d "UNBOUNDED" "BETWEEN"
  | unboundedFollowing => exact Shape.isWord_bare d "UNBOUNDED" "BETWEEN"
  | currentRow => exact Shape.isWord_bare d "CURRENT" "BETWEEN"
  | preceding h =>
    rw [List.append_assoc]
    exact hform h _
  | following h =>
    rw [List.append_assoc]
    exact hform h _

theorem BoundsForm.reads {start : Bound} {stop : Option Bound} (h : BoundsForm d ts start stop)
    (hd : d.Readable) (hop : Operates d k operand) (hk : (ts ++ rest).length < k) (unit : FrameUnit) :
    Parses d (do
      if ← Parser.eatWord "BETWEEN" then
        let start ← Parser.frameBound operand
        Parser.expectWord "AND"
        let stop ← Parser.frameBound operand
        return (⟨unit, start, some stop⟩ : Frame)
      let start ← Parser.frameBound operand
      return ⟨unit, start, none⟩) (ts ++ rest) ⟨unit, start, stop⟩ rest := by
  cases stop with
  | none =>
    have hstart : BoundForm d ts start := h
    exact .no (ReadsOr.eatWord_no (hstart.between rest)) ((hstart.reads hd hop hk).bind (.pure _))
  | some stop =>
    obtain ⟨us, vs, hstart, hstop, rfl⟩ := h
    simp only [List.cons_append, List.append_assoc, List.length_cons, List.length_append] at hk ⊢
    refine .yes (ReadsOr.eatBare d rfl) ((hstart.reads hd hop ?_).bind ?_)
    · simp only [List.length_append, List.length_cons]
      omega
    refine (ReadsOr.expectWord (Shape.isWord_bare d "AND" "AND")).bind ?_
    refine (hstop.reads hd hop ?_).bind (.pure _)
    rw [List.length_append]
    omega

theorem FrameForm.reads {frame : Option Frame} (h : FrameForm d ts frame) (hd : d.Readable)
    (hop : Operates d k operand) (hk : (ts ++ rest).length ≤ k) (hrest : NoneNext rest ["ROWS", "RANGE"]) :
    Parses d (Parser.optional Parser.checkFrame (Parser.windowFrame operand)) (ts ++ rest) frame rest := by
  cases frame with
  | none =>
    obtain rfl : ts = [] := h
    refine .optional_no (.no (hrest.checkWord (by simp)) (hrest.checkWord (by simp)))
  | some f =>
    obtain ⟨unit, start, stop⟩ := f
    obtain ⟨us, hbounds, rfl⟩ := h
    have hlength : (us ++ rest).length < k := hk
    have hmore := hbounds.reads hd hop hlength unit
    cases unit with
    | rows =>
      refine .optional (.yes (ReadsOr.checkWord (Shape.isWord_bare d "ROWS" "ROWS")) (.pure true)) ?_
      exact .yes (ReadsOr.eatBare d (w := "ROWS") rfl) ((ReadsOr.pure _).bind hmore)
    | range =>
      have hno : (headShape (d.bare "RANGE" :: (us ++ rest))).isWord "ROWS" = false :=
        Shape.isWord_bare d "RANGE" "ROWS"
      refine .optional (.no (ReadsOr.checkWord hno) (ReadsOr.checkWord (Shape.isWord_bare d "RANGE" "RANGE"))) ?_
      refine .no (ReadsOr.eatBare_no d (w := "RANGE") rfl) ?_
      refine (ReadsOr.expectWord (Shape.isWord_bare d "RANGE" "RANGE")).bind ?_
      exact (ReadsOr.pure _).bind hmore

/-- What follows the keys of a window. -/
theorem FrameForm.ends {frame : Option Frame} (h : FrameForm d ts frame) (hd : d.Readable) (rest : List Shape) :
    EndsKeys d (ts ++ .mark ")" :: rest) ∧ NoneNext (ts ++ .mark ")" :: rest) ["PARTITION", "ORDER"] := by
  cases frame with
  | none =>
    obtain rfl : ts = [] := h
    exact ⟨.closed d rest, .mark _ _ _⟩
  | some f =>
    obtain ⟨unit, start, stop⟩ := f
    obtain ⟨us, -, rfl⟩ := h
    cases unit with
    | rows => exact ⟨.bare hd (w := "ROWS") rfl (by decide) _, .bare d (x := "ROWS") _ (by decide)⟩
    | range => exact ⟨.bare hd (w := "RANGE") rfl (by decide) _, .bare d (x := "RANGE") _ (by decide)⟩

/-- A window is read behind a call. -/
theorem OverForm.reads {window : Option Window} (h : OverForm d ts window) (hd : d.Readable) {n : Nat}
    (hop : Operates d k operand) (hk : (ts ++ rest).length ≤ k) (hrest : (headShape rest).isClear = true) :
    Parses d (Parser.optional (Parser.eatWord "OVER") (Parser.window (Parser.nested n) operand)) (ts ++ rest)
      window rest := by
  cases window with
  | none =>
    obtain rfl : ts = [] := h
    exact .optional_no (ReadsOr.eatWord_no (Shape.isClear_iff.mp hrest).2.2.2.1)
  | some w =>
    obtain ⟨partitionBy, orderBy, frame⟩ := w
    obtain ⟨ps, os, fs, hpartition, horder, hframe, rfl⟩ := h
    rw [List.cons_append, inParens_append, List.append_assoc, List.append_assoc]
    obtain ⟨hends, hnone⟩ := hframe.ends hd rest
    have hbehind : EndsKeys d (os ++ (fs ++ .mark ")" :: rest)) ∧
        (headShape (os ++ (fs ++ .mark ")" :: rest))).isWord "PARTITION" = false := by
      rcases horder with ⟨-, rfl⟩ | ⟨-, tss, -, rfl⟩
      · exact ⟨hends, hnone "PARTITION" (by simp)⟩
      · exact ⟨.bare hd (w := "ORDER") rfl (by decide) _, Shape.isWord_bare d "ORDER" "PARTITION"⟩
    have hlength : (fs ++ .mark ")" :: rest).length ≤ k := by
      simp only [List.cons_append, inParens, List.length_append, List.length_cons] at hk ⊢
      omega
    refine .optional (ReadsOr.eatBare d rfl) (ReadsOr.parenthesized ?_)
    refine (hpartition.reads (E := Ends d 0) (fun _ _ _ he hus => he.reads hus n)
      (fun us => .mark d 0 (by decide) us) hbehind.1.ends hbehind.1.comma hbehind.2).bind ?_
    rw [Parser.orderBy_eq]
    refine (horder.reads (E := EndsKey d) (fun _ _ _ ho hus => ho.reads hd hus n)
      (fun us => .mark d (by decide) us) hends.toEndsKey hends.comma (hnone "ORDER" (by simp))).bind ?_
    exact (hframe.reads hd hop hlength (.mark _ _ _)).bind (.pure _)

end Windows

/-! ## Written windows -/

/-- The distance of an end of a window frame is written and opens like no other end. -/
def Bound.IsWritten (t : Target) : Bound → Prop
  | .preceding e => Rewrites false t id e ∧ e.startsUnbounded = false
  | .following e => Rewrites false t id e ∧ e.startsUnbounded = false
  | _ => True

/-- The parts of a window are written. -/
structure Window.IsWritten (t : Target) (w : Window) : Prop where
  partitionBy : ∀ e ∈ w.partitionBy, Rewrites false t id e
  orderBy : ∀ o ∈ w.orderBy, Rewrites false t id o.key
  start : ∀ f ∈ w.frame, f.start.IsWritten t
  stop : ∀ f ∈ w.frame, ∀ b ∈ f.stop, b.IsWritten t

section Written

variable {t : Target}

theorem bound_returned (hd : t.dialect.Expressive) {b : Bound} (h : b.IsWritten t) :
    Renders false t b.text fun text => ∃ ts b', Spelled t.dialect text ts ∧ BoundForm t.dialect ts b' ∧
      b'.respell (.plain id) = b.respell (t.dialect.respelling id) := by
  have hwords (ws : List String) (hws : ∀ w ∈ ws, Spelled.isPlainWord w = true) :
      Spelled t.dialect (String.intercalate " " ws) (ws.map t.dialect.bare) := .phrase hd.toLegible hws
  have hdistance {e : Expr} (he : Rewrites false t id e ∧ e.startsUnbounded = false) :
      Renders false t (operand e .unary false e.texts) fun text => ∃ p ts e', Spelled t.dialect text ts ∧
        Form t.dialect p ts e' ∧ p.IsOperand ∧ (headShape ts).isWord "UNBOUNDED" = false ∧
          e'.respell (.plain id) = e.respell (t.dialect.respelling id) := by
    refine (he.1.operand hd false (by decide)).mono ?_
    rintro text ⟨p, ⟨e', ⟨ts, hspelled, hform, hstarts⟩, heq⟩, hp, -⟩
    refine ⟨p, ts, e', hspelled, hform, .inr hp, ?_, heq⟩
    rw [← Bool.not_eq_true]
    exact fun hword => Bool.false_ne_true (he.2.symm.trans (hstarts.unbounded hword))
  cases b with
  | unboundedPreceding =>
    exact .pure ⟨_, _, hwords ["UNBOUNDED", "PRECEDING"] (by decide), .unboundedPreceding, rfl⟩
  | unboundedFollowing =>
    exact .pure ⟨_, _, hwords ["UNBOUNDED", "FOLLOWING"] (by decide), .unboundedFollowing, rfl⟩
  | currentRow => exact .pure ⟨_, _, hwords ["CURRENT", "ROW"] (by decide), .currentRow, rfl⟩
  | preceding e =>
    rw [Bound.text]
    refine (hdistance h).bind ?_
    rintro text ⟨p, ts, e', hspelled, hform, hp, hunbounded, heq⟩
    refine .pure ⟨_, _, ?_, .preceding hform hp hunbounded, by rw [Bound.respell, Bound.respell, heq]⟩
    exact (hspelled.join Spelled.blank_mem (.word (w := "PRECEDING") hd.toLegible rfl)).of_eq (by simp)
  | following e =>
    rw [Bound.text]
    refine (hdistance h).bind ?_
    rintro text ⟨p, ts, e', hspelled, hform, hp, hunbounded, heq⟩
    refine .pure ⟨_, _, ?_, .following hform hp hunbounded, by rw [Bound.respell, Bound.respell, heq]⟩
    exact (hspelled.join Spelled.blank_mem (.word (w := "FOLLOWING") hd.toLegible rfl)).of_eq (by simp)

theorem frameText_returned (hd : t.dialect.Expressive) {frame : Option Frame}
    (hstart : ∀ f ∈ frame, f.start.IsWritten t) (hstop : ∀ f ∈ frame, ∀ b ∈ f.stop, b.IsWritten t) :
    Renders false t (frameText frame) fun texts => ∃ tss frame', List.Forall₂ (Spelled t.dialect) texts tss ∧
      FrameForm t.dialect tss.flatten frame' ∧
        respellFrame (.plain id) frame' = respellFrame (t.dialect.respelling id) frame := by
  cases frame with
  | none => exact .pure ⟨[], none, .nil, rfl, rfl⟩
  | some f =>
    obtain ⟨unit, start, stop⟩ := f
    have hunit : Spelled t.dialect unit.word [t.dialect.bare unit.word] :=
      .word hd.toLegible (by cases unit <;> rfl)
    have htext : frameText (some ⟨unit, start, stop⟩) = (do
        let start ← start.text
        let stop ← stopText stop
        stop.elim (return [s!"{unit.word} {start}"])
          fun stop => return [s!"{unit.word} BETWEEN {start} AND {stop}"]) := by
      cases unit <;> rw [frameText] <;>
        exact bind_congr fun _ => bind_congr fun o => by cases o <;> rfl
    rw [htext]
    refine (bound_returned hd (hstart _ rfl)).bind ?_
    rintro text ⟨ts, b, hspelled, hform, heq⟩
    cases stop with
    | none =>
      rw [stopText]
      refine Renders.bind (P := (· = none)) (.pure rfl) ?_
      rintro _ rfl
      refine .pure ⟨[_], some ⟨unit, b, none⟩, .cons (hunit.join Spelled.blank_mem hspelled) .nil, ?_, ?_⟩
      · exact ⟨ts, hform, by simp⟩
      · rw [respellFrame, respellFrame, heq, respellStop, respellStop]
    | some stop =>
      rw [stopText]
      refine Renders.bind (P := fun o => ∃ stext us c, o = some stext ∧ Spelled t.dialect stext us ∧
        BoundForm t.dialect us c ∧ c.respell (.plain id) = stop.respell (t.dialect.respelling id))
        ((bound_returned hd (hstop _ rfl _ rfl)).bind ?_) ?_
      · rintro stext ⟨us, c, hs, hc, hceq⟩
        exact .pure ⟨stext, us, c, rfl, hs, hc, hceq⟩
      rintro _ ⟨stext, us, c, rfl, hs, hc, hceq⟩
      have hbetween : Spelled t.dialect "BETWEEN" [t.dialect.bare "BETWEEN"] := .word hd.toLegible rfl
      have hand : Spelled t.dialect "AND" [t.dialect.bare "AND"] := .word hd.toLegible rfl
      have hbounds := hunit.join Spelled.blank_mem (hbetween.join Spelled.blank_mem
        (hspelled.join Spelled.blank_mem (hand.join Spelled.blank_mem hs)))
      refine .pure ⟨[_], some ⟨unit, b, some c⟩, .cons (hbounds.of_eq (by simp)) .nil, ?_, ?_⟩
      · exact ⟨_, ⟨ts, us, hform, hc, rfl⟩, by simp⟩
      · rw [respellFrame, respellFrame, heq, respellStop, respellStop, hceq]

/-- A list behind words and a blank. -/
theorem spelled_words (hd : t.dialect.Legible) {words texts : List String} {tss : List (List Shape)}
    (hwords : ∀ w ∈ words, Spelled.isPlainWord w = true) (h : List.Forall₂ (Spelled t.dialect) texts tss) :
    Spelled t.dialect (String.intercalate " " words ++ " " ++ String.intercalate ", " texts)
      (words.map t.dialect.bare ++ betweenCommas tss) :=
  (Spelled.phrase hd hwords).join Spelled.blank_mem (.commaList hd (by simp [Spelled.listGaps]) h)

/-- The window of a call is written behind it. -/
theorem overText_returned (hd : t.dialect.Expressive) {window : Option Window}
    (h : ∀ w ∈ window, w.IsWritten t) :
    Renders false t (overText window) fun text => ∃ us window', OverForm t.dialect us window' ∧
      respellWindow (.plain id) window' = respellWindow (t.dialect.respelling id) window ∧
        ∀ s ts, Spelled t.dialect s ts → Spelled t.dialect (s ++ text) (ts ++ us) := by
  cases window with
  | none => exact .pure ⟨[], none, rfl, rfl, fun s ts hs => by simpa using hs⟩
  | some w =>
    obtain ⟨partitionBy, order, frame⟩ := w
    obtain ⟨hpartition, horder, hstart, hstop⟩ := h _ rfl
    rw [overText]
    refine (exprTexts_returned hd hpartition).bind fun keys hkeys => ?_
    refine (orderTexts_returned hd horder).bind fun orders horders => ?_
    refine (frameText_returned hd hstart hstop).bind ?_
    rintro frames ⟨fss, frame', hfall, hfform, hfeq⟩
    obtain ⟨pss, ps, hpall, hpform, hpeq⟩ := listwise_all.keys ["PARTITION", "BY"]
      (fun texts => "PARTITION BY " ++ String.intercalate ", " texts) hkeys
      fun tss hall => (spelled_words hd.toLegible (by decide) hall).of_eq (by simp)
    obtain ⟨oss, os, hoall, hoform, hoeq⟩ := listwise_order.keys ["ORDER", "BY"]
      (fun texts => "ORDER BY " ++ String.intercalate ", " texts) horders
      fun tss hall => (spelled_words hd.toLegible (by decide) hall).of_eq (by simp)
    refine .pure ⟨_, some ⟨ps, os, frame'⟩, ⟨_, _, _, hpform, hoform, hfform, rfl⟩, ?_, fun s ts hs => ?_⟩
    · rw [respellWindow, respellWindow, hpeq, hoeq, hfeq]
    · have hparts := Spelled.gapList Spelled.blank_mem (List.rel_append (List.rel_append hpall hoall) hfall)
      have hover : Spelled t.dialect "OVER" [t.dialect.bare "OVER"] := .word hd.toLegible rfl
      have hwindow := hs.join Spelled.blank_mem (hover.join Spelled.blank_mem (hparts.parens hd.toLegible))
      simp only [List.flatten_append, List.append_assoc] at hwindow
      exact hwindow.of_eq (by simp)

end Written

/-! ## Calls -/

/-- The tokens `ts` behind the name `w` of a function and a parenthesis are read as the call `f`, whatever
reads the distances of its window. -/
def CallForm (d : Dialect) (w : String) (ts : List Shape) (f : Call) : Prop :=
  ∀ n k operand rest position, Operates d k operand → (headShape rest).isClear = true →
    (ts ++ rest).length ≤ k →
      Parses d (Parser.call (Parser.nested n) operand w position) (.mark "(" :: (ts ++ rest)) (.call f) rest

section Calls

variable {d : Dialect} {t : Target} {w : String} {ss ts us : List Shape} {f g : Call}

theorem CallForm.form (h : CallForm d w ts f) (hw : d.Callee w ss) :
    Form d .atom (ss ++ .mark "(" :: ts) (.call f) := by
  refine hw.form fun n k rest position hrest hk => ?_
  refine h n k _ rest position (operates_upTo d n k) hrest ?_
  simp only [List.length_append, List.length_cons] at hk ⊢
  omega

theorem callForm_window (hd : d.Readable) {canonical : String} {distinct : Bool} {args : List Arg}
    {window : Option Window} (hplain : d.isPlainCall w = true) (hmeaning : d.meaning? w = some (canonical, false))
    (hbody : Enclosed d (Text.upper w) ts distinct args) (hover : OverForm d us window) :
    CallForm d w (ts ++ .mark ")" :: us) ⟨canonical, args, distinct, window⟩ := by
  intro n k operand rest position hop hrest hk
  rw [List.append_assoc, List.cons_append] at hk ⊢
  have hbound : (us ++ rest).length ≤ k := by
    simp only [List.length_append, List.length_cons] at hk ⊢
    omega
  have hcall : Parses d (Parser.call (Parser.nested n) operand w position)
      (.mark "(" :: (ts ++ .mark ")" :: (us ++ rest)))
      (.call ⟨canonical, swapFirstIf false args, distinct, window⟩) rest :=
    call_plain hplain hmeaning (hbody n _) (hover.reads hd hop hbound hrest)
  exact hcall

/-- A function is written under its own name, which is none of a search. -/
theorem Dialect.Stable.says_plain (hd : d.Stable) {name : String} (h : d.Says name ss) :
    d.Callee name ss ∧ d.meaning? name = some (name, false) ∧ Text.upper name ≠ "POSITION" := by
  obtain ⟨hcallee, hmeaning⟩ := h
  rw [hd.saying_eq] at hcallee hmeaning
  refine ⟨hcallee, hmeaning, fun hposition => ?_⟩
  unfold Dialect.meaning? at hmeaning
  simp only [hposition, beq_self_eq_true, if_true, Option.some.injEq, Prod.mk.injEq, and_true] at hmeaning
  subst hmeaning
  revert hposition
  decide

/-- The arguments of a call are written between its parentheses. -/
theorem argTexts_returned (hd : t.dialect.Fluent) {upper : String} (hposition : upper ≠ "POSITION")
    (hcommon : f.IsCommon) (hargs : ∀ e, .expr e ∈ f.args → Rewrites false t id e) :
    Renders false t (argTexts f.args) fun texts => ∃ ts args,
      Spelled t.dialect ((if f.distinct then "DISTINCT " else "") ++ String.intercalate ", " texts) ts ∧
        Enclosed t.dialect upper ts f.distinct args ∧
          respellArgs (.plain id) args = respellArgs (t.dialect.respelling id) f.args := by
  rcases hcommon with ⟨hempty, hdistinct⟩ | hstar | ⟨es, hne, hes⟩
  · rw [hempty, hdistinct]
    exact .pure ⟨[], [], Spelled.empty _, enclosed_empty upper, rfl⟩
  · rw [hstar]
    refine Renders.bind (P := (· = [])) (.pure rfl) ?_
    rintro _ rfl
    exact .pure ⟨_, [.star], spelled_distinct hd.toLegible f.distinct (spelled_star hd),
      enclosed_star upper f.distinct, rfl⟩
  · rw [hes, argTexts_map]
    refine (exprTexts_returned hd.toExpressive fun e he => hargs e (by simpa [hes] using he)).mono
      fun texts htexts => ?_
    obtain ⟨tss, es', hall, helements, hne', heq⟩ := listwise_all.returned htexts
    have helements' : Elements t.dialect tss es' := helements
    refine ⟨_, es'.map .expr, spelled_distinct hd.toLegible f.distinct
      (Spelled.commaList hd.toLegible (by simp [Spelled.listGaps]) hall),
      enclosed_args f.distinct (helements'.opens (hne' hne))
        (callArgs_elements helements' (hne' hne) hposition), ?_⟩
    rw [respellArgs_map, heq, ← respellArgs_map]

/-- The text of a call is the name of its function and tokens that are read as the call behind it. -/
theorem Call.text_returned (hd : t.dialect.Stable) (hsaid : t.dialect.Says f.name ss) (hcommon : f.IsCommon)
    (hargs : ∀ e, .expr e ∈ f.args → Rewrites false t id e) (hwindow : ∀ w ∈ f.window, w.IsWritten t) :
    Renders false t f.text fun text => ∃ ts g, Spelled t.dialect text (ss ++ .mark "(" :: ts) ∧
      CallForm t.dialect f.name ts g ∧ g.respell (.plain id) = f.respell (t.dialect.respelling id) := by
  obtain ⟨hcallee, hmeaning, hposition⟩ := hd.says_plain hsaid
  have hbody := argTexts_returned hd.toFluent hposition hcommon hargs
  obtain ⟨name, args, distinct, window⟩ := f
  have hasks : t.asksPosition name args window = false := by
    unfold Target.asksPosition Dialect.spelling?
    rw [hd.sayings.1]
    rfl
  rw [Call.text]
  refine .target ?_
  rw [hasks]
  refine hbody.bind ?_
  rintro texts ⟨ts, args', hspelled, henclosed, heq⟩
  refine (overText_returned hd.toExpressive hwindow).bind ?_
  rintro text ⟨us, window', hover, hweq, happend⟩
  refine .pure ⟨ts ++ .mark ")" :: us, _, ?_,
    callForm_window hd.toReadable hcallee.plain hmeaning henclosed hover, ?_⟩
  · have hcall := happend _ _ (hcallee.spelled hspelled)
    rw [callText_eq, hd.saying_eq]
    have hlist : ss ++ inParens ts ++ us = ss ++ .mark "(" :: (ts ++ .mark ")" :: us) := by
      rw [List.append_assoc, inParens_append]
    rwa [hlist] at hcall
  · rw [Call.respell, Call.respell, heq, hweq]

/-- The name of a function stands at the start of the text of its call. -/
theorem starts_call (hw : d.Callee f.name ss) (ts : List Shape) : Starts (.call f) (ss ++ ts) := by
  obtain ⟨us, rfl, hexists⟩ := hw.head
  refine ⟨fun h => ?_, fun h => ?_⟩
  · rw [List.cons_append, headShape_cons, Shape.isWord_bare, hexists] at h
    cases h
  · rw [List.cons_append, headShape_cons, Shape.isWord_bare] at h
    simpa [Expr.startsUnbounded, Expr.leftmost] using h

theorem call_regains (hd : t.dialect.Stable) (hsaid : t.dialect.Says f.name ss) (hcommon : f.IsCommon)
    (hargs : ∀ e, .expr e ∈ f.args → Rewrites false t id e) (hwindow : ∀ w ∈ f.window, w.IsWritten t) :
    Rewrites false t id (.call f) := by
  have hcallee := (hd.says_plain hsaid).1
  refine rewrites_single (by rw [Expr.texts]) (by rfl) ?_
  refine (Call.text_returned hd hsaid hcommon hargs hwindow).mono ?_
  rintro text ⟨ts, g, hspelled, hform, heq⟩
  refine ⟨_, ⟨_, hspelled, hform.form hcallee, starts_call hcallee _⟩, ?_⟩
  rw [Expr.respell, Expr.respell, heq]

end Calls

end SqlDialects
