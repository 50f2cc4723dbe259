import SqlDialects.Proofs.RestoredCalls

/-!
# Items and sources

* `Target.Keeps` : names that are read where they are written;
* `QueryForm` : the tokens of a query before what may follow one, and `Query.Restored` : a query that is
  written by such tokens;
* `ItemForm`, `RelationForm`, `JoinForm`, `SourceForm` : the tokens of the items and the sources of a query;
* `itemTexts_returned`, `sourceTexts_returned` : items and sources are written by such tokens.
-/

namespace SqlDialects

open Render

/-! ## Names -/

/-- The names are read where they are written. -/
def Target.Keeps (t : Target) (ns : List Name) : Prop := ∀ n ∈ ns, t.reread n = n

/-- The tokens of names in parentheses, or none for no names. -/
def columnShapes (ns : List Name) : List Shape :=
  if ns = [] then [] else inParens (betweenCommas (ns.map fun n => [n.shape]))

/-- The tokens of an alias of a source. -/
def Dialect.aliasShapes (d : Dialect) : Option TableAlias → List Shape
  | none => []
  | some a => d.bare "AS" :: a.name.shape :: columnShapes a.columns

/-- The names of an alias. -/
def aliasNames : Option TableAlias → List Name
  | none => []
  | some a => a.name :: a.columns

/-- The tokens of a label. -/
def Dialect.labelShapes (d : Dialect) : Option Name → List Shape
  | none => []
  | some n => [d.bare "AS", n.shape]

/-- What may follow a label or an alias: nothing that belongs to it. -/
structure EndsLabel (rest : List Shape) : Prop where
  words : NoneNext rest ["AS"]
  name : (headShape rest).isName = false

theorem Stops.endsLabel {d : Dialect} {ms ws : List String} {rest : List Shape} (h : Stops d ms ws rest)
    (hws : ∀ w ∈ ws, Text.sameWord w "AS" = false) : EndsLabel rest :=
  ⟨h.noneNext fun w hw => by simpa using hws w hw, h.isName⟩

section Names

variable {F : Lapses} {d : Dialect} {t : Target} {ns : List Name} {s : String} {ts rest : List Shape}

theorem Target.Keeps.map (h : t.Keeps ns) : ns.map t.reread = ns := by
  conv_rhs => rw [← List.map_id ns]
  exact List.map_congr_left h

theorem Target.Keeps.isFree (h : t.Keeps ns) {n : Name} (hn : n ∈ ns) : n.IsFree t.dialect := by
  rw [← h n hn]
  exact reread_isFree t n

theorem Target.Keeps.name (h : t.Keeps ns) (hd : t.dialect.Legible) {n : Name} (hn : n ∈ ns) :
    Spelled t.dialect (t.name n) [n.shape] := by
  have hspelled := Spelled.name hd (t := t) rfl n
  rwa [h n hn] at hspelled

theorem Target.Keeps.path (h : t.Keeps ns) (hd : t.dialect.Legible) :
    Spelled t.dialect (t.path ns) (betweenDots (ns.map Name.shape)) := by
  have hspelled := Spelled.path hd (t := t) rfl ns
  rwa [h.map] at hspelled

theorem Target.Keeps.names (h : t.Keeps ns) (hd : t.dialect.Legible) :
    Spelled t.dialect (t.names ns) (betweenCommas (ns.map fun n => [n.shape])) := by
  have hspelled := Spelled.names hd (t := t) rfl ns
  rwa [h.map] at hspelled

theorem Target.Keeps.columns (h : t.Keeps ns) (hd : t.dialect.Legible) (hs : Spelled t.dialect s ts) :
    Spelled t.dialect (s ++ t.columns ns) (ts ++ columnShapes ns) := by
  unfold Target.columns columnShapes
  cases ns with
  | nil => simpa using hs
  | cons n ns =>
    have hlist := (h.names hd).parens hd
    exact (hs.join Spelled.blank_mem hlist).of_eq (by simp)

theorem columns_read (hopen : (headShape rest).isSymbol "(" = false) :
    ReadsOr F d Parser.optionalNameList (columnShapes ns ++ rest) ns rest := by
  unfold columnShapes
  split
  · next hnil =>
    rw [hnil]
    exact .optionalList_no (.peekSymbol hopen)
  · next hne => exact .optionalList (.peekSymbol rfl) (.nameList hne)

theorem alias_reads {label : Option TableAlias} (hrest : EndsLabel rest)
    (hopen : (headShape rest).isSymbol "(" = false) :
    ReadsOr F d Parser.tableAlias (d.aliasShapes label ++ rest) label rest := by
  cases label with
  | none => exact (optionalAlias_no hrest.words hrest.name).bind (.pure none)
  | some a =>
    refine ReadsOr.bind (a := some a.name) (u := columnShapes a.columns ++ rest) ?_ ?_
    · exact .yes (ReadsOr.eatBare d rfl) ((ReadsOr.name a.name).bind (.pure _))
    · exact (columns_read hopen).bind (.pure _)

theorem label_reads {label : Option Name} (hrest : EndsLabel rest) :
    ReadsOr F d Parser.optionalAlias (d.labelShapes label ++ rest) label rest := by
  cases label with
  | none => exact optionalAlias_no hrest.words hrest.name
  | some n => exact .yes (ReadsOr.eatBare d rfl) ((ReadsOr.name n).bind (.pure _))

theorem aliased_spelled (hd : t.dialect.Stable) {label : Option TableAlias} (h : t.Keeps (aliasNames label))
    (hs : Spelled t.dialect s ts) :
    Renders false t (aliased s label) fun text => Spelled t.dialect text (ts ++ t.dialect.aliasShapes label) := by
  unfold aliased
  refine .target ?_
  cases label with
  | none => exact .pure (by simpa [Dialect.aliasShapes] using hs)
  | some a =>
    have hword : Spelled t.dialect "AS" [t.dialect.bare "AS"] := .word hd.toLegible rfl
    have hname : Spelled t.dialect (t.name a.name) [a.name.shape] := h.name hd.toLegible (by simp [aliasNames])
    have hcolumns : t.Keeps a.columns := fun n hn => h n (by simp [aliasNames, hn])
    have hlabel := hcolumns.columns hd.toLegible (hs.join Spelled.blank_mem (hword.join Spelled.blank_mem hname))
    simp only [List.append_assoc] at hlabel
    exact .pure (hlabel.of_eq (by simp [Target.aliasWord, hd.aliases]))

end Names

/-! ## Queries -/

mutual

/-- The words and marks with which a query opens. -/
def Query.opening : Query → List String
  | ⟨some _, _, _, _⟩ => ["WITH"]
  | ⟨none, body, _, _⟩ => body.opening

/-- The words and marks with which a body opens. -/
def Body.opening : Body → List String
  | .select _ => ["SELECT"]
  | .combine _ _ left _ => left.opening
  | .query q => "(" :: q.opening
  | .values _ => ["VALUES"]

end

/-- Whether a token is the word or the mark `w` with which a query opens. -/
def Shape.isLead (s : Shape) (w : String) : Bool := if w = "(" then s.isSymbol w else s.isWord w

/-- Whether the words and marks stand at the head of the tokens. -/
def opensWith : List String → List Shape → Bool
  | [], _ => true
  | w :: ws, ts => (headShape ts).isLead w && opensWith ws ts.tail

/-- The tokens of a query before what may follow one. -/
def QueryForm (d : Dialect) (ts : List Shape) (q : Query) : Prop :=
  ∀ n rest, Stops d [")"] ["RETURNING"] rest → Parses d (Parser.nested n).query (ts ++ rest) q rest

/-- The query is written by the tokens of the respelled one, which open as the query does. -/
def Query.Restored (t : Target) (q : Query) : Prop :=
  Restores t q.text Query.respell
    (fun ts q' => QueryForm t.dialect ts q' ∧ opensWith q.opening ts = true) q

/-- A query in parentheses is written by the tokens of the respelled one. -/
theorem Query.Restored.block {t : Target} {q : Query} (hd : t.dialect.Stable) (h : q.Restored t) :
    Renders false t (block q.text) fun text => ∃ ts q', Spelled t.dialect text (inParens ts) ∧
      QueryForm t.dialect ts q' ∧ opensWith q.opening ts = true ∧
        q'.respell (.plain id) = q.respell (t.dialect.respelling id) := by
  refine h.bind ?_
  rintro text ⟨ts, q', hspelled, ⟨hform, hopens⟩, heq⟩
  exact .target (.pure ⟨ts, q', hspelled.block hd.toLegible rfl, hform, hopens, heq⟩)

theorem QueryForm.closed {d : Dialect} {ts : List Shape} {q : Query} (h : QueryForm d ts q) (n : Nat)
    (rest : List Shape) :
    Parses d (Parser.nested n).query (ts ++ .mark ")" :: rest) q (.mark ")" :: rest) :=
  h n _ (.mark (by simp) rest)

/-! ## Items -/

/-- What may follow an item: nothing that belongs to it. -/
structure EndsItem (d : Dialect) (rest : List Shape) : Prop extends EndsLabel rest where
  ends : Ends d 0 rest

theorem EndsItem.comma (d : Dialect) (rest : List Shape) : EndsItem d (.mark "," :: rest) :=
  ⟨⟨.mark _ _ _, rfl⟩, .mark d 0 (by decide) rest⟩

theorem EndsItem.of_stops {d : Dialect} (hd : d.Readable) {rest : List Shape}
    (h : Stops d [")"] clauseWords rest) : EndsItem d rest :=
  ⟨h.endsLabel (by decide), h.ends hd 0 (by decide) (by decide)⟩

/-- The tokens of an item of a projection. -/
inductive ItemForm (d : Dialect) : List Shape → SelectItem → Prop where
  | star : ItemForm d [(.operator, "*")] .star
  | qualified {ns : List Name} (hne : ns ≠ []) (hfree : ∀ n ∈ ns, n.IsFree d) :
    ItemForm d (betweenDots (ns.map Name.shape) ++ [Shape.mark ".", (.operator, "*")]) (.qualifiedStar ns)
  | expr {ts : List Shape} {e : Expr} (h : ElementForm d ts e) (label : Option Name) :
    ItemForm d (ts ++ d.labelShapes label) (.expr e label)

section Items

variable {F : Lapses} {d : Dialect} {t : Target} {ns : List Name} {ts rest : List Shape} {e : Expr}
  {item : SelectItem} {items : List SelectItem}

/-- Where no star is ahead there are no names before one. -/
theorem starParts_none (n k : Nat) (h : starAhead (ts.drop k) = false) :
    ReadsOr F d (Parser.starParts k n) ts none ts := by
  induction n generalizing k with
  | zero => exact .pure none
  | succ n ih =>
    refine .peekNth fun t ht => .peekNth fun next hnext => ?_
    rw [← Token.isName_shape, ← Token.isSymbol_shape, ht, hnext]
    cases hdot : (nthShape ts k).isName && (nthShape ts (k + 1)).isSymbol "." with
    | false => exact .pure none
    | true =>
      have hlist : ts.drop k = nthShape ts k :: nthShape ts (k + 1) :: ts.drop (k + 2) := by
        have hlt : k + 1 < ts.length := by
          by_contra hge
          have hfinish : nthShape ts (k + 1) = .finish := List.getD_eq_default _ _ (by omega)
          simp [hfinish] at hdot
        rw [List.drop_eq_getElem_cons (by omega), List.drop_eq_getElem_cons hlt]
        simp [nthShape, List.getD_eq_getElem?_getD, hlt, show k < ts.length by omega]
      rw [hlist, starAhead, hdot, Bool.true_and, Bool.or_eq_false_iff, ReadsOr.headShape_drop] at h
      refine .peekNth fun third hthird => ?_
      rw [← Token.isSymbol_shape, hthird, h.1]
      exact (ih (k + 2) h.2).bind (.pure none)

/-- The names before a star are counted. -/
theorem starParts_dots (n k : Nat) {name : Name} (hn : ns.length < n)
    (h : ts.drop k = betweenDots ((name :: ns).map Name.shape) ++ Shape.mark "." :: (.operator, "*") :: rest) :
    ReadsOr F d (Parser.starParts k n) ts (some (ns.length + 1)) ts := by
  induction n generalizing k name ns with
  | zero => cases hn
  | succ n ih =>
    have hnth (j : Nat) : nthShape ts (k + j) = nthShape (ts.drop k) j := by
      simp [nthShape, List.getD_eq_getElem?_getD]
    refine .peekNth fun t ht => .peekNth fun next hnext => ?_
    rw [show k = k + 0 from rfl, hnth, h] at ht
    rw [hnth, h] at hnext
    have hdot : (t.isName && next.isSymbol ".") = true := by
      rw [← Token.isName_shape, ← Token.isSymbol_shape, ht, hnext]
      cases ns <;> simp [betweenDots, behindDots, Name.isName_shape]
    rw [hdot]
    refine .peekNth fun third hthird => ?_
    rw [hnth, h] at hthird
    cases ns with
    | nil =>
      have hstar : third.isSymbol "*" = true := by
        rw [← Token.isSymbol_shape, hthird]
        rfl
      rw [hstar]
      exact .pure _
    | cons m ns =>
      have hstar : third.isSymbol "*" = false := by
        rw [← Token.isSymbol_shape, hthird]
        exact Name.isSymbol_shape m "*"
      rw [hstar]
      have hrest : ts.drop (k + 2) =
          betweenDots ((m :: ns).map Name.shape) ++ Shape.mark "." :: (.operator, "*") :: rest := by
        rw [← List.drop_drop, h]
        simp [betweenDots, behindDots]
      exact (ih (k + 2) (by simpa using hn) hrest).map _

theorem times_starParts (ns : List Name) (us : List Shape) :
    ReadsOr F d (Parser.times ns.length Parser.starPart)
      (ns.flatMap (fun n => [n.shape, .mark "."]) ++ us) ns us := by
  induction ns with
  | nil => exact .pure []
  | cons n ns ih =>
    refine ReadsOr.bind (a := n) ?_ (ih.bind (.pure _))
    exact (ReadsOr.name n).bind (.advance fun _ _ => .pure n)

theorem betweenDots_dot (n : Name) (ns : List Name) (us : List Shape) :
    betweenDots ((n :: ns).map Name.shape) ++ .mark "." :: us =
      (n :: ns).flatMap (fun n => [n.shape, .mark "."]) ++ us := by
  induction ns generalizing n with
  | nil => rfl
  | cons m ns ih =>
    have := ih m
    simp only [betweenDots, behindDots, List.map_cons, List.flatMap_cons, List.cons_append, List.nil_append] at this ⊢
    simp [this]

theorem ItemForm.reads (h : ItemForm d ts item) (hd : d.Readable) (hrest : EndsItem d rest) (n : Nat) :
    Parses d (Parser.selectItem (Parser.nested n)) (ts ++ rest) item rest := by
  cases h with
  | star => exact .yes (ReadsOr.eatSymbol rfl) (.pure _)
  | @qualified ns hne hfree =>
    cases ns with
    | nil => exact absurd rfl hne
    | cons n ns =>
      rw [List.append_assoc, List.cons_append, List.singleton_append]
      refine .no (ReadsOr.eatSymbol_no (Name.isSymbol_shape n "*")) (.remaining ?_)
      refine (starParts_dots _ 0 ?_ (List.drop_zero)).bind ?_
      · simp [betweenDots, behindDots, Function.comp_def]
        omega
      rw [betweenDots_dot]
      exact (times_starParts (n :: ns) _).bind (.advance fun _ _ => .pure _)
  | @expr ts e h label =>
    obtain ⟨p, hform⟩ := h
    have hends : Ends d 0 (d.labelShapes label ++ rest) := by
      cases label with
      | none => exact hrest.ends
      | some n => exact .bare hd 0 (w := "AS") rfl _
    have hahead := hform.opens.ahead _ hends.isClear
    rw [misleads, Bool.or_eq_false_iff] at hahead
    have hsymbol : (headShape (ts ++ (d.labelShapes label ++ rest))).isSymbol "*" = false := by
      rw [headShape_append hform.opens.ne_nil]
      exact hform.opens.symbol "*" (by simp)
    rw [List.append_assoc]
    refine .no (ReadsOr.eatSymbol_no hsymbol) (.remaining ?_)
    refine (starParts_none _ 0 hahead.1).bind ((hform.expr_zero hends n).bind ?_)
    exact (label_reads hrest.toEndsLabel).bind (.pure _)

/-- An item starts with no word that stands before the items. -/
theorem ItemForm.head (h : ItemForm d ts item) (hd : d.Readable) :
    ts ≠ [] ∧ ∀ w ∈ ["DISTINCT", "ALL", "ON"], (headShape ts).isWord w = false := by
  cases h with
  | star => exact ⟨by simp, fun _ _ => rfl⟩
  | @qualified ns hne hfree =>
    cases ns with
    | nil => exact absurd rfl hne
    | cons n ns =>
      refine ⟨by simp, fun w hw => ?_⟩
      exact Name.isWord_shape (hfree n (by simp))
        (reserved_of_mem_nonstarters hd (by revert w; decide))
  | expr h label =>
    obtain ⟨p, hform⟩ := h
    refine ⟨by simp [hform.opens.ne_nil], fun w hw => ?_⟩
    rw [headShape_append hform.opens.ne_nil]
    exact hform.opens.word w (by revert w; decide)

theorem listwise_items : Listwise respellItems where
  nil r := by rw [respellItems]
  cons r a as := by cases a <;> simp [respellItems]

/-- The parts of an item are written. -/
inductive SelectItem.IsWritten (t : Target) : SelectItem → Prop where
  | star : IsWritten t .star
  | qualified {ns : List Name} (hne : ns ≠ []) (h : t.Keeps ns) : IsWritten t (.qualifiedStar ns)
  | expr {e : Expr} {label : Option Name} (h : Rewrites false t id e) (hlabel : t.Keeps label.toList) :
    IsWritten t (.expr e label)

theorem spelled_qualifiedStar (hd : t.dialect.Fluent) (h : t.Keeps ns) :
    Spelled t.dialect (t.path ns ++ ".*") (betweenDots (ns.map Name.shape) ++ [Shape.mark ".", (.operator, "*")]) := by
  intro b hb
  have hdot : IsToken t.dialect (some '*') ['.'] (.mark ".") := isToken_dot hd.toLegible (by simp)
  have hstar := spelled_star hd b hb
  have hpath := Spelled.spells_path hd.toLegible (t := t) rfl ns (b := some '.') (by decide)
  rw [h.map] at hpath
  rw [String.toList_append]
  exact hpath.append (.token hdot hstar)

/-- Items are returned one by one. -/
theorem itemTexts_returned (hd : t.dialect.Fluent) (h : ∀ item ∈ items, item.IsWritten t) :
    Renders false t (itemTexts items) fun texts =>
      List.Forall₂ (Returned t respellItems (ItemForm t.dialect)) texts items := by
  induction items with
  | nil => exact .pure .nil
  | cons item items ih =>
    have hmore := ih fun x hx => h x (by simp [hx])
    cases h item (by simp) with
    | star =>
      refine hmore.bind fun texts htexts => .pure (.cons ⟨_, _, spelled_star hd, .star, ?_⟩ htexts)
      rfl
    | qualified hne hkeeps =>
      refine .target (hmore.bind fun texts htexts => .pure (.cons ?_ htexts))
      exact ⟨_, _, spelled_qualifiedStar hd hkeeps, .qualified hne fun n hn => hkeeps.isFree hn, rfl⟩
    | @expr e label he hlabel =>
      rw [itemTexts]
      refine (he.whole hd.toExpressive).bind ?_
      rintro text ⟨e', ⟨ts, hspelled, hform, -⟩, heq⟩
      refine .target (hmore.bind fun texts htexts => .pure (.cons ⟨_, .expr e' label, ?_,
        .expr ⟨_, hform⟩ label, ?_⟩ htexts))
      · cases label with
        | none => simpa [Dialect.labelShapes] using hspelled
        | some n =>
          have hword : Spelled t.dialect "AS" [t.dialect.bare "AS"] := .word hd.toLegible rfl
          have hname := hlabel.name hd.toLegible (n := n) (by simp)
          exact (hspelled.join Spelled.blank_mem (hword.join Spelled.blank_mem hname)).of_eq (by simp)
      · simp only [respellItems, heq]
        rfl

end Items

/-! ## Relations -/

/-- The tokens of a relation. -/
inductive RelationForm (d : Dialect) : List Shape → Relation → Prop where
  | table {ns : List Name} (hne : ns ≠ []) (label : Option TableAlias) :
    RelationForm d (betweenDots (ns.map Name.shape) ++ d.aliasShapes label) (.table ns label)
  | derived {ts : List Shape} {q : Query} (h : QueryForm d ts q) (label : Option TableAlias) :
    RelationForm d (inParens ts ++ d.aliasShapes label) (.derived q label)
  | function {ns : List Name} {ts : List Shape} {f : Call} (hne : ns ≠ [])
    (h : CallForm d (QualifiedName.dotted ns) ts f) (label : Option TableAlias) :
    RelationForm d (betweenDots (ns.map Name.shape) ++ .mark "(" :: (ts ++ d.aliasShapes label))
      (.function f label)

/-- The relation is written by the tokens of the respelled one. -/
def Relation.Restored (t : Target) (r : Relation) : Prop :=
  Restores t r.text Relation.respell (RelationForm t.dialect) r

section Relations

variable {d : Dialect} {t : Target} {ns : List Name} {ts rest : List Shape} {r : Relation} {q : Query} {f : Call}
  {label : Option TableAlias}

theorem isSymbol_dots (hne : ns ≠ []) (m : String) (us : List Shape) :
    (headShape (betweenDots (ns.map Name.shape) ++ us)).isSymbol m = false := by
  cases ns with
  | nil => exact absurd rfl hne
  | cons n ns => exact Name.isSymbol_shape n m

theorem RelationForm.reads (h : RelationForm d ts r) (hd : d.Readable)
    (hrest : Stops d [")", ","] (sourceWords ++ sourceEnds) rest) (n : Nat) :
    Parses d (Parser.relation (Parser.nested n)) (ts ++ rest) r rest := by
  have hopen : (headShape rest).isSymbol "(" = false := hrest.isSymbol (by decide)
  have halias (label : Option TableAlias) : Parses d Parser.tableAlias (d.aliasShapes label ++ rest) label rest :=
    alias_reads (hrest.endsLabel (by decide)) hopen
  have hbehind (label : Option TableAlias) : Ends d 0 (d.aliasShapes label ++ rest) := by
    cases label with
    | none => exact hrest.ends hd 0 (by decide) (by decide)
    | some a => exact .bare hd 0 (w := "AS") rfl _
  have hclear (label : Option TableAlias) := Shape.isClear_iff.mp (hbehind label).isClear
  cases h with
  | table hne label =>
    rw [List.append_assoc]
    refine .no (ReadsOr.eatSymbol_no (isSymbol_dots hne "(" _)) (.peek fun _ _ => ?_)
    refine (ReadsOr.qualifiedName hne (hclear label).2.1).bind (.no (ReadsOr.peekSymbol (hclear label).1) ?_)
    exact (halias label).bind (.pure _)
  | @derived us q h label =>
    rw [List.append_assoc, inParens_append]
    refine .yes (ReadsOr.eatSymbol rfl) ((h.closed n _).bind ((ReadsOr.expectSymbol rfl).bind ?_))
    exact (halias label).bind (.pure _)
  | @function ns us f hne h label =>
    rw [List.append_assoc, List.cons_append, List.append_assoc]
    refine .no (ReadsOr.eatSymbol_no (isSymbol_dots hne "(" _)) (.peek fun _ _ => ?_)
    refine (ReadsOr.qualifiedName hne rfl).bind (.yes (ReadsOr.peekSymbol rfl) (.nameFunction ?_))
    refine (h n _ _ _ _ (operates_from d n _) (hbehind label).isClear le_rfl).bind ?_
    exact (halias label).bind (.pure _)

theorem table_restored (hd : t.dialect.Stable) (hne : ns ≠ []) (hns : t.Keeps ns)
    (hlabel : t.Keeps (aliasNames label)) : (Relation.table ns label).Restored t := by
  unfold Relation.Restored Restores
  rw [Relation.text]
  refine .target ((aliased_spelled hd hlabel (hns.path hd.toLegible)).mono fun text htext => ?_)
  exact ⟨_, .table ns label, htext, .table hne label, rfl⟩

theorem derived_restored (hd : t.dialect.Stable) (hq : q.Restored t) (hlabel : t.Keeps (aliasNames label)) :
    (Relation.derived q label).Restored t := by
  unfold Relation.Restored Restores
  rw [Relation.text]
  refine (hq.block hd).bind ?_
  rintro text ⟨ts, q', hspelled, hform, -, heq⟩
  refine (aliased_spelled hd hlabel hspelled).mono fun text htext => ?_
  refine ⟨_, .derived q' label, htext, .derived hform label, ?_⟩
  rw [Relation.respell, Relation.respell, heq]
  rfl

theorem function_restored (hd : t.dialect.Stable) (hne : ns ≠ [])
    (hsaid : t.dialect.Says f.name (betweenDots (ns.map Name.shape))) (hname : QualifiedName.dotted ns = f.name)
    (hcommon : f.IsCommon) (hargs : ∀ e, .expr e ∈ f.args → Rewrites false t id e)
    (hwindow : ∀ w ∈ f.window, w.IsWritten t) (hlabel : t.Keeps (aliasNames label)) :
    (Relation.function f label).Restored t := by
  unfold Relation.Restored Restores
  rw [Relation.text]
  refine (Call.text_returned hd hsaid hcommon hargs hwindow).bind ?_
  rintro text ⟨ts, g, hspelled, hform, heq⟩
  refine (aliased_spelled hd hlabel hspelled).mono fun text htext => ?_
  refine ⟨_, .function g label, htext, ?_, ?_⟩
  · rw [List.append_assoc, List.cons_append]
    exact .function hne (by rwa [hname]) label
  · rw [Relation.respell, Relation.respell, heq]
    rfl

end Relations

/-! ## Joins -/

/-- The words of a kind of join. -/
def JoinKind.words : JoinKind → List String
  | inner => ["JOIN"]
  | left => ["LEFT", "JOIN"]
  | right => ["RIGHT", "JOIN"]
  | full => ["FULL", "OUTER", "JOIN"]
  | cross => ["CROSS", "JOIN"]

/-- The words of a join. -/
def joinHead (natural : Bool) (kind : JoinKind) : List String :=
  if natural then "NATURAL" :: kind.words else kind.words

/-- The tokens of the condition of a join. -/
inductive ConditionForm (d : Dialect) : List Shape → JoinCondition → Prop where
  | on {ts : List Shape} {e : Expr} (h : ElementForm d ts e) : ConditionForm d (d.bare "ON" :: ts) (.on e)
  | columns {ns : List Name} (hne : ns ≠ []) (hsupports : d.supports .joinUsing = true) :
    ConditionForm d (d.bare "USING" :: inParens (betweenCommas (ns.map fun n => [n.shape]))) (.using ns)
  | natural : ConditionForm d [] .natural
  | none : ConditionForm d [] .none

/-- Whether a join has no condition. -/
def JoinCondition.isNone : JoinCondition → Bool
  | .none => true
  | _ => false

/-- A join whose kind goes with its condition, as far as the dialect has either. -/
structure Dialect.CanJoin (d : Dialect) (kind : JoinKind) (condition : JoinCondition) : Prop where
  cross : condition.isNone = (kind == .cross)
  natural : condition.isNatural = true → d.supports .naturalJoin = true
  full : kind = .full → d.supports .fullOuterJoin = true

/-- The tokens of a join. -/
structure JoinForm (d : Dialect) (ts : List Shape) (j : Join) : Prop where
  joins : d.CanJoin j.kind j.condition
  parts : ∃ us vs, RelationForm d us j.relation ∧ ConditionForm d vs j.condition ∧
    ts = (joinHead j.condition.isNatural j.kind).map d.bare ++ (us ++ vs)

section Joins

variable {F : Lapses} {d : Dialect} {t : Target} {ts us rest : List Shape} {kind : JoinKind}
  {condition : JoinCondition} {j : Join}

theorem joinWord_reads (outer : Bool) (rest : List Shape) :
    ReadsOr F d (Parser.joinWord false kind) (d.bare "JOIN" :: rest) (some kind) rest ∧
      ReadsOr F d (Parser.joinWord true kind) ((if outer then [d.bare "OUTER"] else []) ++ d.bare "JOIN" :: rest)
        (some kind) rest := by
  have hjoin : ReadsOr F d (Parser.expectWord "JOIN") (d.bare "JOIN" :: rest) () rest :=
    .expectWord (Shape.isWord_bare d "JOIN" "JOIN")
  refine ⟨hjoin.bind (.pure _), ?_⟩
  cases outer with
  | false => exact (ReadsOr.eatBare_no d (w := "JOIN") rfl).bind (hjoin.bind (.pure _))
  | true => exact (ReadsOr.eatBare d (w := "OUTER") rfl).bind (hjoin.bind (.pure _))

theorem joinKind_reads {natural : Bool} (hnatural : natural = true → kind ≠ .cross)
    (hfull : kind = .full → d.supports .fullOuterJoin = true) (rest : List Shape) :
    ReadsOr F d (Parser.joinKind natural) (kind.words.map d.bare ++ rest) (some kind) rest := by
  have hno {w v : String} (h : Text.sameWord w v = false) (us : List Shape) :
      ReadsOr F d (Parser.eatWord v) (d.bare w :: us) false (d.bare w :: us) := .eatBare_no d h
  have hyes (w : String) (us : List Shape) (h : Text.sameWord w w = true) :
      ReadsOr F d (Parser.eatWord w) (d.bare w :: us) true us := .eatBare d h
  cases kind with
  | inner => exact .yes (hyes "JOIN" _ rfl) (.pure _)
  | left =>
    refine .no (hno (w := "LEFT") rfl _) (.no (hno rfl _) (.yes (hyes "LEFT" _ rfl) ?_))
    exact (joinWord_reads false rest).2
  | right =>
    refine .no (hno (w := "RIGHT") rfl _) (.no (hno rfl _) (.no (hno rfl _) (.yes (hyes "RIGHT" _ rfl) ?_)))
    exact (joinWord_reads false rest).2
  | full =>
    refine .no (hno (w := "FULL") rfl _) (.no (hno rfl _) (.no (hno rfl _) (.no (hno rfl _) (.supports ?_))))
    refine .yes (.onlyIf_yes (hfull rfl) (hyes "FULL" _ rfl)) ?_
    exact (joinWord_reads true rest).2
  | cross =>
    have hcross : natural = false := by
      rw [← Bool.not_eq_true]
      exact fun h => hnatural h rfl
    refine .no (hno (w := "CROSS") rfl _) (.no (hno rfl _) (.no (hno rfl _) (.no (hno rfl _) (.supports ?_))))
    refine .no (.onlyIf_no (hno rfl _)) (.yes (.onlyIf_yes (by simp [hcross]) (hyes "CROSS" _ rfl)) ?_)
    exact (joinWord_reads false rest).1

theorem ConditionForm.reads (h : ConditionForm d ts condition) (hd : d.Readable) (hjoins : d.CanJoin kind condition)
    (hrest : Stops d [")", ","] (joinHeads ++ sourceEnds) rest) (n : Nat) :
    Parses d (Parser.joinCondition (Parser.nested n) condition.isNatural kind) (ts ++ rest) condition rest := by
  have hcross {c : JoinCondition} (h : d.CanJoin kind c) (hno : c.isNone = false) : (kind == .cross) = false :=
    h.cross.symm.trans hno
  unfold Parser.joinCondition
  cases h with
  | on h =>
    rw [hcross hjoins rfl]
    refine .yes (ReadsOr.eatBare d rfl) ((h.reads ?_ n).bind (.pure _))
    exact hrest.ends hd 0 (by decide) (by decide)
  | columns hne hsupports =>
    rw [hcross hjoins rfl]
    refine .no (ReadsOr.eatBare_no d (w := "USING") rfl) (.supports ?_)
    refine .yes (.onlyIf_yes hsupports (ReadsOr.eatBare d rfl)) ((ReadsOr.nameList hne).bind (.pure _))
  | natural => exact .pure _
  | none =>
    rw [← hjoins.cross]
    exact .pure _

/-- What may follow the relation of a join. -/
theorem ConditionForm.stops (h : ConditionForm d ts condition) (hd : d.Stable)
    (hrest : Stops d [")", ","] (joinHeads ++ sourceEnds) rest) :
    Stops d [")", ","] (sourceWords ++ sourceEnds) (ts ++ rest) := by
  cases h with
  | on => exact .word (w := "ON") (by decide) (hd.isReserved (by decide)) _
  | columns => exact .word (w := "USING") (by decide) (hd.isReserved (by decide)) _
  | natural => exact hrest.mono (List.Subset.refl _) (by decide)
  | none => exact hrest.mono (List.Subset.refl _) (by decide)

theorem JoinForm.reads (h : JoinForm d ts j) (hd : d.Stable)
    (hrest : Stops d [")", ","] (joinHeads ++ sourceEnds) rest) (n : Nat) :
    Parses d (Parser.join (Parser.nested n)) (ts ++ rest) (some j) rest := by
  obtain ⟨relation, kind, condition⟩ := j
  obtain ⟨hjoins, us, vs, hrelation, hcondition, rfl⟩ := h
  rw [List.append_assoc, List.append_assoc]
  have hfirst := hrelation.reads hd.toReadable (hcondition.stops hd hrest) n
  have hlast := hcondition.reads hd.toReadable hjoins hrest n
  have hcross : condition.isNatural = true → kind ≠ .cross := by
    intro hnatural hcross
    have hnone := hjoins.cross
    cases condition <;> simp_all [JoinCondition.isNatural, JoinCondition.isNone]
  have hkind := joinKind_reads (F := .deep) hcross hjoins.full (us ++ (vs ++ rest))
  cases hnatural : condition.isNatural with
  | true =>
    rw [hnatural] at hkind hlast
    refine .supports ((ReadsOr.onlyIf_yes (hjoins.natural hnatural) (.eatBare d (w := "NATURAL") rfl)).bind ?_)
    exact hkind.bind (hfirst.bind (hlast.bind (.pure _)))
  | false =>
    rw [hnatural] at hkind hlast
    have hno : ReadsOr .deep d (Parser.eatWord "NATURAL") (kind.words.map d.bare ++ (us ++ (vs ++ rest)))
        false (kind.words.map d.bare ++ (us ++ (vs ++ rest))) := by
      cases kind <;> exact .eatBare_no d (by rfl)
    exact .supports ((ReadsOr.onlyIf_no hno).bind (hkind.bind (hfirst.bind (hlast.bind (.pure _)))))

/-- A join starts with a reserved word. -/
theorem JoinForm.stops (h : JoinForm d ts j) (hd : d.Stable) (ms : List String) (us : List Shape) :
    Stops d ms joinHeads (ts ++ us) := by
  obtain ⟨relation, kind, condition⟩ := j
  obtain ⟨-, vs, ws, -, -, rfl⟩ := h
  have hword {w : String} (hw : w ∈ joinHeads) (xs : List Shape) : Stops d ms joinHeads (d.bare w :: xs) :=
    .word hw (hd.isReserved (by revert w; decide)) xs
  unfold joinHead
  cases condition.isNatural with
  | true => exact hword (w := "NATURAL") (by decide) _
  | false => cases kind <;> exact hword (by decide) _

/-- The joins behind a relation are read. -/
theorem joins_read (hd : d.Stable) {tss : List (List Shape)} {js : List Join}
    (h : List.Forall₂ (JoinForm d) tss js) (hrest : Stops d [")", ","] sourceEnds rest) (n : Nat) :
    ReadsOr.Repeats .deep d (Parser.join (Parser.nested n)) (tss.flatten ++ rest) js rest ∧
      Stops d [")", ","] (joinHeads ++ sourceEnds) (tss.flatten ++ rest) := by
  induction h with
  | nil =>
    exact ⟨.repeats_nil (join_no (hrest.noneNext (by decide))),
      hrest.mono (List.Subset.refl _) (List.subset_append_right _ _)⟩
  | @cons ts j tss js hj _ ih =>
    rw [List.flatten_cons, List.append_assoc]
    refine ⟨.repeats_cons (hj.reads hd ih.2 n) ?_ ih.1,
      (hj.stops hd _ _).mono (List.Subset.refl _) (List.subset_append_left _ _)⟩
    obtain ⟨-, us, vs, -, -, rfl⟩ := hj
    have hpos : 0 < (joinHead j.condition.isNatural j.kind).length := by
      unfold joinHead
      split
      · exact Nat.succ_pos _
      · cases j.kind <;> exact Nat.succ_pos _
    simp only [List.length_append, List.length_map]
    omega

end Joins

/-- The condition of a join is written. -/
inductive JoinCondition.IsWritten (t : Target) : JoinCondition → Prop where
  | on {e : Expr} (h : Rewrites false t id e) : IsWritten t (.on e)
  | columns {ns : List Name} (hne : ns ≠ []) (h : t.Keeps ns) : IsWritten t (.using ns)
  | natural : IsWritten t .natural
  | none : IsWritten t .none

/-- The parts of a join are written, and its kind goes with its condition. -/
structure Join.IsWritten (t : Target) (j : Join) : Prop where
  relation : j.relation.Restored t
  condition : j.condition.IsWritten t
  cross : j.condition.isNone = (j.kind == .cross)

/-- The parts of a source are written. -/
structure Source.IsWritten (t : Target) (s : Source) : Prop where
  relation : s.relation.Restored t
  joins : ∀ j ∈ s.joins, j.IsWritten t

/-- The tokens of a source. -/
def SourceForm (d : Dialect) (ts : List Shape) (s : Source) : Prop :=
  ∃ us tss, RelationForm d us s.relation ∧ List.Forall₂ (JoinForm d) tss s.joins ∧ ts = us ++ tss.flatten

section Sources

variable {d : Dialect} {t : Target} {ts rest : List Shape} {condition : JoinCondition} {j : Join} {joins : List Join}
  {s : Source} {sources : List Source}

theorem SourceForm.reads (h : SourceForm d ts s) (hd : d.Stable) (hrest : Stops d [")", ","] sourceEnds rest)
    (n : Nat) : Parses d (Parser.source (Parser.nested n)) (ts ++ rest) s rest := by
  obtain ⟨relation, joins⟩ := s
  obtain ⟨us, tss, hrelation, hjoins, rfl⟩ := h
  obtain ⟨hrepeats, hstops⟩ := joins_read hd hjoins hrest n
  rw [List.append_assoc]
  refine (hrelation.reads hd.toReadable (hstops.mono (List.Subset.refl _) (by decide)) n).bind ?_
  exact (ReadsOr.many hrepeats).bind (.pure _)

/-- The condition of a join is written behind its relation. -/
theorem condition_returned (hd : t.dialect.Expressive) (h : condition.IsWritten t) :
    Renders false t condition.text fun text => ∃ us condition', ConditionForm t.dialect us condition' ∧
      condition'.respell (.plain id) = condition.respell (t.dialect.respelling id) ∧
        condition'.isNatural = condition.isNatural ∧ condition'.isNone = condition.isNone ∧
          ∀ s ts, Spelled t.dialect s ts → Spelled t.dialect (s ++ text) (ts ++ us) := by
  cases h with
  | on h =>
    rw [JoinCondition.text]
    refine (h.whole hd).bind ?_
    rintro text ⟨e', ⟨us, hspelled, hform, -⟩, heq⟩
    have hword : Spelled t.dialect "ON" [t.dialect.bare "ON"] := .word hd.toLegible rfl
    refine .pure ⟨_, .on e', .on ⟨_, hform⟩, ?_, rfl, rfl, fun s ts hs => ?_⟩
    · rw [JoinCondition.respell, JoinCondition.respell, heq]
    · exact (hs.join Spelled.blank_mem (hword.join Spelled.blank_mem hspelled)).of_eq (by simp)
  | @columns ns hne hns =>
    rw [JoinCondition.text]
    refine .required fun hsupports => .target ?_
    have hword : Spelled t.dialect "USING" [t.dialect.bare "USING"] := .word hd.toLegible rfl
    have hlist := hword.join Spelled.blank_mem ((hns.names hd.toLegible).parens hd.toLegible)
    refine .pure ⟨_, .using ns, .columns hne hsupports, rfl, rfl, rfl, fun s ts hs => ?_⟩
    exact (hs.join Spelled.blank_mem hlist).of_eq (by simp)
  | natural => exact .pure ⟨[], .natural, .natural, rfl, rfl, rfl, fun s ts hs => by simpa using hs⟩
  | none => exact .pure ⟨[], .none, .none, rfl, rfl, rfl, fun s ts hs => by simpa using hs⟩

theorem joinWords_spelled (hd : t.dialect.Legible) (natural : Bool) (kind : JoinKind) :
    Renders false t (joinWords natural kind) fun text =>
      Spelled t.dialect text ((joinHead natural kind).map t.dialect.bare) ∧
        (natural = true → t.dialect.supports .naturalJoin = true) ∧
          (kind = .full → t.dialect.supports .fullOuterJoin = true) := by
  have hphrase (kind : JoinKind) : Spelled t.dialect (String.intercalate " " (joinHead natural kind))
      ((joinHead natural kind).map t.dialect.bare) :=
    .phrase hd (by cases natural <;> cases kind <;> decide)
  unfold joinWords
  cases natural with
  | true =>
    refine .required fun hnatural => ?_
    cases kind with
    | full => exact .required fun hfull => .pure ⟨hphrase .full, fun _ => hnatural, fun _ => hfull⟩
    | inner => exact .pure ⟨hphrase .inner, fun _ => hnatural, by simp⟩
    | left => exact .pure ⟨hphrase .left, fun _ => hnatural, by simp⟩
    | right => exact .pure ⟨hphrase .right, fun _ => hnatural, by simp⟩
    | cross => exact .pure ⟨hphrase .cross, fun _ => hnatural, by simp⟩
  | false =>
    cases kind with
    | full => exact .required fun hfull => .pure ⟨hphrase .full, by simp, fun _ => hfull⟩
    | inner => exact .pure ⟨hphrase .inner, by simp, by simp⟩
    | left => exact .pure ⟨hphrase .left, by simp, by simp⟩
    | right => exact .pure ⟨hphrase .right, by simp, by simp⟩
    | cross => exact .pure ⟨hphrase .cross, by simp, by simp⟩

/-- Joins are written one after the other behind a relation. -/
theorem joinTexts_returned (hd : t.dialect.Expressive) (h : ∀ j ∈ joins, j.IsWritten t) :
    Renders false t (joinTexts joins) fun text => ∃ tss joins', List.Forall₂ (JoinForm t.dialect) tss joins' ∧
      respellJoins (.plain id) joins' = respellJoins (t.dialect.respelling id) joins ∧
        ∀ s ts, Spelled t.dialect s ts → Spelled t.dialect (s ++ text) (ts ++ tss.flatten) := by
  induction joins with
  | nil => exact .pure ⟨[], [], .nil, rfl, fun s ts hs => by simpa using hs⟩
  | cons j joins ih =>
    obtain ⟨relation, kind, condition⟩ := j
    obtain ⟨hrelation, hcondition, hcross⟩ := h ⟨relation, kind, condition⟩ (by simp)
    have hmore := ih fun x hx => h x (by simp [hx])
    rw [joinTexts]
    refine (joinWords_spelled hd.toLegible condition.isNatural kind).bind ?_
    rintro words ⟨hwords, hnatural, hfull⟩
    refine hrelation.bind ?_
    rintro text ⟨us, relation', hspelled, hform, heq⟩
    refine (condition_returned hd hcondition).bind ?_
    rintro ctext ⟨vs, condition', hcform, hceq, hcnatural, hcnone, hbehind⟩
    refine .target (hmore.bind ?_)
    rintro rtext ⟨tss, joins', hjoins, hjeq, happend⟩
    refine .pure ⟨_ :: tss, ⟨relation', kind, condition'⟩ :: joins', .cons ⟨⟨?_, ?_, hfull⟩, us, vs, hform,
      hcform, rfl⟩ hjoins, ?_, fun s ts hs => ?_⟩
    · exact hcnone.trans hcross
    · exact fun h => hnatural (hcnatural.symm.trans h)
    · simp only [respellJoins, heq, hceq, hjeq]
    · have hjoin := hbehind _ _ (hwords.join Spelled.blank_mem hspelled)
      have hall := happend _ _ (hs.join (Spelled.separator_mem t) hjoin)
      simp only [hcnatural, List.flatten_cons, List.append_assoc] at hall ⊢
      exact hall.of_eq (by simp)

theorem listwise_sources : Listwise respellSources where
  nil r := by rw [respellSources]
  cons r a as := by
    obtain ⟨relation, joins⟩ := a
    simp only [respellSources, List.cons_append, List.nil_append]

/-- Sources are returned one by one. -/
theorem sourceTexts_returned (hd : t.dialect.Expressive) (h : ∀ s ∈ sources, s.IsWritten t) :
    Renders false t (sourceTexts sources) fun texts =>
      List.Forall₂ (Returned t respellSources (SourceForm t.dialect)) texts sources := by
  induction sources with
  | nil => exact .pure .nil
  | cons s sources ih =>
    obtain ⟨relation, joins⟩ := s
    obtain ⟨hrelation, hjoins⟩ := h ⟨relation, joins⟩ (by simp)
    rw [sourceTexts]
    refine hrelation.bind ?_
    rintro text ⟨us, relation', hspelled, hform, heq⟩
    refine (joinTexts_returned hd hjoins).bind ?_
    rintro jtext ⟨tss, joins', hjforms, hjeq, happend⟩
    refine (ih fun x hx => h x (by simp [hx])).bind fun texts htexts => .pure (.cons ?_ htexts)
    refine ⟨_, ⟨relation', joins'⟩, happend _ _ hspelled, ⟨us, tss, hform, hjforms, rfl⟩, ?_⟩
    simp only [respellSources, heq, hjeq]

end Sources

end SqlDialects
