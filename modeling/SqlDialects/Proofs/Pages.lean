import SqlDialects.Dialect.Builtin
import SqlDialects.Proofs.RowLimits

/-!
# Pages of rows

* `Page` : names from a table, or a set operation of two such, with an ordering and a row limit;
* `Page.Fits` : the dialect can say the row limit of a page;
* `Page.returned` : the query that is read where a page is written;
* `Dialect.Paged` : what is asked of a dialect, and `paged_of_mem_builtins` : the dialects of the
  library;
* `Page.writes` : the text of a page that fits spells its tokens;
* `Page.refuses` : one that does not fit is refused.
-/

namespace SqlDialects

open Render

/-! ## Pages -/

/-- Columns of a table by their names. -/
structure Listing where
  columns : List Name
  table : QualifiedName
  columns_ne : columns ≠ []
  table_ne : table ≠ []

/-- The tokens of a count behind `TOP`. -/
def topShapes (d : Dialect) : Option NumberText → List Shape
  | some count => [d.bare "TOP", count.shape]
  | none => []

namespace Listing

def select (l : Listing) : Select :=
  ⟨none, l.columns.map fun n => .expr (.name n) none, [⟨.table l.table none, []⟩], none, [], none,
    none⟩

def rename (f : Name → Name) (l : Listing) : Listing where
  columns := l.columns.map f
  table := l.table.map f
  columns_ne := by simp [l.columns_ne]
  table_ne := by simp [l.table_ne]

/-- The tokens behind `SELECT`. -/
def shapes (d : Dialect) (top : Option NumberText) (l : Listing) : List Shape :=
  topShapes d top ++ (betweenCommas (l.columns.map fun n => [n.shape]) ++
    d.bare "FROM" :: betweenDots (l.table.map Name.shape))

end Listing

/-- One listing, or a set operation of two. -/
inductive Listings where
  | one (l : Listing)
  | two (op : SetOp) (quantifier : SetQuantifier) (left right : Listing)

/-- The word of a set operation. -/
def Dialect.setKeyword (d : Dialect) : SetOp → String
  | .union => "UNION"
  | .intersect => "INTERSECT"
  | .except => d.writing.exceptKeyword

def Dialect.quantifierShapes (d : Dialect) : SetQuantifier → List Shape
  | .none => []
  | .all => [d.bare "ALL"]
  | .distinct => [d.bare "DISTINCT"]

/-- The tokens of a set operation between its queries. -/
def Dialect.setShapes (d : Dialect) (op : SetOp) (quantifier : SetQuantifier) : List Shape :=
  d.bare (d.setKeyword op) :: d.quantifierShapes quantifier

namespace Listings

def body : Listings → Body
  | one l => .select l.select
  | two op quantifier left right =>
    .combine op quantifier (.select left.select) (.select right.select)

def isOne : Listings → Bool
  | one _ => true
  | two .. => false

def rename (f : Name → Name) : Listings → Listings
  | one l => one (l.rename f)
  | two op quantifier left right => two op quantifier (left.rename f) (right.rename f)

@[simp] theorem isOne_rename (f : Name → Name) (ls : Listings) :
    (ls.rename f).isOne = ls.isOne := by
  cases ls <;> rfl

/-- The tokens behind the first `SELECT`. -/
def shapes (d : Dialect) (top : Option NumberText) : Listings → List Shape
  | one l => l.shapes d top
  | two op quantifier left right =>
    left.shapes d none ++ (d.setShapes op quantifier ++ d.bare "SELECT" :: right.shapes d none)

end Listings

/-- A key of an ordering that is written. -/
inductive SortKey where
  | name (n : Name) (ascending : Option Bool)
  /-- Where an ordering is needed and there is none. -/
  | arbitrary

/-- The query of the arbitrary ordering. -/
def Query.selectNull : Query :=
  .ofBody (.select ⟨none, [.expr (.literal .null) none], [], none, [], none, none⟩)

namespace SortKey

def item : SortKey → OrderItem
  | name n ascending => ⟨.name n, ascending, none⟩
  | arbitrary => ⟨.subquery .selectNull, none, none⟩

def shapes (d : Dialect) : SortKey → List Shape
  | name n ascending =>
    n.shape :: (ascending.map fun a => d.bare (if a then "ASC" else "DESC")).toList
  | arbitrary => inParens [d.bare "SELECT", d.bare "NULL"]

end SortKey

/-- The tokens of an ordering. -/
def orderShapes (d : Dialect) (keys : List SortKey) : List Shape :=
  if keys.isEmpty then []
  else d.bare "ORDER" :: d.bare "BY" :: betweenCommas (keys.map (·.shapes d))

/-- Listings with an ordering by names and a row limit. -/
structure Page where
  listings : Listings
  order : List (Name × Option Bool)
  count : Option NumberText
  offset : Option NumberText
  limited : (count.isSome || offset.isSome) = true

/-- The greatest count of the dialect, where it has one. -/
def Dialect.most (d : Dialect) : Option Amount := d.writing.maxLimit.bind Amount.ofText?

namespace Page

variable (d : Dialect) (p : Page)

def keys : List SortKey := p.order.map fun (n, ascending) => .name n ascending

def query : Query :=
  ⟨none, p.listings.body, p.keys.map SortKey.item,
    some ⟨p.count.map NumberText.expr, p.offset.map NumberText.expr⟩⟩

def rename (f : Name → Name) : Page :=
  { p with
    listings := p.listings.rename f
    order := p.order.map fun (n, ascending) => (f n, ascending) }

/-- The dialect can say the row limit: without an offset where it has none, and for one listing
where it only has `TOP`. -/
def Fits : Prop :=
  match d.writing.limitStyle with
  | .limitOnly => p.offset = none
  | .top false => p.offset = none ∧ p.listings.isOne = true
  | _ => True

/-- Whether the dialect writes an `OFFSET` behind an ordering that it needs. -/
def skips : Bool :=
  d.writing.limitStyle == .top true && (p.offset.isSome || !p.listings.isOne)

/-- The ordering that is written. -/
def sorting : List SortKey := if p.order.isEmpty && p.skips d then [.arbitrary] else p.keys

/-- The row limit that is read back: with the greatest count of the dialect for none, and with an
offset of zero where one has to stand. -/
def limit : Limit where
  count := p.count.map NumberText.expr <|> d.most.map Amount.expr
  offset := p.offset.map NumberText.expr <|> if p.skips d then some NumberText.zero.expr else none

/-- The query that is read where the page is written. -/
def returned : Query :=
  { p.query with orderBy := (p.sorting d).map SortKey.item, limit := some (p.limit d) }

/-- Whether the count stands behind `TOP`. -/
def isTopped : Bool :=
  match d.writing.limitStyle with
  | .top _ => p.offset.isNone && p.listings.isOne
  | _ => false

def top : Option NumberText := if p.isTopped d then p.count else none

/-- The clauses of the row limit. -/
def clauses : List LimitClause :=
  if p.isTopped d then []
  else
    let limit (count : Option Amount) := (count.map .limit).toList
    let offset (rows : Bool) := (p.offset.map fun number => .offset number rows).toList
    let fetch (next : Bool) := (p.count.map fun count => .fetch next count).toList
    match d.writing.limitStyle with
    | .limitOffset => limit (p.count.map NumberText.amount <|> d.most) ++ offset false
    | .offsetLimit => offset false ++ limit (p.count.map NumberText.amount)
    | .fetchFirst => offset true ++ fetch false
    | .limitOnly => limit (p.count.map NumberText.amount)
    | .top _ => .offset (p.offset.getD .zero) true :: fetch true

/-- The tokens behind the first `SELECT`. -/
def shapes : List Shape :=
  p.listings.shapes d (p.top d) ++ (orderShapes d (p.sorting d) ++ limitShapes d (p.clauses d))

end Page

namespace Page

variable {d : Dialect} {p : Page}

@[simp] theorem isTopped_rename (f : Name → Name) : (p.rename f).isTopped d = p.isTopped d := by
  simp only [isTopped, rename, Listings.isOne_rename]

@[simp] theorem skips_rename (f : Name → Name) : (p.rename f).skips d = p.skips d := by
  simp only [skips, rename, Listings.isOne_rename]

@[simp] theorem top_rename (f : Name → Name) : (p.rename f).top d = p.top d := by
  simp only [top, isTopped_rename]
  rfl

@[simp] theorem clauses_rename (f : Name → Name) : (p.rename f).clauses d = p.clauses d := by
  simp only [clauses, isTopped_rename]
  rfl

theorem fits_rename (f : Name → Name) : (p.rename f).Fits d ↔ p.Fits d := by
  simp only [Fits, rename, Listings.isOne_rename]

/-- A page has a count or an offset. -/
theorem count_or_offset (p : Page) :
    (∃ n, p.count = some n) ∨ p.count = none ∧ ∃ n, p.offset = some n := by
  have hlimited := p.limited
  cases hcount : p.count with
  | some n => exact .inl ⟨n, rfl⟩
  | none =>
    rw [hcount, Option.isSome_none, Bool.false_or] at hlimited
    exact .inr ⟨rfl, Option.isSome_iff_exists.mp hlimited⟩

/-- A count behind `TOP` is the count of the page. -/
theorem top_eq_some (h : p.isTopped d = true) : ∃ n, p.count = some n ∧ p.top d = some n := by
  obtain ⟨n, hcount⟩ | ⟨-, n, hoffset⟩ := p.count_or_offset
  · exact ⟨n, hcount, by rw [top, if_pos h, hcount]⟩
  · unfold isTopped at h
    split at h
    · simp [hoffset] at h
    · cases h

theorem isNone_top : (p.top d).isNone = !p.isTopped d := by
  cases h : p.isTopped d with
  | false => simp [top, h]
  | true =>
    obtain ⟨n, -, htop⟩ := top_eq_some h
    simp [htop]

theorem skips_eq : p.skips d = (d.writing.limitStyle == .top true && !p.isTopped d) := by
  unfold skips isTopped
  cases d.writing.limitStyle <;> simp

end Page

/-! ## Dialects -/

/-- The words of a style of row limits. -/
def LimitStyle.words : LimitStyle → List String
  | limitOffset | offsetLimit => ["LIMIT", "OFFSET"]
  | fetchFirst => ["OFFSET", "FETCH"]
  | limitOnly => ["LIMIT"]
  | top fetch => "TOP" :: if fetch then ["OFFSET", "FETCH"] else []

/-- The words that stand behind a name in a page. -/
def Dialect.pageWords (d : Dialect) : List String :=
  "FROM" :: "ORDER" :: [SetOp.union, .intersect, .except].map d.setKeyword ++
    d.writing.limitStyle.words

/-- What is asked of a dialect so that pages are read back: what it reads agrees with its style of
row limits, and the words of clauses are reserved. -/
structure Dialect.Paged (d : Dialect) : Prop extends d.Expressive where
  words : ∀ w ∈ d.pageWords, w ∈ d.lexical.reserved
  except : d.writing.exceptKeyword = "EXCEPT" ∨
    d.writing.exceptKeyword = "MINUS" ∧ d.reading.minus = true
  limit : d.writing.limitStyle ∈ [.limitOffset, .offsetLimit, .limitOnly] → d.reading.limit = true
  offset : d.writing.limitStyle ∈ [.limitOffset, .offsetLimit, .fetchFirst, .top true] →
    d.reading.offset = true
  fetch : d.writing.limitStyle ∈ [.fetchFirst, .top true] → d.reading.fetch = true
  top : d.reading.top = true ↔ d.writing.limitStyle ∈ [.top false, .top true]
  requiresOrder : d.reading.offsetRequiresOrder = true → d.writing.limitStyle = .top true
  requiresLimit : d.reading.offsetRequiresLimit = true →
    d.writing.limitStyle = .limitOffset ∧ d.most.isSome = true
  most : d.most.map Amount.text = d.writing.maxLimit
  mostStyle : d.most.isSome = true → d.writing.limitStyle = .limitOffset
  /-- The arbitrary ordering has no source. -/
  selectNull : d.writing.limitStyle = .top true →
    d.writing.dummyTable = none ∧ d.reading.requireFrom = false

theorem paged_of_mem_builtins {d : Dialect} (h : d ∈ Dialect.builtins) : d.Paged where
  toExpressive := expressive_of_mem_builtins h
  words := by revert d; decide +kernel
  except := by revert d; decide +kernel
  limit := by revert d; decide +kernel
  offset := by revert d; decide +kernel
  fetch := by revert d; decide +kernel
  top := by revert d; decide +kernel
  requiresOrder := by revert d; decide +kernel
  requiresLimit := by revert d; decide +kernel
  most := by revert d; decide +kernel
  mostStyle := by revert d; decide +kernel
  selectNull := by revert d; decide +kernel

/-- The words of pages are in upper case. -/
theorem Dialect.Paged.upper_mem {d : Dialect} (hd : d.Paged) {w : String} (hw : w ∈ d.pageWords) :
    Text.upper w ∈ d.lexical.reserved := by
  have hupper : ∀ x ∈ ["FROM", "ORDER", "UNION", "INTERSECT", "EXCEPT", "MINUS", "LIMIT", "OFFSET",
      "FETCH", "TOP"], Text.upper x = x := by decide +kernel
  have hsub : w ∈ ["FROM", "ORDER", "UNION", "INTERSECT", "EXCEPT", "MINUS", "LIMIT", "OFFSET",
      "FETCH", "TOP"] := by
    have hstyle : d.writing.limitStyle.words ⊆ ["LIMIT", "OFFSET", "FETCH", "TOP"] := by
      cases d.writing.limitStyle with
      | top fetch => cases fetch <;> decide
      | _ => decide
    rcases List.mem_append.mp hw with hw | hw
    · rcases hd.except with h | ⟨h, -⟩ <;>
        simp only [Dialect.setKeyword, h, List.map_cons, List.map_nil, List.mem_cons] at hw ⊢ <;>
        tauto
    · exact List.mem_append_right ["FROM", "ORDER", "UNION", "INTERSECT", "EXCEPT", "MINUS"]
        (hstyle hw)
  rw [hupper w hsub]
  exact hd.words w hw

theorem Dialect.Paged.isReserved {d : Dialect} (hd : d.Paged) {w : String} (hw : w ∈ d.pageWords) :
    d.lexical.isReserved w = true :=
  isReserved_of_mem (hd.upper_mem hw)

theorem Dialect.Paged.top_mem {d : Dialect} (hd : d.Paged) (htop : d.reading.top = true) :
    "TOP" ∈ d.pageWords := by
  have hstyle := hd.top.mp htop
  simp only [List.mem_cons, List.not_mem_nil, or_false] at hstyle
  rcases hstyle with hstyle | hstyle <;> simp [Dialect.pageWords, LimitStyle.words, hstyle]

/-! ## Writing -/

section Writing

variable {t : Target}

theorem whole_name (n : Name) : Renders true t (whole (Expr.name n).texts) (· = t.name n) := by
  simp only [Expr.texts]
  exact fun k => .inl ⟨_, k, rfl, rfl⟩

theorem optionText_number (o : Option NumberText) :
    Renders true t (optionText (o.map NumberText.expr)) (· = o.map NumberText.text) := by
  cases o with
  | none => exact fun k => .inl ⟨_, k, rfl, rfl⟩
  | some n => exact fun k => .inl ⟨_, k, rfl, rfl⟩

theorem itemTexts_names (hd : t.dialect.Legible) (ns : List Name) :
    Renders true t (itemTexts (ns.map fun n => .expr (.name n) none))
      fun texts => List.Forall₂ (Spelled t.dialect) texts
        ((ns.map t.reread).map fun n => [n.shape]) := by
  induction ns with
  | nil =>
    simp only [List.map_nil, itemTexts]
    exact .pure .nil
  | cons n ns ih =>
    simp only [List.map_cons, itemTexts]
    refine (whole_name n).bind fun text htext => ?_
    refine .target (ih.bind fun texts htexts => ?_)
    exact .pure (.cons (htext ▸ Spelled.name hd rfl n) htexts)

/-- The text of a count behind `TOP`. -/
def topTexts (top : Option NumberText) : Option String := top.map fun count => s!"TOP {count.text}"

theorem spelled_select (hd : t.dialect.Legible) (top : Option NumberText) :
    Spelled t.dialect ("SELECT" ++ "" ++ (((topTexts top).map fun text => s!" {text}").getD ""))
      (t.dialect.bare "SELECT" :: topShapes t.dialect top) := by
  have hselect : Spelled t.dialect "SELECT" [t.dialect.bare "SELECT"] := .word hd (by decide)
  cases top with
  | none => exact hselect
  | some count =>
    have htop : Spelled t.dialect "TOP" [t.dialect.bare "TOP"] := .word hd (by decide)
    exact (hselect.join Spelled.blank_mem (htop.join Spelled.blank_mem (count.spelled hd))).of_eq
      (by simp [topTexts])

theorem sourceTexts_table (ns : List Name) :
    Renders true t (sourceTexts [⟨.table ns none, []⟩]) (· = [t.path ns]) := by
  simp only [sourceTexts, Relation.text, joinTexts, aliased]
  exact fun k => .inl ⟨_, k, rfl, by simp⟩

theorem Listing.writes (hd : t.dialect.Legible) (l : Listing) (top : Option NumberText) :
    Renders true t (l.select.text (topTexts top)) fun text =>
      Spelled t.dialect text
        (t.dialect.bare "SELECT" :: (l.rename t.reread).shapes t.dialect top) := by
  simp only [Listing.select, Select.text, distinctText, optionTexts, exprTexts]
  refine .target (Renders.bind (P := (· = "")) (.pure rfl) ?_)
  rintro _ rfl
  refine (itemTexts_names hd l.columns).bind fun items hitems => ?_
  refine (sourceTexts_table l.table).bind ?_
  rintro _ rfl
  refine fun k => .inl ⟨_, k, rfl, ?_⟩
  have hword : Spelled t.dialect "FROM" [t.dialect.bare "FROM"] := .word hd (by decide)
  have hfrom := Spelled.listClause hd rfl hword (.cons (Spelled.path hd rfl l.table) .nil)
  have hitems := Spelled.listClause hd rfl (spelled_select hd top) hitems
  have hclauses := Spelled.clauses t (.cons hitems (.cons hfrom .nil))
  simpa [Listing.shapes, Listing.rename, betweenCommas] using hclauses

/-- The word of a set operation as it is written. -/
theorem spelled_setWord (hd : t.dialect.Paged) (op : SetOp) (quantifier : SetQuantifier) :
    Spelled t.dialect (t.setWord op quantifier) (t.dialect.setShapes op quantifier) := by
  have hop : Spelled t.dialect (t.dialect.setKeyword op)
      [t.dialect.bare (t.dialect.setKeyword op)] := by
    refine .word hd.toLegible ?_
    cases op with
    | union => exact (by decide : Spelled.isPlainWord "UNION" = true)
    | intersect => exact (by decide : Spelled.isPlainWord "INTERSECT" = true)
    | except => rcases hd.except with h | ⟨h, -⟩ <;> simp only [Dialect.setKeyword, h] <;> decide
  have hword : t.setWord op quantifier = t.dialect.setKeyword op ++ (match quantifier with
      | .none => "" | .all => " ALL" | .distinct => " DISTINCT") := by
    cases op <;> cases quantifier <;> simp [Target.setWord, Dialect.setKeyword]
  rw [hword]
  cases quantifier with
  | none => exact hop.of_eq (by simp)
  | all =>
    exact (hop.join Spelled.blank_mem (.word (w := "ALL") hd.toLegible (by decide))).of_eq (by simp)
  | distinct =>
    exact (hop.join Spelled.blank_mem (.word (w := "DISTINCT") hd.toLegible (by decide))).of_eq
      (by simp)

theorem Listings.writes (hd : t.dialect.Paged) (ls : Listings) {top : Option NumberText}
    (htop : ls.isOne = false → top = none) :
    Renders true t (ls.body.text (topTexts top)) fun text =>
      Spelled t.dialect text
        (t.dialect.bare "SELECT" :: (ls.rename t.reread).shapes t.dialect top) := by
  cases ls with
  | one l =>
    simp only [Listings.body, Body.text]
    exact l.writes hd.toLegible top
  | two op quantifier left right =>
    obtain rfl := htop rfl
    simp only [Listings.body, Body.text]
    refine .target ((left.writes hd.toLegible none).bind fun ltext hleft => ?_)
    refine (right.writes hd.toLegible none).bind fun rtext hright => .pure ?_
    have hclauses := Spelled.clauses t (.cons hleft (.cons (spelled_setWord hd op quantifier)
      (.cons hright .nil)))
    simpa [Listings.shapes, Listings.rename, Body.isCombine] using hclauses

theorem orderTexts_page (hd : t.dialect.Legible) (p : Page) :
    Renders true t (orderTexts (p.keys.map SortKey.item))
      fun texts => List.Forall₂ (Spelled t.dialect) texts
        ((p.rename t.reread).keys.map (·.shapes t.dialect)) := by
  simp only [Page.keys, Page.rename]
  induction p.order with
  | nil =>
    simp only [List.map_nil, orderTexts]
    exact .pure .nil
  | cons key order ih =>
    obtain ⟨n, ascending⟩ := key
    simp only [List.map_cons, SortKey.item, orderTexts]
    refine (whole_name n).bind ?_
    rintro _ rfl
    refine ih.bind fun texts htexts => .pure (.cons ?_ htexts)
    have hname := Spelled.name hd rfl n
    rcases ascending with _ | _ | _
    · simpa [SortKey.shapes] using hname
    · exact (hname.join Spelled.blank_mem (.word (w := "DESC") hd (by decide))).of_eq (by simp)
    · exact (hname.join Spelled.blank_mem (.word (w := "ASC") hd (by decide))).of_eq (by simp)

theorem arbitraryOrder_writes (hd : t.dialect.Legible)
    (hdummy : t.dialect.writing.dummyTable = none) :
    Renders true t arbitraryOrder (Spelled t.dialect · (SortKey.arbitrary.shapes t.dialect)) := by
  refine .target (.pure ?_)
  have hselect : Spelled t.dialect "SELECT" [t.dialect.bare "SELECT"] := .word hd (by decide)
  have hnull : Spelled t.dialect "NULL" [t.dialect.bare "NULL"] := .word hd (by decide)
  have hitems := Spelled.listClause hd rfl hselect (.cons hnull .nil)
  have hclauses := Spelled.clauses t (.cons hitems .nil)
  simpa [hdummy, SortKey.shapes, betweenCommas] using hclauses.block hd rfl

/-- The `SELECT` carries the count of a page that is topped. -/
theorem hasTop_page (p : Page) :
    t.hasTop p.listings.body ⟨p.count.map NumberText.expr, p.offset.map NumberText.expr⟩ =
      p.isTopped t.dialect := by
  have hbody : p.listings.body.isSelect = p.listings.isOne := by cases p.listings <;> rfl
  have hlimited := p.limited
  unfold Target.hasTop Page.isTopped
  rw [hbody]
  cases hoffset : p.offset with
  | none =>
    simp only [hoffset, Option.isSome_none, Bool.or_false] at hlimited
    cases t.dialect.writing.limitStyle <;> simp [hlimited]
  | some n => cases t.dialect.writing.limitStyle <;> simp

theorem topText_page (p : Page) :
    Renders true t (topText p.listings.body p.query.limit) (· = topTexts (p.top t.dialect)) := by
  have htop := hasTop_page (t := t) p
  simp only [Page.query, Page.top]
  rw [topText.eq_def]
  dsimp only
  refine .target ?_
  cases htopped : p.isTopped t.dialect with
  | false =>
    rw [htopped] at htop
    rw [if_neg (by simp [htop])]
    exact .pure rfl
  | true =>
    rw [htopped] at htop
    rw [if_pos htop]
    cases p.count with
    | none => exact .pure rfl
    | some n => exact .pure rfl

theorem limitOffset_page (hd : t.dialect.Paged) (p : Page) :
    Renders true t (limitOffset (optionText (p.count.map NumberText.expr))
        (optionText (p.offset.map NumberText.expr)))
      (· = (((p.count.map NumberText.amount <|> t.dialect.most).map LimitClause.limit).toList ++
        (p.offset.map fun number => LimitClause.offset number false).toList).map
          LimitClause.text) := by
  refine (optionText_number p.count).bind ?_
  rintro _ rfl
  refine (optionText_number p.offset).bind ?_
  rintro _ rfl
  refine .target (.pure ?_)
  rw [← hd.most]
  obtain ⟨n, hcount⟩ | ⟨hcount, n, hoffset⟩ := p.count_or_offset
  · cases p.offset <;> simp [hcount, LimitClause.text, Amount.text, NumberText.amount]
  · cases t.dialect.most <;> simp [hcount, hoffset, LimitClause.text]

theorem limitTexts_page (hd : t.dialect.Paged) {p : Page} (hp : p.Fits t.dialect)
    (htop : p.isTopped t.dialect = false) :
    Renders true t (limitTexts p.query.limit)
      (· = (p.clauses t.dialect).map LimitClause.text) := by
  have hcount := optionText_number (t := t) p.count
  have hoffset := optionText_number (t := t) p.offset
  simp only [Page.query, limitTexts, limitClauses, Page.clauses, htop]
  refine .target ?_
  unfold Page.Fits at hp
  cases hstyle : t.dialect.writing.limitStyle with
  | limitOffset =>
    have hplain := limitOffset_page hd p
    dsimp only
    split
    · exact hplain.orElse
    · exact hplain
  | offsetLimit =>
    refine hoffset.bind ?_
    rintro _ rfl
    refine hcount.bind ?_
    rintro _ rfl
    refine .pure ?_
    cases p.offset <;> cases p.count <;> simp [LimitClause.text, Amount.text, NumberText.amount]
  | fetchFirst =>
    refine hoffset.bind ?_
    rintro _ rfl
    refine hcount.bind ?_
    rintro _ rfl
    refine .pure ?_
    cases p.offset <;> cases p.count <;> simp [LimitClause.text]
  | limitOnly =>
    rw [hstyle] at hp
    have hnone : p.offset = none := hp
    rw [hnone]
    refine hcount.bind ?_
    rintro _ rfl
    refine .pure ?_
    cases p.count <;> simp [LimitClause.text, Amount.text, NumberText.amount]
  | top fetch =>
    cases fetch with
    | false =>
      rw [hstyle] at hp
      simp [Page.isTopped, hstyle, hp.1, hp.2] at htop
    | true =>
      refine hoffset.bind ?_
      rintro _ rfl
      refine hcount.bind ?_
      rintro _ rfl
      refine .pure ?_
      cases p.offset <;> cases p.count <;> simp [LimitClause.text, NumberText.zero]

theorem isEmpty_eq {α β : Type} {R : α → β → Prop} {as : List α} {bs : List β}
    (h : List.Forall₂ R as bs) : as.isEmpty = bs.isEmpty := by
  cases h <;> rfl

theorem ordering_page (hd : t.dialect.Paged) (p : Page) {keys : List String}
    (hkeys : List.Forall₂ (Spelled t.dialect) keys
      ((p.rename t.reread).keys.map (·.shapes t.dialect))) :
    Renders true t (ordering ((topTexts (p.top t.dialect)).isNone &&
        (t.dialect.writing.limitStyle == .top true && p.query.limit.isSome)) keys)
      fun texts => List.Forall₂ (Spelled t.dialect) texts
        (((p.rename t.reread).sorting t.dialect).map (·.shapes t.dialect)) := by
  have hneeded : ((topTexts (p.top t.dialect)).isNone &&
      (t.dialect.writing.limitStyle == .top true && p.query.limit.isSome)) = p.skips t.dialect := by
    rw [topTexts, Option.isNone_map, Page.isNone_top, Page.skips_eq, Bool.and_comm]
    simp [Page.query]
  have hempty : keys.isEmpty = p.order.isEmpty := by
    simpa [Page.keys, Page.rename] using isEmpty_eq hkeys
  have hrename : (p.rename t.reread).order.isEmpty = p.order.isEmpty := by simp [Page.rename]
  rw [hneeded, ordering, hempty, Page.sorting, hrename, Page.skips_rename]
  split
  · next h =>
    simp only [Bool.and_eq_true, Page.skips_eq, beq_iff_eq] at h
    have harbitrary := arbitraryOrder_writes hd.toLegible (hd.selectNull h.2.1).1
    exact harbitrary.bind fun text htext => .pure (.cons htext .nil)
  · exact .pure hkeys

/-- The clause of an ordering, if there is one. -/
theorem spelled_orderClause (hd : t.dialect.Legible) {keys : List SortKey} {texts : List String}
    (h : List.Forall₂ (Spelled t.dialect) texts (keys.map (·.shapes t.dialect))) :
    ∃ tss, List.Forall₂ (Spelled t.dialect)
        (if texts.isEmpty then [] else [t.listClause "ORDER BY" texts]) tss ∧
      tss.flatten = orderShapes t.dialect keys := by
  have hempty : texts.isEmpty = keys.isEmpty := by simpa using isEmpty_eq h
  rw [hempty, orderShapes]
  split
  · exact ⟨[], .nil, rfl⟩
  · have hwords : Spelled t.dialect "ORDER BY" [t.dialect.bare "ORDER", t.dialect.bare "BY"] :=
      Spelled.phrase hd (by decide : ∀ w ∈ ["ORDER", "BY"], Spelled.isPlainWord w = true)
    exact ⟨_, .cons (Spelled.listClause hd rfl hwords h) .nil, by simp⟩

/-- Whatever ordinals have been written, the outcome of `p` has the property `R`. -/
def Always {α : Type} (t : Target) (p : Render α) (R : Except Fault (α × Nat) → Prop) : Prop :=
  ∀ n, R (p t n)

theorem Renders.always {α β : Type} {p : Render α} {g : α → Render β} {P : α → Prop}
    {R : Except Fault (β × Nat) → Prop} (h : Renders true t p P)
    (hg : ∀ a, P a → Always t (g a) R) : Always t (p >>= g) R := by
  intro n
  rcases h n with ⟨a, m, heq, ha⟩ | ⟨htotal, -⟩
  · simpa only [Bind.bind, heq] using hg a ha m
  · cases htotal

theorem renders_iff_always {α : Type} {p : Render α} {P : α → Prop} :
    Renders true t p P ↔ Always t p fun r => ∃ a m, r = .ok (a, m) ∧ P a := by
  simp [Renders, Always]

/-- Everything before the row limit is written. -/
theorem text_page (hd : t.dialect.Paged) (p : Page) {R : Except Fault (String × Nat) → Prop}
    (h : ∀ parts tss, List.Forall₂ (Spelled t.dialect) parts tss →
      tss.flatten = t.dialect.bare "SELECT" ::
        ((p.rename t.reread).listings.shapes t.dialect (p.top t.dialect) ++
          orderShapes t.dialect ((p.rename t.reread).sorting t.dialect)) →
      Always t (do
        let limit ← if p.isTopped t.dialect then pure [] else limitTexts p.query.limit
        return t.clauses (parts ++ limit)) R) :
    Always t p.query.text R := by
  have htop : p.listings.isOne = false → p.top t.dialect = none := by
    intro hone
    have htopped : p.isTopped t.dialect = false := by
      unfold Page.isTopped
      cases t.dialect.writing.limitStyle <;> simp [hone]
    simp [Page.top, htopped]
  have hisSome : (topTexts (p.top t.dialect)).isSome = p.isTopped t.dialect := by
    rw [topTexts, Option.isSome_map, ← Option.not_isNone, Page.isNone_top, Bool.not_not]
  unfold Page.query
  simp only [Query.text, withTexts]
  refine (topText_page p).always ?_
  rintro _ rfl
  refine (p.listings.writes hd htop).always fun body hbody => ?_
  refine (orderTexts_page hd.toLegible p).always fun keys hkeys => ?_
  refine (ordering_page hd p hkeys).always fun texts htexts => ?_
  obtain ⟨tss, hclause, hflatten⟩ := spelled_orderClause hd.toLegible htexts
  rw [hisSome]
  refine h (body :: _) (_ :: tss) (.cons hbody hclause) ?_
  rw [List.flatten_cons, hflatten]
  rfl

/-- The text of a page spells its tokens, with the names as they are read. -/
theorem Page.writes (hd : t.dialect.Paged) {p : Page} (hp : p.Fits t.dialect) :
    Renders true t p.query.text fun text =>
      Spelled t.dialect text
        (t.dialect.bare "SELECT" :: (p.rename t.reread).shapes t.dialect) := by
  refine renders_iff_always.mpr (text_page hd p fun parts tss hparts hflatten => ?_)
  rw [← renders_iff_always]
  have hclauses : List.Forall₂ (Spelled t.dialect) ((p.clauses t.dialect).map LimitClause.text)
      ((p.clauses t.dialect).map fun c => t.dialect.bare c.word :: c.shapes t.dialect) := by
    induction p.clauses t.dialect with
    | nil => exact .nil
    | cons c cs ih => exact .cons (c.spelled hd.toExpressive) ih
  have hall := Spelled.clauses t (List.rel_append hparts hclauses)
  have hdone : Renders true t
      (pure (t.clauses (parts ++ (p.clauses t.dialect).map LimitClause.text))) fun text =>
        Spelled t.dialect text
          (t.dialect.bare "SELECT" :: (p.rename t.reread).shapes t.dialect) := by
    refine .pure ?_
    simpa [Page.shapes, limitShapes, hflatten, List.flatMap_def] using hall
  cases htop : p.isTopped t.dialect with
  | true =>
    have hnone : p.clauses t.dialect = [] := by simp [Page.clauses, htop]
    rw [hnone] at hdone
    exact hdone
  | false => exact (limitTexts_page hd hp htop).bind fun _ htexts => htexts ▸ hdone

/-- The clause that a dialect lacks for a page that does not fit. -/
def Page.lacking (p : Page) : String := if p.offset.isSome then "OFFSET" else "TOP"

theorem limitTexts_refuses {p : Page} (hp : ¬p.Fits t.dialect) (n : Nat) :
    p.isTopped t.dialect = false ∧
      limitTexts p.query.limit t n = .error (.unsupported p.lacking t.dialect.name none) := by
  unfold Page.Fits at hp
  simp only [Page.query, limitTexts, limitClauses, Page.isTopped, Page.lacking]
  split at hp
  · next hstyle =>
    obtain ⟨o, hoffset⟩ := Option.ne_none_iff_exists'.mp hp
    simp [hstyle, hoffset, Bind.bind, Render.target, Render.unsupported, Construct.describe]
  · next hstyle =>
    rw [← Option.isNone_iff_eq_none, ← Bool.and_eq_true, Bool.not_eq_true] at hp
    refine ⟨by simp only [hstyle, hp], ?_⟩
    simp [hstyle, Bind.bind, Render.target, Render.unsupported]
  · exact absurd trivial hp

/-- A dialect that cannot say the row limit names the clause that it lacks. -/
theorem Page.refuses (hd : t.dialect.Paged) {p : Page} (hp : ¬p.Fits t.dialect) :
    p.query.text.run t = .error (.unsupported p.lacking t.dialect.name none) := by
  have halways : Always t p.query.text
      (· = .error (.unsupported p.lacking t.dialect.name none)) := by
    refine text_page hd p fun parts tss _ _ n => ?_
    obtain ⟨htop, herror⟩ := limitTexts_refuses hp n
    rw [htop, if_neg Bool.false_ne_true]
    simp only [Bind.bind, herror]
  rw [Render.run, halways 0]
  rfl

end Writing

end SqlDialects
