import SqlDialects.Proofs.Pages

/-!
# Pages are read back

* `Listing.reads`, `Listings.reads` : names from a table and set operations of them;
* `orderBy_keys` : an ordering, arbitrary or not;
* `clauses_say` : the clauses that a dialect writes for a row limit say that row limit;
* `Page.reads` : a page that fits;
* `page_survives` : row limits survive in every dialect of the library.
-/

namespace SqlDialects

open Render

/-! ## Reading -/

section Reading

variable {F : Lapses} {d : Dialect} {p : Page} {rest : List Shape} {top : Option NumberText} {k : Nat}

/-- The names that are read as expressions are not reserved. -/
def Listing.IsFree (d : Dialect) (l : Listing) : Prop := ∀ n ∈ l.columns, n.IsFree d

def Listings.IsFree (d : Dialect) : Listings → Prop
  | one l => l.IsFree d
  | two _ _ left right => left.IsFree d ∧ right.IsFree d

def Page.IsFree (d : Dialect) (p : Page) : Prop :=
  p.listings.IsFree d ∧ ∀ key ∈ p.order, key.1.IsFree d

theorem selectItem_names (hd : d.Paged) {ns : List Name} (hne : ns ≠ [])
    (hns : ∀ n ∈ ns, n.IsFree d) (ts : List Shape) :
    ReadsWith 1 d (Parser.commaSeparated (Parser.selectItem (Parser.nested (k + 1))))
      (betweenCommas (ns.map fun n => [n.shape]) ++ d.bare "FROM" :: ts)
      (ns.map fun n => .expr (.name n) none) (d.bare "FROM" :: ts) := by
  refine ReadsOr.commaSeparated (E := fun us => Ends d 0 us ∧ NoneNext us ["AS"] ∧
    (headShape us).isName = false) (by simpa using hne) ?_ ?_ ?_ (Shape.isSymbol_bare d "FROM" ",")
  · refine List.forall₂_map_left_iff.mpr (List.forall₂_map_right_iff.mpr
      (List.forall₂_same.mpr fun n hn us hus => ?_))
    obtain ⟨hends, has, hname⟩ := hus
    refine selectItem_expr (expr_name (Lapses.limited_short 0) hd.toReadable (hns n hn) hends k)
      (Name.isSymbol_shape n "*") ?_ has hname
    have hdot : (headShape us).isSymbol "." = false := (Shape.isClear_iff.mp hends.isClear).2.1
    rw [Bool.and_eq_false_iff]
    exact .inr hdot
  · exact fun us => ⟨.mark d 0 (by decide) us, .mark "," us _, rfl⟩
  · refine ⟨.bare hd.toReadable 0 (by decide) ts, .bare d ts (by decide), ?_⟩
    exact isName_bare (hd.isReserved (by simp [Dialect.pageWords]))

/-- A listing before what may stand behind it in a query. -/
theorem Listing.reads (hd : d.Paged) {l : Listing} (hl : l.IsFree d)
    (htop : top.isSome = true → d.reading.top = true) (hrest : Behind d queryWords rest) :
    ReadsWith 1 d (Parser.select (Parser.nested (k + 1)))
      (d.bare "SELECT" :: (l.shapes d top ++ rest)) (l.select, top.map NumberText.expr) rest := by
  have hfree {w : String} (hw : Text.upper w ∈ d.lexical.reserved) (ts : List Shape) :
      (headShape (betweenCommas (l.columns.map fun n => [n.shape]) ++ ts)).isWord w = false := by
    cases hcolumns : l.columns with
    | nil => exact absurd hcolumns l.columns_ne
    | cons n ns => exact Name.isWord_shape (hl n (by simp [hcolumns])) hw
  have hreserved : ∀ w ∈ ["DISTINCT", "ALL"], Text.upper w ∈ d.lexical.reserved := by
    have hsub : ∀ w ∈ ["DISTINCT", "ALL"], Text.upper w ∈ reservedWords := by decide
    exact fun w hw => hd.reserved _ (hsub w hw)
  have hitems := selectItem_names (k := k) hd l.columns_ne hl
    (betweenDots (l.table.map Name.shape) ++ rest)
  have hsources : ReadsWith 1 d (Parser.sources (Parser.nested (k + 1)))
      (d.bare "FROM" :: (betweenDots (l.table.map Name.shape) ++ rest)) [⟨.table l.table none, []⟩]
      rest :=
    sources_table l.table_ne ⟨hrest.noneNext (by decide), hrest.isName, fun m _ => hrest.isSymbol m⟩
  have hclauses : NoneNext rest clauseStarts := hrest.noneNext (by decide)
  rw [Listing.shapes, List.append_assoc, List.append_assoc, List.cons_append]
  cases top with
  | none =>
    refine select_plain (fun w hw => hfree (hreserved w hw) _) (optionalTop_no fun hread w hw => ?_)
      hitems hsources hclauses
    obtain rfl := List.mem_singleton.mp hw
    exact hfree (hd.upper_mem (hd.top_mem hread)) _
  | some count =>
    exact select_plain (.bare d _ (by decide)) (optionalTop_number (htop rfl) count.text) hitems
      hsources hclauses

theorem setOp_reads (hd : d.Paged) (op : SetOp) (ts : List Shape) :
    ReadsOr F d Parser.setOp (d.bare (d.setKeyword op) :: ts) (some op) ts := by
  cases op with
  | union => exact (ReadsOr.eatBare d (w := "UNION") (by decide)).yes (.pure _)
  | intersect =>
    refine (ReadsOr.eatBare_no d (w := "INTERSECT") (by decide)).no ?_
    exact (ReadsOr.eatBare d (by decide)).yes (.pure _)
  | except =>
    simp only [Dialect.setKeyword]
    rcases hd.except with hexcept | ⟨hexcept, hminus⟩
    · rw [hexcept]
      refine (ReadsOr.eatBare_no d (by decide)).no ((ReadsOr.eatBare_no d (by decide)).no ?_)
      exact (ReadsOr.eatBare d (by decide)).yes (.pure _)
    · rw [hexcept]
      refine (ReadsOr.eatBare_no d (by decide)).no ((ReadsOr.eatBare_no d (by decide)).no ?_)
      refine (ReadsOr.eatBare_no d (by decide)).no (.rules ?_)
      exact (ReadsOr.onlyIf_yes hminus (.eatBare d (by decide))).yes (.pure _)

theorem setQuantifier_reads (quantifier : SetQuantifier) (ts : List Shape) :
    ReadsOr F d Parser.setQuantifier
      (d.quantifierShapes quantifier ++ d.bare "SELECT" :: ts) quantifier
      (d.bare "SELECT" :: ts) := by
  cases quantifier with
  | none =>
    refine (ReadsOr.eatBare_no d (by decide)).no ?_
    exact (ReadsOr.eatBare_no d (by decide)).no (.pure _)
  | all => exact (ReadsOr.eatBare d (by decide)).yes (.pure _)
  | distinct =>
    refine (ReadsOr.eatBare_no d (by decide)).no ?_
    exact (ReadsOr.eatBare d (by decide)).yes (.pure _)

theorem Dialect.Paged.setKeyword_behind (hd : d.Paged) (op : SetOp) (ts : List Shape) :
    Behind d queryWords (d.bare (d.setKeyword op) :: ts) := by
  refine .word ?_ (hd.isReserved (by cases op <;> simp [Dialect.pageWords])) ts
  cases op with
  | union => exact (by decide : "UNION" ∈ queryWords)
  | intersect => exact (by decide : "INTERSECT" ∈ queryWords)
  | except => rcases hd.except with h | ⟨h, -⟩ <;> simp only [Dialect.setKeyword, h] <;> decide

/-- Listings before an ordering or a row limit. -/
theorem Listings.reads (hd : d.Paged) {ls : Listings} (hls : ls.IsFree d)
    (htop : top.isSome = true → d.reading.top = true ∧ ls.isOne = true)
    (hrest : Behind d ("ORDER" :: limitStarts) rest) :
    ReadsWith 1 d (Parser.body (Parser.nested (k + 1)))
      (d.bare "SELECT" :: (ls.shapes d top ++ rest)) (ls.body, top.map NumberText.expr) rest := by
  have hquery : Behind d queryWords rest := hrest.mono (by decide)
  have hset : NoneNext rest setStarts := hrest.noneNext (by decide)
  cases ls with
  | one l => exact body_select (l.reads hd hls (fun h => (htop h).1) hquery) hset
  | two op quantifier left right =>
    obtain rfl : top = none := by
      cases top with
      | none => rfl
      | some n => cases (htop rfl).2
    have notopped : (none : Option NumberText).isSome = true → d.reading.top = true := nofun
    have hleft := left.reads (k := k) hd hls.1 notopped
      (hd.setKeyword_behind op (d.quantifierShapes quantifier ++
        d.bare "SELECT" :: (right.shapes d none ++ rest)))
    have hright := right.reads (k := k) hd hls.2 notopped hquery
    rw [Listings.shapes, List.append_assoc, List.append_assoc, Dialect.setShapes]
    refine body_combine hleft (setOp_reads hd op _) (by simp) (setQuantifier_reads quantifier _) ?_
      hright (by simp) hset
    simp only [List.length_append, List.length_cons]
    omega

theorem selectNull_reads (hfrom : d.reading.requireFrom = false) (us : List Shape) :
    ReadsWith 1 d (Parser.queryWith (Parser.nested (k + 1)))
      (d.bare "SELECT" :: d.bare "NULL" :: .mark ")" :: us) .selectNull (.mark ")" :: us) := by
  have hends : Ends d 0 (.mark ")" :: us) := .mark d 0 (by decide) us
  have hnone (ws : List String) : NoneNext (.mark ")" :: us) ws := .mark ")" us ws
  have hstarts : NoneNext (d.bare "NULL" :: .mark ")" :: us) ["DISTINCT", "ALL", "TOP"] :=
    .bare d _ (by decide)
  have hitem : ReadsWith 1 d (Parser.selectItem (Parser.nested (k + 1)))
      (d.bare "NULL" :: .mark ")" :: us) (.expr (.literal .null) none) (.mark ")" :: us) :=
    selectItem_expr (expr_null (Lapses.limited_short 0) hends k) (Shape.isSymbol_bare d "NULL" "*")
      (Bool.and_eq_false_iff.mpr (.inr rfl)) (hnone _) rfl
  have hmore : ReadsWith 1 d (Parser.afterCommas (Parser.selectItem (Parser.nested (k + 1))))
      (.mark ")" :: us) [] (.mark ")" :: us) := .many_stop (.optional_no (.eatSymbol_no rfl))
  refine queryWith_select (select_plain (hstarts.mono (by decide))
    (optionalTop_no fun _ => hstarts.mono (by decide)) (hitem.bind (hmore.bind (.pure _))) ?_
    (hnone _)) (hnone _)
  exact ((hnone ["FROM"]).eatWord (by simp)).no (.rules (by simp only [hfrom]; exact .pure []))

/-- The arbitrary ordering takes three levels: for its key, for the query in it and for what this selects. -/
theorem arbitrary_reads (hfrom : d.reading.requireFrom = false) {us : List Shape}
    (hus : Ends d 0 us) :
    ReadsWith 3 d ((Parser.nested (k + 3)).expr 0)
      (inParens [d.bare "SELECT", d.bare "NULL"] ++ us) (.subquery .selectNull) us := by
  refine ReadsWith.level (n := 2) (subexpr_primary rfl rfl (fun operand => .peek fun t ht => ?_) hus.next)
  obtain ⟨hkind, htext⟩ := shape_eq ht
  rw [hkind]
  simp only [htext, beq_self_eq_true, if_true]
  refine ReadsOr.parenthesized (ReadsOr.yes (.peek fun t ht => ?_)
    ((selectNull_reads (k := k) hfrom us).level.bind (.pure _)))
  have hselect : t.isWord "SELECT" = true := by
    rw [← Token.isWord_shape, ht]
    exact Shape.isWord_bare d "SELECT" "SELECT"
  rw [hselect]
  exact .pure _

theorem direction_reads (ascending : Option Bool) {us : List Shape}
    (hus : NoneNext us ["ASC", "DESC", "NULLS"]) :
    ReadsOr F d Parser.direction
      ((ascending.map fun a => d.bare (if a then "ASC" else "DESC")).toList ++ us) ascending
      us := by
  rcases ascending with _ | _ | _
  · exact (hus.eatWord (by decide)).no ((hus.eatWord (by decide)).no (.pure _))
  · refine (ReadsOr.eatBare_no d (by decide)).no ?_
    exact (ReadsOr.eatBare d (by decide)).yes (.pure _)
  · exact (ReadsOr.eatBare d (by decide)).yes (.pure _)

/-- The keys of an ordering before a row limit. -/
theorem orderBy_keys (hd : d.Paged) {keys : List SortKey}
    (hnames : ∀ n ascending, .name n ascending ∈ keys → n.IsFree d)
    (hfrom : .arbitrary ∈ keys → d.reading.requireFrom = false)
    (hrest : Behind d limitStarts rest) :
    ReadsWith 3 d (Parser.orderBy (Parser.nested (k + 3))) (orderShapes d keys ++ rest)
      (keys.map SortKey.item) rest := by
  rw [orderShapes]
  split
  · next hempty =>
    rw [List.isEmpty_iff.mp hempty]
    exact orderBy_no (hrest.noneNext (by decide))
  · next hempty =>
    have hwords : ReadsOr.wordsMatch
        (d.bare "ORDER" :: d.bare "BY" :: (betweenCommas (keys.map (·.shapes d)) ++ rest))
        ["ORDER", "BY"] = true := by
      simp [ReadsOr.wordsMatch]
      decide
    refine .optionalList (.eatWords hwords) ?_
    · refine ReadsOr.commaSeparated (E := fun us => Ends d 0 us ∧
        NoneNext us ["ASC", "DESC", "NULLS"]) (by simpa using hempty) ?_ ?_ ?_ (hrest.isSymbol ",")
      · refine List.forall₂_map_left_iff.mpr (List.forall₂_map_right_iff.mpr
          (List.forall₂_same.mpr fun key hkey us hus => ?_))
        obtain ⟨hends, hnone⟩ := hus
        have hnulls : ReadsWith 3 d (Parser.eatWord "NULLS") us false us := hnone.eatWord (by decide)
        cases key with
        | name n ascending =>
          have hbehind : Ends d 0
              ((ascending.map fun a => d.bare (if a then "ASC" else "DESC")).toList ++ us) := by
            rcases ascending with _ | _ | _
            · exact hends
            · exact .bare hd.toReadable 0 (by decide) us
            · exact .bare hd.toReadable 0 (by decide) us
          refine (expr_name (Lapses.limited_short 2) hd.toReadable (hnames n ascending hkey) hbehind (k + 2)).bind ?_
          refine (direction_reads ascending hnone).bind ?_
          exact (ReadsOr.optional_no (.supports (.onlyIf_no hnulls))).bind (.pure _)
        | arbitrary =>
          refine (arbitrary_reads (hfrom hkey) hends).bind ?_
          refine (direction_reads none hnone).bind ?_
          exact (ReadsOr.optional_no (.supports (.onlyIf_no hnulls))).bind (.pure _)
      · exact fun us => ⟨.mark d 0 (by decide) us, .mark "," us _⟩
      · exact ⟨hrest.ends hd.toReadable (by decide), hrest.noneNext (by decide)⟩

/-- The clauses of a page are read behind each other, and say its row limit. -/
theorem clauses_say (hd : d.Paged) (hp : p.Fits d) (htop : p.isTopped d = false) :
    MayFollow d ⟨none, none, false, false⟩ (p.clauses d) ∧
      ∃ s, LimitState.then ⟨none, none, false, false⟩ (p.clauses d) = s ∧
        p.limit d = ⟨s.count, s.offset⟩ ∧
        (s.skips = true → d.reading.offsetRequiresLimit = true → s.limited = true) := by
  have hreserved : ∀ w ∈ d.writing.limitStyle.words, d.lexical.isReserved w = true :=
    fun w hw => hd.isReserved (List.mem_append_right _ hw)
  have hskips := p.skips_eq (d := d)
  have hother (hstyle : d.writing.limitStyle ≠ .limitOffset) : d.most = none ∧
      d.reading.offsetRequiresLimit = false := by
    refine ⟨?_, ?_⟩
    · simpa using mt hd.mostStyle hstyle
    · simpa using mt (fun h => (hd.requiresLimit h).1) hstyle
  unfold Page.Fits at hp
  simp only [Page.clauses, Page.limit, htop]
  -- A count and an offset may each be there or not, and each style has its clauses for them.
  cases hstyle : d.writing.limitStyle with
  | limitOffset =>
    have hlimit := hd.limit (by simp [hstyle])
    have hoffset := hd.offset (by simp [hstyle])
    have hrequired := hd.requiresLimit
    simp only [hstyle, LimitStyle.words] at hreserved hskips
    cases p.count <;> cases hmost : d.most <;> cases p.offset <;>
      simp_all [Amount.expr, NumberText.amount]
  | offsetLimit =>
    have hlimit := hd.limit (by simp [hstyle])
    have hoffset := hd.offset (by simp [hstyle])
    obtain ⟨hnone, hfree⟩ := hother (by simp [hstyle])
    simp only [hstyle, LimitStyle.words] at hreserved hskips
    cases p.count <;> cases p.offset <;> simp_all [Amount.expr, NumberText.amount]
  | fetchFirst =>
    have hoffset := hd.offset (by simp [hstyle])
    have hfetch := hd.fetch (by simp [hstyle])
    have hnotop := hd.top
    obtain ⟨hnone, hfree⟩ := hother (by simp [hstyle])
    simp only [hstyle, LimitStyle.words] at hreserved hskips
    cases p.count <;> cases p.offset <;> simp_all
  | limitOnly =>
    have hlimit := hd.limit (by simp [hstyle])
    obtain ⟨hnone, hfree⟩ := hother (by simp [hstyle])
    simp only [hstyle, LimitStyle.words] at hreserved hskips hp
    cases p.count <;> simp_all [Amount.expr, NumberText.amount]
  | top fetch =>
    obtain ⟨hnone, hfree⟩ := hother (by simp [hstyle])
    cases fetch with
    | false =>
      rw [hstyle] at hp
      simp [Page.isTopped, hstyle, hp.1, hp.2] at htop
    | true =>
      have hoffset := hd.offset (by simp [hstyle])
      have hfetch := hd.fetch (by simp [hstyle])
      simp only [hstyle, LimitStyle.words] at hreserved hskips
      cases p.count <;> cases p.offset <;> simp_all

/-- The row limit of a page is read behind its ordering. -/
theorem Page.limit_reads (hd : d.Paged) (hp : p.Fits d) :
    ReadsWith 2 d (Parser.limit (Parser.nested (k + 2)) ((p.top d).map NumberText.expr)
        (!((p.sorting d).map SortKey.item).isEmpty))
      (limitShapes d (p.clauses d)) (some (p.limit d)) [] := by
  cases htop : p.isTopped d with
  | true =>
    obtain ⟨n, hcount, hsome⟩ := top_eq_some htop
    have hskips : p.skips d = false := by simp [skips_eq, htop]
    have hoffset : p.offset = none := by
      unfold isTopped at htop
      split at htop
      · simp only [Bool.and_eq_true, Option.isNone_iff_eq_none] at htop
        exact htop.1
      · cases htop
    have hclauses : p.clauses d = [] := by simp [clauses, htop]
    have hlimit : p.limit d = ⟨some n.expr, none⟩ := by simp [limit, hcount, hoffset, hskips]
    rw [hsome, hclauses, hlimit]
    have hfollow : MayFollow d ⟨some n.expr, none, false, false⟩ [] := trivial
    exact limit_clauses hd.toReadable hfollow rfl (fun h _ => absurd h Bool.false_ne_true)
      (fun h _ => absurd h Bool.false_ne_true) (.inl rfl)
  | false =>
    obtain ⟨hfollow, s, hs, hlimit, hlimited⟩ := clauses_say hd hp htop
    have hnone : p.top d = none := by simp [top, htop]
    have hsome : s.count.isSome = true ∨ s.offset.isSome = true := by
      have hcount : s.count = (p.limit d).count := by rw [hlimit]
      have hoffset : s.offset = (p.limit d).offset := by rw [hlimit]
      obtain ⟨n, h⟩ | ⟨-, n, h⟩ := p.count_or_offset
      · exact .inl (by simp [hcount, limit, h])
      · exact .inr (by simp [hoffset, limit, h])
    rw [hnone, hlimit]
    refine limit_clauses hd.toReadable hfollow hs (fun _ hrequired => ?_) hlimited hsome
    -- Where an offset needs an ordering, an arbitrary one stands for none.
    have hskips : p.skips d = true := by simp [skips_eq, htop, hd.requiresOrder hrequired]
    cases horder : p.order with
    | nil => simp [sorting, horder, hskips]
    | cons key order => simp [sorting, horder, keys]

theorem Page.clauses_behind (hd : d.Paged) (hp : p.Fits d) :
    Behind d limitStarts (limitShapes d (p.clauses d)) := by
  cases htop : p.isTopped d with
  | true =>
    have hclauses : p.clauses d = [] := by simp [clauses, htop]
    rw [hclauses]
    exact .nil d _
  | false => exact (clauses_say hd hp htop).1.behind

theorem Page.top_isSome (hd : d.Paged) (h : (p.top d).isSome = true) :
    d.reading.top = true ∧ p.listings.isOne = true := by
  have htop : p.isTopped d = true := by
    by_contra hno
    simp [top, hno] at h
  unfold isTopped at htop
  split at htop
  · next fetch hstyle =>
    rw [Bool.and_eq_true] at htop
    exact ⟨hd.top.mpr (by cases fetch <;> simp [hstyle]), htop.2⟩
  · cases htop

/-- An arbitrary ordering is written where the dialect needs one. -/
theorem Page.mem_sorting {key : SortKey} (h : key ∈ p.sorting d) :
    key = .arbitrary ∧ d.writing.limitStyle = .top true ∨ key ∈ p.keys := by
  unfold sorting at h
  split at h
  · next hskips =>
    simp only [Bool.and_eq_true, skips_eq, beq_iff_eq] at hskips
    exact .inl ⟨List.mem_singleton.mp h, hskips.2.1⟩
  · exact .inr h

/-- The tokens of a page that fits are read as the page that comes back. -/
theorem Page.reads (hd : d.Paged) (hp : p.Fits d) (hfree : p.IsFree d) :
    ReadsWith 3 d (Parser.queryWith (Parser.nested (k + 3))) (d.bare "SELECT" :: p.shapes d)
      (p.returned d) [] := by
  have hlimits := p.clauses_behind hd hp
  have hbehind : Behind d ("ORDER" :: limitStarts)
      (orderShapes d (p.sorting d) ++ limitShapes d (p.clauses d)) := by
    rw [orderShapes]
    split
    · exact hlimits.mono (by simp)
    · exact .word (by simp) (hd.isReserved (by simp [Dialect.pageWords])) _
  have hbody := p.listings.reads (k := k + 2) hd hfree.1 (p.top_isSome hd) hbehind
  have hnames : ∀ n ascending, .name n ascending ∈ p.sorting d → n.IsFree d := by
    intro n ascending hmem
    rcases p.mem_sorting hmem with ⟨hkey, -⟩ | hmem
    · cases hkey
    · obtain ⟨key, hkey, heq⟩ := List.mem_map.mp hmem
      cases heq
      exact hfree.2 key hkey
  have hfrom : .arbitrary ∈ p.sorting d → d.reading.requireFrom = false := by
    intro hmem
    rcases p.mem_sorting hmem with ⟨-, hstyle⟩ | hmem
    · exact (hd.selectNull hstyle).2
    · obtain ⟨key, -, hkey⟩ := List.mem_map.mp hmem
      cases hkey
  exact queryWith_parts (hbody.mono (by omega)) (orderBy_keys (k := k) hd hnames hfrom hlimits)
    ((limit_reads hd hp).mono (by omega))

end Reading

/-! ## Pages in every dialect -/

theorem Page.isFree_reread (t : Target) (p : Page) : (p.rename t.reread).IsFree t.dialect := by
  have hmap {ns : List Name} : ∀ n ∈ ns.map t.reread, n.IsFree t.dialect := by
    intro n hn
    obtain ⟨m, -, rfl⟩ := List.mem_map.mp hn
    exact reread_isFree t m
  refine ⟨?_, fun key hkey => ?_⟩
  · cases hlistings : p.listings with
    | one l =>
      simp only [rename, hlistings, Listings.rename]
      exact hmap
    | two op quantifier left right =>
      simp only [rename, hlistings, Listings.rename]
      exact ⟨hmap, hmap⟩
  · obtain ⟨⟨n, ascending⟩, -, rfl⟩ := List.mem_map.mp hkey
    exact reread_isFree t n

/-- A page is written in a dialect of the library exactly where the dialect can say its row limit.
The text is then read to its end as the same page, with the names in quotes where the text has them.
No count comes back as the greatest one of the dialect, if it has one; where an offset is written
that needs an ordering, no offset comes back as zero and no ordering as the arbitrary one. -/
theorem page_survives {t : Target} (ht : t.dialect ∈ Dialect.builtins) (p : Page) :
    (p.Fits t.dialect ∧ ∃ text, p.query.text.run t = .ok text ∧
      ∃ tokens finish c, tokenize t.dialect.lexical text = .ok (tokens, finish) ∧
        Parser.query (.ofTokens t.dialect tokens finish) {} =
          (.ok ((p.rename t.reread).returned t.dialect), c) ∧ tokens.length ≤ c.index) ∨
    (¬p.Fits t.dialect ∧
      p.query.text.run t = .error (.unsupported p.lacking t.dialect.name none)) := by
  have hd := paged_of_mem_builtins ht
  by_cases hp : p.Fits t.dialect
  · refine .inl ⟨hp, ?_⟩
    obtain ⟨text, m, hrun, hspelled⟩ := renders_iff_always.mp (Page.writes hd hp) 0
    obtain ⟨tokens, finish, htokens, hat⟩ := hspelled.tokenize
    have hreads := Page.reads (k := 124) hd ((p.fits_rename t.reread).mpr hp) (p.isFree_reread t)
    have hquery := hreads.level
    rw [show 124 + 3 = 127 from rfl, ← Parser.query_eq] at hquery
    obtain ⟨c, hparse, hend⟩ := hquery.run hat (by decide)
    refine ⟨text, by rw [Render.run, hrun]; rfl, tokens, finish, c, htokens, hparse, ?_⟩
    have hlength := hend.length
    simp only [Input.ofTokens, List.size_toArray, List.length_nil] at hlength
    omega
  · exact .inr ⟨hp, Page.refuses hd hp⟩


/-- The first three names of two tables. -/
def Page.threeOfTwo : Page where
  listings := .two .union .none ⟨[⟨"a", false⟩], [⟨"t", false⟩], by decide, by decide⟩
    ⟨[⟨"a", false⟩], [⟨"u", false⟩], by decide, by decide⟩
  order := []
  count := some ⟨"3", by decide⟩
  offset := none
  limited := rfl

/-- `TOP` belongs to one `SELECT`: the count of a union stands behind an arbitrary ordering and an
offset of zero, or cannot be said. -/
theorem page_survives_union :
    (∃ text, Page.threeOfTwo.query.text.run { dialect := .tsql } = .ok text ∧
      ∃ tokens finish c, tokenize Dialect.tsql.lexical text = .ok (tokens, finish) ∧
        Parser.query (.ofTokens .tsql tokens finish) {} =
          (.ok ⟨none, Page.threeOfTwo.listings.body, [⟨.subquery .selectNull, none, none⟩],
            some ⟨some (.literal (.number "3")), some (.literal (.number "0"))⟩⟩, c) ∧
        tokens.length ≤ c.index) ∧
      Page.threeOfTwo.query.text.run { dialect := .teradata } =
        .error (.unsupported "TOP" "teradata" none) := by
  constructor
  · have hmem : Dialect.tsql ∈ Dialect.builtins := by decide +kernel
    have hstyle : Dialect.tsql.writing.limitStyle = .top true := by decide +kernel
    have hname (w : String) (hw : w ∈ ["a", "t", "u"]) :
        Target.reread { dialect := .tsql } ⟨w, false⟩ = ⟨w, false⟩ := by
      revert w
      decide +kernel
    have hrename : Page.threeOfTwo.rename (Target.reread { dialect := .tsql }) = .threeOfTwo := by
      simp [Page.threeOfTwo, Page.rename, Listings.rename, Listing.rename, hname]
    have hskips : Page.threeOfTwo.skips .tsql = true := by
      simp [Page.skips, hstyle, Page.threeOfTwo, Listings.isOne]
    have hreturned : Page.threeOfTwo.returned .tsql =
        ⟨none, Page.threeOfTwo.listings.body, [⟨.subquery .selectNull, none, none⟩],
          some ⟨some (.literal (.number "3")), some (.literal (.number "0"))⟩⟩ := by
      simp only [Page.returned, Page.sorting, Page.limit, hskips]
      rfl
    obtain ⟨-, h⟩ | ⟨h, -⟩ := page_survives (t := { dialect := .tsql }) hmem .threeOfTwo
    · rwa [hrename, hreturned] at h
    · exact absurd trivial (by simpa only [Page.Fits, hstyle] using h)
  · have hmem : Dialect.teradata ∈ Dialect.builtins := by decide +kernel
    have hstyle : Dialect.teradata.writing.limitStyle = .top false := by decide +kernel
    obtain ⟨h, -⟩ | ⟨-, h⟩ := page_survives (t := { dialect := .teradata }) hmem .threeOfTwo
    · simp only [Page.Fits, hstyle] at h
      cases h.2
    · exact h

end SqlDialects
