import SqlDialects.Proofs.Expressive

/-!
# The names of functions

* `Dialect.saying` : the name under which a function is written, and whether its first two arguments are
  exchanged there;
* `Dialect.Fluent` : what a dialect calls its functions means these functions in it, and no table has a
  dotted name; `fluent_of_mem_builtins` : the dialects of the library;
* `Dialect.Callee` : a text that names a function where a parenthesis follows it, with its tokens;
  `callee_bare`, `callee_dotted` : a callable word, and two or more unreserved words with dots between them;
* `Dialect.Says` : the text under which a function is written is one that means it;
  `says_of_bare`, `says_of_dotted` : so it is for every function that a name in a text means.
-/

namespace SqlDialects

/-! ## Written names -/

/-- The name under which the function `canonical` is written, and whether its first two arguments are
exchanged there. -/
def Dialect.saying (d : Dialect) (canonical : String) : String × Bool :=
  match d.spelling? canonical with
  | some (.rename name) => (name, false)
  | some (.swap name) => (name, true)
  | _ => (canonical, false)

theorem callText_eq (t : Target) (canonical : String) (distinct : Bool) (args : List String) :
    t.callText canonical distinct args = (t.dialect.saying canonical).1 ++ "(" ++
      ((if distinct then "DISTINCT " else "") ++
        String.intercalate ", " (swapFirstIf (t.dialect.saying canonical).2 args)) ++ ")" := by
  unfold Target.callText Dialect.saying
  cases hspelling : t.dialect.spelling? canonical with
  | none => simp [swapFirstIf, String.append_assoc]
  | some spelling =>
    cases spelling with
    | rename name => simp [swapFirstIf, String.append_assoc]
    | position => simp [swapFirstIf, String.append_assoc]
    | swap name =>
      rcases args with _ | ⟨a, _ | ⟨b, rest⟩⟩ <;>
        simp [swapFirstIf, Parser.swapFirst, String.append_assoc]

/-- The functions that names mean by the tables of the dialect. -/
def Dialect.canonicalNames (d : Dialect) : List String :=
  "STRPOS" :: (d.reading.functionAliases.map fun entry =>
    match entry.2 with
    | .rename canonical => canonical
    | .swap canonical => canonical) ++
      knownFunctions.filter fun name => (d.reading.functionAliases.get? name).isNone

/-- Whether the function `canonical` is written under a name that means it. -/
def Dialect.saysBack (d : Dialect) (canonical : String) : Bool :=
  let (name, swapped) := d.saying canonical
  d.isCallable name && d.isPlainCall name && d.meaning? name == some (canonical, swapped)

/-- The names that something is done about where a function is called. -/
def Dialect.calledNames (d : Dialect) : List String :=
  ["POSITION", "EXTRACT", "DATEPART"] ++ d.reading.ifFunctions ++ d.reading.nowFunctions.map Prod.fst ++
    d.reading.functionAliases.keys ++ knownFunctions

theorem mem_calledNames {d : Dialect} {name : String} : name ∈ d.calledNames ↔
    name ∈ ["POSITION", "EXTRACT", "DATEPART"] ∨ name ∈ d.reading.ifFunctions ∨
      name ∈ d.reading.nowFunctions.map Prod.fst ∨ name ∈ d.reading.functionAliases.keys ∨
        name ∈ knownFunctions := by
  simp only [Dialect.calledNames, List.mem_append, or_assoc]

/-- Whether `op` is written by a symbol and read back as itself. -/
def Dialect.joinsBack (d : Dialect) (op : BinaryOp) : Bool :=
  match d.target.binaryForm op with
  | .symbol _ => d.readOp op == op
  | _ => false

/-- What is asked of a dialect so that its functions are read back. -/
@[mk_iff]
structure Dialect.Fluent (d : Dialect) : Prop extends d.Expressive where
  canonical : ∀ name ∈ d.canonicalNames, d.saysBack name = true
  accepts : d.reading.unknownFunctions = .accept
  /-- Only functions that everybody knows have names of their own in the dialect. -/
  spelled : ∀ name ∈ d.writing.functionNames.keys, Text.upper name ∈ knownFunctions
  undotted : ∀ name ∈ d.calledNames, '.' ∉ name.toList
  /-- Only one function is written as a position. -/
  position : ∀ entry ∈ d.writing.functionNames, entry.2 = .position → entry.1 = "STRPOS"
  positionCall : d.isCallable "POSITION" = true ∧ d.isPlainCall "POSITION" = true
  /-- A star is a token before whatever ends it. -/
  star : d.lexical.isMark '*' = true ∧
    ∀ h ∈ closers, d.lexical.firstOperator "*".toList h = some "*"
  joins : ∀ rule ∈ d.reading.operators, d.joinsBack rule.op = true
  marks : ∀ m ∈ [",", ")"], d.reading.operator? m = none

theorem fluent_of_mem_builtins {d : Dialect} (h : d ∈ Dialect.builtins) : d.Fluent := by
  rw [Dialect.fluent_iff]
  refine ⟨expressive_of_mem_builtins h, ?_⟩
  revert d
  decide +kernel

/-- A name means a function by a table, or itself. -/
theorem meaning_cases {d : Dialect} {name canonical : String} {swapped : Bool}
    (h : d.meaning? name = some (canonical, swapped)) : canonical ∈ d.canonicalNames ∨
      canonical = name ∧ swapped = false ∧ Text.upper name ∉ knownFunctions := by
  unfold Dialect.meaning? at h
  dsimp only at h
  split at h
  · obtain ⟨rfl, -⟩ : "STRPOS" = canonical ∧ false = swapped := by simpa using h
    exact .inl (by simp [Dialect.canonicalNames])
  cases hget : d.reading.functionAliases.get? (Text.upper name) with
  | some other =>
    rw [hget] at h
    refine .inl (List.mem_append_left _ (List.mem_cons_of_mem _ ?_))
    refine List.mem_map.mpr ⟨_, Table.mem_of_get? hget, ?_⟩
    cases other <;> simpa using congrArg Prod.fst (Option.some.inj h)
  | none =>
    rw [hget] at h
    dsimp only at h
    split at h
    · next hknown =>
      obtain ⟨rfl, -⟩ : Text.upper name = canonical ∧ false = swapped := by simpa using h
      refine .inl (List.mem_append_right _ (List.mem_filter.mpr ⟨by simpa using hknown, ?_⟩))
      simp [hget]
    · next hunknown =>
      cases hrule : d.reading.unknownFunctions with
      | accept =>
        rw [hrule] at h
        obtain ⟨rfl, rfl⟩ : name = canonical ∧ false = swapped := by simpa using h
        exact .inr ⟨rfl, rfl, by simpa using hunknown⟩
      | reject =>
        rw [hrule] at h
        cases h

/-- What nobody knows is written under its own name. -/
theorem Dialect.Fluent.saying_unknown {d : Dialect} (hd : d.Fluent) {name : String}
    (h : Text.upper name ∉ knownFunctions) : d.saying name = (name, false) := by
  unfold Dialect.saying Dialect.spelling?
  cases hget : d.writing.functionNames.get? name with
  | none => rfl
  | some spelling => exact absurd (hd.spelled _ (Table.mem_keys_of_get? hget)) h

/-! ### Dotted names -/

theorem dot_mem_upper {name : String} (h : '.' ∈ name.toList) : '.' ∈ (Text.upper name).toList := by
  rw [Text.upper, String.toList_ofList]
  exact List.mem_map.mpr ⟨'.', h, rfl⟩

section Dotted

variable {d : Dialect} {name : String}

theorem Dialect.Fluent.upper_not_mem (hd : d.Fluent) (h : '.' ∈ name.toList) :
    Text.upper name ∉ d.calledNames :=
  fun hmem => hd.undotted _ hmem (dot_mem_upper h)

theorem Dialect.Fluent.isPlainCall_dotted (hd : d.Fluent) (h : '.' ∈ name.toList) :
    d.isPlainCall name = true := by
  have hnone := hd.upper_not_mem h
  simp only [mem_calledNames, not_or, List.mem_cons, List.not_mem_nil, or_false] at hnone
  obtain ⟨⟨-, hextract, hdatePart⟩, hif, hnow, -⟩ := hnone
  have hfind : d.reading.nowFunctions.find? (·.1 == Text.upper name) = none := by
    refine List.find?_eq_none.mpr fun entry hentry heq => hnow ?_
    rw [← beq_iff_eq.mp heq]
    exact List.mem_map_of_mem hentry
  simp [Dialect.isPlainCall, hextract, hdatePart, hif, hfind]

theorem Dialect.Fluent.meaning_dotted (hd : d.Fluent) (h : '.' ∈ name.toList) :
    d.meaning? name = some (name, false) ∧ Text.upper name ∉ knownFunctions := by
  have hnone := hd.upper_not_mem h
  simp only [mem_calledNames, not_or, List.mem_cons, List.not_mem_nil, or_false] at hnone
  obtain ⟨⟨hposition, -, -⟩, -, -, halias, hknown⟩ := hnone
  have hget : d.reading.functionAliases.get? (Text.upper name) = none := by
    cases hget : d.reading.functionAliases.get? (Text.upper name) with
    | none => rfl
    | some other => exact absurd (Table.mem_keys_of_get? hget) halias
  refine ⟨?_, hknown⟩
  simp [Dialect.meaning?, hposition, hget, hknown, hd.accepts]

end Dotted

/-! ## Names before parentheses -/

/-- The text `w` is cut into the tokens `ss` before a parenthesis, and names a function that is called in
the common form. -/
structure Dialect.Callee (d : Dialect) (w : String) (ss : List Shape) : Prop where
  spelled : ∀ {s : String} {ts : List Shape}, Spelled d s ts →
    Spelled d (w ++ "(" ++ s ++ ")") (ss ++ inParens ts)
  plain : d.isPlainCall w = true
  /-- The first of the tokens is the part of the text before its first dot. -/
  head : ∃ us, ss = d.bare (.ofList (w.toList.takeWhile (· != '.'))) :: us ∧
    Text.sameWord (.ofList (w.toList.takeWhile (· != '.'))) "EXISTS" = false
  form : ∀ {us : List Shape} {e : Expr}, (∀ n k rest position, (headShape rest).isClear = true →
      (ss ++ .mark "(" :: (us ++ rest)).length ≤ k →
      Parses d (Parser.call (Parser.nested n) (Parser.operandUpTo (Parser.nested n) k) w position)
        (.mark "(" :: (us ++ rest)) e rest) → Form d .atom (ss ++ .mark "(" :: us) e

/-- A call of the common form without a window. -/
theorem Dialect.Callee.enclosed {d : Dialect} {w canonical : String} {ss ts : List Shape}
    {swapped distinct : Bool} {args : List Arg} (h : d.Callee w ss)
    (hmeaning : d.meaning? w = some (canonical, swapped))
    (hbody : Enclosed d (Text.upper w) ts distinct args) :
    Form d .atom (ss ++ inParens ts) (.call ⟨canonical, swapFirstIf swapped args, distinct, none⟩) :=
  h.form fun n _ _ position hrest _ => hbody.call h.plain hmeaning n _ position hrest

/-- A bare word has no dot. -/
theorem ne_dot_of_isBare {d : Dialect} (hd : d.Legible) {w : String} (hw : d.isBare w = true) :
    ∀ c ∈ w.toList, c ≠ '.' := by
  have hstart : Lexer.startsWord d.lexical '.' = false := hd.plain.starts '.' (by simp [LexicalRules.openers])
  have hmore : Lexer.continuesWord d.lexical '.' = false := hd.plain.ends '.' (by decide)
  unfold Dialect.isBare at hw
  split at hw
  · cases hw
  · next c cs hlist =>
    rw [Bool.and_eq_true, List.all_eq_true] at hw
    rw [hlist]
    rintro x hx rfl
    rcases List.mem_cons.mp hx with rfl | hx
    · rw [hw.1] at hstart
      cases hstart
    · rw [hw.2 _ hx] at hmore
      cases hmore

theorem callee_bare {d : Dialect} (hd : d.Legible) {w : String} (hw : d.isCallable w = true)
    (hplain : d.isPlainCall w = true) : d.Callee w [d.bare w] where
  spelled h := by
    simp only [Dialect.isCallable, Bool.and_eq_true] at hw
    exact .called hd hw.1.1 h
  plain := hplain
  head := by
    have hbare : d.isBare w = true := by
      simp only [Dialect.isCallable, Bool.and_eq_true] at hw
      exact hw.1.1
    have hall : w.toList.takeWhile (· != '.') = w.toList :=
      List.takeWhile_eq_self_iff.mpr fun c hc => by simpa using ne_dot_of_isBare hd hbare c hc
    rw [hall, String.ofList_toList]
    have hexists := isWord_bare_callable hw (x := "EXISTS") (by decide)
    rw [Shape.isWord_bare] at hexists
    exact ⟨[], rfl, hexists⟩
  form h := form_called hw h

section Dotted

variable {d : Dialect} {n m : Name} {ns : List Name} {ts us rest : List Shape} {e : Expr}

theorem opens_dots_called (hd : d.Readable) (hn : n.IsFree d) (m : Name) (ns : List Name) :
    Opens (betweenDots ((n :: m :: ns).map Name.shape) ++ .mark "(" :: us) where
  ne_nil := by simp [betweenDots]
  word x hx := Name.isWord_shape hn (reserved_of_mem_nonstarters hd hx)
  symbol x _ := Name.isSymbol_shape n x
  ahead rest _ := by
    have hstar : starAhead (n.shape :: (behindDots ((m :: ns).map Name.shape) ++
        .mark "(" :: (us ++ rest))) = false := starAhead_dots n (m :: ns) rfl
    rw [List.append_assoc, List.cons_append]
    simp only [betweenDots, List.map_cons, List.cons_append, misleads] at hstar ⊢
    rw [hstar]
    exact Bool.and_false _

/-- A call by a dotted name without quotes. -/
theorem form_dots_called (hd : d.Readable) (hwords : ∀ x ∈ n :: m :: ns, x.quoted = false)
    (hn : n.IsFree d)
    (h : ∀ k j rest position, (headShape rest).isClear = true →
      (betweenDots ((n :: m :: ns).map Name.shape) ++ .mark "(" :: (us ++ rest)).length ≤ j →
      Parses d (Parser.call (Parser.nested k) (Parser.operandUpTo (Parser.nested k) j)
        (QualifiedName.dotted (n :: m :: ns)) position) (.mark "(" :: (us ++ rest)) e rest) :
    Form d .atom (betweenDots ((n :: m :: ns).map Name.shape) ++ .mark "(" :: us) e := by
  refine Primary.form (fun k j rest hrest hj => ?_) (opens_dots_called hd hn m ns)
    (Name.isWord_shape hn (hd.reserved "NOT" (by decide))) (Name.unaryOp_shape n)
  obtain ⟨text, quoted⟩ := n
  obtain rfl : quoted = false := hwords ⟨text, quoted⟩ (by simp)
  have hlast : ((m :: ns).getLastD ⟨text, false⟩).quoted = false := by
    refine hwords _ (List.mem_cons_of_mem _ ?_)
    rw [List.getLastD_eq_getLast?, List.getLast?_eq_some_getLast (List.cons_ne_nil m ns)]
    exact List.getLast_mem _
  have hchain : Parses d (Parser.chain (Parser.nested k) (Parser.operandUpTo (Parser.nested k) j))
      ((.word, text) :: (behindDots ((m :: ns).map Name.shape) ++ .mark "(" :: (us ++ rest))) e rest := by
    refine .peek fun _ _ => (ReadsOr.name ⟨text, false⟩).bind ((chainParts rfl).bind ?_)
    refine (ReadsOr.peekSymbol rfl).bind ?_
    simp only [hlast, Bool.not_false, Bool.and_true]
    refine .nameFunction (h k j rest _ hrest ?_)
    rwa [List.append_assoc, List.cons_append] at hj
  rw [List.append_assoc, List.cons_append]
  refine .peek fun t ht => ?_
  have hshape : t.shape = (.word, text) := ht
  rw [(shape_eq hshape).1]
  exact wordExpr_chain hshape (wordForm_free hd (hn.resolve_left (by simp))) rfl (by simp [Shape.mark])
    hchain

theorem callee_dotted (hd : d.Fluent) (hwords : ∀ x ∈ n :: m :: ns, x.quoted = false)
    (hbare : ∀ x ∈ n :: m :: ns, d.isBare x.text = true)
    (hfree : ∀ x ∈ n :: m :: ns, d.lexical.isReserved x.text = false) :
    d.Callee (QualifiedName.dotted (n :: m :: ns)) (betweenDots ((n :: m :: ns).map Name.shape)) where
  spelled := by
    intro s ts hs b hb
    have hall : List.Forall₂ (Spelled.Dottable d) ((n :: m :: ns).map Name.text)
        ((n :: m :: ns).map Name.shape) := by
      rw [List.forall₂_map_left_iff, List.forall₂_map_right_iff, List.forall₂_same]
      intro x hx
      have hword := Spelled.dottable_bare hd.toLegible (hbare x hx)
      rw [Dialect.bare, Dialect.wordKind, hfree x hx] at hword
      rw [Name.shape, hwords x hx]
      exact hword
    have hdots := Spelled.spells_dots hd.toLegible hall (b := some '(') (by decide)
    rw [String.append_assoc, String.append_assoc, String.toList_append]
    have hhead : ("(" ++ (s ++ ")")).toList.head?.or b = some '(' := by simp
    refine Spells.append (hhead ▸ hdots) ?_
    rw [← String.append_assoc]
    exact hs.parens hd.toLegible b hb
  plain := hd.isPlainCall_dotted (by simp [QualifiedName.dotted, String.intercalate_cons_cons])
  head := by
    have hfirst : (QualifiedName.dotted (n :: m :: ns)).toList.takeWhile (· != '.') = n.text.toList := by
      have hn := ne_dot_of_isBare hd.toLegible (hbare n (by simp))
      simp only [QualifiedName.dotted, List.map_cons, String.intercalate_cons_cons, String.append_assoc,
        String.toList_append]
      rw [List.takeWhile_append_of_pos (by simpa using hn)]
      simp
    rw [hfirst, String.ofList_toList]
    refine ⟨behindDots ((m :: ns).map Name.shape), ?_, ?_⟩
    · rw [List.map_cons, betweenDots, Name.shape, hwords n (by simp), Dialect.bare, Dialect.wordKind,
        hfree n (by simp)]
      rfl
    · have hexists := isWord_free (hfree n (by simp)) (x := "EXISTS") (hd.reserved "EXISTS" (by decide))
      exact hexists
  form h := form_dots_called hd.toReadable hwords (.inr (hfree n (by simp))) h

end Dotted

/-! ## Functions -/

/-- The function `canonical` is written under a name of the tokens `ss` that means it. -/
structure Dialect.Says (d : Dialect) (canonical : String) (ss : List Shape) : Prop where
  callee : d.Callee (d.saying canonical).1 ss
  meaning : d.meaning? (d.saying canonical).1 = some (canonical, (d.saying canonical).2)

theorem Dialect.Fluent.says_canonical {d : Dialect} (hd : d.Fluent) {canonical : String}
    (h : canonical ∈ d.canonicalNames) :
    d.Says canonical [d.bare (d.saying canonical).1] := by
  have hback := hd.canonical canonical h
  simp only [Dialect.saysBack, Bool.and_eq_true, beq_iff_eq] at hback
  exact ⟨callee_bare hd.toLegible hback.1.1 hback.1.2, hback.2⟩

theorem Dialect.Fluent.says_unknown {d : Dialect} (hd : d.Fluent) {name : String} {ss : List Shape}
    (hcallee : d.Callee name ss) (hunknown : Text.upper name ∉ knownFunctions)
    (hmeaning : d.meaning? name = some (name, false)) : d.Says name ss := by
  have hsaying := hd.saying_unknown hunknown
  exact ⟨by rwa [hsaying], by rw [hsaying]; exact hmeaning⟩

theorem says_of_bare {d : Dialect} (hd : d.Fluent) {w canonical : String} {swapped : Bool}
    (hw : d.isCallable w = true) (hplain : d.isPlainCall w = true)
    (h : d.meaning? w = some (canonical, swapped)) : ∃ ss, d.Says canonical ss := by
  rcases meaning_cases h with hmem | ⟨rfl, rfl, hunknown⟩
  · exact ⟨_, hd.says_canonical hmem⟩
  · exact ⟨_, hd.says_unknown (callee_bare hd.toLegible hw hplain) hunknown h⟩

theorem says_of_dotted {d : Dialect} (hd : d.Fluent) {n m : Name} {ns : List Name}
    (hwords : ∀ x ∈ n :: m :: ns, x.quoted = false)
    (hbare : ∀ x ∈ n :: m :: ns, d.isBare x.text = true)
    (hfree : ∀ x ∈ n :: m :: ns, d.lexical.isReserved x.text = false) {canonical : String}
    {swapped : Bool} (h : d.meaning? (QualifiedName.dotted (n :: m :: ns)) = some (canonical, swapped)) :
    ∃ ss, d.Says canonical ss := by
  have hdot : '.' ∈ (QualifiedName.dotted (n :: m :: ns)).toList := by
    simp [QualifiedName.dotted, String.intercalate_cons_cons]
  obtain ⟨hmeaning, hunknown⟩ := hd.meaning_dotted hdot
  obtain ⟨rfl, -⟩ := Prod.mk.inj (Option.some.inj (h.symm.trans hmeaning))
  exact ⟨_, hd.says_unknown (callee_dotted hd hwords hbare hfree) hunknown hmeaning⟩

end SqlDialects
