import SqlDialects.Grammar.Statement
import SqlDialects.Proofs.Sayable

/-!
# What a dialect reads it can say

* `YieldsOn`, `Yields` : every result of a parser on an input, or in a dialect, has a property, and how the
  combinators keep it;
* `Said` : all of the nodes can be said, bare parameters apart;
* `Deeper.Fair`, `nested_said` : the productions of every level of nesting yield such trees;
* `statement_said` : so does the production of statements.

Each production tests a reading rule where the writer would ask for a writing rule; `Dialect.Coherent`
says that the one implies the other.
-/

namespace SqlDialects

/-! ## Results of parsers -/

/-- Every result of `p` on the input `i` has the property `P`, as long as the names of the functions that were read
satisfy `N`. -/
def YieldsOn {α : Type} (i : Input) (p : Parser α) (P : α → Prop) (N : List Name → Prop := fun _ => True) : Prop :=
  ∀ c a c', p i c = (.ok a, c') → (∀ ns ∈ c'.functions, N ns) → P a

theorem YieldsOn.apply {α : Type} {i : Input} {p : Parser α} {P : α → Prop} (hp : YieldsOn i p P) {c c' : Cursor}
    {a : α} (heq : p i c = (.ok a, c')) : P a :=
  hp c a c' heq fun _ _ => trivial

namespace YieldsOn

variable {α β σ : Type} {i : Input} {p : Parser α} {f : α → Parser β} {P Q : α → Prop} {R : β → Prop}
  {N : List Name → Prop}

theorem pure {a : α} (h : P a) : YieldsOn i (Pure.pure a) P N := by
  intro c b c' heq _
  cases heq
  exact h

theorem any (p : Parser α) : YieldsOn i p (fun _ => True) N := fun _ _ _ _ _ => trivial

theorem mono (hp : YieldsOn i p P N) (h : ∀ a, P a → Q a) : YieldsOn i p Q N :=
  fun c a c' heq hnames => h a (hp c a c' heq hnames)

theorem and (hp : YieldsOn i p P N) (hq : YieldsOn i p Q N) : YieldsOn i p (fun a => P a ∧ Q a) N :=
  fun c a c' heq hnames => ⟨hp c a c' heq hnames, hq c a c' heq hnames⟩

/-- What holds whatever functions are called. -/
theorem given (hp : YieldsOn i p P) : YieldsOn i p P N := fun _ _ _ heq _ => hp.apply heq

theorem bind (hp : YieldsOn i p P N) (hf : ∀ a, P a → YieldsOn i (f a) R N) : YieldsOn i (p >>= f) R N := by
  intro c b c' heq hnames
  simp only [Bind.bind] at heq
  split at heq
  case h_1 a e hrun =>
    have hleads := (f a).leads i e
    rw [heq] at hleads
    exact hf a (hp c a e hrun fun ns hns => hnames ns (hleads.functions.subset hns)) e b c' heq hnames
  case h_2 => cases heq

/-- What `p` reads does not matter. -/
theorem skip (hf : ∀ a, YieldsOn i (f a) R N) : YieldsOn i (p >>= f) R N :=
  (any p).bind fun a _ => hf a

theorem map {g : α → β} (hp : YieldsOn i p P N) (h : ∀ a, P a → R (g a)) : YieldsOn i (g <$> p) R N :=
  hp.bind fun a ha => pure (h a ha)

theorem dialect {f : Dialect → Parser β} (hf : YieldsOn i (f i.dialect) R N) :
    YieldsOn i (Parser.dialect >>= f) R N := hf

theorem rules {f : ReadingRules → Parser β} (hf : YieldsOn i (f i.dialect.reading) R N) :
    YieldsOn i (Parser.rules >>= f) R N := hf

/-- The next token is one of the input. -/
theorem peek {f : Token → Parser β} (hf : ∀ k, YieldsOn i (f (i.token k)) R N) :
    YieldsOn i (Parser.peek >>= f) R N :=
  fun c b c' heq => hf (c.index + 0) c b c' heq

/-- The name of a function is one of those that are read. -/
theorem nameFunction {ns : List Name} {f : Unit → Parser β} (hf : N ns → YieldsOn i (f ()) R N) :
    YieldsOn i (Parser.nameFunction ns >>= f) R N := by
  intro c b c' heq hnames
  have hleads := (f ()).leads i { c with functions := ns :: c.functions }
  have hrun : f () i { c with functions := ns :: c.functions } = (.ok b, c') := heq
  rw [hrun] at hleads
  exact hf (hnames ns (hleads.functions.subset (List.mem_cons_self ..))) _ b c' hrun hnames

theorem unexpected : YieldsOn i (Parser.unexpected : Parser α) P N := by
  intro c a c' heq
  cases heq

theorem fail (e : Fault) : YieldsOn i (Parser.fail e : Parser α) P N := by
  intro c a c' heq
  cases heq

theorem unexpectedAt (t : Token) (what : String) : YieldsOn i (Parser.unexpectedAt t what : Parser α) P N :=
  fail _

/-- A production one level down yields what it yields. -/
theorem level (hp : YieldsOn i p P N) : YieldsOn i (Parser.level p) P N := by
  intro c a c' heq hnames
  rcases Parser.level_cases heq with ⟨-, hrefused⟩ | ⟨-, e, hrun, rfl⟩
  · cases hrefused
  · exact hp _ a e hrun hnames

/-- Two ways to go on behind a test that succeeds only where `C` holds. -/
theorem testIf {t : Parser Bool} {p q : Parser α} {C : Prop} (ht : YieldsOn i t (fun b => b = true → C) N)
    (hp : C → YieldsOn i p P N) (hq : YieldsOn i q P N) : YieldsOn i (t >>= fun b => if b then p else q) P N :=
  ht.bind fun b hb => by
    cases b with
    | true => exact hp (hb rfl)
    | false => exact hq

/-- Two ways to go on behind a test. -/
theorem test {t : Parser Bool} {p q : Parser α} (hp : YieldsOn i p P N) (hq : YieldsOn i q P N) :
    YieldsOn i (t >>= fun b => if b then p else q) P N :=
  testIf (C := True) (fun _ _ _ _ _ _ => trivial) (fun _ => hp) hq

theorem onlyIf (condition : Bool) (p : Parser Bool) :
    YieldsOn i (Parser.onlyIf condition p) (fun b => b = true → condition = true) N := by
  cases condition with
  | true => exact fun _ _ _ _ _ _ => rfl
  | false => exact pure fun h => h

theorem optional {test : Parser Bool} {C : Prop} (ht : YieldsOn i test (fun b => b = true → C) N)
    (hp : C → YieldsOn i p P N) : YieldsOn i (Parser.optional test p) (fun o => ∀ a ∈ o, C ∧ P a) N := by
  refine ht.bind fun b hb => ?_
  cases b with
  | false => exact pure (by simp)
  | true =>
    refine (hp (hb rfl)).bind fun a ha => pure ?_
    intro b heq
    obtain rfl : a = b := by simpa using heq
    exact ⟨hb rfl, ha⟩

/-- An optional part behind a test that every dialect makes. -/
theorem optional_part {test : Parser Bool} (hp : YieldsOn i p P N) :
    YieldsOn i (Parser.optional test p) (fun o => ∀ a ∈ o, P a) N :=
  (optional (C := True) (fun _ _ _ _ _ _ => trivial) fun _ => hp).mono fun _ h a ha => (h a ha).2

theorem optionalList {test : Parser Bool} {p : Parser (List α)} {C : Prop}
    (ht : YieldsOn i test (fun b => b = true → C) N) (hp : C → YieldsOn i p (fun as => ∀ a ∈ as, P a) N) :
    YieldsOn i (Parser.optionalList test p) (fun as => (as ≠ [] → C) ∧ ∀ a ∈ as, P a) N := by
  refine ht.bind fun b hb => ?_
  cases b with
  | false => exact pure (by simp)
  | true => exact (hp (hb rfl)).mono fun as has => ⟨fun _ => hb rfl, has⟩

theorem optionalList_part {test : Parser Bool} {p : Parser (List α)} (hp : YieldsOn i p (fun as => ∀ a ∈ as, P a) N) :
    YieldsOn i (Parser.optionalList test p) (fun as => ∀ a ∈ as, P a) N :=
  (optionalList (C := True) (fun _ _ _ _ _ _ => trivial) fun _ => hp).mono fun _ h => h.2

theorem manyUpTo {p : Parser (Option α)} (hp : YieldsOn i p (fun o => ∀ a ∈ o, P a) N) (n : Nat) :
    YieldsOn i (Parser.manyUpTo p n) (fun as => ∀ a ∈ as, P a) N := by
  induction n with
  | zero => exact pure (by simp)
  | succ n ih =>
    refine hp.bind fun o ho => ?_
    cases o with
    | none => exact pure (by simp)
    | some a => exact ih.bind fun as has => pure (List.forall_mem_cons.mpr ⟨ho a rfl, has⟩)

theorem many {p : Parser (Option α)} (hp : YieldsOn i p (fun o => ∀ a ∈ o, P a) N) :
    YieldsOn i (Parser.many p) (fun as => ∀ a ∈ as, P a) N :=
  skip fun n => manyUpTo hp (n + 1)

theorem iterateUpTo {step : σ → Parser (Option σ)} {I : σ → Prop}
    (hstep : ∀ s, I s → YieldsOn i (step s) (fun o => ∀ s' ∈ o, I s') N) (n : Nat) :
    ∀ s, I s → YieldsOn i (Parser.iterateUpTo step s n) I N := by
  induction n with
  | zero => exact fun s hs => pure hs
  | succ n ih =>
    intro s hs
    refine (hstep s hs).bind fun o ho => ?_
    cases o with
    | none => exact pure hs
    | some s' => exact ih s' (ho s' rfl)

/-- An invariant of the steps holds at the end. -/
theorem iterate {step : σ → Parser (Option σ)} {I : σ → Prop} {s : σ} (hs : I s)
    (hstep : ∀ s, I s → YieldsOn i (step s) (fun o => ∀ s' ∈ o, I s') N) :
    YieldsOn i (Parser.iterate step s) I N :=
  skip fun n => iterateUpTo hstep (n + 1) s hs

theorem afterCommas (hp : YieldsOn i p P N) : YieldsOn i (Parser.afterCommas p) (fun as => ∀ a ∈ as, P a) N :=
  many (optional_part hp)

theorem commaSeparated (hp : YieldsOn i p P N) : YieldsOn i (Parser.commaSeparated p) (fun as => ∀ a ∈ as, P a) N :=
  hp.bind fun _ ha => (afterCommas hp).bind fun _ has =>
    pure (List.forall_mem_cons.mpr ⟨ha, has⟩)

theorem parenthesized (hp : YieldsOn i p P N) : YieldsOn i (Parser.parenthesized p) P N :=
  skip fun _ => hp.bind fun _ ha => skip fun _ => pure ha

end YieldsOn

/-- Every result of `p` in the dialect `d` has the property `P`. -/
def Yields {α : Type} (d : Dialect) (p : Parser α) (P : α → Prop) : Prop :=
  ∀ i, i.dialect = d → YieldsOn i p P

namespace Yields

variable {α β σ : Type} {d : Dialect} {p : Parser α} {f : α → Parser β} {P Q : α → Prop}
  {R : β → Prop}

theorem pure {a : α} (h : P a) : Yields d (Pure.pure a) P := fun _ _ => .pure h

theorem any (p : Parser α) : Yields d p fun _ => True := fun _ _ => .any p

theorem mono (hp : Yields d p P) (h : ∀ a, P a → Q a) : Yields d p Q := fun i hd => (hp i hd).mono h

theorem bind (hp : Yields d p P) (hf : ∀ a, P a → Yields d (f a) R) : Yields d (p >>= f) R :=
  fun i hd => (hp i hd).bind fun a ha => hf a ha i hd

/-- What `p` reads does not matter. -/
theorem skip (hf : ∀ a, Yields d (f a) R) : Yields d (p >>= f) R :=
  (any p).bind fun a _ => hf a

theorem map {g : α → β} (hp : Yields d p P) (h : ∀ a, P a → R (g a)) : Yields d (g <$> p) R :=
  hp.bind fun a ha => pure (h a ha)

theorem dialect {f : Dialect → Parser β} (hf : Yields d (f d) R) :
    Yields d (Parser.dialect >>= f) R := by
  rintro i rfl
  exact .dialect (hf i rfl)

theorem rules {f : ReadingRules → Parser β} (hf : Yields d (f d.reading) R) :
    Yields d (Parser.rules >>= f) R := by
  rintro i rfl
  exact .rules (hf i rfl)

theorem supports {x : Construct} {f : Bool → Parser β} (hf : Yields d (f (d.supports x)) R) :
    Yields d (Parser.supports x >>= f) R := by
  rintro i rfl c b c' heq
  exact hf i rfl c b c' heq

/-- A production one level down yields what it yields. -/
theorem level (hp : Yields d p P) : Yields d (Parser.level p) P := fun i hd => .level (hp i hd)

theorem unexpected : Yields d (Parser.unexpected : Parser α) P := fun _ _ => .unexpected

theorem unexpectedAt (t : Token) (what : String) :
    Yields d (Parser.unexpectedAt t what : Parser α) P := fun _ _ => .unexpectedAt t what

theorem fail (e : Fault) : Yields d (Parser.fail e : Parser α) P := fun _ _ => .fail e

/-- Two ways to go on behind a test. -/
theorem test {t : Parser Bool} {p q : Parser α} (hp : Yields d p P) (hq : Yields d q P) :
    Yields d (t >>= fun b => if b then p else q) P := fun i hd => .test (hp i hd) (hq i hd)

/-- Two ways to go on behind a test that succeeds only where `C` holds. -/
theorem testIf {t : Parser Bool} {p q : Parser α} {C : Prop}
    (ht : Yields d t fun b => b = true → C) (hp : C → Yields d p P) (hq : Yields d q P) :
    Yields d (t >>= fun b => if b then p else q) P :=
  fun i hd => .testIf (ht i hd) (fun h => hp h i hd) (hq i hd)

theorem onlyIf (condition : Bool) (p : Parser Bool) :
    Yields d (Parser.onlyIf condition p) fun b => b = true → condition = true :=
  fun _ _ => .onlyIf condition p

/-- A test that is made only where the dialect supports the construct `x`. -/
theorem onlyIf_supports (x : Construct) (p : Parser Bool) :
    Yields d (Parser.supports x >>= fun b => Parser.onlyIf b p) fun b =>
      b = true → d.supports x = true :=
  supports (onlyIf _ p)

theorem optional {test : Parser Bool} {C : Prop} (ht : Yields d test fun b => b = true → C)
    (hp : C → Yields d p P) : Yields d (Parser.optional test p) fun o => ∀ a ∈ o, C ∧ P a :=
  fun i hd => .optional (ht i hd) fun h => hp h i hd

/-- An optional part behind a test that every dialect makes. -/
theorem optional_part {test : Parser Bool} (hp : Yields d p P) :
    Yields d (Parser.optional test p) fun o => ∀ a ∈ o, P a :=
  fun i hd => .optional_part (hp i hd)

theorem optionalList {test : Parser Bool} {p : Parser (List α)} {C : Prop}
    (ht : Yields d test fun b => b = true → C) (hp : C → Yields d p fun as => ∀ a ∈ as, P a) :
    Yields d (Parser.optionalList test p) fun as => (as ≠ [] → C) ∧ ∀ a ∈ as, P a :=
  fun i hd => .optionalList (ht i hd) fun h => hp h i hd

theorem optionalList_part {test : Parser Bool} {p : Parser (List α)}
    (hp : Yields d p fun as => ∀ a ∈ as, P a) :
    Yields d (Parser.optionalList test p) fun as => ∀ a ∈ as, P a :=
  fun i hd => .optionalList_part (hp i hd)

theorem many {p : Parser (Option α)} (hp : Yields d p fun o => ∀ a ∈ o, P a) :
    Yields d (Parser.many p) fun as => ∀ a ∈ as, P a := fun i hd => .many (hp i hd)

/-- An invariant of the steps holds at the end. -/
theorem iterate {step : σ → Parser (Option σ)} {I : σ → Prop} {s : σ} (hs : I s)
    (hstep : ∀ s, I s → Yields d (step s) fun o => ∀ s' ∈ o, I s') :
    Yields d (Parser.iterate step s) I := fun i hd => .iterate hs fun s hs => hstep s hs i hd

theorem afterCommas (hp : Yields d p P) :
    Yields d (Parser.afterCommas p) fun as => ∀ a ∈ as, P a := fun i hd => .afterCommas (hp i hd)

theorem commaSeparated (hp : Yields d p P) :
    Yields d (Parser.commaSeparated p) fun as => ∀ a ∈ as, P a :=
  fun i hd => .commaSeparated (hp i hd)

theorem parenthesized (hp : Yields d p P) : Yields d (Parser.parenthesized p) P :=
  fun i hd => .parenthesized (hp i hd)

end Yields

/-! ## Nodes that can be said -/

/-- All of `ns` can be said in `d`, bare parameters apart. -/
abbrev Said (d : Dialect) (ns : List Node) : Prop :=
  AllNodes (fun x => x.isSayable d = true ∨ x.isBareParam = true) ns

/-! ## Expressions -/

/-- The productions one level down read what can be said. -/
structure Deeper.Fair (d : Dialect) (deeper : Deeper) : Prop where
  expr : ∀ p, Yields d (deeper.expr p) fun e => Said d e.nodes
  query : Yields d deeper.query fun q => Said d q.nodes

section Expressions

variable {d : Dialect} {deeper : Deeper} {operand : Parser Expr}

theorem orderBy_said (hdeep : deeper.Fair d) :
    Yields d (Parser.orderBy deeper) fun items => Said d (orderNodes items) := by
  refine .mono (.optionalList_part (.commaSeparated ?_)) fun items => all_orderNodes.mpr
  refine (hdeep.expr 0).bind fun key hkey => .skip fun ascending => ?_
  refine (Yields.optional (.onlyIf_supports .nullsOrdering _) fun _ => .any _).bind
    fun nullsFirst hnulls => .pure ?_
  simp only [orderNodes, List.append_nil, all_cons, hkey, and_true]
  left
  cases nullsFirst with
  | none => rfl
  | some b => simpa [Node.isSayable, Node.constructs, Node.isSpelled, Dialect.writes] using hnulls b rfl

theorem frameBound_said (hop : Yields d operand fun e => Said d e.nodes) :
    Yields d (Parser.frameBound operand) fun b => Said d b.nodes := by
  have hplain {b : Bound} (h : b.nodes = [.bound b]) : Said d b.nodes := by
    rw [h]
    exact all_cons.mpr ⟨.inl rfl, all_nil⟩
  refine .test (.pure (hplain (by simp [Bound.nodes]))) ?_
  refine .test (.test (.pure (hplain (by simp [Bound.nodes]))) ?_) ?_
  · exact .skip fun _ => .pure (hplain (by simp [Bound.nodes]))
  · refine hop.bind fun offset h => .test (.pure ?_) (.skip fun _ => .pure ?_)
    · simp only [Bound.nodes, all_cons]
      exact ⟨.inl rfl, h⟩
    · simp only [Bound.nodes, all_cons]
      exact ⟨.inl rfl, h⟩

theorem windowFrame_said (hop : Yields d operand fun e => Said d e.nodes) :
    Yields d (Parser.windowFrame operand) fun f => Said d (frameNodes (some f)) := by
  have hbounds (unit : FrameUnit) : Yields d (do
      if ← Parser.eatWord "BETWEEN" then
        let start ← Parser.frameBound operand
        Parser.expectWord "AND"
        let stop ← Parser.frameBound operand
        return ⟨unit, start, some stop⟩
      let start ← Parser.frameBound operand
      return ⟨unit, start, none⟩) fun f => Said d (frameNodes (some f)) := by
    refine .test ?_ ?_
    · refine (frameBound_said hop).bind fun start hstart => .skip fun _ => ?_
      refine (frameBound_said hop).bind fun stop hstop => .pure ?_
      simp only [frameNodes, stopNodes, all_append]
      exact ⟨hstart, hstop⟩
    · refine (frameBound_said hop).bind fun start hstart => .pure ?_
      simpa [frameNodes, stopNodes] using hstart
  exact .test (hbounds _) (.skip fun _ => hbounds _)

theorem window_said (hdeep : deeper.Fair d) (hop : Yields d operand fun e => Said d e.nodes) :
    Yields d (Parser.window deeper operand) fun w => Said d (windowNodes (some w)) := by
  refine .parenthesized ?_
  refine (Yields.optionalList_part (.commaSeparated (hdeep.expr 0))).bind fun keys hkeys => ?_
  refine (orderBy_said hdeep).bind fun order horder => ?_
  refine (Yields.optional_part (windowFrame_said hop)).bind fun frame hframe => .pure ?_
  simp only [windowNodes, all_append]
  refine ⟨⟨all_exprNodes.mpr hkeys, horder⟩, ?_⟩
  cases frame with
  | none => simp [frameNodes]
  | some f => exact hframe f rfl

/-! ### Calls -/

theorem callArgs_said (hdeep : deeper.Fair d) (upper : String) :
    Yields d (Parser.callArgs deeper upper) fun args => Said d (argNodes args) := by
  have hargs {first : Expr} (h : Said d first.nodes) :
      Yields d (do return .expr first :: (← Parser.afterCommas (deeper.expr 0)).map Arg.expr)
        fun args => Said d (argNodes args) := by
    refine (Yields.afterCommas (hdeep.expr 0)).bind fun rest hrest => .pure ?_
    refine all_argNodes.mpr ?_
    simpa [argNodes] using And.intro h hrest
  unfold Parser.callArgs
  dsimp only
  split
  · refine (hdeep.expr _).bind fun needle hneedle => .test ?_ (hargs hneedle)
    refine (hdeep.expr 0).bind fun haystack hhaystack => .pure ?_
    simpa [argNodes] using And.intro hhaystack hneedle
  · refine (hdeep.expr 0).bind fun first hfirst => .test ?_ (hargs hfirst)
    refine (hdeep.expr 0).bind fun start hstart => ?_
    refine (Yields.optional_part (hdeep.expr 0)).bind fun length hlength => .pure ?_
    cases length with
    | none => simpa [argNodes] using And.intro hfirst hstart
    | some e => simpa [argNodes] using And.intro hfirst (And.intro hstart (hlength e rfl))

theorem callBody_said (hdeep : deeper.Fair d) (upper : String) :
    Yields d (Parser.callBody deeper upper) fun r => Said d (argNodes r.2) := by
  have hstar : Yields d (Pure.pure [Arg.star]) fun args => Said d (argNodes args) :=
    .pure (by simp [argNodes])
  refine .test (.pure (by simp [argNodes])) (.skip fun distinct => .test ?_ ?_)
  · exact hstar.bind fun args hargs => .skip fun _ => .pure hargs
  · exact (callArgs_said hdeep upper).bind fun args hargs => .skip fun _ => .pure hargs

/-- Two arguments exchanged are the same arguments. -/
theorem all_swapFirst {P : Node → Prop} {args : List Arg} (h : AllNodes P (argNodes args)) :
    AllNodes P (argNodes (Parser.swapFirst args)) := by
  rw [all_argNodes] at h ⊢
  unfold Parser.swapFirst
  split
  · simpa [and_left_comm] using h
  · exact h

theorem canonicalCall_said {name : String} {args : List Arg} (h : Said d (argNodes args))
    (position : Position) :
    Yields d (Parser.canonicalCall name args position) fun r => Said d (argNodes r.2) := by
  refine .rules ?_
  split
  · exact .pure h
  split
  · exact .pure h
  · exact .pure (all_swapFirst h)
  · split
    · exact .pure h
    · split
      · exact .pure h
      · exact .fail _

theorem extraction_said (hdeep : deeper.Fair d) (hform : d.writing.extract.isSome = true)
    (separator : Parser Unit) :
    Yields d (Parser.extraction deeper separator) fun e => Said d e.nodes := by
  refine .parenthesized (.skip fun field => .skip fun _ => ?_)
  refine (hdeep.expr 0).bind fun e he => .pure ?_
  simp only [Expr.nodes, all_cons]
  exact ⟨.inl (by simpa [Node.isSayable, Node.constructs, Node.isSpelled] using hform), he⟩

theorem conditional_said (hdeep : deeper.Fair d) :
    Yields d (Parser.conditional deeper) fun e => Said d e.nodes := by
  refine .parenthesized ?_
  refine (hdeep.expr 0).bind fun c hc => .skip fun _ => (hdeep.expr 0).bind fun y hy => ?_
  refine .skip fun _ => (hdeep.expr 0).bind fun n hn => .pure ?_
  simp only [Expr.nodes, all_cons, all_append]
  exact ⟨.inl rfl, ⟨hc, hy⟩, hn⟩

theorem now_said (hd : d.Coherent) {entry : String × TemporalKind}
    (h : entry ∈ d.reading.nowWords ++ d.reading.nowFunctions) :
    Said d (Expr.nodes (.now entry.2)) := by
  simp only [Expr.nodes, all_cons, all_nil, and_true]
  left
  simpa [Node.isSayable, Node.constructs, Node.isSpelled] using hd.nows entry h

theorem call_said (hd : d.Coherent) (hdeep : deeper.Fair d)
    (hop : Yields d operand fun e => Said d e.nodes) (name : String) (position : Position) :
    Yields d (Parser.call deeper operand name position) fun e => Said d e.nodes := by
  refine .dialect ?_
  dsimp only
  split
  case isTrue h => exact extraction_said hdeep (by simp_all) _
  split
  case isTrue h => exact extraction_said hdeep (by simp_all) _
  split
  · exact conditional_said hdeep
  split
  case h_1 word kind hfind =>
    refine .skip fun _ => .skip fun _ => .pure ?_
    exact @now_said d hd (word, kind)
      (List.mem_append_right _ (List.mem_of_find?_eq_some hfind))
  case h_2 =>
    refine .skip fun _ => (callBody_said hdeep _).bind fun r hargs => ?_
    refine (canonicalCall_said hargs position).bind fun r hargs => ?_
    refine (Yields.optional_part (window_said hdeep hop)).bind fun w hw => .pure ?_
    simp only [Expr.nodes, Call.nodes, all_cons, all_append]
    refine ⟨.inl rfl, .inl rfl, hargs, ?_⟩
    cases w with
    | none => simp [windowNodes]
    | some w => exact hw w rfl

/-! ### Primaries -/

theorem chain_said (hd : d.Coherent) (hdeep : deeper.Fair d)
    (hop : Yields d operand fun e => Said d e.nodes) :
    Yields d (Parser.chain deeper operand) fun e => Said d e.nodes := by
  refine .skip fun t => .skip fun first => .skip fun rest => .skip fun called => ?_
  split
  · exact .skip fun _ => call_said hd hdeep hop _ _
  · refine .pure ?_
    split
    · simp only [Expr.nodes, all_cons]
      exact ⟨.inl rfl, all_nil⟩
    · simp only [Expr.nodes, all_cons]
      exact ⟨.inl rfl, all_nil⟩

theorem param_said (hd : d.Coherent) : Yields d Parser.param fun e => Said d e.nodes := by
  refine .skip fun t => .rules ?_
  extract_lets body found
  have hfound (o : Option Param) (ho : ∀ p ∈ o, Node.isSayable d (.expr (.param p)) = true ∨
      Node.isBareParam (.expr (.param p)) = true) : Yields d (found o) fun e => Said d e.nodes := by
    cases o with
    | none => exact .skip fun _ => .unexpected
    | some p =>
      refine .skip fun _ => .pure ?_
      simp only [Expr.nodes, all_cons]
      exact ⟨ho p rfl, all_nil⟩
  split
  · split
    · refine Yields.bind (.map (.any _) fun n _ => ?_) hfound
      rintro p ⟨⟩
      exact .inr rfl
    · exact (Yields.pure (by simp)).bind hfound
  · split
    · refine (Yields.pure fun p hp => .inl ?_).bind hfound
      obtain ⟨hnumbered, rfl⟩ : d.reading.numberedParams = true ∧ .numbered _ = p := by
        simpa using hp
      simpa [Node.isSayable, Node.constructs, Node.isSpelled] using hd.numbered hnumbered
    · refine (Yields.pure fun p hp => .inl ?_).bind hfound
      obtain ⟨hnamed, rfl⟩ : d.reading.namedParams = true ∧ .named _ = p := by
        simpa using hp
      simpa [Node.isSayable, Node.constructs, Node.isSpelled] using hd.named hnamed

theorem caseExpr_said (hdeep : deeper.Fair d) :
    Yields d (Parser.caseExpr deeper) fun e => Said d e.nodes := by
  refine .skip fun _ => .skip fun simple => ?_
  extract_lets rest
  have hrest (o : Option Expr) (ho : ∀ e ∈ o, Said d e.nodes) :
      Yields d (rest o) fun e => Said d e.nodes := by
    refine (Yields.many (P := fun b => Said d (branchNodes [b])) (.optional_part
      ((hdeep.expr 0).bind fun c hc => .skip fun _ => (hdeep.expr 0).bind fun r hr => .pure
        (by simpa [branchNodes] using And.intro hc hr)))).bind fun branches hbranches => ?_
    extract_lets close
    have hclose (u : Unit) : Yields d (close u) fun e => Said d e.nodes := by
      refine (Yields.optional_part (hdeep.expr 0)).bind fun last hlast => .skip fun _ => .pure ?_
      simp only [Expr.nodes, all_cons, all_append]
      exact ⟨.inl rfl, ⟨all_optionNodes.mpr ho, all_branchNodes.mpr hbranches⟩,
        all_optionNodes.mpr hlast⟩
    split
    · exact .skip hclose
    · exact hclose ()
  split
  · exact (Yields.pure (by simp)).bind hrest
  · refine Yields.bind (.map (hdeep.expr 0) fun e he => ?_) hrest
    rintro _ ⟨⟩
    exact he

theorem castExpr_said (hdeep : deeper.Fair d) (safe : Bool)
    (h : safe = true → d.writing.safeCast.isSome = true) :
    Yields d (Parser.castExpr deeper safe) fun e => Said d e.nodes := by
  refine .skip fun _ => .parenthesized ?_
  refine (hdeep.expr 0).bind fun e he => .skip fun _ => .skip fun type => .pure ?_
  simp only [Expr.nodes, all_cons]
  refine ⟨.inl ?_, he⟩
  cases safe with
  | false => rfl
  | true => simpa [Node.isSayable, Node.constructs, Node.isSpelled, Dialect.writes] using h rfl

theorem existsExpr_said (hdeep : deeper.Fair d) (negated : Bool) :
    Yields d (Parser.existsExpr deeper negated) fun e => Said d e.nodes := by
  refine (Yields.parenthesized hdeep.query).bind fun q hq => .pure ?_
  simp only [Expr.nodes, all_cons]
  exact ⟨.inl rfl, hq⟩

theorem intervalExpr_said (hop : Yields d operand fun e => Said d e.nodes)
    (h : d.writing.interval.isSome = true) :
    Yields d (Parser.intervalExpr operand) fun e => Said d e.nodes := by
  refine .skip fun _ => .dialect ?_
  split
  case h_1 hstyle =>
    refine hop.bind fun amount ha => .skip fun unit => .pure ?_
    simp only [Expr.nodes, all_cons]
    refine ⟨.inl ?_, ha⟩
    simp [Node.isSayable, Node.constructs, Node.isSpelled, Dialect.saysInterval, hstyle]
  case h_2 hstyle =>
    have hquoted : d.writing.interval = some .quoted := by
      cases hs : d.writing.interval with
      | none => simp [hs] at h
      | some style =>
        cases style with
        | quoted => rfl
        | bare => exact absurd hs hstyle
    refine .skip fun t => ?_
    extract_lets close
    have hclose (u : Unit) : Yields d (close u) fun e => Said d e.nodes := by
      refine .skip fun _ => .skip fun unit => .pure ?_
      simp only [Expr.nodes, all_cons]
      refine ⟨.inl ?_, .inl rfl, all_nil⟩
      cases unit <;>
        simp [Node.isSayable, Node.constructs, Node.isSpelled, Dialect.saysInterval, hquoted,
          Target.quotedAmount?]
    split
    · exact hclose ()
    · exact .skip fun _ => .skip hclose

theorem said_literal (v : Literal) : Said d (Expr.nodes (.literal v)) := by
  simp only [Expr.nodes, all_cons]
  exact ⟨.inl rfl, all_nil⟩

/-- A form that one word introduces is there only if it can be said. -/
theorem wordForm_said (hd : d.Coherent) (hdeep : deeper.Fair d)
    (hop : Yields d operand fun e => Said d e.nodes) {word : String} {called : Bool}
    {form : Parser Expr} (h : Parser.wordForm? deeper operand d word called = some form) :
    Yields d form fun e => Said d e.nodes := by
  cases Parser.wordForm_cases h with
  | null => exact .skip fun _ => .pure (said_literal _)
  | truth _ => exact .skip fun _ => .pure (said_literal _)
  | branches => exact caseExpr_said hdeep
  | cast => exact castExpr_said hdeep false (by simp)
  | existence _ => exact .skip fun _ => existsExpr_said hdeep false
  | interval hinterval => exact intervalExpr_said hop (by simp_all)
  | safeCast hsafe => exact castExpr_said hdeep true (by simp_all)
  | now hentry => exact .skip fun _ => .pure (now_said hd (List.mem_append_left _ hentry))

theorem wordExpr_said (hd : d.Coherent) (hdeep : deeper.Fair d)
    (hop : Yields d operand fun e => Said d e.nodes) (t : Token) :
    Yields d (Parser.wordExpr deeper operand t) fun e => Said d e.nodes := by
  refine .dialect (.skip fun next => ?_)
  dsimp only
  split
  case h_1 form hform => exact wordForm_said hd hdeep hop hform
  split
  case h_1 kind _ =>
    refine .skip fun _ => .skip fun value => ?_
    split
    · exact .pure (said_literal _)
    · exact .skip fun _ => .pure (said_literal _)
  split
  · exact .skip fun _ => .skip fun _ => call_said hd hdeep hop _ _
  split
  · exact .skip fun _ => .skip fun _ => chain_said hd hdeep hop
  · exact chain_said hd hdeep hop

theorem primary_said (hd : d.Coherent) (hdeep : deeper.Fair d)
    (hop : Yields d operand fun e => Said d e.nodes) :
    Yields d (Parser.primary deeper operand) fun e => Said d e.nodes := by
  refine .skip fun t => ?_
  split
  · exact .skip fun _ => .pure (said_literal _)
  · exact .skip fun _ => .pure (said_literal _)
  · exact param_said hd
  · exact wordExpr_said hd hdeep hop t
  · exact wordExpr_said hd hdeep hop t
  · exact chain_said hd hdeep hop
  · split
    · refine .parenthesized (.test (hdeep.query.bind fun q hq => .pure ?_)
        ((hdeep.expr 0).bind fun e he => .pure ?_))
      · simp only [Expr.nodes, all_cons]
        exact ⟨.inl rfl, hq⟩
      · simp only [Expr.nodes, all_cons]
        exact ⟨.inl rfl, he⟩
    · exact .skip fun _ => .unexpected
  · exact .skip fun _ => .unexpected

theorem operandWith_said (hd : d.Coherent) (hdeep : deeper.Fair d)
    (hop : Yields d operand fun e => Said d e.nodes) :
    Yields d (Parser.operandWith deeper operand) fun e => Said d e.nodes := by
  have hunary (op : UnaryOp) (p : Precedence) :
      Yields d (do return .unary op (← deeper.expr p)) fun e => Said d (Expr.nodes e) := by
    refine (hdeep.expr p).bind fun e he => .pure ?_
    simp only [Expr.nodes, all_cons]
    exact ⟨.inl rfl, he⟩
  refine .test (.test (existsExpr_said hdeep true) (hunary _ _)) (.skip fun t => ?_)
  split
  · exact .skip fun _ => hunary _ _
  · exact primary_said hd hdeep hop

theorem operandUpTo_said (hd : d.Coherent) (hdeep : deeper.Fair d) (n : Nat) :
    Yields d (Parser.operandUpTo deeper n) fun e => Said d e.nodes := by
  induction n with
  | zero => exact .unexpected
  | succ n ih => exact operandWith_said hd hdeep ih

theorem operandFrom_said (hd : d.Coherent) (hdeep : deeper.Fair d) :
    Yields d (Parser.operandFrom deeper) fun e => Said d e.nodes :=
  .skip fun _ => operandUpTo_said hd hdeep _

/-! ### Operators -/

theorem membership_said (hdeep : deeper.Fair d) {left : Expr} (hl : Said d left.nodes)
    (negated : Bool) :
    Yields d (Parser.membership deeper left negated) fun e => Said d e.nodes := by
  refine .parenthesized (.test (hdeep.query.bind fun q hq => .pure ?_)
    ((Yields.commaSeparated (hdeep.expr 0)).bind fun es hes => .pure ?_))
  · simp only [Expr.nodes, all_cons, all_append]
    exact ⟨.inl rfl, hl, hq⟩
  · simp only [Expr.nodes, all_cons, all_append]
    exact ⟨.inl rfl, hl, all_exprNodes.mpr hes⟩

theorem predicate_said (hd : d.Coherent) (hdeep : deeper.Fair d) {left : Expr}
    (hl : Said d left.nodes) :
    Yields d (Parser.predicate deeper left) fun e => Said d e.nodes := by
  have hlike (negated anyCase : Bool) : Yields d (do
      let pattern ← deeper.expr .comparison
      let escape ← Parser.optional (Parser.eatWord "ESCAPE") (Parser.operandFrom deeper)
      return Expr.like left pattern negated anyCase escape) fun e => Said d e.nodes := by
    refine (hdeep.expr _).bind fun p hp => ?_
    refine (Yields.optional_part (operandFrom_said hd hdeep)).bind fun o ho => .pure ?_
    simp only [Expr.nodes, all_cons, all_append]
    exact ⟨.inl rfl, ⟨hl, hp⟩, all_optionNodes.mpr ho⟩
  refine .skip fun negated => .test ?_ (.test (membership_said hdeep hl negated) ?_)
  · refine (hdeep.expr _).bind fun low hlow => .skip fun _ => (hdeep.expr _).bind fun high hhigh => ?_
    refine .pure ?_
    simp only [Expr.nodes, all_cons, all_append]
    exact ⟨.inl rfl, ⟨hl, hlow⟩, hhigh⟩
  · exact .test (hlike negated false) (.skip fun _ => hlike negated true)

/-- Whether the dialect reads the binary operator `op`. -/
def Dialect.Joins (d : Dialect) (op : BinaryOp) : Prop :=
  op = .and ∨ op = .or ∨ ∃ rule ∈ d.reading.operators, rule.op = op

theorem connective_joins {t next : Token} {op : BinaryOp} {p : Precedence}
    (h : Parser.connective? d.reading t next = some (.binary op, p)) : d.Joins op := by
  have hrule (h : Parser.operatorAt d.reading t = some (.binary op, p)) : d.Joins op := by
    obtain ⟨rule, hfind, heq⟩ := Option.map_eq_some_iff.mp h
    obtain ⟨hop, -⟩ : rule.op = op ∧ rule.precedence = p := by simpa using heq
    exact .inr (.inr ⟨rule, List.mem_of_find?_eq_some hfind, hop⟩)
  unfold Parser.connective? at h
  split at h
  · dsimp only at h
    split at h
    · cases h
      exact .inl rfl
    split at h
    · cases h
      exact .inr (.inl rfl)
    · repeat' split at h
      all_goals first | exact hrule h | cases h
  · repeat' split at h
    all_goals first | exact hrule h | cases h

/-- A binary operator is read only if it can be written. -/
theorem connective_binary (hd : d.Coherent) {t next : Token} {op : BinaryOp} {p : Precedence}
    (h : Parser.connective? d.reading t next = some (.binary op, p)) :
    Target.binaryForm { dialect := d } op ≠ .none := by
  rcases connective_joins h with rfl | rfl | ⟨rule, hmem, rfl⟩
  · simp [Target.binaryForm]
  · simp [Target.binaryForm]
  · exact hd.operators rule hmem

theorem joined_said (hd : d.Coherent) (hdeep : deeper.Fair d) {left : Expr}
    (hl : Said d left.nodes) {c : Parser.Connective} {p : Precedence}
    (hc : ∀ op, c = .binary op → Target.binaryForm { dialect := d } op ≠ .none) :
    Yields d (Parser.joined deeper left c p) fun e => Said d e.nodes := by
  cases c with
  | binary op =>
    refine .skip fun _ => (hdeep.expr p).bind fun right hr => .pure ?_
    simp only [Expr.nodes, all_cons, all_append]
    refine ⟨.inl ?_, hl, hr⟩
    simpa [Node.isSayable, Node.constructs, Node.isSpelled] using hc op rfl
  | doubleColon =>
    refine .skip fun _ => .skip fun type => .pure ?_
    simp only [Expr.nodes, all_cons]
    exact ⟨.inl rfl, hl⟩
  | is =>
    refine .skip fun _ => .skip fun negated => .skip fun _ => .pure ?_
    simp only [Expr.nodes, all_cons]
    exact ⟨.inl rfl, hl⟩
  | predicate => exact predicate_said hd hdeep hl

theorem subexpr_said (hd : d.Coherent) (hdeep : deeper.Fair d) (least : Precedence) :
    Yields d (Parser.subexpr deeper least) fun e => Said d e.nodes := by
  refine (operandFrom_said hd hdeep).bind fun left hl => .iterate hl fun left hl => ?_
  refine .rules (.skip fun t => .skip fun next => ?_)
  split
  case h_1 c p hfound =>
    split
    · exact .pure (by simp)
    · refine (joined_said hd hdeep hl fun op hop => ?_).bind fun e he => .pure ?_
      · rw [hop] at hfound
        exact connective_binary hd hfound
      · rintro _ ⟨⟩
        exact he
  case h_2 => exact .pure (by simp)

end Expressions

/-! ## Queries -/

/-- A construct that is there only where it is written. -/
theorem writes_all_ite {d : Dialect} {P : Prop} [Decidable P] {c : Construct}
    (h : P → d.writes c = true) : (if P then [c] else []).all d.writes = true := by
  split
  case isTrue hp => simpa using h hp
  case isFalse => rfl

section Queries

variable {d : Dialect} {deeper : Deeper}

theorem selectItem_said (hdeep : deeper.Fair d) :
    Yields d (Parser.selectItem deeper) fun item => Said d (itemNodes [item]) := by
  refine .test (.pure (by simp [itemNodes])) (.skip fun n => .skip fun stars => ?_)
  cases stars with
  | some n => exact .skip fun parts => .skip fun _ => .pure (by simp [itemNodes])
  | none =>
    refine (hdeep.expr 0).bind fun e he => .skip fun label => .pure ?_
    simpa [itemNodes] using he

theorem relation_said (hd : d.Coherent) (hdeep : deeper.Fair d) :
    Yields d (Parser.relation deeper) fun r => Said d r.nodes := by
  refine .test ?_ (.skip fun t => .skip fun table => .test ?_ ?_)
  · refine hdeep.query.bind fun q hq => .skip fun _ => .skip fun label => .pure ?_
    simp only [Relation.nodes, all_cons]
    exact ⟨.inl rfl, hq⟩
  · refine .skip fun _ => (call_said hd hdeep (operandFrom_said hd hdeep) _ _).bind fun e he => ?_
    refine .skip fun label => ?_
    split
    · simp only [Expr.nodes, all_cons] at he
      refine .pure ?_
      simp only [Relation.nodes, all_cons]
      exact ⟨.inl rfl, he.2⟩
    · exact .skip fun t => .unexpectedAt t _
  · refine .skip fun label => .pure ?_
    simp only [Relation.nodes, all_cons]
    exact ⟨.inl rfl, all_nil⟩

theorem joinWord_said (outer : Bool) (kind : JoinKind) (C : JoinKind → Prop) (h : C kind) :
    Yields d (Parser.joinWord outer kind) fun o => ∀ k ∈ o, C k := by
  have hsome (u : Unit) : Yields d (do
      Parser.expectWord "JOIN"
      return some kind) fun o => ∀ k ∈ o, C k :=
    .skip fun _ => .pure (by simpa using h)
  unfold Parser.joinWord
  dsimp only
  split
  · exact .skip fun _ => hsome ()
  · exact hsome ()

/-- A full join is read only where it can be written. -/
theorem joinKind_said (natural : Bool) : Yields d (Parser.joinKind natural) fun o =>
    ∀ kind ∈ o, kind = .full → d.supports .fullOuterJoin = true := by
  refine .test (.pure (by simp)) (.test (joinWord_said _ _ _ (by simp)) ?_)
  refine .test (joinWord_said _ _ _ (by simp)) (.test (joinWord_said _ _ _ (by simp)) ?_)
  refine .supports (.testIf (.onlyIf _ _) (fun h => joinWord_said _ _ _ fun _ => h) ?_)
  refine .test (joinWord_said _ _ _ (by simp)) ?_
  dsimp only
  split
  · exact .skip fun _ => .pure (by simp)
  · exact .pure (by simp)

theorem joinCondition_said (hdeep : deeper.Fair d) (natural : Bool) (kind : JoinKind) :
    Yields d (Parser.joinCondition deeper natural kind) fun c => Said d c.nodes ∧
      (c.isNatural = true → natural = true) ∧
        (c.isUsing = true → d.supports .joinUsing = true) := by
  unfold Parser.joinCondition
  split
  case isTrue h => exact .pure ⟨by simp [JoinCondition.nodes], fun _ => h, by simp [JoinCondition.isUsing]⟩
  split
  · exact .pure ⟨by simp [JoinCondition.nodes], by simp [JoinCondition.isNatural],
      by simp [JoinCondition.isUsing]⟩
  refine .test ?_ (.supports (.testIf (.onlyIf _ _) (fun h => .skip fun columns => .pure ?_)
    .unexpected))
  · refine (hdeep.expr 0).bind fun e he => .pure ⟨?_, by simp [JoinCondition.isNatural],
      by simp [JoinCondition.isUsing]⟩
    simpa [JoinCondition.nodes] using he
  · exact ⟨by simp [JoinCondition.nodes], by simp [JoinCondition.isNatural], fun _ => h⟩

theorem join_said (hd : d.Coherent) (hdeep : deeper.Fair d) :
    Yields d (Parser.join deeper) fun o => ∀ j ∈ o, Said d (joinNodes [j]) := by
  refine (Yields.onlyIf_supports .naturalJoin _).bind fun natural hnatural => ?_
  refine (joinKind_said natural).bind fun o hkind => ?_
  cases o with
  | none => exact .pure (by simp)
  | some kind =>
    refine (relation_said hd hdeep).bind fun r hr => ?_
    refine (joinCondition_said hdeep natural kind).bind fun c hc => .pure ?_
    obtain ⟨hnodes, hnat, husing⟩ := hc
    rintro _ ⟨⟩
    simp only [joinNodes, List.append_nil, all_cons, all_append]
    refine ⟨.inl ?_, hr, hnodes⟩
    simp only [Node.isSayable, Node.constructs, Node.isSpelled, Bool.and_true, List.all_append,
      Bool.and_eq_true]
    refine ⟨⟨writes_all_ite fun h => ?_, writes_all_ite fun h => ?_⟩, writes_all_ite husing⟩
    · exact hnatural (hnat h)
    · exact hkind kind rfl h

theorem source_said (hd : d.Coherent) (hdeep : deeper.Fair d) :
    Yields d (Parser.source deeper) fun s => Said d (sourceNodes [s]) := by
  refine (relation_said hd hdeep).bind fun r hr => ?_
  refine (Yields.many (join_said hd hdeep)).bind fun joins hjoins => .pure ?_
  simp only [sourceNodes, List.append_nil, all_append]
  exact ⟨hr, all_joinNodes.mpr hjoins⟩

theorem distinctness_said (hdeep : deeper.Fair d) :
    Yields d (Parser.distinctness deeper) fun o => Said d (distinctNodes o) ∧
      (o.any Distinct.isKeyed = true → d.supports .distinctOn = true) := by
  refine .test (.supports (.skip fun on => .skip fun next => ?_)) (.skip fun _ => .pure ?_)
  · dsimp only
    split
    case isTrue hkeyed =>
      refine .skip fun _ => ?_
      refine (Yields.parenthesized (.commaSeparated (hdeep.expr 0))).bind fun keys hkeys => .pure ?_
      simp only [Bool.and_eq_true] at hkeyed
      exact ⟨by simpa [distinctNodes] using all_exprNodes.mpr hkeys, fun _ => hkeyed.1.1⟩
    case isFalse => exact .pure ⟨by simp [distinctNodes], by simp [Distinct.isKeyed]⟩
  · exact ⟨by simp [distinctNodes], by simp⟩

theorem topCount_said (hd : d.Coherent) (hdeep : deeper.Fair d) :
    Yields d (Parser.topCount deeper) fun e => Said d e.nodes := by
  refine .test ?_ (operandFrom_said hd hdeep)
  exact (hdeep.expr 0).bind fun e he => .skip fun _ => .pure he

theorem sources_said (hd : d.Coherent) (hdeep : deeper.Fair d) :
    Yields d (Parser.sources deeper) fun sources => Said d (sourceNodes sources) := by
  refine .test ((Yields.commaSeparated (source_said hd hdeep)).mono fun _ =>
    all_sourceNodes.mpr) (.rules ?_)
  dsimp only
  split
  · exact .skip fun _ => .pure (by simp [sourceNodes])
  · exact .pure (by simp [sourceNodes])

/-- A body and the count behind its `TOP`: they can be said, and only a `SELECT` has a count. -/
def SaidBody (d : Dialect) (r : Body × Option Expr) : Prop :=
  Said d r.1.nodes ∧ (∀ e ∈ r.2, Said d e.nodes) ∧ (r.2.isSome = true → r.1.isSelect = true)

theorem select_said (hd : d.Coherent) (hdeep : deeper.Fair d) :
    Yields d (Parser.select deeper) fun r => SaidBody d (.select r.1, r.2) := by
  refine .skip fun _ => (distinctness_said hdeep).bind fun distinct hdistinct => ?_
  refine (Yields.optional_part (topCount_said hd hdeep)).bind fun top htop => ?_
  refine (Yields.commaSeparated (selectItem_said hdeep)).bind fun items hitems => ?_
  refine (sources_said hd hdeep).bind fun sources hsources => ?_
  refine (Yields.optional_part (hdeep.expr 0)).bind fun condition hcondition => ?_
  refine (Yields.optionalList_part (.commaSeparated (hdeep.expr 0))).bind fun groups hgroups => ?_
  refine (Yields.optional_part (hdeep.expr 0)).bind fun having hhaving => ?_
  refine (Yields.optional (.onlyIf_supports .qualify _) fun _ => hdeep.expr 0).bind
    fun qualify hqualify => .pure ⟨?_, htop, fun _ => rfl⟩
  simp only [Body.nodes, Select.nodes, all_cons, all_append]
  refine ⟨.inl rfl, .inl ?_, ⟨⟨⟨⟨⟨hdistinct.1, all_itemNodes.mpr hitems⟩, hsources⟩,
    all_optionNodes.mpr hcondition⟩, all_exprNodes.mpr hgroups⟩, all_optionNodes.mpr hhaving⟩,
    all_optionNodes.mpr fun e he => (hqualify e he).2⟩
  simp only [Node.isSayable, Node.constructs, Node.isSpelled, Bool.and_true, List.all_append,
    Bool.and_eq_true]
  refine ⟨writes_all_ite hdistinct.2, writes_all_ite fun h => ?_⟩
  obtain ⟨e, rfl⟩ := Option.isSome_iff_exists.mp h
  exact (hqualify e rfl).1

/-! ### Set operations -/

theorem withTop_said {r : Body × Option Expr} (h : SaidBody d r) :
    Said d (Parser.withTop r.1 r.2).nodes := by
  obtain ⟨body, top⟩ := r
  obtain ⟨hbody, htop, hselect⟩ := h
  cases top with
  | none => exact hbody
  | some e =>
    simp only [Parser.withTop, Query.ofBody, Body.nodes, Query.nodes, withNodes, orderNodes,
      limitNodes, optionNodes, all_cons, all_append, List.nil_append, List.append_nil]
    refine ⟨.inl rfl, .inl ?_, hbody, htop e rfl⟩
    simpa [Node.isSayable, Node.constructs, Node.isSpelled, Dialect.saysLimit] using
      Or.inr (hselect rfl)

theorem setOperand_said (hd : d.Coherent) (hdeep : deeper.Fair d) :
    Yields d (Parser.setOperand deeper) (SaidBody d) := by
  refine .test ?_ (.test ?_ (.test ?_ .unexpected))
  · exact (select_said hd hdeep).bind fun r hr => .pure hr
  · refine (Yields.commaSeparated (.parenthesized (.commaSeparated (hdeep.expr 0)))).bind
      fun rows hrows => .pure ⟨?_, by simp, by simp⟩
    simp only [Body.nodes, all_cons]
    exact ⟨.inl rfl, all_rowNodes.mpr fun row hrow => all_exprNodes.mpr (hrows row hrow)⟩
  · refine hdeep.query.bind fun q hq => .skip fun _ => .pure ⟨?_, by simp, by simp⟩
    simp only [Body.nodes, all_cons]
    exact ⟨.inl rfl, hq⟩

theorem body_said (hd : d.Coherent) (hdeep : deeper.Fair d) :
    Yields d (Parser.body deeper) (SaidBody d) := by
  refine (setOperand_said hd hdeep).bind fun first hfirst => .iterate hfirst fun left hleft => ?_
  refine .skip fun op => ?_
  cases op with
  | none => exact .pure (by simp)
  | some op =>
    refine .skip fun quantifier => (setOperand_said hd hdeep).bind fun right hright => .pure ?_
    rintro _ ⟨⟩
    refine ⟨?_, by simp, by simp⟩
    simp only [Body.nodes, all_cons, all_append]
    exact ⟨.inl rfl, withTop_said hleft, withTop_said hright⟩

/-! ### Row limits -/

/-- The clauses of a row limit can be said, where the count behind `TOP` was `top`: an offset is
there only if it is written, and nothing but the count where `TOP` is all there is. -/
structure SaidLimit (d : Dialect) (top : Option Expr) (l : Parser.LimitClauses) : Prop where
  count : ∀ e ∈ l.count, Said d e.nodes
  offset : ∀ e ∈ l.offset, Said d e.nodes ∧ d.writes .offset = true
  top : d.writing.limitStyle = .top false → l.count = top

theorem moreLimit_said (hd : d.Coherent) (hdeep : deeper.Fair d) {top : Option Expr}
    {l : Parser.LimitClauses} (hl : SaidLimit d top l) :
    Yields d (Parser.moreLimit deeper l) fun o => ∀ l' ∈ o, SaidLimit d top l' := by
  refine .rules ?_
  extract_lets expr free fetch behind
  refine .testIf (.onlyIf _ _) (fun hlimit => .test ?_ ?_) (.testIf (.onlyIf _ _) (fun hoffset => ?_)
    (.testIf (.onlyIf _ _) (fun hfetch => ?_) (.pure (by simp))))
  · refine .pure ?_
    rintro _ ⟨⟩
    exact ⟨hl.count, hl.offset, hl.top⟩
  · simp only [Bool.and_eq_true] at hlimit
    have htop : d.writing.limitStyle ≠ .top false := fun h => by simpa [hlimit] using hd.top h
    refine (hdeep.expr 0).bind fun first hfirst => .testIf (.onlyIf _ _) (fun hcomma => ?_) ?_
    · refine (hdeep.expr 0).bind fun count hcount => .pure ?_
      have hw : d.writes .offset = true := by
        simp only [Bool.and_eq_true] at hcomma
        exact hd.offset (by simp [hlimit, hcomma])
      rintro _ ⟨⟩
      exact ⟨by simpa using hcount, by simpa using ⟨hfirst, hw⟩, fun h => absurd h htop⟩
    · refine .pure ?_
      rintro _ ⟨⟩
      exact ⟨by simpa using hfirst, hl.offset, fun h => absurd h htop⟩
  · simp only [Bool.and_eq_true] at hoffset
    have hw : d.writes .offset = true := hd.offset (by simp [hoffset])
    refine .skip fun token => (hdeep.expr 0).bind fun offset ho => .skip fun _ => ?_
    have hsome : SaidLimit d top { l with offset := some offset, offsetToken := some token } :=
      ⟨hl.count, by simpa using ⟨ho, hw⟩, hl.top⟩
    split
    · exact .pure (by simpa using hsome)
    · exact .skip fun _ => .pure (by simpa using hsome)
  · simp only [fetch, Bool.and_eq_true] at hfetch
    have htop : d.writing.limitStyle ≠ .top false := fun h => by simpa [hfetch] using hd.top h
    refine .skip fun first => ?_
    have hbehind (u : Unit) : Yields d (behind u) fun o => ∀ l' ∈ o, SaidLimit d top l' := by
      refine (hdeep.expr 0).bind fun count hcount => .skip fun _ => ?_
      have hsome : SaidLimit d top { l with count := some count } :=
        ⟨by simpa using hcount, hl.offset, fun h => absurd h htop⟩
      split
      · exact .skip fun _ => .pure (by simpa using hsome)
      · exact .skip fun _ => .skip fun _ => .pure (by simpa using hsome)
    split
    · exact hbehind ()
    · exact .skip hbehind

/-- A row limit whose parts can be said, where the count behind `TOP` was `top`. -/
def SaidLimits (d : Dialect) (top : Option Expr) (o : Option Limit) : Prop :=
  Said d (limitNodes o) ∧ ∀ l ∈ o, (l.offset.isSome = true → d.writes .offset = true) ∧
    (d.writing.limitStyle = .top false → l.count = top ∧ l.count.isSome = true)

theorem limit_said (hd : d.Coherent) (hdeep : deeper.Fair d) {top : Option Expr}
    (htop : ∀ e ∈ top, Said d e.nodes) (ordered : Bool) :
    Yields d (Parser.limit deeper top ordered) (SaidLimits d top) := by
  have hstart : SaidLimit d top { count := top } := ⟨htop, by simp, fun _ => rfl⟩
  refine (Yields.iterate hstart fun l hl => moreLimit_said hd hdeep hl).bind fun l hl => .rules ?_
  extract_lets close
  have hclose (u : Unit) : Yields d (close u) (SaidLimits d top) := by
    refine .pure ?_
    split
    · exact ⟨by simp [limitNodes], by simp⟩
    case isFalse hsome =>
      refine ⟨?_, ?_⟩
      · simp only [limitNodes, all_append]
        exact ⟨all_optionNodes.mpr hl.count, all_optionNodes.mpr fun e he => (hl.offset e he).1⟩
      · rintro _ ⟨⟩
        refine ⟨fun h => ?_, fun h => ⟨hl.top h, ?_⟩⟩
        · obtain ⟨e, he⟩ := Option.isSome_iff_exists.mp h
          exact (hl.offset e he).2
        · have hnone : l.offset = none := by
            rw [Option.eq_none_iff_forall_ne_some]
            intro e he
            have := (hl.offset e he).2
            simp [Dialect.writes, h] at this
          cases hcount : l.count with
          | none => simp [hcount, hnone] at hsome
          | some e => rfl
  split
  case h_2 => exact hclose ()
  case h_1 token _ =>
    extract_lets next
    have hnext (u : Unit) : Yields d (next u) (SaidLimits d top) := by
      simp only [next]
      split
      · exact .skip hclose
      · exact hclose u
    split
    · exact .skip hnext
    · exact hnext ()

/-! ### Levels -/

theorem cte_said (hdeep : deeper.Fair d) :
    Yields d (Parser.cte deeper) fun t => Said d (cteNodes [t]) := by
  refine .skip fun label => .skip fun columns => .skip fun _ => ?_
  refine (Yields.parenthesized hdeep.query).bind fun q hq => .pure ?_
  simpa [cteNodes] using hq

theorem ctes_said (hdeep : deeper.Fair d) :
    Yields d (Parser.ctes deeper) fun w => Said d (withNodes (some w)) := by
  refine .skip fun recursive => ?_
  refine (Yields.commaSeparated (cte_said hdeep)).bind fun tables htables => .pure ?_
  simpa [withNodes] using all_cteNodes.mpr htables

theorem queryWith_said (hd : d.Coherent) (hdeep : deeper.Fair d) :
    Yields d (Parser.queryWith deeper) fun q => Said d q.nodes := by
  refine (Yields.optional_part (ctes_said hdeep)).bind fun ctes hctes => ?_
  refine (body_said hd hdeep).bind fun r hr => ?_
  obtain ⟨body, top⟩ := r
  obtain ⟨hbody, htop, hselect⟩ := hr
  refine (orderBy_said hdeep).bind fun order horder => ?_
  refine (limit_said hd hdeep htop _).bind fun limit hlimit => .pure ?_
  simp only [Query.nodes, all_cons, all_append]
  refine ⟨.inl ?_, ⟨⟨?_, hbody⟩, horder⟩, hlimit.1⟩
  · cases limit with
    | none => rfl
    | some l =>
      obtain ⟨hoffset, honly⟩ := hlimit.2 l rfl
      simp only [Node.isSayable, Node.constructs, Node.isSpelled, Option.any_some, Option.all_some,
        Bool.and_eq_true]
      refine ⟨writes_all_ite hoffset, ?_⟩
      by_cases hstyle : d.writing.limitStyle = .top false
      · obtain ⟨hcount, hsome⟩ := honly hstyle
        simp [Dialect.saysLimit, hsome, hselect (hcount ▸ hsome)]
      · simp [Dialect.saysLimit, hstyle]
  · cases ctes with
    | none => simp [withNodes]
    | some w => exact hctes w rfl

/-- The productions of every level read what can be said. -/
theorem nested_said (hd : d.Coherent) (n : Nat) : (Parser.nested n).Fair d := by
  induction n with
  | zero => exact ⟨fun _ => .skip fun t => .unexpectedAt t _, .skip fun t => .unexpectedAt t _⟩
  | succ n ih => exact ⟨fun least => .level (subexpr_said hd ih least), .level (queryWith_said hd ih)⟩

end Queries

/-! ## Statements -/

section Statements

variable {d : Dialect}

/-- A statement whose own constructs are written and whose nodes can be said. -/
def SaidStatement (d : Dialect) (s : Statement) : Prop :=
  (∀ c ∈ s.ownConstructs, d.writes c = true) ∧ Said d s.nodes

theorem returning_said (hd : d.Coherent) : Yields d Parser.returning fun items =>
    (∀ c ∈ returningConstructs items, d.writes c = true) ∧ Said d (itemNodes items) := by
  refine .mono (.optionalList (.onlyIf_supports .returning _) fun _ =>
    .commaSeparated (selectItem_said (nested_said hd _))) fun items h => ?_
  refine ⟨?_, all_itemNodes.mpr h.2⟩
  cases items with
  | nil => simp [returningConstructs]
  | cons item rest => simpa [returningConstructs, Dialect.writes] using h.1 (by simp)

theorem insert_said (hd : d.Coherent) :
    Yields d Parser.insert fun i => SaidStatement d (.insert i) := by
  refine .skip fun _ => .skip fun _ => .skip fun table => .skip fun listed => .skip fun next => ?_
  extract_lets columns rest
  have hrest (columns : List Name) : Yields d (rest columns) fun i => SaidStatement d (.insert i) := by
    refine (nested_said hd _).query.bind fun q hq => (returning_said hd).bind fun items h => .pure ?_
    exact ⟨h.1, by simpa [Statement.nodes] using ⟨hq, h.2⟩⟩
  split
  · exact .skip hrest
  · exact .skip hrest

theorem update_said (hd : d.Coherent) :
    Yields d Parser.update fun u => SaidStatement d (.update u) := by
  have hexpr := (nested_said hd Parser.maxDepth).expr 0
  refine .skip fun _ => .skip fun table => .skip fun label => .skip fun _ => ?_
  refine (Yields.commaSeparated (P := fun a => Said d a.value.nodes) ?_).bind fun as has => ?_
  · refine .skip fun first => .skip fun rest => .skip fun _ => hexpr.bind fun e he => .pure he
  refine (Yields.optional_part hexpr).bind fun condition hcondition => ?_
  refine (returning_said hd).bind fun items h => .pure ⟨h.1, ?_⟩
  simp only [Statement.nodes, all_append, all_flatMap]
  exact ⟨⟨has, all_optionNodes.mpr hcondition⟩, h.2⟩

theorem delete_said (hd : d.Coherent) :
    Yields d Parser.delete fun x => SaidStatement d (.delete x) := by
  refine .skip fun _ => .skip fun _ => .skip fun table => ?_
  refine (Yields.optional_part ((nested_said hd Parser.maxDepth).expr 0)).bind
    fun condition hcondition => ?_
  refine (returning_said hd).bind fun items h => .pure ⟨h.1, ?_⟩
  simp only [Statement.nodes, all_append]
  exact ⟨all_optionNodes.mpr hcondition, h.2⟩

theorem columnOption_said (hd : d.Coherent) : Yields d Parser.columnOption fun o =>
    ∀ x ∈ o, (∀ c ∈ x.constructs, d.writes c = true) ∧ Said d x.nodes := by
  have hplain {x : ColumnOption} (hc : x.constructs = []) (hn : x.nodes = []) :
      Yields d (Pure.pure (some x) : Parser _) fun o =>
        ∀ x ∈ o, (∀ c ∈ x.constructs, d.writes c = true) ∧ Said d x.nodes :=
    .pure (by simp [hc, hn])
  refine .test (hplain rfl rfl) (.test (hplain rfl rfl) (.test (hplain rfl rfl) ?_))
  refine .test (hplain rfl rfl) (.test ?_ (.dialect (.testIf (.onlyIf _ _) (fun h => ?_) ?_)))
  · refine ((nested_said hd Parser.maxDepth).expr _).bind fun e he => .pure ?_
    rintro _ ⟨⟩
    exact ⟨by simp [ColumnOption.constructs], he⟩
  · refine .pure ?_
    rintro _ ⟨⟩
    exact ⟨by simpa [ColumnOption.constructs, Dialect.writes] using h, by simp [ColumnOption.nodes]⟩
  · exact .pure (by simp)

/-- The options of a column can be said. -/
def SaidColumn (d : Dialect) (column : Column) : Prop :=
  ∀ o ∈ column.options, (∀ c ∈ o.constructs, d.writes c = true) ∧ Said d o.nodes

theorem column_said (hd : d.Coherent) : Yields d Parser.column (SaidColumn d) :=
  .skip fun _ => .skip fun _ => (Yields.many (columnOption_said hd)).bind fun _ h => .pure h

theorem tableElement_said (hd : d.Coherent) :
    Yields d Parser.tableElement fun x => ∀ column, x = .inr column → SaidColumn d column := by
  refine .skip fun o => ?_
  cases o with
  | some constraint => exact .pure (by simp)
  | none => exact (column_said hd).bind fun column h => .pure (by simpa using h)

theorem createTable_said (hd : d.Coherent) (temporary : Bool) :
    Yields d (Parser.createTable temporary) fun c => SaidStatement d (.createTable c) := by
  refine (Yields.onlyIf_supports .ifNotExists _).bind fun guarded hguard => .skip fun table => ?_
  refine (Yields.optionalList_part ((Yields.commaSeparated (tableElement_said hd)).bind
    fun _ h => .skip fun _ => .pure h)).bind fun elements helements => ?_
  refine (Yields.optional_part (nested_said hd Parser.maxDepth).query).bind fun source hsource => ?_
  extract_lets constraints columns close
  have hclose (u : Unit) : Yields d (close u) fun c => SaidStatement d (.createTable c) := by
    have hcolumns (column : Column) (h : column ∈ columns) : SaidColumn d column := by
      obtain ⟨x, hx, heq⟩ := List.mem_filterMap.mp h
      exact helements x hx column (Sum.getRight?_eq_some_iff.mp heq)
    refine .pure ⟨?_, ?_⟩
    · simp only [Statement.ownConstructs, List.forall_mem_append, List.mem_flatMap]
      refine ⟨List.all_eq_true.mp (writes_all_ite hguard), ?_⟩
      rintro c ⟨column, hcolumn, o, ho, hc⟩
      exact (hcolumns column hcolumn o ho).1 c hc
    · simp only [Statement.nodes, Column.nodes, all_append, all_flatMap]
      refine ⟨fun column hcolumn o ho => (hcolumns column hcolumn o ho).2, ?_⟩
      cases source with
      | none => exact all_nil
      | some q => exact hsource q rfl
  split
  · exact .skip hclose
  · exact hclose ()

theorem createView_said (hd : d.Coherent) (orReplace : Bool) :
    Yields d (Parser.createView orReplace) fun c => SaidStatement d (.createView c) := by
  refine .skip fun view => .skip fun columns => .skip fun _ => ?_
  exact (nested_said hd _).query.bind fun q hq => .pure ⟨by simp [Statement.ownConstructs], hq⟩

theorem create_said (hd : d.Coherent) : Yields d Parser.create (SaidStatement d) := by
  refine .skip fun _ => .test ?_ (.skip fun temp => ?_)
  · refine .dialect (.skip fun _ => .skip fun _ => ?_)
    exact (createView_said hd true).bind fun c hc => .pure hc
  extract_lets rest
  have hrest (temporary : Bool) : Yields d (rest temporary) (SaidStatement d) := by
    refine .test ((createView_said hd false).bind fun c hc => .pure hc) (.skip fun _ => ?_)
    exact (createTable_said hd temporary).bind fun c hc => .pure hc
  split
  · exact .skip hrest
  · exact .skip hrest

theorem drop_said : Yields d Parser.drop fun x => SaidStatement d (.drop x) := by
  refine .skip fun _ => .skip fun object => ?_
  extract_lets rest
  have hrest (object : SchemaObject) : Yields d (rest object) fun x => SaidStatement d (.drop x) := by
    refine (Yields.onlyIf_supports .ifExists _).bind fun guarded hguard => .skip fun names => ?_
    refine (Yields.onlyIf_supports .dropCascade _).bind fun cascade hcascade => .pure ⟨?_, ?_⟩
    · simp only [Statement.ownConstructs, List.forall_mem_append, ← List.all_eq_true]
      exact ⟨writes_all_ite hguard, writes_all_ite hcascade⟩
    · simp [Statement.nodes]
  split
  · exact .skip hrest
  · exact .skip fun _ => .skip hrest

/-- Every statement that is read can be said. -/
theorem statement_said (hd : d.Coherent) : Yields d Parser.statement (SaidStatement d) := by
  refine .test ?_ (.test ?_ (.test ?_ (.test ?_ (.test (create_said hd) (.test ?_ .unexpected)))))
  · exact (nested_said hd _).query.bind fun q hq => .pure ⟨by simp [Statement.ownConstructs], hq⟩
  · exact (insert_said hd).bind fun i hi => .pure hi
  · exact (update_said hd).bind fun u hu => .pure hu
  · exact (delete_said hd).bind fun x hx => .pure hx
  · exact drop_said.bind fun x hx => .pure hx

theorem statements_said (hd : d.Coherent) :
    Yields d Parser.statements fun ss => ∀ s ∈ ss, SaidStatement d s := by
  refine .many (.skip fun _ => .test (.pure (by simp)) (.skip fun _ => ?_))
  refine (statement_said hd).bind fun s hs => .skip fun last => ?_
  extract_lets close
  have hclose (u : Unit) : Yields d (close u) fun o => ∀ s ∈ o, SaidStatement d s :=
    .pure (by simpa using hs)
  split
  · exact hclose ()
  · exact .test (hclose ()) (.skip hclose)

end Statements

/-- A text that is read is cut into tokens, and the statements are read from these. -/
theorem parse_ok {d : Dialect} {sql : String} {ss : List Statement} (h : parse d sql = .ok ss) :
    ∃ tokens finish c, tokenize d.lexical sql = .ok (tokens, finish) ∧
      Parser.statements (.ofTokens d tokens finish) {} = (.ok ss, c) := by
  unfold parse at h
  split at h
  case h_1 => cases h
  case h_2 tokens finish hlex => exact ⟨tokens, finish, _, hlex, Prod.ext h rfl⟩

/-- Whatever a dialect reads it can say. -/
theorem parse_said {d : Dialect} (hd : d.Coherent) {sql : String} {ss : List Statement}
    (h : parse d sql = .ok ss) : ∀ s ∈ ss, SaidStatement d s := by
  obtain ⟨tokens, finish, c, -, hrun⟩ := parse_ok h
  exact (statements_said hd _ rfl).apply hrun

end SqlDialects
