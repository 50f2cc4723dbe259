import SqlDialects.Proofs.Rereading
import SqlDialects.Proofs.Selects

/-!
# Clauses of row limits

* `NumberText`, `Amount` : a number as it is written, and one that may have a minus;
* `LimitClause` : a clause of a row limit, with its text and its tokens;
* `LimitState` : what the clauses that have been read say, and `LimitClause.say` one more;
* `moreLimit_clause` : one clause is read as what it says;
* `iterate_clauses`, `limit_clauses` : so are clauses that may each stand behind those before it.

The reader keeps the token of an offset for its messages. What is read does not depend on where that
token stands, so it is compared by what the clauses say.
-/

namespace SqlDialects

/-! ## Numbers -/

/-- A number as it is written. -/
structure NumberText where
  text : String
  isNumber : Lexer.number text.toList = some text.toList.length

namespace NumberText

def expr (n : NumberText) : Expr := .literal (.number n.text)

def shape (n : NumberText) : Shape := (.number, n.text)

def zero : NumberText := ⟨"0", by decide⟩

def ofText? (text : String) : Option NumberText :=
  if h : Lexer.number text.toList = some text.toList.length then some ⟨text, h⟩ else none

theorem spelled {d : Dialect} (hd : d.Legible) (n : NumberText) : Spelled d n.text [n.shape] :=
  fun _ hh => .single (isToken_number hd n.isNumber hh)

theorem head_ne_dash (n : NumberText) : n.text.toList.head? ≠ some '-' := by
  intro h
  obtain ⟨cs, hlist⟩ := List.head?_eq_some_iff.mp h
  have hnone : Lexer.number ('-' :: cs) = none := Lexer.number_eq_none (by decide) (by decide)
  have hnumber := n.isNumber
  rw [hlist, hnone] at hnumber
  cases hnumber

end NumberText

/-- A number, maybe behind a minus. -/
structure Amount where
  negative : Bool
  digits : NumberText

/-- A number without a sign. -/
def NumberText.amount (n : NumberText) : Amount := ⟨false, n⟩

namespace Amount

def text (a : Amount) : String := if a.negative then "-" ++ a.digits.text else a.digits.text

def expr (a : Amount) : Expr := if a.negative then .unary .minus a.digits.expr else a.digits.expr

def shapes (a : Amount) : List Shape :=
  if a.negative then [(.operator, "-"), a.digits.shape] else [a.digits.shape]

def ofText? (text : String) : Option Amount :=
  match text.toList with
  | '-' :: digits => (NumberText.ofText? (.ofList digits)).map (⟨true, ·⟩)
  | _ => (NumberText.ofText? text).map NumberText.amount

theorem isWord_shapes (a : Amount) (rest : List Shape) (w : String) :
    (headShape (a.shapes ++ rest)).isWord w = false := by
  obtain ⟨negative, digits⟩ := a
  cases negative <;> rfl

theorem spelled {d : Dialect} (hd : d.Expressive) (a : Amount) : Spelled d a.text a.shapes := by
  have hdigits := a.digits.spelled hd.toLegible
  obtain ⟨negative, digits⟩ := a
  cases negative with
  | false => exact hdigits
  | true => exact spelled_sign hd (c := '-') (by decide) hdigits fun _ => digits.head_ne_dash

/-- A minus and its number each take a level. -/
theorem reads {d : Dialect} {rest : List Shape} (a : Amount) (hrest : Ends d 0 rest) (k : Nat) :
    ReadsWith 2 d ((Parser.nested (k + 2)).expr 0) (a.shapes ++ rest) a.expr rest := by
  obtain ⟨negative, digits⟩ := a
  cases negative with
  | false => exact expr_number (Lapses.limited_short 1) digits.text hrest.next (k + 1)
  | true =>
    have hdigits : ReadsWith 1 d ((Parser.nested (k + 1)).expr .unary) (digits.shape :: rest) digits.expr
        rest :=
      expr_number (Lapses.limited_short 0) digits.text (hrest.mono (Nat.zero_le _)).next k
    have hoperand : ReadsWith 1 d (Parser.operandFrom (Parser.nested (k + 1)))
        ((.operator, "-") :: digits.shape :: rest) (.unary .minus digits.expr) rest := by
      refine .remaining ((ReadsOr.eatWord_no rfl).bind (.peek fun t ht => ?_))
      have hop : Parser.unaryOp? t = some .minus := by
        obtain ⟨hkind, htext⟩ := shape_eq ht
        simp [Parser.unaryOp?, hkind, htext]
      rw [hop]
      exact .advance fun _ _ => hdigits.bind (.pure _)
    have hsubexpr : ReadsWith 1 d (Parser.subexpr (Parser.nested (k + 1)) 0)
        ((.operator, "-") :: digits.shape :: rest) (.unary .minus digits.expr) rest :=
      hoperand.bind (.iterate_stop (moreOperands_stop hrest.next))
    exact hsubexpr.level

end Amount

/-! ## Clauses -/

/-- A clause of a row limit. -/
inductive LimitClause where
  | limit (count : Amount)
  /-- `OFFSET`, with `ROWS` behind the number or without. -/
  | offset (number : NumberText) (rows : Bool)
  /-- `FETCH FIRST`, or `FETCH NEXT`. -/
  | fetch (next : Bool) (count : NumberText)

/-- What the clauses of a row limit say. -/
structure LimitState where
  count : Option Expr
  offset : Option Expr := none
  /-- Whether there is a `LIMIT`. -/
  limited : Bool := false
  /-- Whether there is an `OFFSET`. -/
  skips : Bool := false

/-- What the clauses say that have been read. -/
def Parser.LimitClauses.state (l : Parser.LimitClauses) : LimitState :=
  ⟨l.count, l.offset, l.limited, l.offsetToken.isSome⟩

namespace LimitClause

@[simp] def word : LimitClause → String
  | limit _ => "LIMIT"
  | offset .. => "OFFSET"
  | fetch .. => "FETCH"

def text : LimitClause → String
  | limit count => s!"LIMIT {count.text}"
  | offset number rows => if rows then s!"OFFSET {number.text} ROWS" else s!"OFFSET {number.text}"
  | fetch next count =>
    if next then s!"FETCH NEXT {count.text} ROWS ONLY" else s!"FETCH FIRST {count.text} ROWS ONLY"

/-- The tokens behind the word of a clause. -/
def shapes (d : Dialect) : LimitClause → List Shape
  | limit count => count.shapes
  | offset number rows => number.shape :: if rows then [d.bare "ROWS"] else []
  | fetch next count =>
    [d.bare (if next then "NEXT" else "FIRST"), count.shape, d.bare "ROWS", d.bare "ONLY"]

theorem spelled {d : Dialect} (hd : d.Expressive) (c : LimitClause) :
    Spelled d c.text (d.bare c.word :: c.shapes d) := by
  have hword {w : String} (hw : Spelled.isPlainWord w = true) : Spelled d w [d.bare w] :=
    .word hd.toLegible hw
  have hrows : Spelled d "ROWS" [d.bare "ROWS"] := hword (by decide)
  cases c with
  | limit count =>
    exact ((hword (w := "LIMIT") (by decide)).join Spelled.blank_mem (count.spelled hd)).of_eq
      (by simp [text])
  | offset number rows =>
    have hoffset := (hword (w := "OFFSET") (by decide)).join Spelled.blank_mem
      (number.spelled hd.toLegible)
    cases rows with
    | false => exact hoffset.of_eq (by simp [text])
    | true => exact (hoffset.join Spelled.blank_mem hrows).of_eq (by simp [text])
  | fetch next count =>
    have hrest := (count.spelled hd.toLegible).join Spelled.blank_mem
      (hrows.join Spelled.blank_mem (hword (w := "ONLY") (by decide)))
    have hfetch : Spelled d "FETCH" [d.bare "FETCH"] := hword (by decide)
    cases next with
    | false =>
      exact (hfetch.join Spelled.blank_mem ((hword (w := "FIRST") (by decide)).join
        Spelled.blank_mem hrest)).of_eq (by simp [text])
    | true =>
      exact (hfetch.join Spelled.blank_mem ((hword (w := "NEXT") (by decide)).join
        Spelled.blank_mem hrest)).of_eq (by simp [text])

/-- What the clause says behind others. -/
@[simp] def say (s : LimitState) : LimitClause → LimitState
  | limit count => { s with count := some count.expr, limited := true }
  | offset number _ => { s with offset := some number.expr, skips := true }
  | fetch _ count => { s with count := some count.expr }

/-- Whether the clause is read behind others. -/
@[simp] def MayFollow (d : Dialect) (s : LimitState) (c : LimitClause) : Prop :=
  d.lexical.isReserved c.word = true ∧
    match c with
    | limit _ => d.reading.limit = true ∧ s.limited = false ∧ s.count = none
    | offset .. => d.reading.offset = true ∧ s.skips = false ∧ s.offset = none
    | fetch .. => d.reading.fetch = true ∧ (d.reading.top = true → s.offset.isSome = true) ∧
      s.count = none

end LimitClause

/-- What clauses say behind others. -/
def LimitState.then (s : LimitState) (cs : List LimitClause) : LimitState :=
  cs.foldl LimitClause.say s

@[simp] theorem LimitState.then_nil (s : LimitState) : s.then [] = s := rfl

@[simp] theorem LimitState.then_cons (s : LimitState) (c : LimitClause) (cs : List LimitClause) :
    s.then (c :: cs) = (c.say s).then cs := rfl

/-- Whether each of the clauses is read behind those before it. -/
@[simp] def MayFollow (d : Dialect) : LimitState → List LimitClause → Prop
  | _, [] => True
  | s, c :: cs => c.MayFollow d s ∧ MayFollow d (c.say s) cs

/-- The tokens of clauses. -/
def limitShapes (d : Dialect) (cs : List LimitClause) : List Shape :=
  cs.flatMap fun c => d.bare c.word :: c.shapes d

/-! ## Reading -/

/-- The parser `p` reads from the tokens `ts` a value with the property `P` and leaves `us`, or fails with one
of the faults `F`. -/
def Gives {α : Type} (F : Lapses) (d : Dialect) (p : Parser α) (ts : List Shape) (P : α → Prop)
    (us : List Shape) : Prop :=
  ∀ i c, At d ts i c →
    (∃ a c', p i c = (.ok a, c') ∧ P a ∧ At d us i c') ∨ ∃ f c', p i c = (.error f, c') ∧ F c.depth f

namespace Gives

variable {α β : Type} {F : Lapses} {d : Dialect} {ts us vs : List Shape} {s : Shape} {p : Parser α}
  {f : α → Parser β} {a : α} {P : α → Prop} {Q : β → Prop}

theorem pure (h : P a) : Gives F d (pure a) ts P ts := fun _ c hat => .inl ⟨a, c, rfl, h, hat⟩

theorem bind (hp : Gives F d p ts P us) (hf : ∀ a, P a → Gives F d (f a) us Q vs) :
    Gives F d (p >>= f) ts Q vs := by
  intro i c hat
  rcases hp i c hat with ⟨a, c', heq, ha, hat'⟩ | ⟨e, c', heq, he⟩
  · rcases hf a ha i c' hat' with ⟨b, c'', heq', hb, hat''⟩ | ⟨e, c'', heq', he⟩
    · exact .inl ⟨b, c'', by simp only [Bind.bind, heq, heq'], hb, hat''⟩
    · rw [Parser.depth_of_run heq] at he
      exact .inr ⟨e, c'', by simp only [Bind.bind, heq, heq'], he⟩
  · exact .inr ⟨e, c', by simp only [Bind.bind, heq], he⟩

theorem mono {P' : α → Prop} (h : Gives F d p ts P us) (himp : ∀ a, P a → P' a) : Gives F d p ts P' us := by
  intro i c hat
  rcases h i c hat with ⟨a, c', heq, ha, hat'⟩ | hfail
  · exact .inl ⟨a, c', heq, himp a ha, hat'⟩
  · exact .inr hfail

theorem of_reads (h : ReadsOr F d p ts a us) : Gives F d p ts (· = a) us := by
  intro i c hat
  rcases h i c hat with ⟨c', heq, hat'⟩ | hfail
  · exact .inl ⟨a, c', heq, rfl, hat'⟩
  · exact .inr hfail

theorem reads (h : Gives F d p ts (· = a) us) : ReadsOr F d p ts a us := by
  intro i c hat
  rcases h i c hat with ⟨b, c', heq, rfl, hat'⟩ | hfail
  · exact .inl ⟨c', heq, hat'⟩
  · exact .inr hfail

theorem step (hp : ReadsOr F d p ts a us) (hf : Gives F d (f a) us Q vs) : Gives F d (p >>= f) ts Q vs :=
  (of_reads hp).bind fun _ h => h ▸ hf

theorem rules {f : ReadingRules → Parser β} (hf : Gives F d (f d.reading) ts Q us) :
    Gives F d (Parser.rules >>= f) ts Q us := by
  rintro i c ⟨rfl, hfinish, hrest⟩
  exact hf i c ⟨rfl, hfinish, hrest⟩

theorem remaining {f : Nat → Parser β} (hf : Gives F d (f ts.length) ts Q us) :
    Gives F d (Parser.remaining >>= f) ts Q us := by
  intro i c hat
  have h := hf i c hat
  rwa [← hat.length] at h

theorem advance {f : Token → Parser β} (hf : ∀ t, Gives F d (f t) ts Q us) :
    Gives F d (Parser.advance >>= f) (s :: ts) Q us := by
  intro i c hat
  obtain ⟨c', t, heq, -, hat'⟩ := ReadsOr.advance_at hat
  rcases hf t i c' hat' with ⟨b, c'', heq', hb, hat''⟩ | ⟨e, c'', heq', he⟩
  · exact .inl ⟨b, c'', by simp only [Bind.bind, heq, heq'], hb, hat''⟩
  · rw [Parser.depth_of_run heq] at he
    exact .inr ⟨e, c'', by simp only [Bind.bind, heq, heq'], he⟩

end Gives

section Reading

variable {d : Dialect} {rest : List Shape} {k : Nat} {l : Parser.LimitClauses}

/-- A clause is read as what it says, where two levels are left for its number. -/
theorem moreLimit_clause (hd : d.Readable) {c : LimitClause} (hc : c.MayFollow d l.state)
    (hrest : Behind d limitStarts rest) :
    Gives (.short 2) d (Parser.moreLimit (Parser.nested (k + 2)) l) (d.bare c.word :: (c.shapes d ++ rest))
      (fun r => r.map Parser.LimitClauses.state = some (c.say l.state)) rest := by
  have hends : Ends d 0 rest := hrest.ends hd (by decide)
  have hrows : NoneNext rest ["ROWS", "ROW"] := hrest.noneNext (by decide)
  obtain ⟨-, hc⟩ := hc
  refine .rules ?_
  cases c with
  | limit count =>
    obtain ⟨hlimit, hlimited, hcount⟩ := hc
    have hcond : (d.reading.limit && !l.limited && l.count.isNone) = true := by
      simp [hlimit, show l.limited = false from hlimited, show l.count = none from hcount]
    refine .step (.onlyIf_yes hcond (.eatBare d (w := "LIMIT") (by decide))) ?_
    refine .step (.eatWord_no (count.isWord_shapes rest "ALL")) ?_
    refine .step (count.reads hends k) ?_
    exact .step (.onlyIf_no (.eatSymbol_no (hrest.isSymbol ","))) (.pure rfl)
  | offset number rows =>
    obtain ⟨hoffset, hskips, hfree⟩ := hc
    have hcond : (d.reading.offset && (l.offsetToken.isNone && l.offset.isNone)) = true := by
      have htoken : l.offsetToken.isSome = false := hskips
      simp only [Option.isSome_eq_false_iff] at htoken
      simp [hoffset, htoken, show l.offset = none from hfree]
    refine .step (.onlyIf_no (.eatBare_no d (w := "OFFSET") (by decide))) ?_
    refine .step (.onlyIf_yes hcond (.checkWord (Shape.isWord_bare d "OFFSET" "OFFSET"))) ?_
    refine .advance fun token => ?_
    cases rows with
    | true =>
      refine .step (expr_number (Lapses.limited_short 1) number.text (Ends.bare hd 0 (by decide) _).next (k + 1)) ?_
      exact .step (.eatBare d (by decide)) (.pure rfl)
    | false =>
      refine .step (expr_number (Lapses.limited_short 1) number.text hends.next (k + 1)) ?_
      refine .step (hrows.eatWord (by simp)) ?_
      exact .step (hrows.eatWord (by simp)) (.pure rfl)
  | fetch next count =>
    obtain ⟨hfetch, htop, hcount⟩ := hc
    have hcond : ((d.reading.fetch && (!d.reading.top || l.offset.isSome)) && l.count.isNone) =
        true := by
      have hfree : l.count = none := hcount
      cases hd : d.reading.top with
      | false => simp [hfetch, hfree]
      | true => simp [hfetch, hfree, show l.offset.isSome = true from htop hd]
    refine .step (.onlyIf_no (.eatBare_no d (w := "FETCH") (by decide))) ?_
    refine .step (.onlyIf_no (.checkWord (Shape.isWord_bare d "FETCH" "OFFSET"))) ?_
    refine .step (.onlyIf_yes hcond (.eatBare d (w := "FETCH") (by decide))) ?_
    have hcount : ReadsWith 2 d ((Parser.nested (k + 2)).expr 0)
        (count.shape :: d.bare "ROWS" :: d.bare "ONLY" :: rest) count.expr
        (d.bare "ROWS" :: d.bare "ONLY" :: rest) :=
      expr_number (Lapses.limited_short 1) count.text (Ends.bare hd 0 (by decide) _).next (k + 1)
    have hrows : ReadsWith 2 d (Parser.eatWord "ROWS") (d.bare "ROWS" :: d.bare "ONLY" :: rest) true
        (d.bare "ONLY" :: rest) := .eatBare d (by decide)
    have honly : ReadsWith 2 d (Parser.expectWord "ONLY") (d.bare "ONLY" :: rest) () rest :=
      .expectWord (Shape.isWord_bare d "ONLY" "ONLY")
    cases next with
    | false =>
      refine .step (.eatBare d (by decide)) ?_
      exact .step hcount (.step hrows (.step honly (.pure rfl)))
    | true =>
      refine .step (.eatBare_no d (by decide)) ?_
      refine .step (.expectWord (Shape.isWord_bare d "NEXT" "NEXT")) ?_
      exact .step hcount (.step hrows (.step honly (.pure rfl)))

theorem MayFollow.behind {s : LimitState} {cs : List LimitClause} (h : MayFollow d s cs) :
    Behind d limitStarts (limitShapes d cs) := by
  cases cs with
  | nil => exact .nil d _
  | cons c cs => exact .word (by cases c <;> simp [LimitClause.word, limitStarts]) h.1.1 _

/-- Clauses, each of which may stand behind those before it, are read as what they say. -/
theorem iterate_clauses (hd : d.Readable) {cs : List LimitClause} {n : Nat}
    (hcs : MayFollow d l.state cs) (hn : (limitShapes d cs).length < n) :
    Gives (.short 2) d (Parser.iterateUpTo (Parser.moreLimit (Parser.nested (k + 2))) l n) (limitShapes d cs)
      (fun l' => l'.state = l.state.then cs) [] := by
  -- The clauses are read one by one; each takes a token, so the steps suffice.
  induction cs generalizing l n with
  | nil =>
    cases n with
    | zero => cases hn
    | succ n => exact .step (moreLimit_no (.nil _)) (.pure rfl)
  | cons c cs ih =>
    cases n with
    | zero => cases hn
    | succ n =>
      obtain ⟨hc, hrest⟩ := hcs
      refine (moreLimit_clause hd hc hrest.behind).bind fun r hr => ?_
      obtain ⟨l', rfl, hl'⟩ := Option.map_eq_some_iff.mp hr
      rw [LimitState.then_cons, ← hl']
      rw [← hl'] at hrest
      refine ih hrest ?_
      simp only [limitShapes, List.flatMap_cons, List.length_append, List.length_cons] at hn ⊢
      omega

/-- The row limit that clauses behind the count `top` make. -/
theorem limit_clauses (hd : d.Readable) {top : Option Expr} {ordered : Bool}
    {cs : List LimitClause} {s : LimitState} (hcs : MayFollow d ⟨top, none, false, false⟩ cs)
    (hs : LimitState.then ⟨top, none, false, false⟩ cs = s)
    (horder : s.skips = true → d.reading.offsetRequiresOrder = true → ordered = true)
    (hlimited : s.skips = true → d.reading.offsetRequiresLimit = true → s.limited = true)
    (hsome : s.count.isSome = true ∨ s.offset.isSome = true) :
    ReadsWith 2 d (Parser.limit (Parser.nested (k + 2)) top ordered) (limitShapes d cs)
      (some ⟨s.count, s.offset⟩) [] := by
  have hrun : Gives (.short 2) d (Parser.iterate (Parser.moreLimit (Parser.nested (k + 2))) { count := top })
      (limitShapes d cs) (fun l => l.state = s) [] :=
    .remaining (hs ▸ iterate_clauses hd hcs (Nat.lt_succ_self _))
  refine Gives.reads (hrun.bind ?_)
  rintro l rfl
  refine .rules ?_
  have hlimit : (l.count.isNone && l.offset.isNone) = false := by
    have hsome : l.count.isSome = true ∨ l.offset.isSome = true := hsome
    revert hsome
    cases l.count <;> cases l.offset <;> simp
  simp only [hlimit]
  cases htoken : l.offsetToken with
  | none => exact .pure rfl
  | some token =>
    have hskips : l.state.skips = true := by simp [Parser.LimitClauses.state, htoken]
    have hordered : (d.reading.offsetRequiresOrder && !ordered) = false := by
      simpa using horder hskips
    have hcount : (d.reading.offsetRequiresLimit && !l.limited) = false := by
      have h : d.reading.offsetRequiresLimit = true → l.limited = true := hlimited hskips
      simpa using h
    simp only [hordered, hcount]
    exact .pure rfl

end Reading

end SqlDialects
