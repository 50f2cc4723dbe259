import SqlDialects.Token.Lexer

/-!
# Scans with and without trivia

* `Scan.stream`, `Scan.fault?` : all that a scan gives: its tokens with the end of the text, and the
  fault if there is one;
* `dropTrivia` : tokens without the trivia among them, marked where trivia stood before them;
* `scanFrom_dropTrivia` : what a scan that drops trivia gives;
* `scans_agree` : the two scans of a text have the same tokens and the same fault, and a token is
  spaced exactly if trivia stands right before it.
-/

namespace SqlDialects

/-- The tokens of a scan, the end of the text with them if the scan comes to it. -/
def Scan.stream (s : Scan) : List Token := s.tokens ++ s.stop.toOption.toList

/-- The fault at which a scan stops. -/
def Scan.fault? (s : Scan) : Option Fault :=
  match s.stop with
  | .ok _ => none
  | .error f => some f

/-- What a token is apart from the trivia before it. -/
def Token.content (t : Token) : Token.Kind × String × Position := (t.kind, t.text, t.position)

/-! ## Dropping trivia -/

/-- The tokens of a list that are no trivia. Each is spaced if trivia stands right before it; `spaced`
tells so of the first. -/
def dropTrivia (spaced : Bool) : List Token → List Token
  | [] => []
  | t :: ts =>
    if t.kind.isTrivia then dropTrivia true ts else { t with spaced } :: dropTrivia false ts

theorem map_content_dropTrivia (spaced : Bool) (ts : List Token) :
    (dropTrivia spaced ts).map Token.content =
      (ts.filter fun t => !t.kind.isTrivia).map Token.content := by
  induction ts generalizing spaced with
  | nil => rfl
  | cons t ts ih =>
    cases h : t.kind.isTrivia with
    | true => simp [dropTrivia, h, ih]
    | false => simp [dropTrivia, h, ih, Token.content]

/-- A token that is kept stands behind those kept before it, and the last token before it tells
whether it is spaced. -/
theorem getElem?_dropTrivia (spaced : Bool) (before after : List Token) {t : Token}
    (ht : t.kind.isTrivia = false) :
    (dropTrivia spaced (before ++ t :: after))[(before.filter fun u => !u.kind.isTrivia).length]? =
      some { t with spaced := (before.getLast?.map fun u => u.kind.isTrivia).getD spaced } := by
  induction before generalizing spaced with
  | nil => simp [dropTrivia, ht]
  | cons u before ih =>
    -- Behind `u` the mark is whether `u` is trivia, which is what `u` as the last token says.
    have hlast : ((u :: before).getLast?.map fun u => u.kind.isTrivia) =
        some ((before.getLast?.map fun u => u.kind.isTrivia).getD u.kind.isTrivia) := by
      rw [List.getLast?_cons]
      cases before.getLast? <;> rfl
    rw [hlast, Option.getD_some]
    cases hu : u.kind.isTrivia with
    | true => simpa [dropTrivia, hu] using ih true
    | false => simpa [dropTrivia, hu] using ih false

/-! ## The two scans -/

@[simp] theorem Scan.stream_cons (t : Token) (s : Scan) :
    Scan.stream ⟨t :: s.tokens, s.stop⟩ = t :: s.stream := rfl

@[simp] theorem Scan.fault?_cons (t : Token) (s : Scan) :
    Scan.fault? ⟨t :: s.tokens, s.stop⟩ = s.fault? := rfl

/-- A scan that drops trivia gives what the scan that keeps them gives, without them. -/
theorem scanFrom_dropTrivia (r : LexicalRules) (p : Position) (spaced kept : Bool) (cs : List Char) :
    (scanFrom r false p spaced cs).stream = dropTrivia spaced (scanFrom r true p kept cs).stream ∧
      (scanFrom r false p spaced cs).fault? = (scanFrom r true p kept cs).fault? := by
  induction hn : cs.length using Nat.strongRecOn generalizing p spaced kept cs with
  | ind n ih =>
    subst hn
    cases cs with
    | nil => simp [scanFrom, Scan.stream, Scan.fault?, dropTrivia, Token.Kind.isTrivia, Except.toOption]
    | cons c cs =>
      rw [scanFrom, scanFrom]
      cases hl : Lexer.lexeme r c cs with
      | error f => exact ⟨rfl, rfl⟩
      | ok l =>
        have hrest : (cs.drop l.extra).length < (c :: cs).length := by
          simp only [List.length_drop, List.length_cons]
          omega
        have hnext := fun spaced => ih _ hrest (p.after (c :: cs.take l.extra)) spaced false _ rfl
        cases htrivia : l.kind.isTrivia with
        | true =>
          obtain ⟨hstream, hfault⟩ := hnext true
          simpa [dropTrivia, htrivia] using ⟨hstream, hfault⟩
        | false =>
          obtain ⟨hstream, hfault⟩ := hnext false
          simpa [dropTrivia, htrivia] using ⟨hstream, hfault⟩

/-- The scan of a text without trivia stops at the same fault as the scan with them, or at none, and
has the same tokens apart from them. The token that stands behind `before` in the scan with trivia
stands behind the tokens of `before` that are no trivia, with the same kind, text and place, and it is
spaced exactly if the last token of `before` is trivia. -/
theorem scans_agree (r : LexicalRules) (sql : String) :
    (scan r false sql).fault? = (scan r true sql).fault? ∧
    (scan r false sql).stream.map Token.content =
      ((scan r true sql).stream.filter fun t => !t.kind.isTrivia).map Token.content ∧
    ∀ before t after, (scan r true sql).stream = before ++ t :: after → t.kind.isTrivia = false →
      ∃ plain, (scan r false sql).stream[(before.filter fun u => !u.kind.isTrivia).length]? =
          some plain ∧ plain.content = t.content ∧
        (plain.spaced = true ↔ ∃ u, before.getLast? = some u ∧ u.kind.isTrivia = true) := by
  obtain ⟨hstream, hfault⟩ := scanFrom_dropTrivia r .start false false sql.toList
  have hplain : (scan r false sql).stream = dropTrivia false (scan r true sql).stream := hstream
  refine ⟨hfault, ?_, ?_⟩
  · rw [hplain, map_content_dropTrivia]
  · intro before t after hsplit ht
    have hat := getElem?_dropTrivia false before after ht
    rw [← hsplit, ← hplain] at hat
    refine ⟨_, hat, rfl, ?_⟩
    cases before.getLast? with
    | none => simp
    | some u => simp

end SqlDialects
