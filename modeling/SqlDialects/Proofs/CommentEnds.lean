import Mathlib.Order.Lattice.Nat
import SqlDialects.Token.Lexer

/-!
# Where block comments end

* `commentMarks` : the marks of a text, read from the left without overlap, each with its end;
* `levelEnds` : the ends of the marks up to which a given number of comments more has been closed than
  opened;
* `closingEnds` : the ends of all closing marks of a text, be they part of another mark or not, and
  `freeEnds` those of the marks that no slash precedes;
* `comment_ends` : a comment that may hold others ends where as many have been closed as opened, and
  any other at its first closing mark that no slash of the comment precedes.

The lexer takes an opening mark as a whole also where comments do not nest. So the star of a slash, a
star and a slash belongs to the opening mark, and the closing mark there is passed over.
-/

namespace SqlDialects

/-- A mark of a block comment. -/
inductive CommentMark where
  /-- `/*` -/
  | opening
  /-- `*/` -/
  | closing
deriving DecidableEq, Repr

/-! ## Comments that nest -/

/-- The marks of a text that starts at the place `k`, each with the place behind it. Marks are read from
the left and do not overlap. -/
def commentMarks (k : Nat) : List Char → List (CommentMark × Nat)
  | '/' :: '*' :: cs => (.opening, k + 2) :: commentMarks (k + 2) cs
  | '*' :: '/' :: cs => (.closing, k + 2) :: commentMarks (k + 2) cs
  | _ :: cs => commentMarks (k + 1) cs
  | [] => []

/-- The ends of the marks up to which `depth` comments more have been closed than opened. -/
def levelEnds (depth : Nat) (marks : List (CommentMark × Nat)) : Set Nat :=
  {n | ∃ read m rest, marks = read ++ (m, n) :: rest ∧
    ((read.map Prod.fst) ++ [m]).count .closing = ((read.map Prod.fst) ++ [m]).count .opening + depth}

theorem lt_of_mem_commentMarks {k : Nat} {cs : List Char} {x : CommentMark × Nat}
    (hx : x ∈ commentMarks k cs) : k < x.2 := by
  fun_induction commentMarks k cs with
  | case1 k cs ih | case2 k cs ih =>
    rcases List.mem_cons.mp hx with rfl | hx
    · exact Nat.lt_add_of_pos_right (by decide)
    · exact (Nat.lt_add_of_pos_right (by decide)).trans (ih hx)
  | case3 k c cs _ _ ih => exact (Nat.lt_succ_self k).trans (ih hx)
  | case4 => cases hx

theorem lt_of_mem_levelEnds {depth k n : Nat} {cs : List Char}
    (hn : n ∈ levelEnds depth (commentMarks k cs)) : k < n := by
  obtain ⟨read, m, rest, hmarks, -⟩ := hn
  have hmark : (m, n) ∈ commentMarks k cs := hmarks ▸ by simp
  exact lt_of_mem_commentMarks hmark

@[simp] theorem levelEnds_nil (depth : Nat) : levelEnds depth [] = ∅ := by
  ext n
  simp [levelEnds]

theorem mem_levelEnds_cons {depth n e : Nat} {m : CommentMark} {marks : List (CommentMark × Nat)} :
    n ∈ levelEnds depth ((m, e) :: marks) ↔
      n = e ∧ [m].count .closing = [m].count .opening + depth ∨
      ∃ read m' rest, marks = read ++ (m', n) :: rest ∧
        (m :: (read.map Prod.fst ++ [m'])).count .closing =
          (m :: (read.map Prod.fst ++ [m'])).count .opening + depth := by
  constructor
  · rintro ⟨read, m', rest, hmarks, hcount⟩
    cases read with
    | nil =>
      obtain ⟨⟨rfl, rfl⟩, -⟩ := by simpa using hmarks
      exact .inl ⟨rfl, hcount⟩
    | cons x read =>
      obtain ⟨rfl, rfl⟩ := List.cons_eq_cons.mp hmarks
      exact .inr ⟨read, m', rest, rfl, hcount⟩
  · rintro (⟨rfl, hcount⟩ | ⟨read, m', rest, rfl, hcount⟩)
    · exact ⟨[], m, marks, rfl, hcount⟩
    · exact ⟨(m, e) :: read, m', rest, rfl, hcount⟩

/-- Behind an opening mark one comment more has to be closed. -/
theorem levelEnds_opening (depth e : Nat) (marks : List (CommentMark × Nat)) :
    levelEnds depth ((.opening, e) :: marks) = levelEnds (depth + 1) marks := by
  ext n
  rw [mem_levelEnds_cons]
  constructor
  · rintro (⟨-, hcount⟩ | ⟨read, m, rest, hmarks, hcount⟩)
    · simp at hcount
      omega
    · refine ⟨read, m, rest, hmarks, ?_⟩
      rw [List.count_cons_of_ne (by decide), List.count_cons_self] at hcount
      omega
  · rintro ⟨read, m, rest, hmarks, hcount⟩
    refine .inr ⟨read, m, rest, hmarks, ?_⟩
    rw [List.count_cons_of_ne (by decide), List.count_cons_self]
    omega

/-- Behind a closing mark one comment less has to be closed, and none is left when it closes the
last one. -/
theorem levelEnds_closing (depth e : Nat) (marks : List (CommentMark × Nat)) :
    levelEnds (depth + 1) ((.closing, e) :: marks) =
      {n | n = e ∧ depth = 0} ∪ levelEnds depth marks := by
  ext n
  rw [mem_levelEnds_cons, Set.mem_union]
  refine or_congr (and_congr_right fun _ => ?_) (exists_congr fun read => exists_congr fun m =>
    exists_congr fun rest => and_congr_right fun _ => ?_)
  · simp
  · rw [List.count_cons_self, List.count_cons_of_ne (by decide)]
    omega

/-- The lexer's count of open comments finds the first end at which all of them are closed. -/
theorem commentLength_nested (depth k e : Nat) (cs : List Char) :
    (Lexer.commentLength true (depth + 1) cs).map (· + k) = some e ↔
      IsLeast (levelEnds (depth + 1) (commentMarks k cs)) e := by
  fun_induction commentMarks k cs generalizing depth with
  | case1 k cs ih =>
    rw [levelEnds_opening, ← ih (depth + 1), Lexer.commentLength, Option.map_map]
    simp only [if_true, Function.comp_def, Nat.add_assoc, Nat.add_comm 2 k]
  | case2 k cs ih =>
    rw [levelEnds_closing, Lexer.commentLength]
    cases depth with
    | zero =>
      have hleast : IsLeast ({n | n = k + 2 ∧ 0 = 0} ∪ levelEnds 0 (commentMarks (k + 2) cs))
          (k + 2) :=
        ⟨.inl ⟨rfl, rfl⟩, by
          rintro n (⟨rfl, -⟩ | hn)
          · exact le_rfl
          · exact (lt_of_mem_levelEnds hn).le⟩
      rw [if_pos (by decide), Option.map_some, Option.some_inj, Nat.add_comm 2 k]
      exact ⟨fun he => he ▸ hleast, fun he => hleast.unique he⟩
    | succ depth =>
      rw [if_neg (by omega), Nat.add_sub_cancel, Option.map_map]
      simp only [Function.comp_def, Nat.add_assoc, Nat.add_comm 2 k]
      rw [ih depth]
      simp
  | case3 k c cs hopen hclose ih =>
    rw [← ih depth, Lexer.commentLength, Option.map_map]
    · simp only [Function.comp_def, Nat.add_assoc, Nat.add_comm 1 k]
    · exact hopen
    · exact hclose
  | case4 k => simp [Lexer.commentLength, IsLeast]

/-! ## Comments that do not nest -/

/-- The ends of the closing marks of a text that starts at the place `k`. -/
def closingEnds (k : Nat) (cs : List Char) : Set Nat :=
  {n | ∃ pre post, cs = pre ++ '*' :: '/' :: post ∧ n = k + pre.length + 2}

/-- The ends of the closing marks of a text that starts at the place `k`, but for those that a slash of
the text stands right before. -/
def freeEnds (k : Nat) (cs : List Char) : Set Nat :=
  {n | ∃ pre post, cs = pre ++ '*' :: '/' :: post ∧ pre.getLast? ≠ some '/' ∧
    n = k + pre.length + 2}

theorem freeEnds_subset (k : Nat) (cs : List Char) : freeEnds k cs ⊆ closingEnds k cs := by
  rintro n ⟨pre, post, hcs, -, hn⟩
  exact ⟨pre, post, hcs, hn⟩

/-- The star of an opening mark is not the star of a closing one. -/
theorem freeEnds_opening (k : Nat) (cs : List Char) :
    freeEnds k ('/' :: '*' :: cs) = freeEnds (k + 2) cs := by
  ext n
  constructor
  · rintro ⟨_ | ⟨c, _ | ⟨c', pre⟩⟩, post, hcs, hlast, rfl⟩
    · simp at hcs
    · obtain ⟨rfl, -⟩ := List.cons_eq_cons.mp hcs
      exact (hlast rfl).elim
    · simp only [List.cons_append, List.cons.injEq] at hcs
      obtain ⟨rfl, rfl, rfl⟩ := hcs
      refine ⟨pre, post, rfl, ?_, by simp only [List.length_cons]; omega⟩
      cases pre with
      | nil => simp
      | cons a pre => simpa using hlast
  · rintro ⟨pre, post, rfl, hlast, rfl⟩
    refine ⟨'/' :: '*' :: pre, post, rfl, ?_, by simp only [List.length_cons]; omega⟩
    cases pre with
    | nil => simp
    | cons a pre => simpa using hlast

theorem freeEnds_cons {c : Char} {cs : List Char} (k : Nat)
    (hopen : ∀ cs', c = '/' → cs = '*' :: cs' → False)
    (hclose : ∀ cs', c = '*' → cs = '/' :: cs' → False) :
    freeEnds k (c :: cs) = freeEnds (k + 1) cs := by
  ext n
  constructor
  · rintro ⟨_ | ⟨c', pre⟩, post, hcs, hlast, rfl⟩
    · simp only [List.nil_append, List.cons.injEq] at hcs
      exact (hclose post hcs.1 hcs.2).elim
    · simp only [List.cons_append, List.cons.injEq] at hcs
      obtain ⟨rfl, rfl⟩ := hcs
      refine ⟨pre, post, rfl, ?_, by simp only [List.length_cons]; omega⟩
      cases pre with
      | nil => simp
      | cons a pre => simpa using hlast
  · rintro ⟨pre, post, rfl, hlast, rfl⟩
    refine ⟨c :: pre, post, rfl, ?_, by simp only [List.length_cons]; omega⟩
    cases pre with
    | nil =>
      simp only [List.getLast?_singleton, ne_eq, Option.some.injEq]
      exact fun hc => hopen _ hc rfl
    | cons a pre => simpa using hlast

/-- The lexer's search for the end of a comment that does not nest finds the first closing mark that no
slash precedes. -/
theorem commentLength_flat (k e : Nat) (cs : List Char) :
    (Lexer.commentLength false 1 cs).map (· + k) = some e ↔ IsLeast (freeEnds k cs) e := by
  fun_induction commentMarks k cs with
  | case1 k cs ih =>
    rw [freeEnds_opening, ← ih, Lexer.commentLength, Option.map_map]
    simp only [Bool.false_eq_true, if_false, Function.comp_def, Nat.add_assoc, Nat.add_comm 2 k]
  | case2 k cs ih =>
    have hleast : IsLeast (freeEnds k ('*' :: '/' :: cs)) (k + 2) :=
      ⟨⟨[], cs, rfl, by simp, rfl⟩, by
        rintro n ⟨pre, post, -, -, rfl⟩
        omega⟩
    rw [Lexer.commentLength, if_pos le_rfl, Option.map_some, Option.some_inj, Nat.add_comm 2 k]
    exact ⟨fun he => he ▸ hleast, fun he => hleast.unique he⟩
  | case3 k c cs hopen hclose ih =>
    rw [freeEnds_cons k hopen hclose, ← ih, Lexer.commentLength, Option.map_map]
    · simp only [Function.comp_def, Nat.add_assoc, Nat.add_comm 1 k]
    · exact hopen
    · exact hclose
  | case4 k => simp [Lexer.commentLength, IsLeast, freeEnds]

/-! ## The end of a comment -/

/-- The places at which a block comment with the text `body` behind its opening mark can end. -/
def LexicalRules.commentEnds (r : LexicalRules) (body : List Char) : Set Nat :=
  if r.nestedComments then levelEnds 0 (commentMarks 0 ('/' :: '*' :: body)) else freeEnds 2 body

theorem commentLength_commentEnds (r : LexicalRules) (body : List Char) (e : Nat) :
    (Lexer.commentLength r.nestedComments 1 body).map (· + 2) = some e ↔
      IsLeast (r.commentEnds body) e := by
  rw [LexicalRules.commentEnds]
  cases r.nestedComments with
  | true =>
    rw [if_pos rfl, commentMarks, levelEnds_opening]
    exact commentLength_nested 0 2 e body
  | false => exact commentLength_flat 2 e body

/-- No blank and no line comment starts with a slash, so what starts with an opening mark is a comment
to its end. -/
theorem lexeme_comment (r : LexicalRules) (body : List Char) :
    Lexer.lexeme r '/' ('*' :: body) =
      match Lexer.commentLength r.nestedComments 1 body with
      | some n => .ok ⟨.comment, n + 1, none⟩
      | none => .error .openComment := by
  have hline : Lexer.lineComment r '/' ('*' :: body) = none := by simp [Lexer.lineComment]
  have hblank : Text.isBlank '/' = false := by decide
  rw [Lexer.lexeme, Lexer.trivia, hblank, hline]
  cases Lexer.commentLength r.nestedComments 1 body <;> rfl

/-- A block comment ends at the first of the places at which it can end, and is open when there is none:
where as many comments have been closed as opened if comments nest, else at the first closing mark that
no slash of the comment precedes. So a comment that does not nest ends at its first closing mark only if
no slash stands before it. -/
theorem comment_ends (r : LexicalRules) (body : List Char) :
    (∀ n, Lexer.lexeme r '/' ('*' :: body) = .ok ⟨.comment, n, none⟩ ↔
      IsLeast (r.commentEnds body) (n + 1)) ∧
    (Lexer.lexeme r '/' ('*' :: body) = .error .openComment ↔ r.commentEnds body = ∅) ∧
    (r.nestedComments = false → ∀ n, IsLeast (closingEnds 2 body) (n + 1) →
      (Lexer.lexeme r '/' ('*' :: body) = .ok ⟨.comment, n, none⟩ ↔ n + 1 ∈ freeEnds 2 body)) := by
  have hends : ∀ n, Lexer.lexeme r '/' ('*' :: body) = .ok ⟨.comment, n, none⟩ ↔
      IsLeast (r.commentEnds body) (n + 1) := by
    intro n
    rw [← commentLength_commentEnds, lexeme_comment]
    cases Lexer.commentLength r.nestedComments 1 body <;> simp
  refine ⟨hends, ?_, fun hflat n hfirst => ?_⟩
  · rw [lexeme_comment]
    cases hlength : Lexer.commentLength r.nestedComments 1 body with
    | none =>
      -- a set of numbers that is not empty has a least one
      refine iff_of_true rfl (Set.eq_empty_of_forall_notMem fun e he => ?_)
      have hleast : IsLeast (r.commentEnds body) (sInf (r.commentEnds body)) :=
        ⟨Nat.sInf_mem ⟨e, he⟩, fun _ => Nat.sInf_le⟩
      have hsome := (commentLength_commentEnds r body _).mpr hleast
      simp [hlength] at hsome
    | some n =>
      have hleast := (commentLength_commentEnds r body (n + 2)).mp (by simp [hlength])
      exact iff_of_false (by simp) fun hempty => (hempty ▸ hleast.1 : n + 2 ∈ (∅ : Set Nat))
  · rw [hends, LexicalRules.commentEnds, hflat, if_neg (by decide)]
    exact ⟨And.left, fun hfree => ⟨hfree, fun e he => hfirst.2 (freeEnds_subset 2 body he)⟩⟩

example : Lexer.commentLength false 1 ['/', '*', '/'] = none ∧
    Lexer.commentLength false 1 ['*', '/', '*', '/'] = some 2 := by decide

end SqlDialects
