import SqlDialects.Proofs.Rereading
import SqlDialects.Render.Statement

/-!
# Operator trees keep their shape

* `Expr.isOperatorTree` : expressions of names, constants, operators, predicates and conditionals;
* `operatorTree_rewrites` : whatever the target, their texts are read back as the dialect spells them;
* `respell_concat` : what becomes of a chain of concatenations;
* `operatorTree_reread` : the text of an operator tree is one expression of the same shape.
-/

namespace SqlDialects

/-- The name without its quotes. -/
def Name.unquoted (n : Name) : Name := ⟨n.text, false⟩

mutual

/-- Whether an expression is made of names, constants, operators, predicates and conditionals. -/
def Expr.isOperatorTree : Expr → Bool
  | .name _ => true
  | .path parts => 2 ≤ parts.length
  | .literal (.number w) => Lexer.number w.toList == some w.toList.length
  | .literal (.temporal ..) => false
  | .literal _ => true
  | .binary l _ r => l.isOperatorTree && r.isOperatorTree
  | .unary _ e => e.isOperatorTree
  | .between e _ low high => e.isOperatorTree && low.isOperatorTree && high.isOperatorTree
  | .inList e items _ => e.isOperatorTree && !items.isEmpty && areOperatorTrees items
  | .like e pattern _ _ escape =>
    e.isOperatorTree && pattern.isOperatorTree && mayBeOperatorTree escape
  | .isNull e _ => e.isOperatorTree
  | .case subject branches otherwise =>
    mayBeOperatorTree subject && !branches.isEmpty && haveOperatorTrees branches &&
      mayBeOperatorTree otherwise
  | .cond c y n => c.isOperatorTree && y.isOperatorTree && n.isOperatorTree
  | .nested e => e.isOperatorTree
  | _ => false

/-- Whether an expression is missing or an operator tree. -/
def mayBeOperatorTree : Option Expr → Bool
  | none => true
  | some e => e.isOperatorTree

/-- Whether all of the expressions are operator trees. -/
def areOperatorTrees : List Expr → Bool
  | [] => true
  | e :: es => e.isOperatorTree && areOperatorTrees es

/-- Whether all branches are of operator trees. -/
def haveOperatorTrees : List Branch → Bool
  | [] => true
  | ⟨condition, result⟩ :: rest =>
    condition.isOperatorTree && result.isOperatorTree && haveOperatorTrees rest

end

/-! ## Every node is read back -/

/-- An operator tree does not start with a test for rows. -/
theorem startsExists_of_isOperatorTree :
    (e : Expr) → e.isOperatorTree = true → e.startsExists = false
  | .binary l _ _, h => by
    simp only [Expr.isOperatorTree, Bool.and_eq_true] at h
    exact startsExists_of_isOperatorTree l h.1
  | .between e _ _ _, h => by
    simp only [Expr.isOperatorTree, Bool.and_eq_true] at h
    exact startsExists_of_isOperatorTree e h.1.1
  | .inList e _ _, h => by
    simp only [Expr.isOperatorTree, Bool.and_eq_true] at h
    exact startsExists_of_isOperatorTree e h.1.1
  | .like e _ _ _ _, h => by
    simp only [Expr.isOperatorTree, Bool.and_eq_true] at h
    exact startsExists_of_isOperatorTree e h.1.1
  | .isNull e _, h => by
    simp only [Expr.isOperatorTree] at h
    exact startsExists_of_isOperatorTree e h
  | .name _, _ | .path _, _ | .literal _, _ | .unary _ _, _ | .case _ _ _, _ | .cond _ _ _, _
  | .nested _, _ => rfl

section Trees

variable {t : Target}

mutual

theorem operatorTree_rewrites (hd : t.dialect.Expressive) : (e : Expr) → e.isOperatorTree = true →
    Rewrites false t Name.unquoted e
  | .name n, _ => name_regains hd rfl
  | .path parts, h => path_regains hd (by simpa [Expr.isOperatorTree] using h) fun _ _ => rfl
  | .literal l, h => by
    refine literal_regains hd (fun w hw => ?_) fun kind v hv => ?_
    · subst hw
      simpa [Expr.isOperatorTree] using h
    · subst hv
      simp [Expr.isOperatorTree] at h
  | .binary l op r, h => by
    simp only [Expr.isOperatorTree, Bool.and_eq_true] at h
    exact binary_regains hd op (by simp) (operatorTree_rewrites hd l h.1) (operatorTree_rewrites hd r h.2)
  | .unary op e, h => by
    simp only [Expr.isOperatorTree] at h
    exact unary_regains hd (fun _ => startsExists_of_isOperatorTree e h) (operatorTree_rewrites hd e h)
  | .between e negated low high, h => by
    simp only [Expr.isOperatorTree, Bool.and_eq_true] at h
    exact between_regains hd negated (operatorTree_rewrites hd e h.1.1)
      (operatorTree_rewrites hd low h.1.2) (operatorTree_rewrites hd high h.2)
  | .inList e items negated, h => by
    simp only [Expr.isOperatorTree, Bool.and_eq_true, Bool.not_eq_true', List.isEmpty_eq_false_iff]
      at h
    exact inList_regains hd negated h.1.2 (operatorTree_rewrites hd e h.1.1)
      (operatorTrees_rewrites hd items h.2)
  | .like e pattern negated anyCase escape, h => by
    simp only [Expr.isOperatorTree, Bool.and_eq_true] at h
    exact like_regains hd negated anyCase (operatorTree_rewrites hd e h.1.1)
      (operatorTree_rewrites hd pattern h.1.2) (operatorOption_rewrites hd escape h.2)
  | .isNull e negated, h => by
    simp only [Expr.isOperatorTree] at h
    exact isNull_regains hd negated (operatorTree_rewrites hd e h)
  | .case subject branches otherwise, h => by
    simp only [Expr.isOperatorTree, Bool.and_eq_true, Bool.not_eq_true', List.isEmpty_eq_false_iff]
      at h
    exact case_regains hd h.1.1.2 (operatorOption_rewrites hd subject h.1.1.1)
      (operatorBranches_rewrites hd branches h.1.2) (operatorOption_rewrites hd otherwise h.2)
  | .cond c y n, h => by
    simp only [Expr.isOperatorTree, Bool.and_eq_true] at h
    exact cond_regains hd (operatorTree_rewrites hd c h.1.1) (operatorTree_rewrites hd y h.1.2)
      (operatorTree_rewrites hd n h.2)
  | .nested e, h => by
    simp only [Expr.isOperatorTree] at h
    exact nested_regains hd (operatorTree_rewrites hd e h)

theorem operatorOption_rewrites (hd : t.dialect.Expressive) : (o : Option Expr) → mayBeOperatorTree o = true →
    ∀ e ∈ o, Rewrites false t Name.unquoted e
  | none, _ => fun _ he => by cases he
  | some e, h => by
    simp only [mayBeOperatorTree] at h
    simpa using operatorTree_rewrites hd e h

theorem operatorTrees_rewrites (hd : t.dialect.Expressive) : (es : List Expr) → areOperatorTrees es = true →
    ∀ e ∈ es, Rewrites false t Name.unquoted e
  | [], _ => fun _ he => by cases he
  | e :: es, h => by
    simp only [areOperatorTrees, Bool.and_eq_true] at h
    exact List.forall_mem_cons.mpr ⟨operatorTree_rewrites hd e h.1, operatorTrees_rewrites hd es h.2⟩

theorem operatorBranches_rewrites (hd : t.dialect.Expressive) : (bs : List Branch) → haveOperatorTrees bs = true →
    ∀ b ∈ bs, Rewrites false t Name.unquoted b.condition ∧ Rewrites false t Name.unquoted b.result
  | [], _ => fun _ hb => by cases hb
  | ⟨condition, result⟩ :: rest, h => by
    simp only [haveOperatorTrees, Bool.and_eq_true] at h
    exact List.forall_mem_cons.mpr ⟨⟨operatorTree_rewrites hd condition h.1.1,
      operatorTree_rewrites hd result h.1.2⟩, operatorBranches_rewrites hd rest h.2⟩

end

end Trees

/-! ## Chains of concatenations -/

theorem chainArgs_respell {r : Respelling} (hr : r.concat = .function) :
    (e : Expr) → Respelling.chainArgs e (e.respell r) = (e.concatOperands.map (·.respell r)).map .expr
  | .binary left op right => by
    by_cases hop : op = .concat
    · subst hop
      rw [Expr.respell, Respelling.binary, hr, Expr.concatOperands, List.map_append, List.map_append,
        ← chainArgs_respell hr left, ← chainArgs_respell hr right]
      rfl
    · cases op <;> first | rfl | exact absurd rfl hop
  | .name _ | .path _ | .literal _ | .param _ | .unary _ _ | .call _ | .cast _ _ _ | .case _ _ _
  | .cond _ _ _ | .between _ _ _ _ | .inList _ _ _ | .inQuery _ _ _ | .like _ _ _ _ _ | .isNull _ _
  | .exists _ _ | .subquery _ | .nested _ | .extract _ _ | .interval _ _ | .now _ => rfl

/-- Where concatenation is a function, a whole chain becomes one call on its operands. -/
theorem respell_concat {r : Respelling} (hr : r.concat = .function) (left right : Expr) :
    (Expr.binary left .concat right).respell r =
      .callOf "CONCAT" ((Expr.binary left .concat right).concatOperands.map (·.respell r)) := by
  rw [Expr.respell, Respelling.binary, hr, chainArgs_respell hr left, chainArgs_respell hr right,
    Expr.concatOperands, List.map_append, Expr.callOf, List.map_append]

/-! ## The text of a tree -/

/-- The text of an operator tree in any dialect and layout is cut into tokens, and they are all read
as one expression: the tree as the dialect spells it, up to parentheses and the quotes of names. Only
too deep a nesting is refused. -/
theorem operatorTree_reread {d : Dialect} (hd : d ∈ Dialect.builtins) {layout : Layout} {e : Expr}
    (he : e.isOperatorTree = true) {text : String} (htext : renderExpr d layout e = .ok text) :
    ∃ tokens finish, tokenize d.lexical text = .ok (tokens, finish) ∧
      ((∃ e' c, Parser.expr (.ofTokens d tokens finish) {} = (.ok e', c) ∧ tokens.length ≤ c.index ∧
          e'.respell (.plain Name.unquoted) = e.respell (d.respelling Name.unquoted)) ∨
        ∃ f c, Parser.expr (.ofTokens d tokens finish) {} = (.error f, c) ∧ f.TooDeep) := by
  have hexpressive := expressive_of_mem_builtins hd
  have hrewrites : Rewrites false { dialect := d, layout } Name.unquoted e :=
    operatorTree_rewrites hexpressive e he
  obtain ⟨e', ⟨ts, hspelled, hform, -⟩, heq⟩ := (hrewrites.whole hexpressive).run htext
  obtain ⟨tokens, finish, htokens, hat⟩ := hspelled.tokenize
  refine ⟨tokens, finish, htokens, ?_⟩
  have hparses := hform.expr_zero (Ends.nil d 0) Parser.maxDepth
  rw [List.append_nil] at hparses
  rcases hparses _ _ hat with ⟨c, hok, hend⟩ | hdeep
  · refine .inl ⟨e', c, hok, ?_, heq⟩
    have := hend.length
    simpa [Input.ofTokens, Nat.sub_eq_zero_iff_le] using this
  · exact .inr hdeep

/-- A chain of concatenations that is compared in any case. -/
theorem chainInAnyCase_reread :
    ∃ tokens finish, tokenize Dialect.mysql.lexical "LOWER(CONCAT(a, 'x', b)) LIKE LOWER('%')" =
        .ok (tokens, finish) ∧
      ((∃ e' c, Parser.expr (.ofTokens .mysql tokens finish) {} = (.ok e', c) ∧
          tokens.length ≤ c.index ∧ e'.respell (.plain Name.unquoted) =
            .like (.callOf "LOWER" [.callOf "CONCAT" [.name ⟨"a", false⟩, .literal (.string "x"),
              .name ⟨"b", false⟩]]) (.callOf "LOWER" [.literal (.string "%")]) false false none) ∨
        ∃ f c, Parser.expr (.ofTokens .mysql tokens finish) {} = (.error f, c) ∧ f.TooDeep) :=
  @operatorTree_reread .mysql (by decide +kernel) {} (.like (.binary (.binary (.name ⟨"a", false⟩)
    .concat (.literal (.string "x"))) .concat (.name ⟨"b", false⟩)) (.literal (.string "%")) false true
    none) (by decide) _ (by decide +kernel)

end SqlDialects
