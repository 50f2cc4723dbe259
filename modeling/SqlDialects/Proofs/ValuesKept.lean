import SqlDialects.Proofs.Coverage
import SqlDialects.Proofs.Independence
import SqlDialects.Proofs.StatementAccounts
import SqlDialects.Proofs.Vocabulary

/-!
# Values are kept in the order of the text

* `parse_pieces` : the statements of a text are those of its pieces;
* `statement_tally` : the tokens of a piece stand for the values of its statement, and with numbers
  for its bare parameters the piece is the statement with these numbers;
* `values_kept` : each value of a text is a leaf of its trees once, and there are no other leaves;
* `binds_follow_text` : bare parameters are numbered in the order of the text.
-/

namespace SqlDialects

open SqlDialects.Parser

/-! ## The tokens of a text -/

section Tokens

variable {r : LexicalRules} {sql : String} {tokens : List Token} {finish : Token}

theorem kind_finish (h : tokenize r sql = .ok (tokens, finish)) : finish.kind = .finish :=
  congrArg Prod.fst (tokenize_finish h)

/-- The bare parameters of a text are its tokens `?`. -/
theorem isMark_iff (h : tokenize r sql = .ok (tokens, finish)) {t : Token} (ht : t ∈ tokens) :
    t.isMark = (t.kind == .param && t.text == "?") := by
  obtain ⟨rfl, -⟩ := scan_of_tokenize h
  cases hk : t.kind == .param with
  | false => simp [Token.isMark, hk]
  | true =>
    rw [Token.isMark, hk, Bool.true_and, Bool.true_and]
    rcases (scanFrom_covers r false [] sql.toList false).mark t ht (by simpa using hk) with
      htext | hlength
    · simp [Token.body, htext]
    · have hbody : t.body ≠ "" := fun hempty => by
        have := congrArg (·.toList.length) hempty
        simp [Token.body] at this
        omega
      have htext : t.text ≠ "?" := fun htext => by simp [htext] at hlength
      simp [hbody, htext]

end Tokens

/-! ## Pieces -/

theorem mem_pieces {tokens piece : List Token} (h : piece ∈ pieces tokens) :
    piece ≠ [] ∧ ∀ t ∈ piece, t.isSymbol ";" = false ∧ t ∈ tokens := by
  induction hlength : tokens.length using Nat.strongRecOn generalizing tokens with
  | ind n ih =>
    cases tokens with
    | nil => simp at h
    | cons t ts =>
      cases ht : t.isSymbol ";" with
      | true =>
        rw [pieces_semicolon ht] at h
        have hts := ih ts.length (by simp [← hlength]) h rfl
        exact ⟨hts.1, fun u hu => ⟨(hts.2 u hu).1, List.mem_cons_of_mem t (hts.2 u hu).2⟩⟩
      | false =>
        obtain ⟨seg, tail, hrest, hne, hseg, htail⟩ := exists_first_piece ht ts
        rw [hrest] at h ⊢
        rw [pieces_append hne hseg htail, List.mem_cons] at h
        rcases h with rfl | h
        · exact ⟨hne, fun u hu => ⟨hseg u hu, List.mem_append_left tail hu⟩⟩
        · have hpos : 0 < seg.length := List.length_pos_iff.mpr hne
          have hshort : tail.length < n := by
            rw [← hlength, hrest, List.length_append]
            omega
          have hmem := ih tail.length hshort h rfl
          exact ⟨hmem.1, fun u hu => ⟨(hmem.2 u hu).1, List.mem_append_right seg (hmem.2 u hu).2⟩⟩

/-- The statements of a text are those of its pieces, each read alone. -/
theorem parse_pieces {d : Dialect} (hd : d ∈ Dialect.builtins) {sql : String} {ss : List Statement}
    (h : parse d sql = .ok ss) :
    ∃ tokens finish, tokenize d.lexical sql = .ok (tokens, finish) ∧
      List.Forall₂ (fun piece s => piece ∈ pieces tokens ∧ readAll d piece = .ok [s])
        (pieces tokens) ss := by
  have hsemicolon : d.reading.operator? ";" = none := by
    clear h
    revert d
    decide +kernel
  unfold parse at h
  cases htokens : tokenize d.lexical sql with
  | error f => simp [htokens] at h
  | ok r =>
    obtain ⟨tokens, finish⟩ := r
    simp only [htokens, statements_runFrom] at h
    have hall := (manyUpTo_iff hsemicolon (kind_finish htokens) [] tokens {} rfl rfl _
      (by simp [Input.ofTokens]) ss).mp h
    exact ⟨tokens, finish, rfl, (List.forall₂_and_left _ _).mpr ⟨fun _ h => h, hall⟩⟩

/-! ## One statement -/

section Piece

variable {d : Dialect} {piece : List Token} {s : Statement}

theorem token_ofOpenTokens (hsemicolon : ∀ t ∈ piece, t.isSymbol ";" = false) (k : Nat) :
    ((Input.ofOpenTokens d piece).token k).isSymbol ";" = false := by
  by_cases hk : k < piece.length
  · simpa [Input.token, Input.ofOpenTokens, hk] using hsemicolon _ (List.getElem_mem hk)
  · simp [Input.token, Input.ofOpenTokens, hk, Token.isSymbol]

/-- A piece that is one statement is read by `statement` from its start to its end. -/
theorem statement_of_readAll (hne : piece ≠ []) (hsemicolon : ∀ t ∈ piece, t.isSymbol ";" = false)
    (h : readAll d piece = .ok [s]) :
    ∃ c e, c.index = 0 ∧ c.furthest = 0 ∧ c.binds = 0 ∧ c.depth = 0 ∧
      statement (.ofOpenTokens d piece) c = (.ok s, e) ∧ piece.length ≤ e.index := by
  have htoken := token_ofOpenTokens (d := d) hsemicolon
  obtain ⟨c, hwaits, hbinds, hnext⟩ := nextStatement_start (c := {}) (htoken _)
    (by rw [size_ofOpenTokens]; exact List.length_pos_iff.mpr hne)
  have hdepth : c.depth = 0 := Parser.depth_of_same hnext
  refine ⟨c, ?_⟩
  cases hrun : statement (.ofOpenTokens d piece) c with
  | mk r e =>
    cases r with
    | error y =>
      rw [closedStatement, Parser.bind_error hrun] at hnext
      exact absurd (h.symm.trans (readAll_of_error hnext)) (by simp)
    | ok s' =>
      rw [closedStatement, Parser.bind_ok hrun] at hnext
      by_cases hend : piece.length ≤ e.index
      · rw [closing_yes s' (.inl (by rwa [size_ofOpenTokens]))] at hnext
        obtain rfl : s' = s := by simpa [h] using (readAll_of_some hne hnext hend).symm
        exact ⟨e, hwaits.1, hwaits.2, hbinds, hdepth, rfl, hend⟩
      · obtain ⟨f, e', hfail⟩ := closing_no s' (by rw [size_ofOpenTokens]; omega) (htoken e.index)
        exact absurd (h.symm.trans (readAll_of_error (hnext.trans hfail))) (by simp)

/-- Tokens that `statement` reads to their end from every start at the first level are one statement. -/
theorem readAll_of_statement (hne : piece ≠ []) (hsemicolon : ∀ t ∈ piece, t.isSymbol ";" = false)
    (h : ∀ c : Cursor, c.index = 0 → c.depth = 0 →
      ∃ e, statement (.ofOpenTokens d piece) c = (.ok s, e) ∧ piece.length ≤ e.index) :
    readAll d piece = .ok [s] := by
  obtain ⟨c, hwaits, -, hnext⟩ := nextStatement_start (c := {})
    (token_ofOpenTokens (d := d) hsemicolon _)
    (by rw [size_ofOpenTokens]; exact List.length_pos_iff.mpr hne)
  obtain ⟨e, hrun, hend⟩ := h c hwaits.1 (Parser.depth_of_same hnext)
  rw [closedStatement, Parser.bind_ok hrun, closing_yes s (.inl (by rwa [size_ofOpenTokens]))] at hnext
  exact readAll_of_some hne hnext hend

theorem fill_ofOpenTokens (v : Nat → String) :
    (Input.ofOpenTokens d piece).fill v = .ofOpenTokens d (fillTokens v 0 piece) := by
  have hlast : (fillTokens v 0 piece).getLast?.map Token.position =
      piece.getLast?.map Token.position := by
    rw [List.getLast?_eq_getElem?, List.getLast?_eq_getElem?, length_fillTokens, getElem?_fillTokens,
      Option.map_map]
    congr 1
    funext t
    exact Token.position_fill
  simp [Input.fill, Input.ofOpenTokens, hlast]

/-- The tokens of a statement stand for its values, and with numbers for its bare parameters they are
the statement with these numbers. -/
theorem statement_tally (hne : piece ≠ []) (hsemicolon : ∀ t ∈ piece, t.isSymbol ";" = false)
    (h : readAll d piece = .ok [s]) :
    (∃ ls n, Tally (.ofOpenTokens d piece) 0 0 piece.length n ls ∧ ls.Perm s.leaves) ∧
      ∀ v, readAll d (fillTokens v 0 piece) = .ok [s.fill v] := by
  obtain ⟨c, e, hindex, hfurthest, hbinds, hdepth, hrun, hend⟩ := statement_of_readAll hne hsemicolon h
  have hkept (v : Nat → String) (c' : Cursor) (hc' : c'.index = 0) (hdepth' : c'.depth = 0) :
      (∃ ls n, Tally (.ofOpenTokens d piece) 0 0 piece.length n ls ∧ ls.Perm s.leaves) ∧
        ∃ e', statement (.ofOpenTokens d (fillTokens v 0 piece)) c' = (.ok (s.fill v), e') ∧
          piece.length ≤ e'.index := by
    have hat : Filling.At ⟨.ofOpenTokens d piece, v, 0, rfl⟩ 0 c c' :=
      ⟨hindex, hc', Nat.le_refl 0, Nat.zero_le _, by rw [hfurthest]; exact Nat.zero_le _,
        hdepth.trans hdepth'.symm⟩
    rcases statement_keeps c c' hat with ⟨s', e₁, s'', ls, hok, hmoves, htally, hR, hfill⟩ | ⟨y, e₁, herr, -⟩
    · obtain ⟨rfl, rfl⟩ : s = s' ∧ e = e₁ := by simpa [hrun] using hok
      have hlength : e.index = piece.length := by
        have := hmoves.room
        simp only [size_ofOpenTokens] at this
        omega
      rw [hlength, hbinds] at htally
      obtain ⟨e', hrun', he'⟩ := hfill (by rw [hbinds]; rfl)
      refine ⟨⟨ls, _, htally, Multiset.coe_eq_coe.mp hR.2⟩, e', ?_, by omega⟩
      rw [show s'' = s.fill v from hR.1] at hrun'
      rwa [Filling.filled, fill_ofOpenTokens] at hrun'
    · exact absurd (hrun.symm.trans herr) (by simp)
  refine ⟨(hkept (fun _ => "") {} rfl rfl).1, fun v => ?_⟩
  refine readAll_of_statement ?_ ?_ fun c' hc' hdepth' => ?_
  · rw [← List.length_pos_iff, length_fillTokens]
    exact List.length_pos_iff.mpr hne
  · intro t ht
    obtain ⟨k, hk⟩ := List.getElem?_of_mem ht
    rw [getElem?_fillTokens] at hk
    obtain ⟨u, hu, rfl⟩ := Option.map_eq_some_iff.mp hk
    rw [Token.isSymbol_fill]
    exact hsemicolon u (List.mem_of_getElem? hu)
  · rw [length_fillTokens]
    exact (hkept v c' hc' hdepth').2

end Piece

/-! ## Texts -/

/-- No value is lost: in every text that is accepted, the values of each statement are the values of
its tokens, each once. A type and the option of a generated column stand for all tokens that they are
read from. -/
theorem values_kept {d : Dialect} (hd : d ∈ Dialect.builtins) {sql : String} {ss : List Statement}
    (h : parse d sql = .ok ss) :
    ∃ tokens finish, tokenize d.lexical sql = .ok (tokens, finish) ∧
      List.Forall₂ (fun piece s => ∃ ls n,
        Tally (.ofOpenTokens d piece) 0 0 piece.length n ls ∧ ls.Perm s.leaves) (pieces tokens) ss := by
  obtain ⟨tokens, finish, htokens, hall⟩ := parse_pieces hd h
  refine ⟨tokens, finish, htokens, hall.imp fun piece s hpiece => ?_⟩
  obtain ⟨hne, hmem⟩ := mem_pieces hpiece.1
  exact (statement_tally hne (fun t ht => (hmem t ht).1) hpiece.2).1

/-- A type with arguments, a typed literal, an interval and a parameter. -/
theorem values_kept_insert : ∃ ss, ss.length = 1 ∧
    parse .postgres "INSERT INTO t SELECT CAST($1 AS DECIMAL(10, 2)), DATE '2024-01-31' - INTERVAL '1' DAY" =
      .ok ss ∧
    ∃ tokens finish, tokenize Dialect.postgres.lexical
        "INSERT INTO t SELECT CAST($1 AS DECIMAL(10, 2)), DATE '2024-01-31' - INTERVAL '1' DAY" =
          .ok (tokens, finish) ∧
      List.Forall₂ (fun piece s => ∃ ls n,
        Tally (.ofOpenTokens .postgres piece) 0 0 piece.length n ls ∧ ls.Perm s.leaves)
        (pieces tokens) ss := by
  obtain ⟨ss, hparse, hlength⟩ := exists_ok (show (parse .postgres
    "INSERT INTO t SELECT CAST($1 AS DECIMAL(10, 2)), DATE '2024-01-31' - INTERVAL '1' DAY").toOption.map
      List.length = some 1 by decide +kernel)
  exact ⟨ss, hlength, hparse, values_kept (by decide +kernel) hparse⟩

/-- The numbers behind `IDENTITY` stand in no list of arguments of a type, and are no leaves. -/
theorem identity_arguments_dropped : ∃ tokens finish s,
    tokenize Dialect.tsql.lexical "CREATE TABLE t (a INT IDENTITY(5, 2))" = .ok (tokens, finish) ∧
      parse .tsql "CREATE TABLE t (a INT IDENTITY(5, 2))" = .ok [s] ∧
      (tokens.filter (·.kind.isValue)).map Token.text = ["5", "2"] ∧
      s.leaves = [.type .int, .generated] := by
  obtain ⟨⟨tokens, finish⟩, htokens, hvalues⟩ := exists_ok (show
    (tokenize Dialect.tsql.lexical "CREATE TABLE t (a INT IDENTITY(5, 2))").toOption.map
      (fun r => (r.1.filter (·.kind.isValue)).map Token.text) = some ["5", "2"] by decide +kernel)
  obtain ⟨ss, hparse, hleaves⟩ := exists_ok (show
    (parse .tsql "CREATE TABLE t (a INT IDENTITY(5, 2))").toOption.map (List.map Statement.leaves) =
      some [[.type .int, .generated]] by decide +kernel)
  obtain ⟨s, rfl, hs⟩ := List.map_eq_singleton_iff.mp hleaves
  exact ⟨tokens, finish, s, htokens, hparse, hvalues, hs⟩

/-- No bare parameter stands among the arguments of `IDENTITY`, or among the other tokens from which
the option of a generated column is read. -/
def Input.GeneratesPlainly (i : Input) : Prop :=
  ∀ c e, autoIncrement i c = (.ok true, e) → ∀ j, c.index ≤ j → j < e.index →
    (i.token j).isMark = false

theorem Input.marks_eq {i : Input} {k m : Nat} (hkm : k ≤ m)
    (h : ∀ j, k ≤ j → j < m → (i.token j).isMark = false) : i.marks m = i.marks k := by
  induction m, hkm using Nat.le_induction with
  | base => rfl
  | succ m hkm ih =>
    have ih := ih fun j hj hlt => h j hj (by omega)
    by_cases hm : m < i.tokens.size
    · rw [marks_succ hm, h m hkm (Nat.lt_succ_self m), ih]
      rfl
    · rw [← ih, marks, marks, List.take_of_length_le (by simp; omega),
        List.take_of_length_le (by simp; omega)]

/-- Bare parameters are numbered in the order of the text, from one in each statement. The numbers of
a statement are those up to the number of its `?`, each once; and a number in the place of each `?` is
read as that number in the place of the parameter with its ordinal. -/
theorem binds_follow_text {d : Dialect} (hd : d ∈ Dialect.builtins) {sql : String}
    {ss : List Statement} (h : parse d sql = .ok ss) :
    ∃ tokens finish, tokenize d.lexical sql = .ok (tokens, finish) ∧
      List.Forall₂ (fun piece s =>
        ((.generated ∈ s.leaves → (Input.ofOpenTokens d piece).GeneratesPlainly) →
          (s.leaves.filterMap Leaf.ordinal?).Perm
            (List.range' 1 (piece.countP fun t => t.kind == .param && t.text == "?"))) ∧
        ∀ v, readAll d (fillTokens v 0 piece) = .ok [s.fill v]) (pieces tokens) ss := by
  obtain ⟨tokens, finish, htokens, hall⟩ := parse_pieces hd h
  refine ⟨tokens, finish, htokens, hall.imp fun piece s hpiece => ?_⟩
  obtain ⟨hne, hmem⟩ := mem_pieces hpiece.1
  obtain ⟨⟨ls, n, htally, hperm⟩, hfill⟩ := statement_tally hne (fun t ht => (hmem t ht).1) hpiece.2
  refine ⟨fun hplain => ?_, hfill⟩
  have hparts (hgenerated : .generated ∈ ls) (k m : Nat)
      (hpart : (Input.ofOpenTokens d piece).Part k m .generated) :
      (Input.ofOpenTokens d piece).marks m = (Input.ofOpenTokens d piece).marks k := by
    obtain ⟨⟨l, hkl, -, hlm⟩, c, e, hrun, rfl, rfl⟩ := hpart
    exact Input.marks_eq (by omega) (hplain (hperm.mem_iff.mp hgenerated) c e hrun)
  have hcount : n = piece.countP fun t => t.kind == .param && t.text == "?" := by
    have hmarks : n + 0 = 0 + (Input.ofOpenTokens d piece).marks piece.length := htally.marks
    rw [Nat.add_zero, Nat.zero_add] at hmarks
    rw [hmarks, Input.marks, Input.ofOpenTokens, List.take_of_length_le (by simp)]
    exact List.countP_congr fun t ht => by rw [isMark_iff htokens (hmem t ht).2]
  have hordinals := htally.ordinals hparts
  rw [Nat.zero_add, Nat.sub_zero, hcount] at hordinals
  exact hordinals ▸ (hperm.filterMap _).symm

/-- Two exchanged arguments and two exchanged counts. -/
theorem binds_follow_text_select : ∃ ss, parse .mysql "SELECT POSITION(? IN ?) FROM t LIMIT ?, ?" = .ok ss ∧
    ss.map (fun s => s.leaves.filterMap Leaf.ordinal?) = [[2, 1, 4, 3]] ∧
    ∃ tokens finish,
      tokenize Dialect.mysql.lexical "SELECT POSITION(? IN ?) FROM t LIMIT ?, ?" = .ok (tokens, finish) ∧
      List.Forall₂ (fun piece s =>
        ((.generated ∈ s.leaves → (Input.ofOpenTokens .mysql piece).GeneratesPlainly) →
          (s.leaves.filterMap Leaf.ordinal?).Perm
            (List.range' 1 (piece.countP fun t => t.kind == .param && t.text == "?"))) ∧
        ∀ v, readAll .mysql (fillTokens v 0 piece) = .ok [s.fill v]) (pieces tokens) ss := by
  obtain ⟨ss, hparse, hordinals⟩ := exists_ok (show
    (parse .mysql "SELECT POSITION(? IN ?) FROM t LIMIT ?, ?").toOption.map
      (List.map fun s => s.leaves.filterMap Leaf.ordinal?) = some [[2, 1, 4, 3]] by decide +kernel)
  exact ⟨ss, hparse, hordinals, binds_follow_text (by decide +kernel) hparse⟩

end SqlDialects
