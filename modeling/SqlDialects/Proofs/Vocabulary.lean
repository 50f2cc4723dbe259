import SqlDialects.Proofs.Runs

/-!
# The tokens that a text is cut into

* `scanFrom_all` : what holds of every lexeme holds of the tokens of a scan;
* `Lexer.number_take` : a number at the head of a text is a number by itself;
* `tokenize_finish` : the end of a text;
* `Shape.IsLexed` : a token that the dialect would find again in its own text;
* `tokenize_lexed` : every token of a text is such a token.
-/

namespace SqlDialects

/-- A run that is known to succeed. -/
theorem exists_ok {ε α β : Type} {x : Except ε α} {f : α → β} {b : β}
    (h : x.toOption.map f = some b) : ∃ a, x = .ok a ∧ f a = b := by
  cases x with
  | error e => simp [Except.toOption] at h
  | ok a => exact ⟨a, rfl, by simpa [Except.toOption] using h⟩

/-! ## Tokens from lexemes -/

theorem scan_of_tokenize {r : LexicalRules} {sql : String} {tokens : List Token} {finish : Token}
    (h : tokenize r sql = .ok (tokens, finish)) :
    (scan r false sql).tokens = tokens ∧ (scan r false sql).stop = .ok finish := by
  unfold tokenize at h
  cases hstop : (scan r false sql).stop with
  | error f => simp [hstop, Except.map] at h
  | ok t => simpa [hstop, Except.map] using h

/-- What holds of the kind and the text of every lexeme holds of the tokens of a scan. -/
theorem scanFrom_all {r : LexicalRules} {P : Shape → Prop}
    (h : ∀ c cs l, Lexer.lexeme r c cs = .ok l →
      P (l.kind, l.contents.getD (.ofList (c :: cs.take l.extra))))
    (keep : Bool) (p : Position) (spaced : Bool) (cs : List Char) :
    ∀ t ∈ (scanFrom r keep p spaced cs).tokens, P t.shape := by
  induction p, spaced, cs using scanFrom.induct r keep with
  | case1 p spaced => simp [scanFrom]
  | case2 p spaced c cs f hlexeme => simp [scanFrom, hlexeme]
  | case3 p spaced c cs l hlexeme source hdropped ih =>
    rw [scanFrom, hlexeme]
    simpa only [hdropped, if_true] using ih
  | case4 p spaced c cs l hlexeme source hkept ih =>
    intro t ht
    rw [scanFrom, hlexeme] at ht
    have hcut : (l.kind.isTrivia && !keep) = false := Bool.eq_false_iff.mpr hkept
    simp only [hcut] at ht
    rcases List.mem_cons.mp ht with rfl | ht
    · exact h c cs l hlexeme
    · exact ih t ht

theorem tokenize_all {r : LexicalRules} {P : Shape → Prop}
    (h : ∀ c cs l, Lexer.lexeme r c cs = .ok l →
      P (l.kind, l.contents.getD (.ofList (c :: cs.take l.extra))))
    {sql : String} {tokens : List Token} {finish : Token}
    (htokens : tokenize r sql = .ok (tokens, finish)) : ∀ t ∈ tokens, P t.shape := by
  obtain ⟨rfl, -⟩ := scan_of_tokenize htokens
  exact scanFrom_all h false .start false sql.toList

/-- The end of a text has no text of its own. -/
theorem scanFrom_finish {r : LexicalRules} {keep : Bool} {p : Position} {spaced : Bool} {cs : List Char}
    {finish : Token} (h : (scanFrom r keep p spaced cs).stop = .ok finish) :
    finish.shape = (.finish, "") := by
  induction p, spaced, cs using scanFrom.induct r keep with
  | case1 p spaced =>
    rw [scanFrom] at h
    cases h
    rfl
  | case2 p spaced c cs f hlexeme =>
    rw [scanFrom, hlexeme] at h
    cases h
  | case3 p spaced c cs l hlexeme source hdropped ih =>
    rw [scanFrom, hlexeme] at h
    simp only [hdropped, if_true] at h
    exact ih h
  | case4 p spaced c cs l hlexeme source hkept ih =>
    rw [scanFrom, hlexeme] at h
    have hcut : (l.kind.isTrivia && !keep) = false := Bool.eq_false_iff.mpr hkept
    simp only [hcut] at h
    exact ih h

theorem tokenize_finish {r : LexicalRules} {sql : String} {tokens : List Token} {finish : Token}
    (h : tokenize r sql = .ok (tokens, finish)) : finish.shape = (.finish, "") :=
  scanFrom_finish (scan_of_tokenize h).2

/-! ## Numbers -/

namespace Lexer

variable {cs : List Char}

theorem digits_take {n : Nat} (h : digits cs ≤ n) : digits (cs.take n) = digits cs := by
  induction cs generalizing n with
  | nil => rw [List.take_nil]
  | cons c cs ih =>
    cases n with
    | zero =>
      rw [List.take_zero]
      exact (Nat.le_zero.mp h).symm
    | succ n =>
      unfold digits at ih h ⊢
      by_cases hc : c.isDigit = true
      · simp only [List.takeWhile_cons, hc, if_true, List.length_cons, List.take_succ_cons] at h ⊢
        rw [ih (Nat.le_of_succ_le_succ h)]
      · simp [hc]

theorem digits_le_mantissa {m : Nat} (h : mantissa cs = some m) : digits cs ≤ m := by
  unfold mantissa at h
  dsimp only at h
  split at h
  · split at h
    · obtain rfl := Option.some.inj h
      omega
    · cases h
  · split at h
    · exact (Option.some.inj h).le
    · cases h

theorem mantissa_take {m n : Nat} (h : mantissa cs = some m) (hn : m ≤ n) :
    mantissa (cs.take n) = some m := by
  have hwhole := digits_le_mantissa h
  unfold mantissa at h ⊢
  dsimp only at h ⊢
  rw [digits_take (hwhole.trans hn), List.drop_take]
  cases hdrop : cs.drop (digits cs) with
  | nil => simpa [hdrop] using h
  | cons x rest =>
    by_cases hx : x = '.'
    · subst hx
      simp only [hdrop] at h
      have hfraction : digits cs + 1 + digits rest ≤ n := by
        split at h
        · obtain rfl := Option.some.inj h
          exact hn
        · cases h
      obtain ⟨k, hk⟩ : ∃ k, n - digits cs = k + 1 := ⟨n - digits cs - 1, by omega⟩
      simp only [hk, List.take_succ_cons]
      rwa [digits_take (by omega)]
    · cases hk : n - digits cs with
      | zero => simpa [hdrop, hx] using h
      | succ k => simpa [hdrop, hx] using h

theorem exponent_take (cs : List Char) : exponent (cs.take (exponent cs)) = exponent cs := by
  match cs with
  | [] => rfl
  | [e] => simp [exponent]
  | e :: s :: ds =>
    by_cases he : (e == 'e' || e == 'E') = true
    · by_cases hs : (s == '+' || s == '-') = true
      · by_cases hpos : 0 < digits ds
        · simp [exponent, he, hs, hpos, digits_take]
        · simp [exponent, he, hs, hpos]
      · by_cases hpos : 0 < digits (s :: ds)
        · obtain ⟨k, hk⟩ := Nat.exists_eq_add_one.mpr hpos
          have htake : digits (s :: ds.take k) = digits (s :: ds) := by
            rw [← List.take_succ_cons, ← hk]
            exact digits_take le_rfl
          simp [exponent, he, hs, hk, htake]
        · simp [exponent, he, hs, hpos]
    · simp [exponent, he]

/-- A number at the head of a text is a number by itself. -/
theorem number_take {n : Nat} (h : number cs = some n) : number (cs.take n) = some n := by
  unfold number at h ⊢
  obtain ⟨m, hm, rfl⟩ := Option.map_eq_some_iff.mp h
  rw [mantissa_take hm (Nat.le_add_right m _), Option.map_some, List.drop_take,
    Nat.add_sub_cancel_left, exponent_take]

end Lexer

/-! ## Tokens of a text -/

/-- A token whose kind the dialect finds again in its text, as far as words and numbers go. -/
def Shape.IsLexed (d : Dialect) : Shape → Prop
  | (.word, w) => d.isBare w = true ∧ d.lexical.isReserved w = false
  | (.keyword, w) => d.isBare w = true ∧ d.lexical.isReserved w = true
  | (.number, w) => Lexer.number w.toList = some w.toList.length
  | _ => True

theorem Token.word_of_isLexed {d : Dialect} {t : Token} (h : t.shape.IsLexed d) (hkind : t.kind = .word) :
    d.isBare t.text = true ∧ d.lexical.isReserved t.text = false := by
  rw [Token.shape, hkind] at h
  exact h

theorem Lexer.isLexed_of_word {d : Dialect} {c : Char} {cs : List Char} {l : Lexeme}
    (h : word d.lexical c cs = some l) :
    Shape.IsLexed d (l.kind, l.contents.getD (.ofList (c :: cs.take l.extra))) := by
  unfold word at h
  split at h
  case isFalse => cases h
  case isTrue hstarts =>
    obtain rfl := Option.some.inj h
    have htake : cs.take (cs.takeWhile (continuesWord d.lexical)).length =
        cs.takeWhile (continuesWord d.lexical) :=
      (List.prefix_iff_eq_take.mp (List.takeWhile_prefix _)).symm
    have hbare : d.isBare (.ofList (c :: cs.takeWhile (continuesWord d.lexical))) = true := by
      simp only [Dialect.isBare, String.toList_ofList, hstarts, Bool.true_and, List.all_eq_true]
      exact fun x hx => List.mem_takeWhile_imp hx
    simp only [Option.getD_none, htake]
    split
    case isTrue hreserved => exact ⟨hbare, hreserved⟩
    case isFalse hfree => exact ⟨hbare, Bool.eq_false_iff.mpr hfree⟩

theorem Lexer.isLexed_of_lexeme {d : Dialect} (c : Char) (cs : List Char) (l : Lexeme)
    (h : lexeme d.lexical c cs = .ok l) :
    Shape.IsLexed d (l.kind, l.contents.getD (.ofList (c :: cs.take l.extra))) := by
  by_cases hword : l.kind = .word ∨ l.kind = .keyword
  · exact isLexed_of_word (word_of_lexeme h hword)
  by_cases hnumber : l.kind = .number
  · obtain ⟨n, hn, rfl⟩ := number_of_lexeme h hnumber
    obtain ⟨k, rfl⟩ := Nat.exists_eq_add_one.mpr (number_pos hn)
    have hsize : (c :: cs.take k).length = k + 1 :=
      List.length_take_of_le (i := k + 1) (l := c :: cs) (number_le hn)
    have hself : number (c :: cs.take k) = some (k + 1) := number_take hn
    simpa only [Shape.IsLexed, Option.getD_none, String.toList_ofList, Nat.add_sub_cancel,
      hsize] using hself
  · unfold Shape.IsLexed
    split <;> simp_all

/-- Words and numbers are found again in the texts of the tokens of a text. -/
theorem tokenize_lexed {d : Dialect} {sql : String} {tokens : List Token} {finish : Token}
    (h : tokenize d.lexical sql = .ok (tokens, finish)) : ∀ t ∈ tokens, t.shape.IsLexed d :=
  tokenize_all Lexer.isLexed_of_lexeme h

end SqlDialects
