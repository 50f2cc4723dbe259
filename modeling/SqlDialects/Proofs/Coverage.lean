import SqlDialects.Token.Lexer

/-!
# What the tokens of a text cover

* `Position.behind` : the place behind a text, by its line ends, its characters and its bytes;
* `Scan.places` : the places of the tokens of a scan, and the one at which it stops;
* `Covers` : a scan that cuts a text into tokens, with nothing between them but dropped trivia;
* `scanFrom_covers` : every scan is one;
* `scan_covers` : the tokens of a text with its trivia lie end to end, and every place is the one
  that its line ends, characters and bytes give.
-/

namespace SqlDialects

/-! ## Places -/

/-- The place behind the text `before`. Its column counts the characters behind the last line end. -/
def Position.behind (before : List Char) : Position where
  line := 1 + before.count '\n'
  column := 1 + (before.reverse.takeWhile (· != '\n')).length
  offset := (String.ofList before).utf8ByteSize

theorem Position.behind_snoc (before : List Char) (c : Char) :
    Position.behind (before ++ [c]) = (Position.behind before).next c := by
  have hsize : (String.ofList (before ++ [c])).utf8ByteSize =
      (String.ofList before).utf8ByteSize + c.utf8Size := by
    rw [String.ofList_append, ← String.singleton_eq_ofList, String.utf8ByteSize_append,
      String.utf8ByteSize_singleton]
  unfold Position.behind Position.next
  rw [hsize]
  by_cases hc : c = '\n'
  · simp [hc, Nat.add_assoc]
  · simp [hc, Nat.add_comm]

/-- The places that a scan counts are those behind the text that it has read. -/
theorem Position.behind_append (before source : List Char) :
    Position.behind (before ++ source) = (Position.behind before).after source := by
  induction source generalizing before with
  | nil => simp
  | cons c source ih => rw [Position.after_cons, ← behind_snoc, ← ih, List.append_cons]

/-- Text has bytes. -/
theorem Position.offset_behind_lt (before : List Char) {source : List Char} (h : source ≠ []) :
    (Position.behind before).offset < (Position.behind (before ++ source)).offset := by
  obtain ⟨c, source, rfl⟩ := List.exists_cons_of_ne_nil h
  have hc : String.ofList (c :: source) = String.singleton c ++ String.ofList source := by
    rw [String.singleton_eq_ofList, ← String.ofList_append, List.singleton_append]
  have hpos := c.utf8Size_pos
  simp only [Position.behind, String.ofList_append, String.utf8ByteSize_append, hc,
    String.utf8ByteSize_singleton]
  omega

/-- The place at which a scan stops: that of the end of the text or of the fault. -/
def Scan.place (s : Scan) : Option Position :=
  match s.stop with
  | .ok finish => some finish.position
  | .error f => f.position?

/-- The places of the tokens of a scan, and the one at which it stops. -/
def Scan.places (s : Scan) : List Position := s.tokens.map Token.position ++ s.place.toList

/-! ## Coverage -/

/-- Whether the text of a token of this kind is its contents, and not its spelling. -/
def Token.Kind.hasContents : Token.Kind → Bool
  | .string | .quotedName => true
  | _ => false

/-- The scan cuts the text `rest`, which stands behind `before`, into tokens: each starts where the
one before it ends, or behind trivia if `keep` does not hold. -/
inductive Covers (keep : Bool) : List Char → List Char → Scan → Prop
  | finish {before : List Char} {spaced : Bool} :
    Covers keep before [] ⟨[], .ok ⟨.finish, "", .behind before, spaced⟩⟩
  | fault {before rest : List Char} {f : LexicalFault} :
    Covers keep before rest ⟨[], .error (.lexical f (.behind before))⟩
  | skip {before source rest : List Char} {s : Scan} (hkeep : keep = false)
    (h : Covers keep (before ++ source) rest s) : Covers keep before (source ++ rest) s
  | token {before source rest : List Char} {t : Token} {s : Scan} (hsource : source ≠ [])
    (hplace : t.position = .behind before) (hkind : t.kind ≠ .finish)
    (htext : t.kind.hasContents = false → t.text = .ofList source)
    (hmark : t.kind = .param → source = ['?'] ∨ 1 < source.length)
    (h : Covers keep (before ++ source) rest s) :
    Covers keep before (source ++ rest) ⟨t :: s.tokens, s.stop⟩

namespace Lexer

variable {r : LexicalRules} {c : Char} {cs : List Char}

/-- What the kind of a lexeme at the head of `c :: cs` tells about its text. -/
structure Honest (c : Char) (cs : List Char) (l : Lexeme) : Prop where
  kind : l.kind ≠ .finish
  contents : l.kind.hasContents = false → l.contents = none
  /-- Only `?` is a parameter alone. -/
  mark : l.kind = .param → c = '?' ∧ l.extra = 0 ∨ 0 < l.extra ∧ cs ≠ []

theorem digits_pos (h : 0 < digits cs) : cs ≠ [] := by
  rintro rfl
  simp [digits] at h

theorem paramName_pos (h : 0 < paramName cs) : cs ≠ [] := by
  rintro rfl
  simp [paramName] at h

theorem mark_of_param {l : Lexeme} (h : param r c cs = some l) :
    c = '?' ∧ l.extra = 0 ∨ 0 < l.extra ∧ cs ≠ [] := by
  unfold param at h
  split at h
  case isFalse => cases h
  obtain ⟨n, hn, rfl⟩ := Option.map_eq_some_iff.mp h
  dsimp only
  unfold paramLength at hn
  dsimp only at hn
  split at hn
  · obtain rfl := Option.some.inj hn
    rcases Nat.eq_zero_or_pos (digits cs) with hzero | hpos
    · exact .inl ⟨rfl, hzero⟩
    · exact .inr ⟨hpos, digits_pos hpos⟩
  all_goals grind [digits_pos, paramName_pos]

theorem honest_of_trivia {l : Lexeme} (h : trivia r c cs = .ok (some l)) : Honest c cs l := by
  unfold trivia at h
  split at h
  · cases h
    exact ⟨by simp, fun _ => rfl, by simp⟩
  · split at h
    · cases h
      exact ⟨by simp, fun _ => rfl, by simp⟩
    · split at h
      · split at h
        · cases h
          exact ⟨by simp, fun _ => rfl, by simp⟩
        · cases h
      · cases h

theorem honest_of_stringAfter {quote : Char} {skipped : Nat} {body : List Char} {l : Lexeme}
    (h : stringAfter r quote skipped body = .ok l) : Honest c cs l := by
  unfold stringAfter at h
  split at h
  · cases h
    exact ⟨by simp, fun hk => by simp [Token.Kind.hasContents] at hk, by simp⟩
  · cases h

theorem honest_of_quotation {l : Lexeme} (h : quotation r c cs = some (.ok l)) : Honest c cs l := by
  unfold quotation at h
  split at h
  · exact honest_of_stringAfter (Option.some.inj h)
  · split at h
    · exact honest_of_stringAfter (Option.some.inj h)
    · split at h
      · have hname := Option.some.inj h
        unfold nameAfter at hname
        split at hname
        · cases hname
          exact ⟨by simp, fun hk => by simp [Token.Kind.hasContents] at hk, by simp⟩
        · cases hname
      · split at h
        · obtain ⟨tag, -, hbody⟩ := Option.map_eq_some_iff.mp h
          unfold dollarAfter at hbody
          dsimp only at hbody
          split at hbody
          · cases hbody
            exact ⟨by simp, fun hk => by simp [Token.Kind.hasContents] at hk, by simp⟩
          · cases hbody
        · cases h

theorem honest_plain : Honest c cs (plain r c cs) := by
  have hfound : ∀ l : Lexeme,
      (param r c cs <|> ((number (c :: cs)).map fun n => (⟨.number, n - 1, none⟩ : Lexeme)) <|>
        word r c cs <|> operator r c cs) = some l → Honest c cs l := by
    intro l hl
    simp only [Option.orElse_eq_orElse, Option.orElse_eq_or, Option.or_eq_some_iff] at hl
    rcases hl with hl | ⟨-, hl | ⟨-, hl | ⟨-, hl⟩⟩⟩
    · have hmark := mark_of_param hl
      unfold param at hl
      split at hl
      · obtain ⟨n, -, rfl⟩ := Option.map_eq_some_iff.mp hl
        exact ⟨by simp, fun _ => rfl, fun _ => hmark⟩
      · cases hl
    · obtain ⟨n, -, rfl⟩ := Option.map_eq_some_iff.mp hl
      exact ⟨by simp, fun _ => rfl, by simp⟩
    · unfold word at hl
      split at hl
      · cases hl
        exact ⟨by dsimp only; split <;> simp, fun _ => rfl, by dsimp only; split <;> simp⟩
      · cases hl
    · obtain ⟨op, -, rfl⟩ := Option.map_eq_some_iff.mp hl
      exact ⟨by simp, fun _ => rfl, by simp⟩
  unfold plain
  dsimp only
  cases hl : param r c cs <|> ((number (c :: cs)).map fun n => (⟨.number, n - 1, none⟩ : Lexeme)) <|>
    word r c cs <|> operator r c cs with
  | some l => exact hfound l hl
  | none => exact ⟨by dsimp only [Option.getD_none]; split <;> simp, fun _ => rfl,
      by dsimp only [Option.getD_none]; split <;> simp⟩

theorem honest_of_lexeme {l : Lexeme} (h : lexeme r c cs = .ok l) : Honest c cs l := by
  unfold lexeme at h
  split at h
  · cases h
  · next l' htrivia =>
    cases h
    exact honest_of_trivia htrivia
  · cases hq : quotation r c cs with
    | none =>
      rw [hq] at h
      cases h
      exact honest_plain
    | some q =>
      rw [hq] at h
      exact honest_of_quotation (hq.trans (congrArg some h))

end Lexer

/-- Every scan covers its text. -/
theorem scanFrom_covers (r : LexicalRules) (keep : Bool) (before rest : List Char) (spaced : Bool) :
    Covers keep before rest (scanFrom r keep (.behind before) spaced rest) := by
  -- The scan goes on behind a lexeme, so the induction is on the length of the text.
  induction hn : rest.length using Nat.strongRecOn generalizing before rest spaced with
  | ind n ih =>
    subst hn
    cases rest with
    | nil =>
      rw [scanFrom]
      exact .finish
    | cons c cs =>
      rw [scanFrom]
      split
      · exact .fault
      · next l hl =>
        have hlexeme := Lexer.honest_of_lexeme hl
        have hcut : c :: cs = (c :: cs.take l.extra) ++ cs.drop l.extra := by simp
        have hrest : (cs.drop l.extra).length < (c :: cs).length := by
          simp only [List.length_drop, List.length_cons]
          omega
        dsimp only
        rw [← Position.behind_append]
        split
        · next hskip =>
          rw [hcut]
          refine .skip ?_ (ih _ hrest _ _ _ rfl)
          simpa using (Bool.and_eq_true_iff.mp hskip).2
        · rw [hcut]
          refine .token (by simp) rfl hlexeme.kind (fun hk => ?_) (fun hk => ?_) (ih _ hrest _ _ _ rfl)
          · simp [hlexeme.contents hk]
          · rcases hlexeme.mark hk with ⟨rfl, hzero⟩ | ⟨hpos, hne⟩
            · exact .inl (by simp [hzero])
            · have hlength : 0 < cs.length := List.length_pos_iff.mpr hne
              exact .inr (by simp; omega)

namespace Covers

variable {keep : Bool} {before rest : List Char} {s : Scan}

/-- A scan stops at the end of the text, or at a fault of a token. -/
theorem stop (h : Covers keep before rest s) :
    (∃ finish, s.stop = .ok finish ∧ finish.kind = .finish ∧
      finish.position = .behind (before ++ rest)) ∨ ∃ f p, s.stop = .error (.lexical f p) := by
  induction h with
  | finish => exact .inl ⟨_, rfl, rfl, by simp⟩
  | fault => exact .inr ⟨_, _, rfl⟩
  | skip _ _ ih => simpa using ih
  | token _ _ _ _ _ _ ih => simpa using ih

theorem kind (h : Covers keep before rest s) : ∀ t ∈ s.tokens, t.kind ≠ .finish := by
  induction h with
  | finish => simp
  | fault => simp
  | skip _ _ ih => exact ih
  | token _ _ hkind _ _ _ ih => simpa using ⟨hkind, ih⟩

/-- The only parameter without a name or a number is `?`. -/
theorem mark (h : Covers keep before rest s) :
    ∀ t ∈ s.tokens, t.kind = .param → t.text = "?" ∨ 1 < t.text.toList.length := by
  induction h with
  | finish => simp
  | fault => simp
  | skip _ _ ih => exact ih
  | token _ _ _ htext hmark _ ih =>
    refine List.forall_mem_cons.mpr ⟨fun hk => ?_, ih⟩
    rw [htext (by simp [hk, Token.Kind.hasContents])]
    rcases hmark hk with rfl | hlength
    · exact .inl rfl
    · exact .inr (by simpa using hlength)

/-- Every place of a scan is the place behind a part of the text. -/
theorem places (h : Covers keep before rest s) :
    ∀ p ∈ s.places, ∃ read unread, rest = read ++ unread ∧ p = .behind (before ++ read) := by
  induction h with
  | finish => simp [Scan.places, Scan.place]
  | @fault before rest f =>
    intro p hp
    obtain rfl : p = .behind before := by
      simpa [Scan.places, Scan.place, Fault.position?] using hp
    exact ⟨[], rest, rfl, by simp⟩
  | @skip before source rest s _ _ ih =>
    intro p hp
    obtain ⟨read, unread, rfl, rfl⟩ := ih p hp
    exact ⟨source ++ read, unread, by simp, by simp⟩
  | @token before source rest t s _ hplace _ _ _ _ ih =>
    intro p hp
    rw [show (⟨t :: s.tokens, s.stop⟩ : Scan).places = t.position :: s.places from rfl,
      List.mem_cons] at hp
    rcases hp with rfl | hp
    · exact ⟨[], source ++ rest, rfl, by simp [hplace]⟩
    · obtain ⟨read, unread, rfl, rfl⟩ := ih p hp
      exact ⟨source ++ read, unread, by simp, by simp⟩

/-- With its trivia, a text is covered from its first character on. -/
theorem head (h : Covers true before rest s) : s.places.head? = some (.behind before) := by
  cases h with
  | finish => rfl
  | fault => rfl
  | skip hkeep => cases hkeep
  | token _ hplace => simpa [Scan.places] using hplace

/-- Each token starts behind the one before it. -/
theorem increasing (h : Covers true before rest s) :
    (s.places.map Position.offset).Pairwise (· < ·) := by
  induction h with
  | finish => simp [Scan.places, Scan.place]
  | fault => simp [Scan.places, Scan.place, Fault.position?]
  | skip hkeep => cases hkeep
  | @token before source rest t s hsource hplace _ _ _ h ih =>
    rw [show (⟨t :: s.tokens, s.stop⟩ : Scan).places = t.position :: s.places from rfl,
      List.map_cons, List.pairwise_cons]
    refine ⟨?_, ih⟩
    intro o ho
    obtain ⟨p, hp, rfl⟩ := List.mem_map.mp ho
    obtain ⟨read, unread, rfl, rfl⟩ := h.places p hp
    rw [hplace, List.append_assoc]
    exact Position.offset_behind_lt before (by simp [hsource])

/-- A scan with trivia has no more tokens than the text has bytes. -/
theorem length_le (h : Covers true before rest s) :
    s.tokens.length + (Position.behind before).offset ≤ (Position.behind (before ++ rest)).offset := by
  induction h with
  | finish => simp
  | @fault before rest f => simp [Position.behind, String.utf8ByteSize_append]
  | skip hkeep => cases hkeep
  | @token before source rest t s hsource _ _ _ _ _ ih =>
    have hlt := Position.offset_behind_lt before hsource
    simp only [List.length_cons, ← List.append_assoc]
    omega

/-- The text of a token without contents reaches from its place to the next one. -/
theorem text (h : Covers true before rest s) {i : Nat} {t : Token} {p : Position}
    (ht : s.tokens[i]? = some t) (hp : s.places[i + 1]? = some p)
    (hk : t.kind.hasContents = false) :
    ∃ read unread, rest = read ++ t.text.toList ++ unread ∧ t.position = .behind (before ++ read) ∧
      p = .behind (before ++ read ++ t.text.toList) := by
  induction h generalizing i with
  | finish => cases ht
  | fault => cases ht
  | skip hkeep => cases hkeep
  | @token before source rest t' s _ hplace _ htext _ h ih =>
    rw [show (⟨t' :: s.tokens, s.stop⟩ : Scan).places = t'.position :: s.places from rfl,
      List.getElem?_cons_succ] at hp
    cases i with
    | zero =>
      obtain rfl : t' = t := by simpa using ht
      have hnext : p = .behind (before ++ source) := by
        rw [← List.head?_eq_getElem?, h.head] at hp
        exact (Option.some.inj hp).symm
      exact ⟨[], rest, by simp [htext hk], by simp [hplace], by simp [htext hk, hnext]⟩
    | succ i =>
      obtain ⟨read, unread, rfl, hat, hto⟩ := ih (by simpa using ht) hp
      exact ⟨source ++ read, unread, by simp, by simpa using hat, by simpa using hto⟩

end Covers

/-- With its trivia, a text of `n` bytes is cut into at most `n` tokens, which lie end to end from
its first byte on: the scan ends once, in the end of the text or in a fault, the offsets increase,
and the text of every token without contents is what stands between its place and the next one. In
every scan, with trivia or without, a place is a boundary between characters, its line counts the
line ends before it and its column the characters behind the last of them. -/
theorem scan_covers (r : LexicalRules) (sql : String) :
    (scan r true sql).tokens.length ≤ sql.utf8ByteSize ∧
    (∀ t ∈ (scan r true sql).tokens, t.kind ≠ .finish) ∧
    ((∃ finish, (scan r true sql).stop = .ok finish ∧ finish.kind = .finish ∧
        finish.position.offset = sql.utf8ByteSize) ∨
      ∃ f p, (scan r true sql).stop = .error (.lexical f p)) ∧
    (scan r true sql).places.head?.map Position.offset = some 0 ∧
    ((scan r true sql).places.map Position.offset).Pairwise (· < ·) ∧
    (∀ i t p, (scan r true sql).tokens[i]? = some t → (scan r true sql).places[i + 1]? = some p →
      t.kind ∉ [.string, .quotedName] → ∃ before after : String, sql = before ++ t.text ++ after ∧
        t.position.offset = before.utf8ByteSize ∧ p.offset = (before ++ t.text).utf8ByteSize) ∧
    ∀ trivia, ∀ p ∈ (scan r trivia sql).places, ∃ before after : String, sql = before ++ after ∧
      p.offset = before.utf8ByteSize ∧ p.line = 1 + before.toList.count '\n' ∧
      p.column = 1 + (before.toList.reverse.takeWhile (· != '\n')).length := by
  have hcovers : ∀ trivia, Covers trivia [] sql.toList (scan r trivia sql) := fun trivia =>
    scanFrom_covers r trivia [] sql.toList false
  have h := hcovers true
  have hsize : (Position.behind sql.toList).offset = sql.utf8ByteSize := by simp [Position.behind]
  refine ⟨?_, h.kind, ?_, ?_, h.increasing, ?_, ?_⟩
  · have hle := h.length_le
    simp only [List.nil_append, hsize] at hle
    omega
  · rcases h.stop with ⟨finish, hstop, hkind, hplace⟩ | hfault
    · exact .inl ⟨finish, hstop, hkind, by rw [hplace, List.nil_append, hsize]⟩
    · exact .inr hfault
  · rw [h.head]
    rfl
  · intro i t p ht hp hk
    have hcontents : t.kind.hasContents = false := by
      revert hk
      cases t.kind <;> simp [Token.Kind.hasContents]
    obtain ⟨read, unread, hsql, hat, hto⟩ := h.text ht hp hcontents
    refine ⟨.ofList read, .ofList unread, ?_, ?_, ?_⟩
    · rw [← String.ofList_toList (s := sql), hsql]
      simp [String.append_assoc]
    · rw [hat]
      simp [Position.behind]
    · rw [hto]
      simp [Position.behind]
  · intro trivia p hp
    obtain ⟨read, unread, hsql, rfl⟩ := (hcovers trivia).places p hp
    refine ⟨.ofList read, .ofList unread, ?_, ?_⟩
    · rw [← String.ofList_toList (s := sql), hsql]
      simp
    · simp [Position.behind]

end SqlDialects
