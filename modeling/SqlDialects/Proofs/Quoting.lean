import SqlDialects.Proofs.Phrases
import SqlDialects.Proofs.Registrations

/-!
# Written names and strings at the head of a text

* `Scan.unplaced` : a scan without the places of its tokens;
* `LexicalRules.Leads` : a text that is one token in front of another text;
* `written_leads` : a dialect reads the names and the strings that it writes, whatever they hold;
* `customQuotes_lead_iff` : a custom dialect reads the names that it quotes, unless its base has
  strings in the same quotes.
-/

namespace SqlDialects

open Text

/-! ## Scans without places -/

/-- A token as if it stood at the beginning. -/
def Token.unplaced (t : Token) : Token := { t with position := .start }

/-- A fault of a scan as if it lay at the beginning. -/
def Fault.unplaced : Fault → Fault
  | .lexical cause _ => .lexical cause .start
  | other => other

/-- A scan without the places of its tokens and of its fault. -/
def Scan.unplaced (s : Scan) : Scan :=
  ⟨s.tokens.map Token.unplaced, (s.stop.map Token.unplaced).mapError Fault.unplaced⟩

/-- A text has the same tokens wherever it stands. -/
theorem scanFrom_unplaced (r : LexicalRules) (keep : Bool) (p q : Position) (spaced : Bool)
    (cs : List Char) :
    (scanFrom r keep p spaced cs).unplaced = (scanFrom r keep q spaced cs).unplaced := by
  induction hn : cs.length using Nat.strongRecOn generalizing cs p q spaced with
  | ind n ih =>
    cases cs with
    | nil =>
      rw [scanFrom, scanFrom]
      rfl
    | cons c cs =>
      rw [scanFrom, scanFrom]
      cases hlex : Lexer.lexeme r c cs with
      | error f => rfl
      | ok l =>
        have hshorter : (cs.drop l.extra).length < n := by
          rw [List.length_drop, ← hn, List.length_cons]
          omega
        have hrest (spaced : Bool) := ih _ hshorter (p.after (c :: cs.take l.extra))
          (q.after (c :: cs.take l.extra)) spaced _ rfl
        dsimp only
        split
        · exact hrest true
        · have htokens := congrArg Scan.tokens (hrest false)
          have hstop := congrArg Scan.stop (hrest false)
          simp only [Scan.unplaced] at htokens hstop ⊢
          rw [List.map_cons, List.map_cons, htokens, hstop]
          rfl

/-! ## The token at the head of a text -/

/-- Before the text `w`, the text `s` is the token `first`: with or without trivia, a scan of both has
this token and behind it the tokens of `w`. -/
def LexicalRules.Leads (r : LexicalRules) (s : String) (first : Shape) (w : String) : Prop :=
  ∀ keep : Bool, ∃ rest : Scan,
    scan r keep (s ++ w) = ⟨⟨first.1, first.2, .start, false⟩ :: rest.tokens, rest.stop⟩ ∧
      rest = scanFrom r keep (Position.start.after s.toList) false w.toList ∧
      rest.unplaced = (scan r keep w).unplaced

/-- A lexeme that is no trivia is the token at the head of a text. -/
theorem leads_of_lexeme {r : LexicalRules} {s w : String} {first : Shape} {c : Char}
    {cs : List Char} {l : Lexeme} (hs : s.toList = c :: cs)
    (hlex : Lexer.lexeme r c (cs ++ w.toList) = .ok l) (htrivia : l.kind.isTrivia = false)
    (hextra : l.extra = cs.length) (hfirst : (l.kind, l.contents.getD s) = first) :
    r.Leads s first w := by
  intro keep
  subst hfirst
  refine ⟨_, ?_, rfl, scanFrom_unplaced r keep _ _ false w.toList⟩
  unfold scan
  rw [String.toList_append, hs, List.cons_append, scanFrom, hlex]
  simp [htrivia, hextra, ← hs]

theorem IsToken.leads {d : Dialect} {s w : String} {first : Shape}
    (hs : IsToken d w.toList.head? s.toList first) : d.lexical.Leads s first w := by
  obtain ⟨c, cs, l, hlist, hlex, htrivia, hextra, hfirst⟩ := hs.reads w.toList rfl
  rw [String.ofList_toList] at hfirst
  exact leads_of_lexeme hlist hlex htrivia hextra hfirst

/-! ## Built-in dialects -/

/-- What may stand behind a name or a string: nothing, a blank, a comma or the end of a list. -/
def nameEnds : List (Option Char) := [none, some ' ', some ',', some ')']

/-- No such end is a quote that closes a string or a name. -/
theorem not_closing_of_nameEnd {h : Option Char} (hh : h ∈ nameEnds) :
    ∀ c ∈ ['\'', '"', '`', ']'], h ≠ some c := by
  revert h
  decide

theorem wordEnd_of_nameEnd {h : Option Char} (hh : h ∈ nameEnds) : h ∈ wordEnds := by
  revert h
  decide

/-- A dialect reads the names and the strings that it writes. A name is quoted if it, the layout or
its text asks for it; one that is written bare is no keyword. -/
theorem written_leads {d : Dialect} (hd : d ∈ Dialect.builtins) {t : Target} (ht : t.dialect = d)
    (v : String) {w : String} (hw : w.toList.head? ∈ nameEnds) :
    d.lexical.Leads (t.string v) (.string, v) w ∧
      ∀ quoted : Bool,
        if quoted || t.layout.identify || t.needsQuotes v then
          t.name ⟨v, quoted⟩ = t.quote v ∧ d.lexical.Leads (t.name ⟨v, quoted⟩) (.quotedName, v) w
        else
          t.name ⟨v, quoted⟩ = v ∧ d.lexical.Leads (t.name ⟨v, quoted⟩) (.word, v) w := by
  have hlegible := legible_of_mem_builtins hd
  constructor
  · have hquote : w.toList.head? ≠ some '\'' := not_closing_of_nameEnd hw '\'' (by decide)
    exact (isToken_string hlegible ht v hquote).leads
  · intro quoted
    have hname : d.lexical.Leads (t.name ⟨v, quoted⟩) (t.reread ⟨v, quoted⟩).shape w :=
      ((Spelled.dottable_name hlegible ht ⟨v, quoted⟩).token _ (wordEnd_of_nameEnd hw)).leads
    unfold Target.reread Name.shape at hname
    split
    · next hquoted =>
      rw [if_pos hquoted] at hname
      exact ⟨if_pos hquoted, hname⟩
    · next hbare =>
      rw [if_neg hbare] at hname
      exact ⟨if_neg hbare, hname⟩

/-- A reserved word before a list's end and a string of quotes and backslashes before a comma. -/
theorem written_leads_mysql :
    let t : Target := { dialect := Dialect.mysql }
    Dialect.mysql.lexical.Leads (t.string "\\'") (.string, "\\'") ", x" ∧
      t.name ⟨"select", false⟩ = "`select`" ∧
        Dialect.mysql.lexical.Leads "`select`" (.quotedName, "select") ")" := by
  have hmysql : Dialect.mysql ∈ Dialect.builtins := by decide +kernel
  have hstring := (written_leads hmysql (t := { dialect := Dialect.mysql }) rfl "\\'" (w := ", x")
    (by decide)).1
  have hname := (written_leads hmysql (t := { dialect := Dialect.mysql }) rfl "select" (w := ")")
    (by decide)).2 false
  have htext : Target.name { dialect := Dialect.mysql } ⟨"select", false⟩ = "`select`" := by
    decide +kernel
  have hquoted : Target.needsQuotes { dialect := Dialect.mysql } "select" = true := by
    decide +kernel
  simp only [hquoted, Bool.or_true, if_true, htext] at hname
  exact ⟨hstring, htext, hname.2⟩

/-! ## Custom quotes -/

/-- What the quotes of names depend on: the lexical rules but for the reserved words, and the quotes
that are written. -/
def Dialect.quotation (d : Dialect) : LexicalRules × Char × Char :=
  ({ d.lexical with reserved := [] }, d.writing.nameQuote)

theorem Dialect.quotation_limitStyle (d : Dialect) (style : LimitStyle) :
    (d.limitStyle style).quotation = d.quotation :=
  view_limitStyle quotation d style (fun _ _ _ => rfl) (fun _ _ => rfl) (fun _ _ => rfl)
    (fun _ _ => rfl) fun _ _ => rfl

namespace CustomDialect

theorem quotation_refine (c : CustomDialect) (d : Dialect) :
    (c.refine d).quotation = d.quotation :=
  view_refine Dialect.quotation c d Dialect.quotation_limitStyle (fun _ _ => rfl) (fun _ _ => rfl)
    (fun _ _ _ => rfl) fun _ _ _ => rfl

/-- The quotes of a custom dialect are those that it names, in front of those of its base. -/
theorem quotation_of_build {c : CustomDialect} {base d : Dialect} {quote : String}
    (hquote : c.nameQuote = some quote) (hbuild : c.build base = .ok d) :
    ∃ q, quotesOf? quote = some q ∧ d.quotation = (base.quoteNames q.1 q.2).quotation := by
  obtain ⟨-, d', hd', rfl⟩ := (build_eq_ok_iff c base d).mp hbuild
  rw [quoted, hquote] at hd'
  obtain ⟨q, hq, rfl⟩ := Option.map_eq_some_iff.mp hd'
  exact ⟨q, hq, by rw [quotation_refine]; rfl⟩

end CustomDialect

/-- The characters that open quoted names. -/
def openingQuotes : List Char := ['"', '`', '[']

/-- A quote starts no blank, no comment and no string with a prefix. -/
theorem openingQuote_apart {c : Char} (hc : c ∈ openingQuotes) :
    isBlank c = false ∧ c ≠ '#' ∧ c ≠ '-' ∧ c ≠ '/' ∧ c ≠ 'N' ∧ c ≠ 'n' := by
  revert c
  decide

/-- The quotes that can be named do not close at the end of a name. -/
theorem quotes_of_quotesOf? {quote : String} {q : Char × Char} (h : quotesOf? quote = some q) :
    q.1 ∈ openingQuotes ∧ ∀ e ∈ nameEnds, e ≠ some q.2 := by
  obtain ⟨before, behind, htable, -⟩ := List.lookup_eq_some_iff.mp h
  have hmem : (quote, q) ∈ [("\"", ('"', '"')), ("`", ('`', '`')), ("[", ('[', ']')),
      ("[]", ('[', ']'))] := htable ▸ by simp
  simp only [List.mem_cons, Prod.mk.injEq, List.not_mem_nil, or_false] at hmem
  rcases hmem with ⟨-, rfl⟩ | ⟨-, rfl⟩ | ⟨-, rfl⟩ | ⟨-, rfl⟩ <;> decide

/-- A dialect reads the quotes that it has been given, unless strings stand in them. -/
theorem quotesBy_quoteNames (d : Dialect) {q : Char × Char} (hq : q.1 ∈ openingQuotes) :
    (d.quoteNames q.1 q.2).lexical.quotesBy q = !d.lexical.stringQuotes.contains q.1 := by
  obtain ⟨hblank, hhash, hdash, hslash, hN, hn⟩ := openingQuote_apart hq
  simp [LexicalRules.quotesBy, Dialect.quoteNames, hblank, hhash, hdash, hslash, hN, hn]

/-- What a custom dialect with quotes of its own reads and writes: it writes quotes that can be named,
keeps the strings of its base, and reads what it writes unless it is one of these strings. -/
theorem CustomDialect.quotes_of_build {c : CustomDialect} {base d : Dialect} {quote : String}
    (hquote : c.nameQuote = some quote) (hbuild : c.build base = .ok d) :
    (d.writing.nameQuote.1 ∈ openingQuotes ∧ ∀ e ∈ nameEnds, e ≠ some d.writing.nameQuote.2) ∧
      d.lexical.stringQuotes = base.lexical.stringQuotes ∧
      d.lexical.quotesBy d.writing.nameQuote =
        !base.lexical.stringQuotes.contains d.writing.nameQuote.1 := by
  obtain ⟨q, hq, hview⟩ := quotation_of_build hquote hbuild
  have hspec := quotes_of_quotesOf? hq
  have hwritten : d.writing.nameQuote = q := congrArg Prod.snd hview
  have hstrings : d.lexical.stringQuotes = base.lexical.stringQuotes :=
    congrArg (fun view : LexicalRules × Char × Char => view.1.stringQuotes) hview
  have hread : d.lexical.quotesBy q = (base.quoteNames q.1 q.2).lexical.quotesBy q :=
    congrArg (fun view : LexicalRules × Char × Char => view.1.quotesBy q) hview
  rw [hwritten, hread, quotesBy_quoteNames base hspec.1]
  exact ⟨hspec, hstrings, rfl⟩

/-- A quoted name leads a text that does not go on with its closing quote. -/
theorem leads_quote {t : Target}
    (hq : t.dialect.lexical.quotesBy t.dialect.writing.nameQuote = true) (v : String) {w : String}
    (hw : w.toList.head? ≠ some t.dialect.writing.nameQuote.2) :
    t.dialect.lexical.Leads (t.quote v) (.quotedName, v) w := by
  have hlist : (t.quote v).toList = t.dialect.writing.nameQuote.1 ::
      (Target.doubled t.dialect.writing.nameQuote.2 v.toList ++
        [t.dialect.writing.nameQuote.2]) := by
    simp [Target.quote]
  have hlex := Lexer.lexeme_quotedName hq v.toList hw
  rw [String.ofList_toList] at hlex
  refine leads_of_lexeme hlist (by simpa using hlex) rfl ?_ rfl
  simp

/-- A text in the quotes of strings is a string, if it ends. -/
theorem kind_of_stringQuote {r : LexicalRules} {c : Char} {cs : List Char} {l : Lexeme}
    (hc : c ∈ openingQuotes) (hstring : c ∈ r.stringQuotes)
    (hlex : Lexer.lexeme r c cs = .ok l) : l.kind = .string := by
  obtain ⟨hblank, hhash, hdash, hslash, hN, hn⟩ := openingQuote_apart hc
  have htrivia : Lexer.trivia r c cs = .ok none :=
    Lexer.trivia_eq_none hblank (by simp [hhash]) (fun h => hdash h.1) (fun h => hslash h.1)
  have hquote : Lexer.quotation r c cs = some (Lexer.stringAfter r c 0 cs) := by
    simp [Lexer.quotation, hN, hn, hstring]
  simp only [Lexer.lexeme, htrivia, hquote, Option.getD_some, Lexer.stringAfter] at hlex
  split at hlex
  · obtain rfl := Except.ok.inj hlex
    rfl
  · cases hlex

/-- A name in the quotes of strings gives no other first token than a string. -/
theorem kind_of_quote {t : Target} (hopen : t.dialect.writing.nameQuote.1 ∈ openingQuotes)
    (hstring : t.dialect.writing.nameQuote.1 ∈ t.dialect.lexical.stringQuotes) (v w : String)
    (keep : Bool) :
    ∀ first ∈ (scan t.dialect.lexical keep (t.quote v ++ w)).tokens.head?,
      first.kind = .string := by
  have hlist : (t.quote v ++ w).toList = t.dialect.writing.nameQuote.1 ::
      (Target.doubled t.dialect.writing.nameQuote.2 v.toList ++
        t.dialect.writing.nameQuote.2 :: w.toList) := by
    simp [Target.quote]
  intro first hfirst
  unfold scan at hfirst
  rw [hlist, scanFrom] at hfirst
  split at hfirst
  · cases hfirst
  · next l hlex =>
    rw [kind_of_stringQuote hopen hstring hlex] at hfirst
    obtain rfl := Option.some.inj hfirst
    rfl

/-- A custom dialect with quotes of its own reads every name that it quotes exactly if its base has
no strings in the same quotes. If it has, each such name is a string or does not end. -/
theorem customQuotes_lead_iff {c : CustomDialect} {base d : Dialect} {quote : String}
    (hquote : c.nameQuote = some quote) (hbuild : c.build base = .ok d) :
    ((∀ t : Target, t.dialect = d → ∀ v w : String, w.toList.head? ∈ nameEnds →
        d.lexical.Leads (t.quote v) (.quotedName, v) w) ↔
      d.writing.nameQuote.1 ∉ base.lexical.stringQuotes) ∧
    (d.writing.nameQuote.1 ∈ base.lexical.stringQuotes →
      ∀ t : Target, t.dialect = d → ∀ (v w : String) (keep : Bool),
        ∀ first ∈ (scan d.lexical keep (t.quote v ++ w)).tokens.head?, first.kind = .string) := by
  obtain ⟨⟨hopen, hclose⟩, hstrings, hread⟩ := CustomDialect.quotes_of_build hquote hbuild
  have hstring (hin : d.writing.nameQuote.1 ∈ base.lexical.stringQuotes) (t : Target)
      (ht : t.dialect = d) (v w : String) (keep : Bool) :
      ∀ first ∈ (scan d.lexical keep (t.quote v ++ w)).tokens.head?, first.kind = .string := by
    subst ht
    exact kind_of_quote hopen (hstrings ▸ hin) v w keep
  refine ⟨⟨?_, ?_⟩, hstring⟩
  · intro hleads hin
    obtain ⟨rest, hscan, -⟩ := hleads { dialect := d } rfl "" "" (by decide) false
    have hkind := hstring hin { dialect := d } rfl "" "" false _ (by rw [hscan]; rfl)
    cases hkind
  · intro hout t ht v w hw
    subst ht
    have hquotes : t.dialect.lexical.quotesBy t.dialect.writing.nameQuote = true := by
      rw [hread]
      simpa using hout
    exact leads_quote hquotes v (hclose _ hw)

/-- On top of `mysql`, whose strings may stand in double quotes, double quotes do not quote names;
backquotes do. -/
theorem customQuotes_mysql :
    let doubled : CustomDialect := { name := "x", nameQuote := some "\"" }
    let back : CustomDialect := { name := "x", nameQuote := some "`" }
    ∃ d e, doubled.build Dialect.mysql = .ok d ∧ back.build Dialect.mysql = .ok e ∧
      ¬(∀ t : Target, t.dialect = d → ∀ v w : String, w.toList.head? ∈ nameEnds →
        d.lexical.Leads (t.quote v) (.quotedName, v) w) ∧
      ∀ t : Target, t.dialect = e → ∀ v w : String, w.toList.head? ∈ nameEnds →
        e.lexical.Leads (t.quote v) (.quotedName, v) w := by
  intro doubled back
  have hdoubled := (doubled.build_eq_ok_iff Dialect.mysql _).mpr ⟨by decide, _, rfl, rfl⟩
  have hback := (back.build_eq_ok_iff Dialect.mysql _).mpr ⟨by decide, _, rfl, rfl⟩
  refine ⟨_, _, hdoubled, hback, ?_, ?_⟩
  · rw [(customQuotes_lead_iff rfl hdoubled).1]
    decide +kernel
  · rw [(customQuotes_lead_iff rfl hback).1]
    decide +kernel

/-- The built-in bases with strings in double quotes; none has strings in other quotes of names. -/
example : ((Dialect.builtins.filter fun d => d.lexical.stringQuotes.contains '"').map Dialect.name =
      ["mysql", "singlestore", "doris", "starrocks", "hive", "spark2", "spark", "databricks",
        "bigquery"]) ∧
    ∀ d ∈ Dialect.builtins, '`' ∉ d.lexical.stringQuotes ∧ '[' ∉ d.lexical.stringQuotes := by
  decide +kernel

end SqlDialects
