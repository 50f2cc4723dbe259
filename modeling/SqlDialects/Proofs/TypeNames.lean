import SqlDialects.Proofs.IntervalTexts
import SqlDialects.Proofs.Productions
import SqlDialects.Proofs.Rereading

/-!
# Data types are read where they are written

* `DataType.IsReadable` : a type of a kind that the dialect has a name for, with arguments of 64 bits;
  `dataType_readable` : what is read is such a type, or known by its spelling only;
* `typeText`, `typeText_spelled`, `dataType_reads` : words with arguments behind them, and what is read
  from them;
* `TypeRules.Settled` : what is asked of the names of a dialect; `settled_of_mem_builtins` : the dialects
  of the library;
* `Target.dataType_eq_typeText` : the text of a type as its words and arguments;
* `dataType_survives` : a type with a meaning that a dialect reads is read again where it writes it.

A kind is written under one name, and read under many, some of them taken from another kind. So the name
of a kind has to be looked up again where it stands, with its own argument if it has one.
-/

namespace SqlDialects

open SqlDialects.Parser

/-! ## Numbers -/

namespace Text

theorem digitsFrom_eq_ofDigitChars (n : Nat) (cs : List Char) :
    digitsFrom n cs = Nat.ofDigitChars 10 cs n := by
  induction cs generalizing n with
  | nil => rfl
  | cons c cs ih => exact ih _

theorem toList_toString_ne_nil (n : Nat) : (toString n).toList ≠ [] := by
  rw [Nat.toString_eq_repr, Nat.toList_repr]
  exact Nat.toDigits_ne_nil

/-- The digits of a number below the bound write this number. -/
theorem natOf?_toString {bound n : Nat} (h : n < bound) : natOf? bound (toString n) = some n := by
  have hall : (toString n).toList.all Char.isDigit = true :=
    List.all_eq_true.mpr fun _ hc => Relaid.isDigit_of_toString _ hc
  have hvalue : digitsFrom 0 (toString n).toList = n := by
    rw [digitsFrom_eq_ofDigitChars, Nat.toString_eq_repr, Nat.toList_repr,
      Nat.ofDigitChars_toDigits (by decide) (by decide)]
  have hne : (toString n).toList.isEmpty = false :=
    List.isEmpty_eq_false_iff.mpr (toList_toString_ne_nil n)
  simp only [natOf?, hall, hvalue, hne, h, Bool.not_true, Bool.or_self, Bool.false_eq_true, if_false, if_true]

theorem lt_of_natOf? {bound n : Nat} {s : String} (h : natOf? bound s = some n) : n < bound := by
  unfold natOf? at h
  dsimp only at h
  split at h
  · cases h
  · split at h
    · next hlt =>
      obtain rfl := Option.some.inj h
      exact hlt
    · cases h

end Text

theorem Parser.numericArgs_toString {ps : List Nat} (h : ∀ n ∈ ps, n < Nat.pow 2 64) :
    numericArgs (ps.map toString) = some ps := by
  unfold numericArgs
  induction ps with
  | nil => rfl
  | cons n ps ih =>
    rw [List.map_cons, List.mapM_cons, Text.natOf?_toString (h n (by simp)),
      ih fun m hm => h m (by simp [hm])]
    rfl

theorem Parser.lt_of_numericArgs {args : List String} {ps : List Nat} (h : numericArgs args = some ps) :
    ∀ n ∈ ps, n < Nat.pow 2 64 := by
  unfold numericArgs at h
  induction args generalizing ps with
  | nil =>
    obtain rfl : ps = [] := by simpa using h.symm
    simp
  | cons arg args ih =>
    rw [List.mapM_cons] at h
    obtain ⟨n, hn, h⟩ := Option.bind_eq_some_iff.mp h
    obtain ⟨ns, hns, h⟩ := Option.bind_eq_some_iff.mp h
    obtain rfl : n :: ns = ps := Option.some.inj h
    exact List.forall_mem_cons.mpr ⟨Text.lt_of_natOf? hn, ih hns⟩

/-! ## Kinds and their arguments -/

namespace TypeKind

/-- Whether the types of this kind may have arguments. -/
def hasParams : TypeKind → Bool
  | decimal | char | varchar | binary | varbinary => true
  | _ => false

theorem params_withParams {k : TypeKind} (h : k.hasParams = false) (ps : List Nat) :
    (k.withParams ps).params = [] := by
  cases k <;> first | rfl | cases h

/-- A type is made of its kind and of the arguments that it keeps. -/
theorem withParams_params (k : TypeKind) (ps : List Nat) :
    k.withParams (k.withParams ps).params = k.withParams ps := by
  match ps with
  | [] => cases k <;> rfl
  | [n] => cases k <;> rfl
  | n :: m :: ps => cases k <;> rfl

/-- The arguments that a type keeps are some of those given. -/
theorem mem_of_mem_params (k : TypeKind) (ps : List Nat) : ∀ n ∈ (k.withParams ps).params, n ∈ ps := by
  match ps with
  | [] => cases k <;> simp [withParams, DataType.params]
  | [n] => cases k <;> simp [withParams, DataType.params]
  | n :: m :: ps => cases k <;> simp +contextual [withParams, DataType.params]

end TypeKind

/-! ## What is read -/

/-- The type is of a kind that has a name in `names`, with arguments of 64 bits. -/
def DataType.IsReadable (names : Table String TypeKind) (type : DataType) : Prop :=
  ∃ k ∈ names.map Prod.snd, ∃ ps : List Nat, (∀ n ∈ ps, n < Nat.pow 2 64) ∧ type = k.withParams ps

theorem typeOf_readable {names : Table String TypeKind} (w : TypeWords) (args : List String)
    (h : ∀ spelling, typeOf names w args ≠ .custom spelling) :
    (typeOf names w args).IsReadable names := by
  unfold typeOf at h ⊢
  dsimp only at h ⊢
  split
  · next k hfull =>
    -- The arguments belong to the name.
    split at hfull
    · cases hfull
    · exact ⟨k, List.mem_map_of_mem (Table.mem_of_get? hfull), [], by simp, rfl⟩
  · next hfull =>
    rw [hfull] at h
    split
    · next k hname =>
      refine ⟨k, List.mem_map_of_mem (Table.mem_of_get? hname), _, ?_, rfl⟩
      cases hnumbers : numericArgs args with
      | none => simp
      | some ps => exact lt_of_numericArgs hnumbers
    · next hname =>
      rw [hname] at h
      dsimp only at h
      split at h <;> exact absurd rfl (h _)

/-- What is read as a type is readable, or known by its spelling only. -/
theorem dataType_readable (d : Dialect) : Yields d Parser.dataType fun type =>
    (∀ spelling, type ≠ .custom spelling) → type.IsReadable d.reading.typeNames := by
  refine .rules (.skip fun first => ?_)
  dsimp only
  split
  · exact .skip fun _ => .skip fun words => .skip fun args => .pure (typeOf_readable words args)
  · exact .skip fun _ => (Yields.unexpected (P := fun _ => False)).bind fun _ h => h.elim

/-! ## Words with arguments behind them -/

namespace Parser

/-- The words `w` and the word behind them. -/
def TypeWords.extend (w : TypeWords) (word : String) : TypeWords :=
  ⟨s!"{w.key} {Text.upper word}", s!"{w.written} {word}"⟩

/-- The first word of a type. -/
def TypeWords.start (word : String) : TypeWords := ⟨Text.upper word, word⟩

/-- Whether some name is `key` or goes on behind it. -/
def leadsOn (names : Table String TypeKind) (key : String) : Bool :=
  names.keys.any fun n => n == key || (key ++ " ").toList.isPrefixOf n.toList

/-- Whether some name goes on with each of the words. -/
def allLeadOn (names : Table String TypeKind) : TypeWords → List String → Bool
  | _, [] => true
  | w, word :: words => leadsOn names (w.extend word).key && allLeadOn names (w.extend word) words

end Parser

section Reading

variable {F : Lapses} {d : Dialect} {names : Table String TypeKind} {w : TypeWords}
  {words : List String} {ts : List Shape}

theorem isBareWord_of_shape {t : Token} {word : String} (ht : t.shape = d.bare word) :
    t.isBareWord = true ∧ t.text = word := by
  obtain ⟨hkind, htext⟩ := Prod.ext_iff.mp ht
  refine ⟨?_, htext⟩
  simp only [Token.shape, Dialect.bare, Dialect.wordKind] at hkind
  unfold Token.isBareWord
  rw [hkind]
  split <;> simp_all

theorem moreTypeWords_word {word : String} (h : leadsOn names (w.extend word).key = true) :
    ReadsOr F d (moreTypeWords names w) (d.bare word :: ts) (some (w.extend word)) ts := by
  refine .peek fun t ht => ?_
  obtain ⟨hbare, rfl⟩ := isBareWord_of_shape ht
  have htest : (t.isBareWord && names.keys.any fun n =>
      n == (w.extend t.text).key || ((w.extend t.text).key ++ " ").toList.isPrefixOf n.toList) = true :=
    Bool.and_eq_true_iff.mpr ⟨hbare, h⟩
  dsimp only
  split
  · exact .advance fun _ _ => .pure _
  · next hno => exact absurd htest hno

theorem moreTypeWords_stop (h : (headShape ts).token.isBareWord = false) :
    ReadsOr F d (moreTypeWords names w) ts none ts := by
  refine .peek fun t ht => ?_
  have hbare : t.isBareWord = false := by
    rw [← ht] at h
    exact h
  simp only [hbare, Bool.false_and, Bool.false_eq_true, if_false]
  exact .pure none

/-- The words of a name are read one by one, up to what does not go on with it. -/
theorem typeWords_read (h : allLeadOn names w words = true)
    (hstop : ReadsOr F d (moreTypeWords names (words.foldl TypeWords.extend w)) ts none ts) :
    ReadsOr.Iterates F d (moreTypeWords names) w (words.map d.bare ++ ts)
      (words.foldl TypeWords.extend w) ts := by
  induction words generalizing w with
  | nil => exact ReadsOr.iterates_stop hstop
  | cons word words ih =>
    rw [allLeadOn, Bool.and_eq_true] at h
    exact ReadsOr.iterates_step (moreTypeWords_word h.1) (by simp) (ih h.2 hstop)

/-- The text `arg` is one token, which is read as an argument of a type. -/
structure IsTypeArg (d : Dialect) (arg : String) (s : Shape) : Prop where
  spelled : Spelled d arg [s]
  kind : s.1 = .number ∨ s.1 = .word ∨ s.1 = .keyword
  text : s.2 = arg

theorem isTypeArg_word (hd : d.Legible) {arg : String} (h : d.isWord arg = true) :
    IsTypeArg d arg (d.bare arg) := by
  refine ⟨.bare hd (Dialect.isBare_of_isWord h), ?_, rfl⟩
  unfold Dialect.bare Dialect.wordKind
  split
  · exact .inr (.inr rfl)
  · exact .inr (.inl rfl)

theorem isTypeArg_number (hd : d.Legible) (n : Nat) :
    IsTypeArg d (toString n) (.number, toString n) := by
  have hdigits (c : Char) (hc : c ∈ (toString n).toList) : c.isDigit = true :=
    Relaid.isDigit_of_toString c hc
  have hrun : ∀ c ∈ (toString n).toList, (c.isDigit || c == '.') = true := fun c hc => by
    rw [hdigits c hc, Bool.true_or]
  have hdecimal : Lexer.isDecimal (toString n).toList = true := by
    have hcount : (toString n).toList.count '.' = 0 :=
      List.count_eq_zero.mpr fun hdot => Lexer.not_isDigit_dot (hdigits '.' hdot)
    obtain ⟨c, hc⟩ := List.exists_mem_of_ne_nil _ (Text.toList_toString_ne_nil n)
    rw [Lexer.isDecimal, hcount, Bool.and_eq_true]
    exact ⟨List.any_eq_true.mpr ⟨c, hc, hdigits c hc⟩, rfl⟩
  have hnumber := (Lexer.number_run hrun).mpr hdecimal
  exact ⟨fun h hh => .single (isToken_number hd hnumber hh), .inl rfl, rfl⟩

theorem typeArg_reads {arg : String} {s : Shape} (h : IsTypeArg d arg s) :
    ReadsOr F d typeArg (s :: ts) arg ts := by
  refine .peek fun t ht => ?_
  obtain ⟨hkind, htext⟩ := Prod.ext_iff.mp ht
  obtain rfl : t.text = arg := htext.trans h.text
  have htake : ReadsOr F d (advance >>= fun _ => Pure.pure t.text) (s :: ts) t.text ts :=
    .advance fun _ _ => .pure _
  have hk : t.kind = s.1 := hkind
  rcases h.kind with hs | hs | hs <;> rw [hk, hs] <;> exact htake

/-! ## The text of a type -/

/-- The words of a type, and its arguments in parentheses if it has some. -/
def typeText (words args : List String) : String :=
  let list := String.intercalate ", " args
  String.intercalate " " words ++ if args.isEmpty then "" else s!"({list})"

/-- The tokens of the arguments of a type. -/
def argTokens (ss : List Shape) : List Shape :=
  if ss.isEmpty then [] else inParens (betweenCommas (ss.map ([·])))

/-- The words that `words` are read as. -/
def wordsOf : List String → TypeWords
  | [] => ⟨"", ""⟩
  | word :: words => words.foldl TypeWords.extend (.start word)

theorem typeText_spelled_bare {t : Target} (hd : t.dialect.Legible) {args : List String} {ss : List Shape}
    (hwords : ∀ w ∈ words, t.dialect.isBare w = true)
    (hargs : List.Forall₂ (fun arg s => Spelled t.dialect arg [s]) args ss) :
    Spelled t.dialect (typeText words args) (words.map t.dialect.bare ++ argTokens ss) := by
  cases hargs with
  | nil =>
    intro h hh
    simpa [typeText, argTokens] using Relaid.spells_words hd hwords (Spelled.closers_subset_wordEnds hh)
  | @cons arg s args ss harg hargs =>
    have hall : List.Forall₂ (Spelled t.dialect) (arg :: args) ((s :: ss).map ([·])) := by
      rw [List.forall₂_map_right_iff]
      exact .cons harg hargs
    have hgap : ", " ∈ Spelled.listGaps := by simp [Spelled.listGaps]
    have hlist := (Spelled.commaList hd hgap hall).parens hd
    intro h hh
    rw [typeText, String.toList_append]
    refine Spells.append (Relaid.spells_words hd hwords ?_) (hlist h hh)
    rw [List.isEmpty_cons, if_neg (by decide), String.append_assoc, String.toList_append]
    exact (by decide : some '(' ∈ wordEnds)

theorem typeText_spelled {t : Target} (hd : t.dialect.Tidy) {args : List String} {ss : List Shape}
    (hwords : ∀ w ∈ words, t.dialect.isWord w = true)
    (hargs : List.Forall₂ (IsTypeArg t.dialect) args ss) :
    Spelled t.dialect (typeText words args) (words.map t.dialect.bare ++ argTokens ss) :=
  typeText_spelled_bare hd.toLegible (fun w hw => Dialect.isBare_of_isWord (hwords w hw))
    (hargs.imp fun _ _ h => h.spelled)

/-- The words and the arguments of a type are read before what belongs to neither. -/
theorem dataType_reads_before {word : String} {args : List String} {ss rest : List Shape}
    (hwords : allLeadOn d.reading.typeNames (.start word) words = true)
    (hstop : ReadsOr F d (moreTypeWords d.reading.typeNames (wordsOf (word :: words)))
      (argTokens ss ++ rest) none (argTokens ss ++ rest))
    (hargs : List.Forall₂ (fun arg s => ∀ ts, ReadsOr F d typeArg (s :: ts) arg ts) args ss)
    (hopen : (headShape rest).isSymbol "(" = false) :
    ReadsOr F d Parser.dataType ((word :: words).map d.bare ++ (argTokens ss ++ rest))
      (typeOf d.reading.typeNames (wordsOf (word :: words)) args) rest := by
  have hlist : ReadsOr F d
      (optionalList (eatSymbol "(") do
        let args ← commaSeparated typeArg
        expectSymbol ")"
        return args) (argTokens ss ++ rest) args rest := by
    cases hargs with
    | nil => exact .optionalList_no (.eatSymbol_no hopen)
    | @cons arg s args ss harg hargs =>
      have hone : List.Forall₂ (fun ts arg => ∀ us, True → ReadsOr F d typeArg (ts ++ us) arg us)
          ((s :: ss).map ([·])) (arg :: args) := by
        rw [List.forall₂_map_left_iff]
        exact (List.Forall₂.cons harg hargs).flip.imp fun _ _ h us _ => h us
      have hall : ReadsOr F d (commaSeparated typeArg)
          (betweenCommas ((s :: ss).map ([·])) ++ .mark ")" :: rest) (arg :: args)
          (.mark ")" :: rest) :=
        .commaSeparated (E := fun _ => True) (by simp) hone (fun _ => trivial) trivial rfl
      rw [argTokens, List.isEmpty_cons, if_neg (by decide), inParens, List.cons_append,
        List.append_assoc, List.singleton_append]
      exact .optionalList (.eatSymbol rfl) (hall.bind ((ReadsOr.expectSymbol rfl).bind (.pure _)))
  refine .rules (.peek fun t ht => ?_)
  obtain ⟨hbare, rfl⟩ := isBareWord_of_shape ht
  simp only [hbare, if_true]
  refine .advance fun _ _ => (ReadsOr.iterate (typeWords_read hwords hstop)).bind ?_
  exact hlist.bind (.pure _)

/-- The words and the arguments of a type are read from its tokens. -/
theorem dataType_reads {word : String} {args : List String} {ss : List Shape}
    (hwords : allLeadOn d.reading.typeNames (.start word) words = true)
    (hargs : List.Forall₂ (IsTypeArg d) args ss) :
    ReadsOr F d Parser.dataType ((word :: words).map d.bare ++ argTokens ss)
      (typeOf d.reading.typeNames (wordsOf (word :: words)) args) [] := by
  have hstop : (headShape (argTokens ss ++ [])).token.isBareWord = false := by
    cases ss <;> rfl
  have hreads : ReadsOr F d Parser.dataType ((word :: words).map d.bare ++ (argTokens ss ++ []))
      (typeOf d.reading.typeNames (wordsOf (word :: words)) args) [] :=
    dataType_reads_before hwords (moreTypeWords_stop hstop) (hargs.imp fun _ _ h _ => typeArg_reads h) rfl
  rwa [List.append_nil] at hreads

end Reading

/-! ## Names and the numbers behind them -/

/-- What stands behind the parenthesis of a name. -/
def behindParen (name : String) : Option Char := (name.toList.dropWhile (· != '('))[1]?

theorem isDigit_toUpper {c : Char} (h : c.isDigit = true) : c.toUpper.isDigit = true := by
  have hall : ∀ x ∈ LexicalRules.decimalDigits, x.toUpper.isDigit = true := by decide
  exact hall c (Lexer.mem_digits_of_isDigit h)

/-- A name without arguments that is read as a kind is a name of this kind. -/
theorem get?_of_typeOf {names : Table String TypeKind} {w : TypeWords} {k : TypeKind}
    (h : typeOf names w [] = k.withParams []) : names.get? w.key = some k := by
  have hkind : (typeOf names w []).kind? = some k := by rw [h, TypeKind.kind?_withParams]
  unfold typeOf at hkind
  simp only [List.isEmpty_nil, if_true] at hkind
  split at hkind
  · next k' hk' =>
    rw [TypeKind.kind?_withParams] at hkind
    rw [hk', Option.some.inj hkind]
  · cases hkind

theorem head?_intercalate (gap : String) {s : String} (hs : s.toList ≠ []) (l : List String) :
    (String.intercalate gap (s :: l)).toList.head? = s.toList.head? := by
  cases l with
  | nil => rw [String.intercalate_singleton]
  | cons next l =>
    rw [String.intercalate_cons_cons, String.append_assoc, String.toList_append,
      List.head?_append_of_ne_nil _ hs]

/-- What stands behind the first parenthesis of a name that goes on with one. -/
theorem behindParen_of_open {key arg : String} {c : Char} (hkey : '(' ∉ key.toList)
    (harg : arg.toList.head? = some c) : behindParen s!"{key}({arg})" = some c := by
  have hlist : (s!"{key}({arg})").toList = key.toList ++ '(' :: (arg.toList ++ [')']) := by
    simp [toString]
  have hskip : ∀ x ∈ key.toList, (x != '(') = true := fun x hx =>
    bne_iff_ne.mpr fun heq => hkey (heq ▸ hx)
  obtain ⟨cs, hcs⟩ := List.head?_eq_some_iff.mp harg
  rw [behindParen, hlist, List.dropWhile_append_of_pos hskip, hcs]
  rfl

/-- Numbers behind a name without a parenthesis are the arguments of a type of its kind, if no name has a
number behind its parenthesis. -/
theorem typeOf_numbers {names : Table String TypeKind} {w : TypeWords} {k : TypeKind} {ps : List Nat}
    (h : typeOf names w [] = k.withParams []) (hopen : '(' ∉ w.key.toList)
    (hdigits : ∀ name ∈ names.keys, ∀ c ∈ behindParen name, c.isDigit = false)
    (hps : ∀ n ∈ ps, n < Nat.pow 2 64) : typeOf names w (ps.map toString) = k.withParams ps := by
  have hname : names.get? w.key = some k := get?_of_typeOf h
  cases ps with
  | nil => exact h
  | cons n ps =>
    have hne := Text.toList_toString_ne_nil n
    have hfull (list : String) (hlist : list = Text.upper (String.intercalate "," ((n :: ps).map toString))) :
        names.get? s!"{w.key}({list})" = none := by
      obtain ⟨c, cs, hn⟩ := List.exists_cons_of_ne_nil hne
      have hc : c.isDigit = true :=
        Relaid.isDigit_of_toString c (hn ▸ List.mem_cons_self)
      have hhead : list.toList.head? = some c.toUpper := by
        rw [hlist, Text.upper, String.toList_ofList, List.head?_map, List.map_cons,
          head?_intercalate _ hne, hn]
        rfl
      by_contra hsome
      obtain ⟨k', hk'⟩ := Option.ne_none_iff_exists'.mp hsome
      have hbehind := hdigits _ (Table.mem_keys_of_get? hk') _ (behindParen_of_open hopen hhead)
      rw [isDigit_toUpper hc] at hbehind
      cases hbehind
    unfold typeOf
    simp only [List.map_cons, List.isEmpty_cons, Bool.false_eq_true, if_false] at hfull ⊢
    rw [hfull _ rfl, hname]
    dsimp only
    rw [← List.map_cons, numericArgs_toString hps, Option.getD_some]

/-! ## The names of a dialect -/

/-- What a dialect fixes about types: the names that it reads, those that it writes, and the kinds that it
writes under the name of another. -/
structure TypeRules where
  names : Table String TypeKind
  written : Table TypeKind String
  folded : List TypeKind
deriving DecidableEq

/-- What the dialect fixes about types. -/
def Dialect.typeRules (d : Dialect) : TypeRules :=
  ⟨d.reading.typeNames, d.writing.typeNames, d.writing.foldedTypes⟩

namespace TypeRules

/-- The name of a kind. -/
def name (r : TypeRules) (k : TypeKind) : String := (r.written.get? k).getD k.standardName

/-- The characters of the words of the name of a kind, up to a parenthesis. -/
def wordChars (r : TypeRules) (k : TypeKind) : List (List Char) :=
  ((r.name k).toList.takeWhile (· != '(')).splitOn ' '

/-- The argument that the name of a kind has of its own, as in `VARCHAR(MAX)`. -/
def ownChars (r : TypeRules) (k : TypeKind) : Option (List Char) :=
  match (r.name k).toList.dropWhile (· != '(') with
  | [] => none
  | _ :: arg => some arg.dropLast

/-- The words of the name of a kind. -/
def words (r : TypeRules) (k : TypeKind) : List String := (r.wordChars k).map .ofList

/-- The arguments that the name of a kind has of its own. -/
def ownArgs (r : TypeRules) (k : TypeKind) : List String := (r.ownChars k).toList.map .ofList

/-- Whether the characters are a letter with letters, digits and underscores behind it. -/
def isPlain : List Char → Bool
  | [] => false
  | c :: cs => c.isAlpha && cs.all fun c => c.isAlpha || c.isDigit || c == '_'

theorem chars_of_isPlain {cs : List Char} (h : isPlain cs = true) :
    ∀ c ∈ cs, (c.isAlpha || c.isDigit || c == '_') = true := by
  cases cs with
  | nil => cases h
  | cons c cs =>
    rw [isPlain, Bool.and_eq_true, List.all_eq_true] at h
    exact List.forall_mem_cons.mpr ⟨by simp [h.1], h.2⟩

/-- What is asked of a kind so that it is read where it is written. -/
structure Settles (r : TypeRules) (k : TypeKind) : Prop where
  folded : k ∉ r.folded
  words : ∀ w ∈ r.wordChars k, isPlain w = true
  /-- A name with an argument of its own is the name of a kind without arguments. -/
  own : ∀ arg ∈ r.ownChars k, isPlain arg = true ∧ k.hasParams = false ∧
    (r.name k).toList.dropWhile (· != '(') = '(' :: (arg ++ [')'])
  /-- Each word goes on with the names that are read. -/
  leads : allLeadOn r.names (wordsOf ((r.words k).take 1)) (r.words k).tail = true
  means : typeOf r.names (wordsOf (r.words k)) (r.ownArgs k) = k.withParams []

instance (r : TypeRules) (k : TypeKind) : Decidable (r.Settles k) :=
  decidable_of_iff
    (k ∉ r.folded ∧ (∀ w ∈ r.wordChars k, isPlain w = true) ∧
      (∀ arg ∈ r.ownChars k, isPlain arg = true ∧ k.hasParams = false ∧
        (r.name k).toList.dropWhile (· != '(') = '(' :: (arg ++ [')'])) ∧
      allLeadOn r.names (wordsOf ((r.words k).take 1)) (r.words k).tail = true ∧
      typeOf r.names (wordsOf (r.words k)) (r.ownArgs k) = k.withParams [])
    ⟨fun ⟨h₁, h₂, h₃, h₄, h₅⟩ => ⟨h₁, h₂, h₃, h₄, h₅⟩,
      fun h => ⟨h.folded, h.words, h.own, h.leads, h.means⟩⟩

/-- What is asked of the rules so that types are read where they are written. -/
structure Settled (r : TypeRules) : Prop where
  kinds : ∀ k ∈ r.names.map Prod.snd, r.Settles k
  /-- No name has a number behind its parenthesis. -/
  digits : ∀ name ∈ r.names.keys, ∀ c ∈ behindParen name, c.isDigit = false

/-- Whether every kind that is read is settled, and no name has a number of its own. -/
def isSettled (r : TypeRules) : Bool :=
  (TypeKind.all.all fun k => !(r.names.map Prod.snd).contains k || decide (r.Settles k)) &&
    r.names.keys.all fun name => !(behindParen name).any Char.isDigit

theorem settled_of_isSettled {r : TypeRules} (h : r.isSettled = true) : r.Settled := by
  rw [isSettled, Bool.and_eq_true, List.all_eq_true, List.all_eq_true] at h
  refine ⟨fun k hk => ?_, fun name hname c hc => ?_⟩
  · have := h.1 k (TypeKind.mem_all k)
    simpa [hk] using this
  · have := h.2 name hname
    rw [Option.mem_def] at hc
    simpa [hc] using this

end TypeRules

/-- One dialect for each way of naming types. -/
def typeLeaders : List Dialect :=
  [.ansi, .postgres, .mysql, .tsql, .hive, .presto, .bigquery, .snowflake, .oracle, .clickhouse,
    .teradata]

/-- The types of every dialect of the library are read where it writes them. -/
theorem settled_of_mem_builtins {d : Dialect} (h : d ∈ Dialect.builtins) : d.typeRules.Settled := by
  have hfamilies : ∀ d ∈ Dialect.builtins, d.typeRules ∈ typeLeaders.map Dialect.typeRules := by
    decide +kernel
  have hleaders : (typeLeaders.all fun d => d.typeRules.isSettled) = true := by decide +kernel
  obtain ⟨leader, hleader, heq⟩ := List.mem_map.mp (hfamilies d h)
  rw [← heq]
  exact TypeRules.settled_of_isSettled (List.all_eq_true.mp hleaders leader hleader)

/-! ## The text of a type -/

theorem isWord_of_isPlain {d : Dialect} (hd : d.Legible) {cs : List Char}
    (h : TypeRules.isPlain cs = true) : d.isWord (.ofList cs) = true := by
  have hbare : d.isBare (.ofList cs) = true := by
    cases cs with
    | nil => cases h
    | cons c cs =>
      simp only [TypeRules.isPlain, Bool.and_eq_true, List.all_eq_true] at h
      simp only [Dialect.isBare, String.toList_ofList, Bool.and_eq_true, List.all_eq_true]
      refine ⟨by simp [Lexer.startsWord, Text.isAlphabetic_of_isAlpha h.1], fun x hx => ?_⟩
      have hx := h.2 x hx
      simp only [Bool.or_eq_true, beq_iff_eq] at hx
      rcases hx with (hx | hx) | rfl
      · simp [Lexer.continuesWord, Text.isAlphanumeric, Text.isAlphabetic_of_isAlpha hx]
      · simp [Lexer.continuesWord, Text.isAlphanumeric, Spelled.isNumeric_of_isDigit hx]
      · simp [Lexer.continuesWord]
  obtain ⟨c, cs', l, hlist, hlex, -, hextra, hshape⟩ :=
    (isToken_word hd hbare (h := none) (by decide)).reads [] rfl
  have hkind : l.kind = d.wordKind (.ofList cs) := congrArg Prod.fst hshape
  rw [List.append_nil] at hlex
  unfold Dialect.isWord Dialect.readsAs
  rw [hlist]
  simp only [hlex, hextra, hkind, beq_self_eq_true, Bool.and_true]
  unfold Dialect.wordKind
  split <;> rfl

namespace TypeRules

variable {r : TypeRules} {k : TypeKind}

/-- The arguments behind the name of a kind. -/
def args (r : TypeRules) (k : TypeKind) (ps : List Nat) : List String :=
  if k.hasParams then ps.map toString else r.ownArgs k

theorem words_text (r : TypeRules) (k : TypeKind) :
    (String.intercalate " " (r.words k)).toList = (r.name k).toList.takeWhile (· != '(') := by
  rw [String.toList_intercalate, words, List.map_map]
  simp only [Function.comp_def, String.toList_ofList, List.map_id']
  exact List.intercalate_splitOn ' '

theorem Settles.ownArgs_eq_nil (h : r.Settles k) (hk : k.hasParams = true) : r.ownArgs k = [] := by
  rw [ownArgs]
  cases harg : r.ownChars k with
  | none => rfl
  | some arg => exact absurd ((h.own arg harg).2.1.symm.trans hk) (by decide)

/-- A name is made of its words and of its own argument. -/
theorem Settles.typeText_name (h : r.Settles k) : typeText (r.words k) (r.ownArgs k) = r.name k := by
  have hparts := List.takeWhile_append_dropWhile (p := (· != '(')) (l := (r.name k).toList)
  rw [← words_text] at hparts
  refine String.toList_injective ?_
  rw [← hparts, typeText, String.toList_append, ownArgs]
  refine congrArg (_ ++ ·) ?_
  cases harg : r.ownChars k with
  | none =>
    unfold ownChars at harg
    split at harg
    · next hnil => rw [hnil]; rfl
    · cases harg
  | some arg =>
    rw [(h.own arg harg).2.2]
    simp [toString]

/-- The name of a kind with arguments is made of words only. -/
theorem Settles.words_name (h : r.Settles k) (hk : k.hasParams = true) :
    String.intercalate " " (r.words k) = r.name k := by
  have hname := h.typeText_name
  rwa [h.ownArgs_eq_nil hk, typeText, List.isEmpty_nil, if_pos rfl, String.append_empty] at hname

theorem Settles.name_closed (h : r.Settles k) (hk : k.hasParams = true) : '(' ∉ (r.name k).toList := by
  intro hopen
  rw [← h.words_name hk, words_text] at hopen
  exact absurd (List.mem_takeWhile_imp hopen) (by decide)

end TypeRules

section Survival

variable {t : Target} {k : TypeKind}

theorem eq_open_of_toUpper {c : Char} (h : c.toUpper = '(') : c = '(' := by
  have halpha : c.isAlpha = false := by
    rw [← Char.isAlpha_toUpper_eq_isAlpha, h]
    rfl
  have hlower : ¬c.isLower = true := fun hlower => by simp [Char.isAlpha, hlower] at halpha
  rw [← h, Char.toUpper_eq_of_not_isLower hlower]

theorem foldl_extend_closed {w : TypeWords} {words : List String} (hw : '(' ∉ w.key.toList)
    (hwords : ∀ word ∈ words, '(' ∉ (Text.upper word).toList) :
    '(' ∉ (words.foldl TypeWords.extend w).key.toList := by
  induction words generalizing w with
  | nil => exact hw
  | cons word words ih =>
    obtain ⟨hword, hwords⟩ := List.forall_mem_cons.mp hwords
    refine ih ?_ hwords
    simpa [TypeWords.extend, toString] using ⟨hw, hword⟩

/-- The words of a name are read as a key without a parenthesis. -/
theorem TypeRules.Settles.key_closed {r : TypeRules} (h : r.Settles k) :
    '(' ∉ (wordsOf (r.words k)).key.toList := by
  have hupper : ∀ word ∈ r.words k, '(' ∉ (Text.upper word).toList := by
    intro word hword hopen
    obtain ⟨cs, hcs, rfl⟩ := List.mem_map.mp hword
    rw [Text.upper, String.toList_ofList, String.toList_ofList] at hopen
    obtain ⟨c, hc, hupper⟩ := List.mem_map.mp hopen
    obtain rfl := eq_open_of_toUpper hupper
    exact absurd (TypeRules.chars_of_isPlain (h.words cs hcs) _ hc) (by decide)
  cases hlist : r.words k with
  | nil => simp [wordsOf]
  | cons word words =>
    rw [hlist] at hupper
    obtain ⟨hword, hwords⟩ := List.forall_mem_cons.mp hupper
    exact foldl_extend_closed hword hwords

/-- The text of a type is that of the words of its name, and of its arguments. -/
theorem Target.dataType_eq_typeText (h : t.dialect.typeRules.Settles k) (ps : List Nat) :
    t.dataType (k.withParams ps) =
      typeText (t.dialect.typeRules.words k) (t.dialect.typeRules.args k (k.withParams ps).params) := by
  have hname : t.dialect.typeName k = t.dialect.typeRules.name k := rfl
  have hkept : k ∉ t.dialect.writing.foldedTypes := h.folded
  have hfolded : t.dialect.writing.foldedTypes.contains k = false := by simpa using hkept
  unfold Target.dataType
  simp only [TypeKind.kind?_withParams, hname, hfolded, TypeRules.args, Bool.or_false]
  cases hk : k.hasParams with
  | false => simp [TypeKind.params_withParams hk, h.typeText_name]
  | true =>
    have hopen : (t.dialect.typeRules.name k).toList.contains '(' = false := by
      simpa using h.name_closed hk
    rw [hopen, ← h.words_name hk, typeText]
    cases (k.withParams ps).params with
    | nil => simp
    | cons n ns => simp [toString, String.append_assoc]

/-- The arguments of a type are one token each. -/
theorem TypeRules.Settles.args_spelled {d : Dialect} (h : d.typeRules.Settles k) (hd : d.Legible)
    (ps : List Nat) : ∃ ss, List.Forall₂ (IsTypeArg d) (d.typeRules.args k ps) ss := by
  rw [TypeRules.args]
  cases k.hasParams with
  | true =>
    refine ⟨ps.map fun n => (.number, toString n), ?_⟩
    rw [if_pos rfl, List.forall₂_map_left_iff, List.forall₂_map_right_iff]
    exact List.forall₂_same.mpr fun n _ => isTypeArg_number hd n
  | false =>
    refine ⟨(d.typeRules.ownArgs k).map d.bare, ?_⟩
    rw [if_neg (by decide), List.forall₂_map_right_iff]
    refine List.forall₂_same.mpr fun arg harg => isTypeArg_word hd ?_
    obtain ⟨cs, hcs, rfl⟩ := List.mem_map.mp harg
    exact isWord_of_isPlain hd (h.own cs (Option.mem_toList.mp hcs)).1

/-- What is read from the words and the arguments of a type is this type. -/
theorem TypeRules.Settled.typeOf_args {r : TypeRules} (hr : r.Settled) (h : r.Settles k) {ps : List Nat}
    (hps : ∀ n ∈ ps, n < Nat.pow 2 64) :
    typeOf r.names (wordsOf (r.words k)) (r.args k (k.withParams ps).params) = k.withParams ps := by
  have hnumbers (n : Nat) (hn : n ∈ (k.withParams ps).params) : n < Nat.pow 2 64 :=
    hps n (k.mem_of_mem_params ps n hn)
  rw [← k.withParams_params ps, TypeRules.args]
  cases hk : k.hasParams with
  | false => simpa [TypeKind.params_withParams hk] using h.means
  | true =>
    have hmeans := h.means
    rw [h.ownArgs_eq_nil hk] at hmeans
    rw [k.withParams_params ps, if_pos rfl]
    exact (typeOf_numbers hmeans h.key_closed hr.digits hnumbers).trans (k.withParams_params ps)

theorem TypeRules.words_ne_nil (r : TypeRules) (k : TypeKind) : r.words k ≠ [] := by
  rw [TypeRules.words, Ne, List.map_eq_nil_iff]
  exact List.splitOn_ne_nil _ _

/-- A type with a meaning that a dialect reads is read again from the text that it writes for it, up to
the end of this text. -/
theorem dataType_survives {d : Dialect} (hd : d ∈ Dialect.builtins) {layout : Layout} {i : Input}
    (hi : i.dialect = d) {c c' : Cursor} {type : DataType}
    (h : Parser.dataType i c = (.ok type, c')) (hknown : ∀ spelling, type ≠ .custom spelling) :
    ∃ tokens finish c'',
      tokenize d.lexical (Target.dataType { dialect := d, layout } type) = .ok (tokens, finish) ∧
      Parser.dataType (.ofTokens d tokens finish) {} = (.ok type, c'') ∧
      tokens.length ≤ c''.index := by
  have htidy := tidy_of_mem_builtins hd
  have hsettled := settled_of_mem_builtins hd
  obtain ⟨k, hk, ps, hps, rfl⟩ := (dataType_readable d i hi).apply h hknown
  have hkind := hsettled.kinds k hk
  obtain ⟨ss, hargs⟩ := hkind.args_spelled htidy.toLegible (k.withParams ps).params
  have hwords : ∀ w ∈ d.typeRules.words k, d.isWord w = true := by
    intro w hw
    obtain ⟨cs, hcs, rfl⟩ := List.mem_map.mp hw
    exact isWord_of_isPlain htidy.toLegible (hkind.words cs hcs)
  have hspelled := typeText_spelled (t := { dialect := d, layout }) htidy hwords hargs
  obtain ⟨tokens, finish, hlex, hat⟩ := hspelled.tokenize
  rw [← Target.dataType_eq_typeText (t := { dialect := d, layout }) hkind] at hlex
  obtain ⟨word, words, hlist⟩ := List.exists_cons_of_ne_nil (d.typeRules.words_ne_nil k)
  have hleads : allLeadOn d.reading.typeNames (.start word) words = true := by
    have hall := hkind.leads
    rwa [hlist] at hall
  have hreads : Reads d Parser.dataType ((word :: words).map d.bare ++ argTokens ss)
      (k.withParams ps) [] := by
    rw [← hsettled.typeOf_args hkind hps, hlist]
    exact dataType_reads hleads hargs
  rw [hlist] at hat
  obtain ⟨c'', hok, hend⟩ := reads_iff.mp hreads _ _ hat
  refine ⟨tokens, finish, c'', hlex, hok, ?_⟩
  simpa [Input.ofTokens, Nat.sub_eq_zero_iff_le] using hend.length

/-- A precision and a scale, in a dialect with a name of its own for decimal numbers. -/
theorem dataType_survives_number :
    ∃ tokens finish c'', tokenize Dialect.oracle.lexical "NUMBER(10, 2)" = .ok (tokens, finish) ∧
      Parser.dataType (.ofTokens .oracle tokens finish) {} =
        (.ok (.decimal (some 10) (some 2)), c'') ∧ tokens.length ≤ c''.index := by
  let ts : List Shape := [(.word, "numeric"), .mark "(", (.number, "10"), .mark ",", (.number, "2"), .mark ")"]
  let i : Input := .ofOpenTokens .oracle (ts.map Shape.token)
  have hread : Parser.dataType i {} =
      (.ok (.decimal (some 10) (some 2)), (Parser.dataType i {}).2) := by
    have hresult : (Parser.dataType i {}).1 = .ok (.decimal (some 10) (some 2)) := by decide +kernel
    rw [← hresult]
  have htext : Target.dataType { dialect := .oracle } (.decimal (some 10) (some 2)) = "NUMBER(10, 2)" := by
    decide +kernel
  rw [← htext]
  exact @dataType_survives .oracle (by decide +kernel) {} i rfl {} _ _ hread (by simp)

end Survival

end SqlDialects
