import SqlDialects.Proofs.CallTexts
import SqlDialects.Proofs.TypeNames

/-!
# Data types are read before what follows them

* `EndsType` : what belongs to no type before it; `EndsType.mark`, `EndsType.bare` : marks, and words that
  no name of a type has;
* `ReadsTypeArg` : a text that is one token, which is read as an argument of a type;
* `DataType.Restored` : a type that is read where it is written, whatever ends it;
* `dataType_restored` : so is every type of a text, also one that is known by its spelling only.
-/

namespace SqlDialects

open SqlDialects.Parser

/-! ## What follows a type -/

/-- What may follow a type: neither a word of its name nor arguments. -/
structure EndsType (d : Dialect) (rest : List Shape) : Prop where
  opens : (headShape rest).isSymbol "(" = false
  stop : ∀ {F : Lapses} (w : TypeWords),
    ReadsOr F d (moreTypeWords d.reading.typeNames w) rest none rest

/-- Whether no name of a type has the word `word` behind its first word. -/
def foreignToTypes (names : Table String TypeKind) (word : String) : Bool :=
  names.keys.all fun name => !decide ((" " ++ Text.upper word).toList <:+: name.toList)

section Ends

variable {d : Dialect}

theorem EndsType.of_head {rest : List Shape} (hopens : (headShape rest).isSymbol "(" = false)
    (hword : (headShape rest).token.isBareWord = false) : EndsType d rest :=
  ⟨hopens, fun _ => moreTypeWords_stop hword⟩

theorem EndsType.mark {m : String} (hm : m ≠ "(") (rest : List Shape) :
    EndsType d (.mark m :: rest) :=
  .of_head (by simpa using hm) rfl

theorem leadsOn_of_foreign {names : Table String TypeKind} {word : String}
    (h : foreignToTypes names word = true) (w : TypeWords) :
    leadsOn names (w.extend word).key = false := by
  have hkey : (w.extend word).key = w.key ++ (" " ++ Text.upper word) := by
    simp [TypeWords.extend, toString, String.append_assoc]
  simp only [foreignToTypes, List.all_eq_true, Bool.not_eq_true', decide_eq_false_iff_not] at h
  rw [leadsOn, hkey, ← Bool.not_eq_true, List.any_eq_true]
  rintro ⟨name, hname, hstart⟩
  refine h name hname ?_
  rw [Bool.or_eq_true, beq_iff_eq] at hstart
  rcases hstart with rfl | hprefix
  · exact ⟨w.key.toList, [], by simp⟩
  · obtain ⟨more, hmore⟩ := List.isPrefixOf_iff_prefix.mp hprefix
    exact ⟨w.key.toList, ' ' :: more, by simp [← hmore]⟩

/-- A word that no name has ends every type. -/
theorem EndsType.bare {word : String} (h : foreignToTypes d.reading.typeNames word = true)
    (rest : List Shape) : EndsType d (d.bare word :: rest) := by
  refine ⟨Shape.isSymbol_bare d word "(", fun w => .peek fun t ht => ?_⟩
  obtain ⟨hbare, rfl⟩ := isBareWord_of_shape ht
  have hno := leadsOn_of_foreign h w
  dsimp only
  split
  · next hyes =>
    rw [Bool.and_eq_true] at hyes
    exact absurd hyes.2 (by simpa [leadsOn, TypeWords.extend] using hno)
  · exact .pure none

end Ends

/-! ## Arguments -/

/-- The text `arg` is the one token `s`, which is read as this argument of a type. -/
structure ReadsTypeArg (d : Dialect) (arg : String) (s : Shape) : Prop where
  spelled : Spelled d arg [s]
  reads : ∀ {F : Lapses} (ts : List Shape), ReadsOr F d typeArg (s :: ts) arg ts

theorem IsTypeArg.readsTypeArg {d : Dialect} {arg : String} {s : Shape} (h : IsTypeArg d arg s) :
    ReadsTypeArg d arg s :=
  ⟨h.spelled, fun _ => typeArg_reads h⟩

section Args

variable {t : Target} {i : Input}

/-- A string is written as an argument the way it is written elsewhere, where a backslash is no escape. -/
theorem doubleQuotes_string (hescapes : t.dialect.lexical.backslashEscapes = false) (v : String) :
    s!"'{doubleQuotes v}'" = t.string v := by
  apply String.toList_injective
  simp [Target.string, hescapes, doubleQuotes, Target.doubled, toString]

/-- What is read as an argument of a type is read there again. -/
theorem typeArg_restored (hd : t.dialect.Legible) (hescapes : t.dialect.lexical.backslashEscapes = false)
    (hi : i.IsLexed) (hdialect : i.dialect = t.dialect) :
    YieldsOn i typeArg fun arg => ∃ s, ReadsTypeArg t.dialect arg s := by
  refine .peek fun k => ?_
  have hlexed := hi _ ⟨k, rfl⟩
  have hshape : (i.token k).shape = ((i.token k).kind, (i.token k).text) := rfl
  rw [hdialect] at hlexed
  have hword {kind : Token.Kind} (hkind : kind = .number ∨ kind = .word ∨ kind = .keyword)
      (hspelled : Spelled t.dialect (i.token k).text [(kind, (i.token k).text)]) :
      ReadsTypeArg t.dialect (i.token k).text (kind, (i.token k).text) :=
    IsTypeArg.readsTypeArg ⟨hspelled, hkind, rfl⟩
  split
  case h_1 hkind =>
    rw [hshape, hkind] at hlexed
    exact .skip fun _ => .pure ⟨_, hword (.inl rfl) fun h hh => .single (isToken_number hd hlexed hh)⟩
  case h_2 hkind =>
    rw [hshape, hkind] at hlexed
    have hspelled := Spelled.bare hd hlexed.1
    rw [Dialect.bare, Dialect.wordKind, if_neg (by simp [hlexed.2])] at hspelled
    exact .skip fun _ => .pure ⟨_, hword (.inr (.inl rfl)) hspelled⟩
  case h_3 hkind =>
    rw [hshape, hkind] at hlexed
    have hspelled := Spelled.bare hd hlexed.1
    rw [Dialect.bare, Dialect.wordKind, if_pos hlexed.2] at hspelled
    exact .skip fun _ => .pure ⟨_, hword (.inr (.inr rfl)) hspelled⟩
  case h_4 hkind =>
    refine .skip fun _ => .pure ⟨(.string, (i.token k).text), ?_, fun ts => .peek fun u hu => ?_⟩
    · rw [doubleQuotes_string hescapes]
      exact fun h hh => .single (isToken_string hd rfl _ (by rintro rfl; revert hh; decide))
    · obtain ⟨hkind', htext⟩ := shape_eq hu
      rw [hkind', htext]
      exact .advance fun _ _ => .pure _
  · exact .skip fun _ => .unexpected

end Args

/-- Where each element has a partner there is a list of partners. -/
theorem exists_forall₂ {α β : Type} {R : α → β → Prop} {as : List α} (h : ∀ a ∈ as, ∃ b, R a b) :
    ∃ bs, List.Forall₂ R as bs := by
  induction as with
  | nil => exact ⟨[], .nil⟩
  | cons a as ih =>
    obtain ⟨b, hb⟩ := h a (by simp)
    obtain ⟨bs, hbs⟩ := ih fun x hx => h x (by simp [hx])
    exact ⟨b :: bs, .cons hb hbs⟩

/-! ## Types -/

/-- The type is written by tokens from which it is read before whatever ends a type. -/
def DataType.Restored (t : Target) (type : DataType) : Prop :=
  ∃ ts, Spelled t.dialect (t.dataType type) ts ∧ ∀ {F : Lapses} (rest : List Shape),
    EndsType t.dialect rest → ReadsOr F t.dialect Parser.dataType (ts ++ rest) type rest

section Types

variable {t : Target} {i : Input} {names : Table String TypeKind} {w : TypeWords} {words : List String}

theorem allLeadOn_snoc (word : String) : allLeadOn names w (words ++ [word]) =
    (allLeadOn names w words && leadsOn names ((words.foldl TypeWords.extend w).extend word).key) := by
  induction words generalizing w with
  | nil => simp [allLeadOn]
  | cons x xs ih => rw [List.cons_append, allLeadOn, ih, allLeadOn, List.foldl_cons, Bool.and_assoc]

theorem written_foldl : (words.foldl TypeWords.extend w).written =
    String.intercalate " " (w.written :: words) := by
  induction words generalizing w with
  | nil => simp
  | cons x xs ih =>
    rw [List.foldl_cons, ih, String.intercalate_cons_cons]
    cases xs with
    | nil => simp [TypeWords.extend, toString]
    | cons y ys => simp [TypeWords.extend, toString, String.intercalate_cons_cons, String.append_assoc]

theorem Input.IsLexed.isBare (hi : i.IsLexed) {k : Nat} (h : (i.token k).isBareWord = true) :
    i.dialect.isBare (i.token k).text = true := by
  have hlexed := hi _ ⟨k, rfl⟩
  unfold Token.isBareWord at h
  rw [Token.shape] at hlexed
  split at h
  case h_1 hkind => rw [hkind] at hlexed; exact hlexed.1
  case h_2 hkind => rw [hkind] at hlexed; exact hlexed.1
  case h_3 => cases h

/-- The words of a type that are read go on with its first word, each as some name does. -/
theorem moreTypeWords_lead (hi : i.IsLexed) (word : String) :
    YieldsOn i (iterate (moreTypeWords names) (.start word)) fun w => ∃ words,
      (∀ x ∈ words, i.dialect.isBare x = true) ∧ allLeadOn names (.start word) words = true ∧
        w = words.foldl TypeWords.extend (.start word) := by
  refine .iterate ⟨[], by simp, rfl, rfl⟩ ?_
  rintro _ ⟨words, hbare, hleads, rfl⟩
  refine .peek fun k => ?_
  extract_lets key start
  split
  · next htest =>
    rw [Bool.and_eq_true] at htest
    refine .skip fun _ => .pure ?_
    rintro _ ⟨⟩
    refine ⟨words ++ [(i.token k).text], ?_, ?_, by rw [List.foldl_append]; rfl⟩
    · intro x hx
      rcases List.mem_append.mp hx with hx | hx
      · exact hbare x hx
      · obtain rfl := List.mem_singleton.mp hx
        exact hi.isBare htest.1
    · rw [allLeadOn_snoc, hleads, Bool.true_and]
      exact htest.2
  · exact .pure (by simp)

/-- A type of known words and arguments is read where these are written. -/
theorem restored_of_words (hd : t.dialect.Legible) {type : DataType} {word : String} {args : List String}
    (hbare : ∀ x ∈ word :: words, t.dialect.isBare x = true)
    (hleads : allLeadOn t.dialect.reading.typeNames (.start word) words = true)
    {ss : List Shape} (hss : List.Forall₂ (ReadsTypeArg t.dialect) args ss)
    (htext : t.dataType type = typeText (word :: words) args)
    (htype : typeOf t.dialect.reading.typeNames (wordsOf (word :: words)) args = type) :
    type.Restored t := by
  refine ⟨(word :: words).map t.dialect.bare ++ argTokens ss, ?_, fun rest hrest => ?_⟩
  · rw [htext]
    exact typeText_spelled_bare hd hbare (hss.imp fun _ _ h => h.spelled)
  · rw [← htype, List.append_assoc]
    refine dataType_reads_before hleads ?_ (hss.imp fun _ _ h => h.reads) hrest.opens
    cases ss with
    | nil => exact hrest.stop _
    | cons => exact moreTypeWords_stop rfl

/-- A type that is read with a meaning is written by the words of its name. -/
theorem restored_of_known (hd : t.dialect.Legible) (hsettled : t.dialect.typeRules.Settled)
    {type : DataType} (h : type.IsReadable t.dialect.reading.typeNames) : type.Restored t := by
  obtain ⟨k, hk, ps, hps, rfl⟩ := h
  have hkind := hsettled.kinds k hk
  obtain ⟨word, words, hlist⟩ := List.exists_cons_of_ne_nil (t.dialect.typeRules.words_ne_nil k)
  have hleads := hkind.leads
  have htext := Target.dataType_eq_typeText (t := t) hkind ps
  have htype := hsettled.typeOf_args hkind hps
  obtain ⟨ss, hss⟩ := hkind.args_spelled hd (k.withParams ps).params
  have hbare : ∀ x ∈ t.dialect.typeRules.words k, t.dialect.isBare x = true := by
    intro x hx
    obtain ⟨cs, hcs, rfl⟩ := List.mem_map.mp hx
    exact Dialect.isBare_of_isWord (isWord_of_isPlain hd (hkind.words cs hcs))
  rw [hlist] at hbare hleads htext htype
  exact restored_of_words hd hbare hleads (hss.imp fun _ _ h => h.readsTypeArg) htext htype

/-- The text of a type without a meaning is its spelling. -/
theorem dataType_of_custom {w : TypeWords} {args : List String} {spelling : String}
    (hw : w.written = String.intercalate " " words) (h : typeOf names w args = .custom spelling) :
    t.dataType (.custom spelling) = typeText words args := by
  have hknown (k : TypeKind) (ps : List Nat) : k.withParams ps ≠ .custom spelling := by
    intro heq
    have hkind := TypeKind.kind?_withParams k ps
    rw [heq] at hkind
    cases hkind
  unfold typeOf at h
  dsimp only at h
  split at h
  · exact absurd h (hknown _ _)
  split at h
  · exact absurd h (hknown _ _)
  show spelling = _
  split at h
  · next hempty =>
    obtain rfl := DataType.custom.inj h
    rw [typeText, if_pos hempty, String.append_empty, hw]
  · next hargs =>
    obtain rfl := DataType.custom.inj h
    rw [typeText, if_neg hargs, hw]
    simp [toString, String.append_assoc]

/-- Every type of a text is read where it is written. -/
theorem dataType_restored (hd : t.dialect.Legible) (hsettled : t.dialect.typeRules.Settled)
    (hescapes : t.dialect.lexical.backslashEscapes = false) (hi : i.IsLexed)
    (hdialect : i.dialect = t.dialect) : YieldsOn i Parser.dataType (DataType.Restored t) := by
  refine .rules (.peek fun k => ?_)
  extract_lets close
  have hclose (hbare : (i.token k).isBareWord = true) (u : Unit) :
      YieldsOn i (close u) (DataType.Restored t) := by
    refine .skip fun _ => (moreTypeWords_lead hi _).bind ?_
    rintro _ ⟨words, hwords, hleads, rfl⟩
    have hargs : YieldsOn i (do
        let args ← commaSeparated typeArg
        expectSymbol ")"
        return args) fun args => ∀ arg ∈ args, ∃ s, ReadsTypeArg t.dialect arg s :=
      (YieldsOn.commaSeparated (typeArg_restored hd hescapes hi hdialect)).bind fun args h =>
        .skip fun _ => .pure h
    refine (YieldsOn.optionalList_part hargs).bind fun args hargs => .pure ?_
    obtain ⟨ss, hss⟩ := exists_forall₂ hargs
    have hall : ∀ x ∈ (i.token k).text :: words, t.dialect.isBare x = true := by
      rw [← hdialect]
      exact List.forall_mem_cons.mpr ⟨hi.isBare hbare, hwords⟩
    rw [hdialect] at hleads ⊢
    by_cases hknown : ∀ spelling, typeOf t.dialect.reading.typeNames
        (wordsOf ((i.token k).text :: words)) args ≠ .custom spelling
    · exact restored_of_known hd hsettled (typeOf_readable _ args hknown)
    · obtain ⟨spelling, hspelling⟩ := not_forall_not.mp hknown
      have htext := dataType_of_custom (t := t) written_foldl hspelling
      exact restored_of_words hd hall hleads hss (hspelling ▸ htext) rfl
  split
  · exact hclose ‹_› ()
  · exact .skip fun _ => (YieldsOn.unexpected (P := fun _ => False)).bind fun _ h => h.elim

end Types

end SqlDialects
