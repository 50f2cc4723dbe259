import SqlDialects.Proofs.RestoredQueries
import SqlDialects.Proofs.ValuesKept

/-!
# What a text calls its functions

* `functionNames` : the names of the functions that a text calls, as they are written;
* `Unquoted`, `YieldsUnquoted` : names no part of which is in quotes, and the results where functions have such
  names;
* `Input.Suits` : an input in the dialect of a target;
* `Call.NamedBy` : a call whose function is named by words of the input without quotes;
* `Call.NamedBy.written` : such a function is written by such words;
* `Call.NamedBy.starts` : it opens the end of a window frame only where its first word does.
-/

namespace SqlDialects

open Render

/-- The names of the functions that the text `sql` calls, as it writes them. -/
def functionNames (d : Dialect) (sql : String) : List (List Name) :=
  match tokenize d.lexical sql with
  | .ok (tokens, finish) => (Parser.statements (.ofTokens d tokens finish) {}).2.functions
  | .error _ => []

/-- No part of the name of a function is in quotes. -/
def Unquoted (ns : List Name) : Prop := ∀ n ∈ ns, n.quoted = false

instance : DecidablePred Unquoted := fun ns => inferInstanceAs (Decidable (∀ n ∈ ns, n.quoted = false))

/-- Every result of `p` on the input `i` has the property `P`, as long as no name of a function that was read is in
quotes. -/
abbrev YieldsUnquoted {α : Type} (i : Input) (p : Parser α) (P : α → Prop) : Prop := YieldsOn i p P Unquoted

/-- The input is a text of the dialect of the target, which puts no names in quotes. -/
structure Input.Suits (i : Input) (t : Target) : Prop where
  stable : t.dialect.Stable
  dialect : i.dialect = t.dialect
  identify : t.layout.identify = false
  lexed : i.IsLexed
  finish : i.finish.isStop = true

theorem suits_ofTokens {t : Target} (hd : t.dialect.Stable) (hidentify : t.layout.identify = false) {sql : String}
    {tokens : List Token} {finish : Token} (h : tokenize t.dialect.lexical sql = .ok (tokens, finish)) :
    (Input.ofTokens t.dialect tokens finish).Suits t :=
  ⟨hd, rfl, hidentify, isLexed_ofTokens h, by simp [Input.ofTokens, Token.isStop, kind_finish h]⟩

section Names

variable {i : Input} {t : Target} {f : Call} {n : Name} {ns : List Name}

theorem Input.Suits.reread (hs : i.Suits t) (hn : i.Has n.shape) : t.reread n = n :=
  reread_of_has hs.identify hs.lexed hs.dialect hn

theorem Input.Suits.keeps (hs : i.Suits t) (hns : ∀ n ∈ ns, i.Has n.shape) : t.Keeps ns :=
  fun n hn => hs.reread (hns n hn)

/-- A bare word of the input is one in the dialect. -/
theorem Input.Suits.isBare (hs : i.Suits t) {s : Token} (hhas : i.Has s.shape) (hs' : s.isBareWord = true) :
    t.dialect.isBare s.text = true := by
  have hlexed := hs.lexed _ hhas
  rw [hs.dialect, Token.shape] at hlexed
  unfold Token.isBareWord at hs'
  split at hs'
  · next hkind =>
    rw [hkind] at hlexed
    exact hlexed.1
  · next hkind =>
    rw [hkind] at hlexed
    exact hlexed.1
  · cases hs'

/-! ## Words before a parenthesis -/

/-- A word that is not reserved names a function before a parenthesis. -/
theorem Dialect.Stable.isCallable {d : Dialect} (hd : d.Stable) {w : String} (hbare : d.isBare w = true)
    (hfree : d.lexical.isReserved w = false) : d.isCallable w = true := by
  have hno {x : String} (hx : x ∈ d.lexical.reserved) : Text.upper w ≠ x := upper_ne_of_free hfree hx
  have hform : Text.upper w ∉ d.formWords := by
    simp only [Dialect.formWords, hd.safeCast, Option.toList_none, List.append_nil, List.mem_append, not_or]
    refine ⟨⟨fun h => hno (hd.reserved _ h) rfl, fun h => ?_⟩, fun h => ?_⟩
    · split at h
      · next hbooleans => exact hno (hd.booleans hbooleans _ h) rfl
      · cases h
    · split at h
      · next hinterval =>
        rw [List.mem_singleton] at h
        exact hno (h ▸ hd.interval hinterval) rfl
      · cases h
  simp [Dialect.isCallable, hbare, hform, hfree]

/-- What one word means opens the end of a window frame only if the word does: no function with another name has
this one. -/
theorem Dialect.Means.starts {d : Dialect} (hd : d.Stable) {w : String} (hbare : d.isBare w = true)
    (h : d.Means w f) (hstarts : (Expr.call f).startsUnbounded = true) : Text.sameWord w "UNBOUNDED" = true := by
  obtain ⟨swapped, hmeaning⟩ := h.meaning
  have hword : Text.sameWord (.ofList (f.name.toList.takeWhile (· != '.'))) "UNBOUNDED" = true := hstarts
  rcases meaning_cases hmeaning with hmem | ⟨heq, -, -⟩
  · obtain ⟨us, hus, -⟩ := (hd.says_canonical hmem).callee.head
    rw [hd.saying_eq] at hus
    have htext : f.name = .ofList (f.name.toList.takeWhile (· != '.')) :=
      congrArg (fun s : List Shape => (headShape s).2) hus
    rw [← htext, hd.sayings.2 _ hmem] at hword
    cases hword
  · have hall : w.toList.takeWhile (· != '.') = w.toList :=
      List.takeWhile_eq_self_iff.mpr fun c hc => by simpa using ne_dot_of_isBare hd.toLegible hbare c hc
    rwa [heq, hall, String.ofList_toList] at hword

/-! ## Names with dots -/

/-- The call is what the names `ns`, which are words of the input without quotes, mean with dots between them. -/
structure Call.NamedBy (i : Input) (ns : List Name) (f : Call) : Prop where
  nonempty : ns ≠ []
  unquoted : Unquoted ns
  words : ∀ n ∈ ns, i.Has n.shape
  means : i.dialect.Means (QualifiedName.dotted ns) f

namespace Call.NamedBy

theorem word (h : f.NamedBy i ns) (hs : i.Suits t) (hn : n ∈ ns) :
    t.dialect.isBare n.text = true ∧ t.dialect.lexical.isReserved n.text = false := by
  have hlexed := hs.lexed _ (h.words n hn)
  rw [hs.dialect, Name.shape, h.unquoted n hn] at hlexed
  exact hlexed

/-- A function that is named by words without quotes is written by such words. -/
theorem written (h : f.NamedBy i ns) (hs : i.Suits t) :
    ∃ ms, ms ≠ [] ∧ QualifiedName.dotted ms = f.name ∧
      t.dialect.Says f.name (betweenDots (ms.map Name.shape)) := by
  have hmeans := h.means
  rw [hs.dialect] at hmeans
  obtain ⟨swapped, hmeaning⟩ := hmeans.meaning
  have hd := hs.stable
  rcases ns with _ | ⟨n, _ | ⟨m, ns⟩⟩
  · exact absurd rfl h.nonempty
  · obtain ⟨hbare, hfree⟩ := h.word hs (n := n) (by simp)
    have hname : QualifiedName.dotted [n] = n.text := by simp [QualifiedName.dotted]
    rw [hname] at hmeaning hmeans
    have hkept : t.dialect.lexical.isReserved f.name = false := hd.isReserved_meaning hfree hmeaning
    have hshape : t.dialect.bare f.name = (⟨f.name, false⟩ : Name).shape := by
      simp [Dialect.bare, Dialect.wordKind, hkept, Name.shape]
    refine ⟨[⟨f.name, false⟩], by simp, by simp [QualifiedName.dotted], ?_⟩
    rw [List.map_singleton, ← hshape]
    rcases meaning_cases hmeaning with hmem | ⟨heq, rfl, hunknown⟩
    · have hsays := hd.says_canonical hmem
      rwa [hd.saying_eq] at hsays
    · rw [heq] at hmeaning ⊢
      exact hd.says_unknown (callee_bare hd.toLegible (hd.isCallable hbare hfree) hmeans.plain) hunknown hmeaning
  · have hdot : '.' ∈ (QualifiedName.dotted (n :: m :: ns)).toList := by
      simp [QualifiedName.dotted, String.intercalate_cons_cons]
    obtain ⟨hdotted, hunknown⟩ := hd.meaning_dotted hdot
    obtain ⟨heq, -⟩ := Prod.mk.inj (Option.some.inj (hmeaning.symm.trans hdotted))
    refine ⟨n :: m :: ns, by simp, heq.symm, ?_⟩
    rw [heq]
    exact hd.says_unknown (callee_dotted hd.toFluent h.unquoted (fun x hx => (h.word hs hx).1)
      fun x hx => (h.word hs hx).2) hunknown hdotted

/-- A function opens the end of a window frame only if its first word does. -/
theorem starts (h : f.NamedBy i (n :: ns)) (hs : i.Suits t) (hstarts : (Expr.call f).startsUnbounded = true) :
    n.isUnbounded = true := by
  have hmeans := h.means
  rw [hs.dialect] at hmeans
  have hword : Text.sameWord n.text "UNBOUNDED" = true := by
    rcases ns with _ | ⟨m, ns⟩
    · have hname : QualifiedName.dotted [n] = n.text := by simp [QualifiedName.dotted]
      rw [hname] at hmeans
      exact hmeans.starts hs.stable (h.word hs (by simp)).1 hstarts
    · obtain ⟨swapped, hmeaning⟩ := hmeans.meaning
      have hdot : '.' ∈ (QualifiedName.dotted (n :: m :: ns)).toList := by
        simp [QualifiedName.dotted, String.intercalate_cons_cons]
      obtain ⟨hdotted, -⟩ := hs.stable.meaning_dotted hdot
      obtain ⟨heq, -⟩ := Prod.mk.inj (Option.some.inj (hmeaning.symm.trans hdotted))
      have hcallee := callee_dotted hs.stable.toFluent h.unquoted (fun x hx => (h.word hs hx).1)
        fun x hx => (h.word hs hx).2
      obtain ⟨us, hus, -⟩ := hcallee.head
      have hhead : n.shape = t.dialect.bare
          (.ofList ((QualifiedName.dotted (n :: m :: ns)).toList.takeWhile (· != '.'))) := (List.cons.inj hus).1
      rw [Name.shape, h.unquoted n (by simp)] at hhead
      have htext : n.text = .ofList ((QualifiedName.dotted (n :: m :: ns)).toList.takeWhile (· != '.')) :=
        congrArg Prod.snd hhead
      rw [htext, ← heq]
      exact hstarts
  simp [Name.isUnbounded, h.unquoted n (by simp), hword]

end Call.NamedBy

end Names

end SqlDialects
