import SqlDialects.Proofs.Layout
import Mathlib.Data.List.Basic

/-!
# Texts with places for bare parameters

* `Marking` : a way to write a bare parameter by its ordinal: question marks and digits;
* `Template` : a text with places; `Template.text b` fills the places by the marking `b`;
* `Follows f ks` : the text `f b` is, for every marking `b`, one template with the places `ks` in
  this order; `FollowAll f ks` says so of a list of texts.

The layout of a text (clauses, lists, indentation) moves no place: every operation of `Target` on
texts keeps `Follows`.
-/

namespace SqlDialects

/-! ## Markings -/

/-- Whether `c` may stand in a mark. -/
def isMarkChar (c : Char) : Bool := c == '?' || c.isDigit

/-- Whether `s` may stand for a bare parameter. -/
def IsMark (s : String) : Prop := s.toList ≠ [] ∧ ∀ c ∈ s.toList, isMarkChar c = true

/-- A way to write bare parameters. -/
abbrev Marking := { b : Nat → String // ∀ k, IsMark (b k) }

/-- Every bare parameter is a question mark. -/
def Marking.plain : Marking := ⟨fun _ => "?", fun _ => by simp [IsMark, isMarkChar]⟩

theorem Marking.isMark_numbered (k : Nat) : IsMark s!"?{k}" := by
  constructor
  · simp
  · intro c hc
    have h : (s!"?{k}").toList = '?' :: Nat.toDigits 10 k := by
      simp [toString, Nat.repr]
    rw [h, List.mem_cons] at hc
    rcases hc with rfl | hc
    · decide
    · simp [isMarkChar, Nat.isDigit_of_mem_toDigits (by decide) (by decide) hc]

/-- Every bare parameter is a question mark with its ordinal. -/
def Marking.numbered : Marking := ⟨fun k => s!"?{k}", Marking.isMark_numbered⟩

/-! ## Templates -/

/-- A character of a text, or a place. -/
inductive Piece where
  | char (c : Char)
  /-- The place of the bare parameter with this ordinal. -/
  | place (k : Nat)
deriving DecidableEq, Repr

/-- A text with places. -/
abbrev Template := List Piece

namespace Template

/-- The characters of a piece. -/
def pieceChars (b : Marking) : Piece → List Char
  | .char c => [c]
  | .place k => (b.1 k).toList

/-- The characters of a template whose places are filled. -/
def fill (b : Marking) (T : Template) : List Char := T.flatMap (pieceChars b)

/-- The text of a template whose places are filled. -/
def text (b : Marking) (T : Template) : String := .ofList (T.fill b)

/-- The ordinals of the places, left to right. -/
def ordinals (T : Template) : List Nat :=
  T.filterMap fun
    | .char _ => none
    | .place k => some k

/-- A text without places. -/
def fixed (s : List Char) : Template := s.map .char

@[simp] theorem fill_nil (b : Marking) : fill b [] = [] := rfl

@[simp] theorem fill_char (b : Marking) (c : Char) (T : Template) :
    fill b (.char c :: T) = c :: fill b T := rfl

@[simp] theorem fill_place (b : Marking) (k : Nat) (T : Template) :
    fill b (.place k :: T) = (b.1 k).toList ++ fill b T := rfl

@[simp] theorem fill_append (b : Marking) (T U : Template) :
    fill b (T ++ U) = fill b T ++ fill b U := List.flatMap_append

@[simp] theorem fill_fixed (b : Marking) (s : List Char) : fill b (fixed s) = s := by
  induction s with
  | nil => rfl
  | cons c s ih => exact congrArg (c :: ·) ih

@[simp] theorem ordinals_nil : ordinals [] = [] := rfl

@[simp] theorem ordinals_char (c : Char) (T : Template) : ordinals (.char c :: T) = ordinals T :=
  rfl

@[simp] theorem ordinals_place (k : Nat) (T : Template) :
    ordinals (.place k :: T) = k :: ordinals T := rfl

@[simp] theorem ordinals_append (T U : Template) :
    ordinals (T ++ U) = ordinals T ++ ordinals U := List.filterMap_append

@[simp] theorem ordinals_fixed (s : List Char) : ordinals (fixed s) = [] := by
  induction s with
  | nil => rfl
  | cons c s ih => exact ih

/-- A mark has a first character, so only the empty template is filled to nothing. -/
theorem fill_eq_nil {b : Marking} {T : Template} : fill b T = [] ↔ T = [] := by
  cases T with
  | nil => simp
  | cons p T =>
    cases p with
    | char c => simp
    | place k => simp [(b.2 k).1]

end Template

/-! ## Families of texts -/

/-- The texts `f b` are one template with the places `ks`. -/
def Follows (f : Marking → String) (ks : List Nat) : Prop :=
  ∃ T : Template, T.ordinals = ks ∧ ∀ b, f b = T.text b

/-- The lists `f b` are one list of templates that together have the places `ks`. -/
def FollowAll (f : Marking → List String) (ks : List Nat) : Prop :=
  ∃ Ts : List Template, Ts.flatMap Template.ordinals = ks ∧ ∀ b, f b = Ts.map (Template.text b)

namespace Follows

variable {f g : Marking → String} {ks ls : List Nat}

theorem const (s : String) : Follows (fun _ => s) [] :=
  ⟨.fixed s.toList, by simp, fun b => by simp [Template.text]⟩

theorem place (k : Nat) : Follows (fun b => b.1 k) [k] :=
  ⟨[.place k], rfl, fun b => by simp [Template.text]⟩

theorem append (hf : Follows f ks) (hg : Follows g ls) :
    Follows (fun b => f b ++ g b) (ks ++ ls) := by
  obtain ⟨T, rfl, hT⟩ := hf
  obtain ⟨U, rfl, hU⟩ := hg
  refine ⟨T ++ U, by simp, fun b => ?_⟩
  simp only [hT b, hU b, Template.text, Template.fill_append, String.ofList_append]

/-- Fixed texts around a text move no place. -/
theorem around (hf : Follows f ks) (left right : String) :
    Follows (fun b => left ++ f b ++ right) ks := by
  simpa using ((const left).append hf).append (const right)

end Follows

/-! ## Indentation -/

/-- Indentation passes over a mark: it neither opens nor closes quotes and ends no line. -/
theorem indentFrom_mark {pad : List Char} {q : Char × Char} (hq : isMarkChar q.1 = false)
    {closing : Option Char} (hc : ∀ c ∈ closing, isMarkChar c = false) (rest : List Char) :
    ∀ (cs : List Char), cs ≠ [] → (∀ c ∈ cs, isMarkChar c = true) → ∀ fresh : Bool,
      Target.indentFrom pad q closing fresh (cs ++ rest) =
        (if fresh then pad else []) ++ cs ++ Target.indentFrom pad q closing false rest := by
  intro cs
  induction cs with
  | nil => intro h; exact absurd rfl h
  | cons c cs ih =>
    intro _ hcs fresh
    have hmark : isMarkChar c = true := hcs c (by simp)
    have hne : ∀ d : Char, isMarkChar d = false → c ≠ d := by
      rintro d hd rfl
      rw [hd] at hmark
      cases hmark
    have hline : c ≠ '\n' := hne _ (by decide)
    have hlead : Target.lead pad fresh c = if fresh then pad else [] := by
      simp [Target.lead, hline]
    have htail : Target.indentFrom pad q closing false (cs ++ rest) =
        cs ++ Target.indentFrom pad q closing false rest := by
      by_cases he : cs = []
      · simp [he]
      · simpa using ih he (fun d hd => hcs d (by simp [hd])) false
    cases closing with
    | some close =>
      rw [List.cons_append, Target.indentFrom_inside (hne _ (hc close rfl)), htail, hlead]
      simp
    | none =>
      rw [List.cons_append, Target.indentFrom_outside (hne _ (by decide)) (hne _ hq),
        beq_eq_false_iff_ne.mpr hline, htail, hlead]
      simp

theorem Template.exists_indentFrom (pad : List Char) {q : Char × Char}
    (hq : isMarkChar q.1 = false) (hq' : isMarkChar q.2 = false) :
    ∀ (T : Template) (closing : Option Char) (fresh : Bool),
      (∀ c ∈ closing, isMarkChar c = false) →
      ∃ U : Template, U.ordinals = T.ordinals ∧
        ∀ b, Target.indentFrom pad q closing fresh (T.fill b) = U.fill b
  | [], _, _, _ => ⟨[], rfl, fun b => by simp⟩
  | .place k :: T, closing, fresh, hc => by
    obtain ⟨U, hU, h⟩ := exists_indentFrom pad hq hq' T closing false hc
    refine ⟨fixed (if fresh then pad else []) ++ .place k :: U, by simp [hU], fun b => ?_⟩
    rw [fill_place, indentFrom_mark hq hc _ _ (b.2 k).1 (b.2 k).2, h b]
    simp
  | .char c :: T, some close, fresh, hc => by
    by_cases hclose : c = close
    · subst hclose
      by_cases hdouble : T.head? = some (.char c)
      · obtain ⟨T, rfl⟩ : ∃ T', T = .char c :: T' := by
          cases T with
          | nil => simp at hdouble
          | cons p T => exact ⟨T, by simpa using hdouble⟩
        obtain ⟨U, hU, h⟩ := exists_indentFrom pad hq hq' T (some c) false hc
        refine ⟨fixed (Target.lead pad fresh c) ++ .char c :: .char c :: U, by simp [hU],
          fun b => ?_⟩
        rw [fill_char, fill_char, Target.indentFrom_doubled, h b]
        simp
      · obtain ⟨U, hU, h⟩ := exists_indentFrom pad hq hq' T none false (by simp)
        refine ⟨fixed (Target.lead pad fresh c) ++ .char c :: U, by simp [hU], fun b => ?_⟩
        -- a mark behind the closing quote does not start with a second one
        have hhead : (fill b T).head? ≠ some c := by
          cases T with
          | nil => simp
          | cons p T =>
            cases p with
            | char d => simpa using hdouble
            | place k =>
              intro he
              rw [fill_place, List.head?_append_of_ne_nil _ (b.2 k).1] at he
              have := (b.2 k).2 c (List.mem_of_mem_head? he)
              rw [hc c rfl] at this
              cases this
        rw [fill_char, Target.indentFrom_closing hhead, h b]
        simp
    · obtain ⟨U, hU, h⟩ := exists_indentFrom pad hq hq' T (some close) false hc
      refine ⟨fixed (Target.lead pad fresh c) ++ .char c :: U, by simp [hU], fun b => ?_⟩
      rw [fill_char, Target.indentFrom_inside hclose, h b]
      simp
  | .char c :: T, none, fresh, _ => by
    by_cases h1 : c = '\''
    · obtain ⟨U, hU, h⟩ := exists_indentFrom pad hq hq' T (some '\'') false (by simp [isMarkChar])
      refine ⟨fixed (Target.lead pad fresh c) ++ .char c :: U, by simp [hU], fun b => ?_⟩
      rw [fill_char, h1, Target.indentFrom_opening, h b]
      simp
    · by_cases h2 : c = q.1
      · obtain ⟨U, hU, h⟩ := exists_indentFrom pad hq hq' T (some q.2) false (by simpa using hq')
        refine ⟨fixed (Target.lead pad fresh c) ++ .char c :: U, by simp [hU], fun b => ?_⟩
        rw [fill_char, h2, Target.indentFrom_naming (h2 ▸ h1), h b]
        simp
      · obtain ⟨U, hU, h⟩ := exists_indentFrom pad hq hq' T none (c == '\n') (by simp)
        refine ⟨fixed (Target.lead pad fresh c) ++ .char c :: U, by simp [hU], fun b => ?_⟩
        rw [fill_char, Target.indentFrom_outside h1 h2, h b]
        simp
termination_by T => T.length

/-! ## Layout -/

namespace FollowAll

variable {f g : Marking → List String} {ks ls : List Nat}

theorem nil : FollowAll (fun _ => []) [] := ⟨[], rfl, fun _ => rfl⟩

theorem cons {h : Marking → String} (hh : Follows h ks) (hf : FollowAll f ls) :
    FollowAll (fun b => h b :: f b) (ks ++ ls) := by
  obtain ⟨T, rfl, hT⟩ := hh
  obtain ⟨Ts, rfl, hTs⟩ := hf
  exact ⟨T :: Ts, rfl, fun b => by simp [hT b, hTs b]⟩

theorem single {h : Marking → String} (hh : Follows h ks) : FollowAll (fun b => [h b]) ks := by
  simpa using hh.elim fun T hT => cons ⟨T, hT⟩ nil

theorem append (hf : FollowAll f ks) (hg : FollowAll g ls) :
    FollowAll (fun b => f b ++ g b) (ks ++ ls) := by
  obtain ⟨Ts, rfl, hT⟩ := hf
  obtain ⟨Us, rfl, hU⟩ := hg
  exact ⟨Ts ++ Us, by simp, fun b => by simp [hT b, hU b]⟩

theorem const (xs : List String) : FollowAll (fun _ => xs) [] := by
  induction xs with
  | nil => exact nil
  | cons x xs ih => simpa using cons (.const x) ih

/-- A change of each text that moves no place. -/
theorem map {m : String → String}
    (hm : ∀ h ls, Follows h ls → Follows (fun b => m (h b)) ls) (hf : FollowAll f ks) :
    FollowAll (fun b => (f b).map m) ks := by
  obtain ⟨Ts, rfl, hT⟩ := hf
  induction Ts generalizing f with
  | nil => exact ⟨[], rfl, fun b => by simp [hT b]⟩
  | cons T Ts ih =>
    have htail := ih (f := fun b => Ts.map (Template.text b)) fun b => rfl
    have hhead := hm _ _ ⟨T, rfl, fun b => rfl⟩
    simpa [hT] using cons hhead htail

/-- The texts that are not empty are the same ones for every marking. -/
theorem filter_nonempty (hf : FollowAll f ks) :
    FollowAll (fun b => (f b).filter (· != "")) ks := by
  obtain ⟨Ts, rfl, hT⟩ := hf
  refine ⟨Ts.filter (· ≠ []), ?_, fun b => ?_⟩
  · clear hT
    induction Ts with
    | nil => rfl
    | cons T Ts ih =>
      cases T with
      | nil => simpa using ih
      | cons p T => simpa using ih
  · simp only [hT b, List.filter_map]
    congr 1
    refine List.filter_congr fun T _ => ?_
    have : Template.text b T = "" ↔ T = [] := by
      rw [← Template.fill_eq_nil (b := b), Template.text, ← String.toList_inj]
      simp
    rw [Bool.eq_iff_iff]
    simp [this]

theorem intercalate (sep : String) (hf : FollowAll f ks) :
    Follows (fun b => String.intercalate sep (f b)) ks := by
  obtain ⟨Ts, rfl, hT⟩ := hf
  obtain rfl : f = fun b => Ts.map (Template.text b) := funext hT
  clear hT
  induction Ts with
  | nil => exact .const ""
  | cons T Ts ih =>
    cases Ts with
    | nil => exact ⟨T, by simp, fun b => by simp⟩
    | cons U Ts =>
      have hT : Follows (fun b => Template.text b T) T.ordinals := ⟨T, rfl, fun _ => rfl⟩
      have h : Follows (fun b => Template.text b T ++ sep) T.ordinals := by
        simpa using hT.append (.const sep)
      simpa [String.intercalate_cons_cons, String.append_assoc] using h.append ih

end FollowAll

/-- A dialect whose quotes of names cannot stand in a mark. -/
def Dialect.QuotesApart (d : Dialect) : Prop :=
  isMarkChar d.writing.nameQuote.1 = false ∧ isMarkChar d.writing.nameQuote.2 = false

namespace Follows

variable {f : Marking → String} {ks : List Nat} {t : Target}

theorem indent (ht : t.dialect.QuotesApart) (hf : Follows f ks) :
    Follows (fun b => t.indent (f b)) ks := by
  obtain ⟨T, rfl, hT⟩ := hf
  obtain ⟨U, hU, h⟩ := Template.exists_indentFrom (List.replicate t.layout.indent ' ')
    ht.1 ht.2 T none true (by simp)
  refine ⟨U, hU, fun b => ?_⟩
  simp only [Target.indent, hT b, Template.text, String.toList_ofList, h b]

theorem block (ht : t.dialect.QuotesApart) (hf : Follows f ks) :
    Follows (fun b => t.block (f b)) ks := by
  unfold Target.block
  split
  · simpa [String.append_assoc] using (hf.indent ht).around "(\n" "\n)"
  · simpa using hf.around "(" ")"

theorem listClause {keyword : Marking → String} {g : Marking → List String} {ls : List Nat}
    (ht : t.dialect.QuotesApart) (hk : Follows keyword ks) (hg : FollowAll g ls) :
    Follows (fun b => t.listClause (keyword b) (g b)) (ks ++ ls) := by
  unfold Target.listClause
  split
  · simpa [String.append_assoc] using
      hk.append (((hg.intercalate t.comma).indent ht).around "\n" "")
  · simpa [String.append_assoc] using hk.append ((hg.intercalate t.comma).around " " "")

theorem clauses {g : Marking → List String} (hg : FollowAll g ks) :
    Follows (fun b => t.clauses (g b)) ks :=
  hg.filter_nonempty.intercalate t.separator

/-- A mark does not start with the sign that would start a comment. -/
theorem unaryText (op : UnaryOp) (hf : Follows f ks) :
    Follows (fun b => Target.unaryText op (f b)) ks := by
  cases op with
  | not => simpa [Target.unaryText] using hf.around "NOT " ""
  | plus => simpa [Target.unaryText] using hf.around "+" ""
  | bitNot => simpa [Target.unaryText] using hf.around "~" ""
  | minus =>
    obtain ⟨T, rfl, hT⟩ := hf
    have hhead (b : Marking) : (f b).toList.head? = some '-' ↔ T.head? = some (.char '-') := by
      rw [hT b, Template.text, String.toList_ofList]
      cases T with
      | nil => simp
      | cons p T =>
        cases p with
        | char c => simp
        | place k =>
          rw [Template.fill_place, List.head?_append_of_ne_nil _ (b.2 k).1]
          refine iff_of_false (fun h => ?_) (by simp)
          have := (b.2 k).2 '-' (List.mem_of_mem_head? h)
          revert this
          decide
    have hf : Follows f T.ordinals := ⟨T, rfl, hT⟩
    by_cases h : T.head? = some (.char '-')
    · simpa [Target.unaryText, hhead, h] using hf.around "- " ""
    · simpa [Target.unaryText, hhead, h] using hf.around "-" ""

end Follows

end SqlDialects
