import SqlDialects.Proofs.Productions
import SqlDialects.Proofs.Saying

/-!
# Reading and writing agree about what is valid

* `parsed_renders` : a dialect can write every statement that it reads, bare parameters apart;
* `unsupported_never_passes` : a construct that a dialect does not support is neither read nor written.
-/

namespace SqlDialects

/-- A text is written where every node can be said. -/
theorem render_of_isSayable {d : Dialect} {s : Statement}
    (hown : ∀ c ∈ s.ownConstructs, d.writes c = true)
    (hnodes : ∀ x ∈ s.nodes, x.isSayable d = true) (layout : Layout) :
    ∃ text, render d layout s = .ok text := by
  obtain ⟨⟨text, n⟩, hrun⟩ :=
    (Statement.text_asks (t := { dialect := d, layout }) s).enough hown hnodes 0
  exact ⟨text, by simp [render, Render.run, hrun, Except.map]⟩

/-- Where parameters are numbered, a bare one can be said. -/
theorem Node.isSayable_of_isBareParam {d : Dialect} (h : d.params ≠ .question) {x : Node}
    (hx : x.isBareParam = true) : x.isSayable d = true := by
  unfold Node.isBareParam at hx
  split at hx
  · simpa [Node.isSayable, Node.constructs, Node.isSpelled] using h
  · cases hx

/-- Whatever a dialect reads it can write. Only where parameters are bare may a bare parameter be
refused. -/
theorem parsed_renders {d : Dialect} (hd : d ∈ Dialect.builtins) {sql : String}
    {ss : List Statement} (hparse : parse d sql = .ok ss) {s : Statement} (hs : s ∈ ss)
    (hbare : ¬(d.params = .question ∧ ∃ x ∈ s.nodes, x.isBareParam = true)) (layout : Layout) :
    ∃ text, render d layout s = .ok text := by
  obtain ⟨hown, hsaid⟩ := parse_said (coherent_of_mem_builtins hd) hparse s hs
  refine render_of_isSayable hown (fun x hx => ?_) layout
  rcases hsaid x hx with hsay | hparam
  · exact hsay
  · exact Node.isSayable_of_isBareParam (fun hq => hbare ⟨hq, x, hx, hparam⟩) hparam

/-- A count behind `TOP`, where nothing else limits rows. -/
theorem topCount_renders : ∃ s, parse .teradata "SELECT TOP 5 a FROM t" = .ok [s] ∧
    ∃ text, render .teradata {} s = .ok text := by
  have hplain : (parse .teradata "SELECT TOP 5 a FROM t").toOption.map
      (List.map fun s => s.nodes.any Node.isBareParam) = some [false] := by
    decide +kernel
  cases hparse : parse .teradata "SELECT TOP 5 a FROM t" with
  | error e => simp [hparse, Except.toOption] at hplain
  | ok ss =>
    obtain ⟨s, rfl, hbare⟩ : ∃ s, ss = [s] ∧ s.nodes.any Node.isBareParam = false := by
      simpa [hparse, Except.toOption, List.map_eq_singleton_iff] using hplain
    refine ⟨s, rfl, parsed_renders (by decide +kernel) hparse (List.mem_singleton_self s) ?_ {}⟩
    rintro ⟨-, x, hx, hparam⟩
    rw [List.any_eq_false] at hbare
    exact hbare x hx hparam

theorem Node.constructs_of_isCounted {x : Node} (h : x.isCounted = true) : x.constructs = [] := by
  unfold Node.isCounted at h
  split at h
  · rfl
  · rfl
  · cases h

/-- The constructs of nodes that can be said, counted parameters apart, are written. -/
theorem writes_of_mem_constructs {d : Dialect} {s : Statement}
    (hown : ∀ c ∈ s.ownConstructs, d.writes c = true)
    (hnodes : ∀ x ∈ s.nodes, x.isSayable d = true ∨ x.isCounted = true) {c : Construct}
    (hc : c ∈ s.constructs) : d.writes c = true := by
  rcases List.mem_append.mp hc with hc | hc
  · exact hown c hc
  · obtain ⟨x, hx, hc⟩ := List.mem_flatMap.mp hc
    rcases hnodes x hx with hsay | hcounted
    · rw [Node.isSayable, Bool.and_eq_true, List.all_eq_true] at hsay
      exact hsay.1 c hc
    · rw [Node.constructs_of_isCounted hcounted] at hc
      cases hc

/-- A construct that a dialect does not support is in no statement that the dialect reads, and in none
that it writes. -/
theorem unsupported_never_passes {d : Dialect} (hd : d ∈ Dialect.builtins) {c : Construct}
    (hc : c ∈ d.unsupported) :
    (∀ sql ss, parse d sql = .ok ss → ∀ s ∈ ss, c ∉ s.constructs) ∧
      ∀ layout s text, render d layout s = .ok text → c ∉ s.constructs := by
  have hcoherent := coherent_of_mem_builtins hd
  have hrefused {s : Statement} (hown : ∀ c ∈ s.ownConstructs, d.writes c = true)
      (hnodes : ∀ x ∈ s.nodes, x.isSayable d = true ∨ x.isCounted = true) : c ∉ s.constructs := by
    intro hmem
    have hwrites := writes_of_mem_constructs hown hnodes hmem
    rw [hcoherent.refused c hc] at hwrites
    cases hwrites
  constructor
  · intro sql ss hparse s hs
    obtain ⟨hown, hsaid⟩ := parse_said hcoherent hparse s hs
    exact hrefused hown fun x hx => (hsaid x hx).imp_right Node.isCounted_of_isBareParam
  · intro layout s text hrender
    cases hrun : s.text { dialect := d, layout } 0 with
    | error e => simp [render, Render.run, hrun, Except.map] at hrender
    | ok r =>
      obtain ⟨hown, hnodes⟩ := (Statement.text_asks s).needs 0 r hrun
      exact hrefused hown hnodes

theorem unsupported_never_passes_mysql :
    (∀ sql ss, parse .mysql sql = .ok ss → ∀ s ∈ ss, .fullOuterJoin ∉ s.constructs) ∧
      ∀ layout s text, render .mysql layout s = .ok text → .fullOuterJoin ∉ s.constructs :=
  unsupported_never_passes (by decide +kernel) (by decide +kernel)

end SqlDialects
