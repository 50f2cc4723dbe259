import SqlDialects.Dialect.Builtin
import SqlDialects.Proofs.Nodes
import SqlDialects.Proofs.Template
import SqlDialects.Render.Statement

/-!
# The order of bare parameters

A bare `?` binds by its place in the text, so it may be written only where its ordinal is that place.
The guard is the counter of `Render`: it follows the order in which parts are written. Texts put parts
together in the same order, with two exceptions: a membership test writes its list before the operand
that stands in front of it, and a call whose arguments are exchanged writes them before the exchange.

* `ordinals` : the bind ordinals of a tree;
* `Node.keepsOrder` : whether a node avoids both exceptions;
* `Places` : how the ordinals of a text lie after the counter went from `n` to `m`;
* `Steady` : a text that is written in the same way whatever stands for bare parameters;
* `Written`, `WrittenAll` : the text, or the texts, of nodes, with the places of their bare parameters.
-/

namespace SqlDialects

open Render

/-! ## Ordinals -/

/-- The ordinal of a parameter that has one. -/
def Param.ordinal? : Param → Option Nat
  | .positional k => some k
  | .numbered k => some k
  | .named _ => none

/-- The ordinal of a node that is a parameter. -/
def Node.ordinal? : Node → Option Nat
  | .expr (.param p) => p.ordinal?
  | _ => none

/-- The bind ordinals among nodes. -/
def ordinals (ns : List Node) : List Nat := ns.filterMap Node.ordinal?

@[simp] theorem ordinals_nil : ordinals [] = [] := rfl

@[simp] theorem ordinals_append (ns ms : List Node) :
    ordinals (ns ++ ms) = ordinals ns ++ ordinals ms := List.filterMap_append

theorem ordinals_cons {x : Node} (hx : x.ordinal? = none) (ns : List Node) :
    ordinals (x :: ns) = ordinals ns := by
  simp [ordinals, hx]

/-- The nodes of an argument. -/
def Arg.nodes : Arg → List Node
  | .expr e => e.nodes
  | .star => []

theorem argNodes_cons (a : Arg) (args : List Arg) :
    argNodes (a :: args) = a.nodes ++ argNodes args := by
  cases a <;> simp [argNodes, Arg.nodes]

/-- Whether parameters stand on one side at most. -/
def oneSided (ns ms : List Node) : Bool := (ordinals ns).isEmpty || (ordinals ms).isEmpty

/-- Whether the parts of a node are written in the order of its text: a membership test may have
parameters in its operand or in its list, and a call whose first two arguments are exchanged in one
of the two. -/
def Node.keepsOrder (d : Dialect) : Node → Bool
  | .expr (.inList e items _) => oneSided e.nodes (exprNodes items)
  | .call f =>
    match d.spelling? f.name, f.args with
    | some (.swap _), a :: b :: _ => oneSided a.nodes b.nodes
    | _, _ => true
  | _ => true

/-- Whether all parts of a tree are written in the order of its text. -/
def KeepsOrder (d : Dialect) (ns : List Node) : Prop := ∀ x ∈ ns, x.keepsOrder d = true

/-- How the ordinals `ks` of a text lie whose parts are the nodes `ns` and before which `n` ordinals
were counted, and `m` behind it: the ordinals are those of the tree, they are all from `n + 1` to `m`,
and they stand in this order exactly if every part keeps the order. -/
structure Places (d : Dialect) (ns : List Node) (n : Nat) (ks : List Nat) (m : Nat) : Prop where
  le : n ≤ m
  tree : ks.Perm (ordinals ns)
  every : ks.Perm (List.range' (n + 1) (m - n))
  inOrder : ks = List.range' (n + 1) (m - n) ↔ KeepsOrder d ns

namespace Places

variable {d : Dialect} {ns ms : List Node} {n m k : Nat} {ks ls : List Nat}

theorem nil (d : Dialect) (n : Nat) : Places d [] n [] n :=
  ⟨Nat.le_refl n, by simp, by simp, by simp [KeepsOrder]⟩

theorem permNodes (h : Places d ns n ks m) (hp : ns.Perm ms) : Places d ms n ks m where
  le := h.le
  tree := h.tree.trans (hp.filterMap _)
  every := h.every
  inOrder := by
    rw [h.inOrder]
    exact forall_congr' fun x => by rw [hp.mem_iff]

/-- A node that is no parameter and has no order of its own. -/
theorem node (h : Places d ns n ks m) {x : Node} (ho : x.ordinal? = none)
    (hk : x.keepsOrder d = true) : Places d (x :: ns) n ks m where
  le := h.le
  tree := by rw [ordinals_cons ho]; exact h.tree
  every := h.every
  inOrder := by
    rw [h.inOrder]
    simp [KeepsOrder, hk]

/-- As many places as counted ordinals. -/
theorem length (h : Places d ns n ks m) : ks.length = m - n := by
  simpa using h.every.length_eq

theorem range'_append (h₁ : n ≤ m) (h₂ : m ≤ k) :
    List.range' (n + 1) (m - n) ++ List.range' (m + 1) (k - m) =
      List.range' (n + 1) (k - n) := by
  rw [show m + 1 = n + 1 + 1 * (m - n) by omega, List.range'_append]
  congr 1
  omega

/-- Two parts whose text is in the order in which they were written. -/
theorem append (h₁ : Places d ns n ks m) (h₂ : Places d ms m ls k) :
    Places d (ns ++ ms) n (ks ++ ls) k where
  le := Nat.le_trans h₁.le h₂.le
  tree := by rw [ordinals_append]; exact h₁.tree.append h₂.tree
  every := by
    rw [← range'_append h₁.le h₂.le]
    exact h₁.every.append h₂.every
  inOrder := by
    have hlen : ks.length = (List.range' (n + 1) (m - n)).length := by simp [h₁.length]
    have hboth : KeepsOrder d (ns ++ ms) ↔ KeepsOrder d ns ∧ KeepsOrder d ms := by
      simp [KeepsOrder, or_imp, forall_and]
    rw [← range'_append h₁.le h₂.le, hboth, ← h₁.inOrder, ← h₂.inOrder]
    constructor
    · intro h
      exact List.append_inj h hlen
    · rintro ⟨h, h'⟩
      rw [← h, ← h']

/-- Two parts whose text is in the other order: it is right only if one of them has no places. -/
theorem exchange (h₁ : Places d ns n ks m) (h₂ : Places d ms m ls k) :
    (ls ++ ks).Perm (List.range' (n + 1) (k - n)) ∧
      (ls ++ ks = List.range' (n + 1) (k - n) ↔
        KeepsOrder d (ns ++ ms) ∧ oneSided ns ms = true) := by
  have happ := h₁.append h₂
  refine ⟨List.perm_append_comm.trans happ.every, ?_⟩
  have hside : oneSided ns ms = true ↔ ks = [] ∨ ls = [] := by
    have hk : ordinals ns = [] ↔ ks = [] := ⟨fun h => (h ▸ h₁.tree).eq_nil, fun h =>
      (h ▸ h₁.tree).symm.eq_nil⟩
    have hl : ordinals ms = [] ↔ ls = [] := ⟨fun h => (h ▸ h₂.tree).eq_nil, fun h =>
      (h ▸ h₂.tree).symm.eq_nil⟩
    simp [oneSided, hk, hl]
  rw [hside, ← happ.inOrder]
  constructor
  · intro h
    have hone : ks = [] ∨ ls = [] := by
      by_contra hne
      obtain ⟨hks, hls⟩ := not_or.mp hne
      obtain ⟨x, xs, rfl⟩ := List.exists_cons_of_ne_nil hls
      have hx : m + 1 ≤ x := by
        have := h₂.every.mem_iff.mp (List.mem_cons_self (a := x) (l := xs))
        simp only [List.mem_range'_1] at this
        omega
      have hpos : 0 < m - n := by
        rw [← h₁.length]
        exact List.length_pos_of_ne_nil hks
      have hhead := congrArg List.head? h
      rw [List.cons_append, List.head?_cons, List.head?_range'] at hhead
      split at hhead
      · cases hhead
      · simp only [Option.some.injEq] at hhead
        omega
    refine ⟨?_, hone⟩
    rcases hone with rfl | rfl <;> simpa using h
  · rintro ⟨h, rfl | rfl⟩ <;> simpa using h

/-- A node whose two parts stand in its text in the other order. -/
theorem exchanged (h₁ : Places d ns n ks m) (h₂ : Places d ms m ls k) {x : Node}
    (ho : x.ordinal? = none) (hk : x.keepsOrder d = oneSided ns ms) :
    Places d (x :: (ns ++ ms)) n (ls ++ ks) k where
  le := Nat.le_trans h₁.le h₂.le
  tree := by
    rw [ordinals_cons ho, ordinals_append]
    exact List.perm_append_comm.trans (h₁.tree.append h₂.tree)
  every := (h₁.exchange h₂).1
  inOrder := by
    rw [(h₁.exchange h₂).2, ← hk, and_comm]
    simp [KeepsOrder]

end Places

/-! ## Steady writing -/

/-- The target in a dialect and a layout in which bare parameters are written by a marking. -/
def Marking.target (d : Dialect) (l : Layout) (b : Marking) : Target := ⟨d, l, b.1⟩

/-- For the counter `n`, the writers `P b` all fail, or all give a result and the same new counter;
`G` then holds of the results and the counter. -/
def Steady {α : Type} (d : Dialect) (l : Layout) (P : Marking → Render α) (n : Nat)
    (G : (Marking → α) → Nat → Prop) : Prop :=
  (∃ f m, G f m ∧ ∀ b, P b (b.target d l) n = .ok (f b, m)) ∨
    ∀ b, ∃ e, P b (b.target d l) n = .error e

namespace Steady

variable {α β : Type} {d : Dialect} {l : Layout} {n : Nat}

theorem pure {f : Marking → α} {G : (Marking → α) → Nat → Prop} (h : G f n) :
    Steady d l (fun b => Pure.pure (f b)) n G :=
  .inl ⟨f, n, h, fun _ => rfl⟩

theorem unsupported (construct : String) {G : (Marking → α) → Nat → Prop} :
    Steady d l (fun _ => Render.unsupported construct) n G :=
  .inr fun _ => ⟨_, rfl⟩

theorem bind {P : Marking → Render α} {Q : Marking → α → Render β}
    {G : (Marking → α) → Nat → Prop} {H : (Marking → β) → Nat → Prop} (hP : Steady d l P n G)
    (hQ : ∀ f m, G f m → Steady d l (fun b => Q b (f b)) m H) :
    Steady d l (fun b => P b >>= Q b) n H := by
  rcases hP with ⟨f, m, hG, hP⟩ | hP
  · have hrun (b : Marking) : (P b >>= Q b) (b.target d l) n = Q b (f b) (b.target d l) m := by
      simp only [Bind.bind, hP b]
    rcases hQ f m hG with ⟨g, k, hH, hQ⟩ | hQ
    · exact .inl ⟨g, k, hH, fun b => (hrun b).trans (hQ b)⟩
    · exact .inr fun b => (hQ b).imp fun e he => (hrun b).trans he
  · refine .inr fun b => ?_
    obtain ⟨e, he⟩ := hP b
    exact ⟨e, by simp only [Bind.bind, he]⟩

/-- What is asked about the target, other than how bare parameters are written, is the same for all
markings. -/
theorem target {Q : Marking → Target → Render β} {H : (Marking → β) → Nat → Prop}
    (h : ∀ b, Q b (b.target d l) = Q b { dialect := d, layout := l })
    (hQ : Steady d l (fun b => Q b { dialect := d, layout := l }) n H) :
    Steady d l (fun b => Render.target >>= Q b) n H := by
  have hrun (b : Marking) : (Render.target >>= Q b) (b.target d l) n =
      Q b { dialect := d, layout := l } (b.target d l) n := by
    rw [← h b]
    rfl
  simpa only [Steady, hrun] using hQ

/-- A construct that the dialect must be able to say. -/
theorem require (c : Construct) {Q : Marking → Render β} {H : (Marking → β) → Nat → Prop}
    (hQ : d.supports c = true → Steady d l Q n H) :
    Steady d l (fun b => Render.require c >>= fun _ => Q b) n H := by
  cases hc : d.supports c with
  | true =>
    have hrun (b : Marking) : (Render.require c >>= fun _ => Q b) (b.target d l) n =
        Q b (b.target d l) n := by
      simp [Bind.bind, Render.require, Render.target, Marking.target, hc, Pure.pure]
    rcases hQ hc with ⟨f, m, hH, hQ⟩ | hQ
    · exact .inl ⟨f, m, hH, fun b => (hrun b).trans (hQ b)⟩
    · exact .inr fun b => (hQ b).imp fun e he => (hrun b).trans he
  | false =>
    refine .inr fun b => ⟨.unsupported c.describe d.name none, ?_⟩
    simp [Bind.bind, Render.require, Render.target, Marking.target, hc, Render.unsupported]

theorem mono {P : Marking → Render α} {G H : (Marking → α) → Nat → Prop} (hP : Steady d l P n G)
    (h : ∀ f m, G f m → H f m) : Steady d l P n H :=
  hP.imp (fun ⟨f, m, hG, hP⟩ => ⟨f, m, h f m hG, hP⟩) id

/-- The second choice is taken from the same counter, so whichever is taken is steady. -/
theorem orElse {P Q : Marking → Render α} {G : (Marking → α) → Nat → Prop}
    (hP : Steady d l P n G) (hQ : Steady d l Q n G) :
    Steady d l (fun b => Render.orElse (P b) (Q b)) n G := by
  rcases hP with ⟨f, m, hG, hP⟩ | hP
  · exact .inl ⟨f, m, hG, fun b => by simp only [Render.orElse, hP b]⟩
  · have hrun (b : Marking) : Render.orElse (P b) (Q b) (b.target d l) n =
        Q b (b.target d l) n := by
      obtain ⟨e, he⟩ := hP b
      simp only [Render.orElse, he]
    rcases hQ with ⟨f, m, hG, hQ⟩ | hQ
    · exact .inl ⟨f, m, hG, fun b => (hrun b).trans (hQ b)⟩
    · exact .inr fun b => (hQ b).imp fun e he => (hrun b).trans he

end Steady

/-! ## Texts with their places -/

/-- The text of the nodes `ns`. -/
def Written (d : Dialect) (ns : List Node) (n : Nat) (f : Marking → String) (m : Nat) : Prop :=
  ∃ ks, Follows f ks ∧ Places d ns n ks m

/-- The texts of the nodes `ns`. -/
def WrittenAll (d : Dialect) (ns : List Node) (n : Nat) (f : Marking → List String) (m : Nat) :
    Prop :=
  ∃ ks, FollowAll f ks ∧ Places d ns n ks m

/-- The text of the nodes `ns`, or none for no nodes. -/
def WrittenOption (d : Dialect) (ns : List Node) (n : Nat) (f : Marking → Option String)
    (m : Nat) : Prop :=
  (ns = [] ∧ m = n ∧ ∀ b, f b = none) ∨
    ∃ g, (∀ b, f b = some (g b)) ∧ Written d ns n g m

/-- One text for each list of nodes. -/
def WrittenEach (d : Dialect) : List (List Node) → Nat → (Marking → List String) → Nat → Prop
  | [], n, f, m => m = n ∧ ∀ b, f b = []
  | ns :: rest, n, f, m =>
    ∃ g h k, (∀ b, f b = g b :: h b) ∧ Written d ns n g k ∧ WrittenEach d rest k h m

section Written

variable {d : Dialect} {l : Layout} {ns ms : List Node} {n m k : Nat}

theorem Written.const (d : Dialect) (n : Nat) (s : String) : Written d [] n (fun _ => s) n :=
  ⟨[], .const s, .nil d n⟩

theorem Written.append {f g : Marking → String} (hf : Written d ns n f m)
    (hg : Written d ms m g k) : Written d (ns ++ ms) n (fun b => f b ++ g b) k := by
  obtain ⟨ks, hf, hp⟩ := hf
  obtain ⟨ls, hg, hq⟩ := hg
  exact ⟨ks ++ ls, hf.append hg, hp.append hq⟩

theorem Written.around {f : Marking → String} (hf : Written d ns n f m) (left right : String) :
    Written d ns n (fun b => left ++ f b ++ right) m :=
  hf.imp fun _ h => ⟨h.1.around left right, h.2⟩

theorem Written.node {f : Marking → String} (hf : Written d ns n f m) {x : Node}
    (ho : x.ordinal? = none) (hk : x.keepsOrder d = true) : Written d (x :: ns) n f m :=
  hf.imp fun _ h => ⟨h.1, h.2.node ho hk⟩

theorem Written.permNodes {f : Marking → String} (hf : Written d ns n f m) (h : ns.Perm ms) :
    Written d ms n f m :=
  hf.imp fun _ hks => ⟨hks.1, hks.2.permNodes h⟩

theorem WrittenAll.nil (d : Dialect) (n : Nat) : WrittenAll d [] n (fun _ => []) n :=
  ⟨[], .nil, .nil d n⟩

theorem WrittenAll.cons {f : Marking → String} {g : Marking → List String}
    (hf : Written d ns n f m) (hg : WrittenAll d ms m g k) :
    WrittenAll d (ns ++ ms) n (fun b => f b :: g b) k := by
  obtain ⟨ks, hf, hp⟩ := hf
  obtain ⟨ls, hg, hq⟩ := hg
  exact ⟨ks ++ ls, .cons hf hg, hp.append hq⟩

theorem WrittenAll.append {f g : Marking → List String} (hf : WrittenAll d ns n f m)
    (hg : WrittenAll d ms m g k) : WrittenAll d (ns ++ ms) n (fun b => f b ++ g b) k := by
  obtain ⟨ks, hf, hp⟩ := hf
  obtain ⟨ls, hg, hq⟩ := hg
  exact ⟨ks ++ ls, hf.append hg, hp.append hq⟩

theorem WrittenAll.node {f : Marking → List String} (hf : WrittenAll d ns n f m) {x : Node}
    (ho : x.ordinal? = none) (hk : x.keepsOrder d = true) : WrittenAll d (x :: ns) n f m :=
  hf.imp fun _ h => ⟨h.1, h.2.node ho hk⟩

theorem WrittenAll.permNodes {f : Marking → List String} (hf : WrittenAll d ns n f m)
    (h : ns.Perm ms) : WrittenAll d ms n f m :=
  hf.imp fun _ hks => ⟨hks.1, hks.2.permNodes h⟩

theorem WrittenAll.const (d : Dialect) (n : Nat) (xs : List String) :
    WrittenAll d [] n (fun _ => xs) n :=
  ⟨[], .const xs, .nil d n⟩

theorem WrittenAll.map {f : Marking → List String} {c : String → String}
    (hc : ∀ h ls, Follows h ls → Follows (fun b => c (h b)) ls) (hf : WrittenAll d ns n f m) :
    WrittenAll d ns n (fun b => (f b).map c) m :=
  hf.imp fun _ h => ⟨h.1.map hc, h.2⟩

theorem WrittenAll.intercalate {f : Marking → List String} (hf : WrittenAll d ns n f m)
    (sep : String) : Written d ns n (fun b => String.intercalate sep (f b)) m :=
  hf.imp fun _ h => ⟨h.1.intercalate sep, h.2⟩

theorem Written.single {f : Marking → String} (hf : Written d ns n f m) :
    WrittenAll d ns n (fun b => [f b]) m :=
  hf.imp fun _ h => ⟨.single h.1, h.2⟩

theorem Written.unaryText {f : Marking → String} (hf : Written d ns n f m) (op : UnaryOp) :
    Written d ns n (fun b => Target.unaryText op (f b)) m :=
  hf.imp fun _ h => ⟨h.1.unaryText op, h.2⟩

theorem Written.block {t : Target} (ht : t.dialect.QuotesApart) {f : Marking → String}
    (hf : Written d ns n f m) : Written d ns n (fun b => t.block (f b)) m :=
  hf.imp fun _ h => ⟨h.1.block ht, h.2⟩

theorem Written.listClause {t : Target} (ht : t.dialect.QuotesApart) {f : Marking → String}
    {g : Marking → List String} (hf : Written d ns n f m) (hg : WrittenAll d ms m g k) :
    Written d (ns ++ ms) n (fun b => t.listClause (f b) (g b)) k := by
  obtain ⟨ks, hf, hp⟩ := hf
  obtain ⟨ls, hg, hq⟩ := hg
  exact ⟨ks ++ ls, .listClause ht hf hg, hp.append hq⟩

theorem WrittenAll.clauses {t : Target} {f : Marking → List String} (hf : WrittenAll d ns n f m) :
    Written d ns n (fun b => t.clauses (f b)) m :=
  hf.imp fun _ h => ⟨.clauses h.1, h.2⟩

/-- Whether there are texts at all does not depend on marks. -/
theorem WrittenAll.isEmpty {f : Marking → List String} (hf : WrittenAll d ns n f m) :
    (∀ b, (f b).isEmpty = true) ∨ ∀ b, (f b).isEmpty = false := by
  obtain ⟨ks, ⟨Ts, -, hT⟩, -⟩ := hf
  cases Ts with
  | nil => exact .inl fun b => by simp [hT b]
  | cons T Ts => exact .inr fun b => by simp [hT b]

theorem WrittenEach.all {nss : List (List Node)} {f : Marking → List String} {n m : Nat}
    (h : WrittenEach d nss n f m) : WrittenAll d nss.flatten n f m := by
  induction nss generalizing n f with
  | nil =>
    obtain ⟨rfl, hf⟩ := h
    obtain rfl : f = fun _ => [] := funext hf
    exact .nil d _
  | cons ns nss ih =>
    obtain ⟨g, h, k, hf, hg, hh⟩ := h
    obtain rfl : f = fun b => g b :: h b := funext hf
    exact .cons hg (ih hh)

/-- The arguments of a call, in the order of its text. -/
theorem WrittenEach.calledArgs {t : Target} (ht : t.dialect = d) (f : Call)
    {g : Marking → List String} (hg : WrittenEach d (f.args.map Arg.nodes) n g m) :
    WrittenAll d (.call f :: argNodes f.args) n (fun b => t.calledArgs f.name (g b)) m := by
  subst ht
  obtain ⟨name, args, distinct, window⟩ := f
  have hnodes : ∀ args, (args.map Arg.nodes).flatten = argNodes args := by
    intro args
    induction args with
    | nil => simp [argNodes]
    | cons a args ih => rw [List.map_cons, List.flatten_cons, ih, argNodes_cons]
  have hplain (hk : Node.keepsOrder t.dialect (.call ⟨name, args, distinct, window⟩) = true) :
      WrittenAll t.dialect (.call ⟨name, args, distinct, window⟩ :: argNodes args) n g m := by
    rw [← hnodes]
    exact hg.all.node rfl hk
  unfold Target.calledArgs
  cases hs : t.dialect.spelling? name with
  | none => exact hplain (by simp [Node.keepsOrder, hs])
  | some spelling =>
    cases spelling with
    | rename other => exact hplain (by simp [Node.keepsOrder, hs])
    | position => exact hplain (by simp [Node.keepsOrder, hs])
    | swap other =>
      rcases args with _ | ⟨a, _ | ⟨b, rest⟩⟩
      · obtain rfl : g = fun _ => [] := funext hg.2
        exact hplain (by simp [Node.keepsOrder, hs])
      · obtain ⟨x, h, k, hx, -, -, hnil⟩ := id hg
        obtain rfl : g = fun b => [x b] := funext fun b => by rw [hx, hnil]
        exact hplain (by simp [Node.keepsOrder, hs])
      · obtain ⟨x, h, k, hx, ⟨ks, hxs, hp⟩, y, r, k', hy, ⟨ls, hys, hq⟩, hrest⟩ := hg
        obtain ⟨rs, hrs, hr⟩ := hrest.all
        have hg' (b : Marking) : g b = x b :: y b :: r b := by rw [hx, hy]
        have hpair : WrittenAll t.dialect
            (.call ⟨name, a :: b :: rest, distinct, window⟩ :: (a.nodes ++ b.nodes)) n
            (fun b => [y b, x b]) k' :=
          ⟨ls ++ ks, (FollowAll.single hys).append (.single hxs),
            hp.exchanged hq rfl (by simp [Node.keepsOrder, hs])⟩
        have hrest : WrittenAll t.dialect (argNodes rest) k' r m :=
          ⟨rs, hrs, by rw [← hnodes]; exact hr⟩
        have hall := hpair.append hrest
        simpa [hg', argNodes_cons, List.append_assoc] using hall

end Written

/-! ## Parts with their operands written -/

section Parts

variable {d : Dialect} {l : Layout} {ns ms : List Node} {n : Nat}

theorem whole_steady {P : Marking → Render (List String)}
    (hP : Steady d l P n (WrittenAll d ns n)) :
    Steady d l (fun b => Render.whole (P b)) n (Written d ns n) := by
  refine hP.bind fun f m hf => .target (fun _ => rfl) (.pure ?_)
  obtain ⟨ks, ⟨Ts, rfl, hT⟩, hp⟩ := hf
  refine ⟨_, ?_, hp⟩
  have hall : FollowAll f (Ts.flatMap Template.ordinals) := ⟨Ts, rfl, hT⟩
  -- one text stands alone, several stand in a call; how many there are does not depend on marks
  by_cases hone : ∃ T, Ts = [T]
  · obtain ⟨T, rfl⟩ := hone
    exact ⟨T, by simp, fun b => by simp [hT b, Target.whole]⟩
  · have hcall (b : Marking) : ({ dialect := d, layout := l } : Target).whole (f b) =
        Target.functionName { dialect := d, layout := l } "CONCAT" ++ "(" ++
          String.intercalate ", " (f b) ++ ")" := by
      have hlen : ∀ x, f b ≠ [x] := by
        intro x hx
        rw [hT b] at hx
        obtain ⟨T, hT', -⟩ := List.map_eq_singleton_iff.mp hx
        exact hone ⟨T, hT'⟩
      rw [Target.whole]
      · rfl
      · exact hlen
    simpa only [hcall] using (hall.intercalate ", ").around _ ")"

theorem operand_steady {P : Marking → Render (List String)}
    (hP : Steady d l P n (WrittenAll d ns n)) (e : Expr) (parent : Precedence) (right : Bool) :
    Steady d l (fun b => operand e parent right (P b)) n (Written d ns n) := by
  refine (whole_steady hP).bind fun f m hf => .target (fun _ => rfl) (.pure ?_)
  simp only [Target.wrap]
  split
  · simpa using hf.around "(" ")"
  · exact hf

theorem single_steady {P : Marking → Render String} (hP : Steady d l P n (Written d ns n)) :
    Steady d l (fun b => single (P b)) n (WrittenAll d ns n) :=
  hP.bind fun _ _ hf => .pure hf.single

theorem literal_steady (v : Literal) :
    Steady d l (fun _ => literal v) n (Written d [.expr (.literal v)] n) := by
  have hw (s : String) : Written d [.expr (.literal v)] n (fun _ => s) n :=
    (Written.const d n s).node rfl rfl
  refine .target (fun _ => rfl) ?_
  cases v with
  | number digits => exact .pure (hw _)
  | string value => exact .pure (hw _)
  | null => exact .pure (hw _)
  | boolean v =>
    cases h : d.writing.booleans with
    | keyword => simpa only [h] using .pure (hw _)
    | integer => simpa only [h] using .pure (hw _)
  | temporal kind value =>
    cases h : d.writing.temporals with
    | keyword => simpa only [h] using .pure (hw _)
    | cast => simpa only [h] using .pure (hw _)
    | function =>
      cases kind with
      | date => simpa only [h] using .pure (hw _)
      | time => simpa only [h] using .pure (hw _)
      | timestamp => simpa only [h] using .pure (hw _)

/-- A bare parameter is written exactly if its ordinal is next. -/
theorem ordinal_steady (hd : d.params = .question) (k : Nat) (positional : Bool) {x : Node}
    (hx : x.ordinal? = some k) (hk : x.keepsOrder d = true) :
    Steady d l (fun _ => ordinal k positional) n (Written d [x] n) := by
  by_cases hnext : k = n + 1
  · subst hnext
    refine .inl ⟨fun b => b.1 (n + 1), n + 1, ⟨[n + 1], .place _, ?_⟩, fun b => ?_⟩
    · exact ⟨by omega, by simp [ordinals, hx], by simp, by simp [KeepsOrder, hk]⟩
    · simp [ordinal, bindInSequence, Bind.bind, Render.target, Marking.target, hd, Pure.pure]
  · refine .inr fun b => ⟨.unsupported "reordered bind parameter" d.name none, ?_⟩
    simp [ordinal, bindInSequence, Bind.bind, Render.target, Marking.target, hd, hnext,
      Render.unsupported]

theorem param_steady (hd : d.params = .question) (p : Param) :
    Steady d l (fun _ => param p) n (Written d [.expr (.param p)] n) := by
  cases p with
  | positional k => exact ordinal_steady hd k true rfl rfl
  | numbered k => exact ordinal_steady hd k false rfl rfl
  | named name =>
    refine .target (fun _ => rfl) ?_
    cases h : d.writing.namedParamMark with
    | some mark => simpa only [h] using .pure ((Written.const d n _).node rfl rfl)
    | none => simpa only [h] using .unsupported _

theorem now_steady (kind : TemporalKind) :
    Steady d l (fun _ => now kind) n (Written d [.expr (.now kind)] n) := by
  have hw (s : String) : Written d [.expr (.now kind)] n (fun _ => s) n :=
    (Written.const d n s).node rfl rfl
  refine .target (fun _ => rfl) ?_
  cases kind with
  | date =>
    cases h : d.writing.currentDate with
    | some text => simpa only [h] using .pure (hw text)
    | none => simpa only [h] using .unsupported _
  | time =>
    cases h : d.writing.currentTime with
    | some text => simpa only [h] using .pure (hw text)
    | none => simpa only [h] using .unsupported _
  | timestamp => exact .pure (hw _)

theorem binary_steady {L R : Marking → Render (List String)} (left right : Expr) (op : BinaryOp)
    (hL : ∀ n, Steady d l L n (WrittenAll d ns n)) (hR : ∀ n, Steady d l R n (WrittenAll d ms n)) :
    Steady d l (fun b => binary left op right (L b) (R b)) n (WrittenAll d (ns ++ ms) n) := by
  refine .target (fun _ => rfl) ?_
  cases Target.binaryForm { dialect := d, layout := l } op with
  | symbol s =>
    refine (operand_steady (hL n) ..).bind fun f m hf => ?_
    refine (operand_steady (hR m) ..).bind fun g k hg => .pure (Written.single ?_)
    simpa [String.append_assoc] using hf.append (hg.around (" " ++ s ++ " ") "")
  | function canonical =>
    refine (whole_steady (hL n)).bind fun f m hf => ?_
    refine (whole_steady (hR m)).bind fun g k hg => .pure (Written.single ?_)
    simpa [String.append_assoc] using
      (hf.append (hg.around ", " "")).around
        (Target.functionName { dialect := d, layout := l } canonical ++ "(") ")"
  | chain => exact (hL n).bind fun f m hf => (hR m).bind fun g k hg => .pure (hf.append hg)
  | none => exact .unsupported _

theorem interval_steady {P : Marking → Render (List String)} (e : Expr) (unit : Option DateField)
    (hP : Steady d l P n (WrittenAll d e.nodes n)) :
    Steady d l (fun b => interval e unit (P b)) n
      (Written d (.expr (.interval e unit) :: e.nodes) n) := by
  have hliteral (v : Literal) (s : String) :
      Written d (.expr (.interval (.literal v) unit) :: Expr.nodes (.literal v)) n
        (fun _ => s) n :=
    ((Written.const d n s).node rfl rfl).node rfl rfl
  have hoperand (parent : Precedence) (left right : String) : Steady d l
      (fun b => operand e parent false (P b) >>= fun amount => Pure.pure (left ++ amount ++ right)) n
      (Written d (.expr (.interval e unit) :: e.nodes) n) :=
    (operand_steady hP e parent false).bind fun f m hf =>
      .pure ((hf.around left right).node rfl rfl)
  refine .target (fun _ => rfl) ?_
  cases d.writing.interval with
  | none => exact .unsupported _
  | some style =>
    cases style with
    | quoted =>
      cases hq : Target.quotedAmount? e with
      | some text =>
        obtain ⟨v, rfl⟩ : ∃ v, e = .literal v := by
          unfold Target.quotedAmount? at hq
          split at hq
          · exact ⟨_, rfl⟩
          · exact ⟨_, rfl⟩
          · cases hq
        cases unit with
        | none => exact .pure (hliteral v _)
        | some u => exact .pure (hliteral v _)
      | none =>
        cases unit with
        | none => exact .unsupported _
        | some u =>
          simpa [String.append_assoc] using
            hoperand .multiplicative "" (" * INTERVAL '1' " ++ u.keyword)
    | bare =>
      cases unit with
      | some u =>
        have h := hoperand .unary "INTERVAL " (" " ++ u.keyword)
        cases e <;> simpa [String.append_assoc] using h
      | none =>
        by_cases hs : ∃ s, e = .literal (.string s)
        · obtain ⟨s, rfl⟩ := hs
          cases hsplit : splitInterval? s with
          | some r => simpa only [hsplit] using .pure (hliteral (.string s) _)
          | none => simpa only [hsplit] using .unsupported _
        · have hfail : Steady d l (fun _ => unsupported "INTERVAL without a unit") n
              (Written d (.expr (.interval e none) :: e.nodes) n) := .unsupported _
          cases e with
          | literal v =>
            cases v with
            | string s => exact absurd ⟨s, rfl⟩ hs
            | _ => exact hfail
          | _ => exact hfail

theorem pattern_steady {L R : Marking → Render (List String)} (left right : Expr)
    (negated anyCase : Bool) (hL : ∀ n, Steady d l L n (WrittenAll d ns n))
    (hR : ∀ n, Steady d l R n (WrittenAll d ms n)) :
    Steady d l (fun b => pattern left right negated anyCase (L b) (R b)) n
      (Written d (ns ++ ms) n) := by
  have hlower (f : Marking → String) {ns : List Node} {n m : Nat} (hf : Written d ns n f m) :
      Written d ns n
        (fun b => Target.callText { dialect := d, layout := l } "LOWER" false [f b]) m := by
    have hargs (b : Marking) :
        Target.calledArgs { dialect := d, layout := l } "LOWER" [f b] = [f b] := by
      unfold Target.calledArgs
      split <;> simp_all
    simpa [Target.callText_eq, hargs, String.append_assoc] using
      hf.around (Target.calledName { dialect := d, layout := l } "LOWER" ++ "(") ")"
  refine .target (fun _ => rfl) ?_
  split
  · refine (operand_steady (hL n) ..).bind fun f m hf => ?_
    refine (operand_steady (hR m) ..).bind fun g k hg => .pure ?_
    simpa [String.append_assoc] using
      hf.append (hg.around (" " ++ negation negated ++ (if anyCase then "ILIKE" else "LIKE") ++ " ") "")
  · refine (whole_steady (hL n)).bind fun f m hf => ?_
    refine (whole_steady (hR m)).bind fun g k hg => .pure ?_
    simpa [String.append_assoc, pattern.lowerName] using
      (hlower f hf).append ((hlower g hg).around (" " ++ negation negated ++ "LIKE ") "")

end Parts

end SqlDialects
