import Mathlib.Data.List.Induction
import Mathlib.Data.String.Basic
import SqlDialects.Settings

/-!
# Registrations

* `Registration` : a call that registers a dialect, or all dialects of settings;
* `Registry.replay`, `lastUnder` : a log of dialects with their names, registered one after the
  other, and its last dialect under a key;
* `Settings.LoggedAs` : a log that has each entry of settings under its name, with the dialect that it builds;
* `registrations_last_wins` : after any calls a name means the dialect that came last under it;
* `Settings.registerEach` : the dialects of settings registered one at a time;
* `registerAll_iff_registerEach` : settings mean the same at once and one at a time, as long as each
  entry's name answers to a later base in both ways of comparing them.
-/

namespace SqlDialects

namespace Table

variable {κ α : Type} [DecidableEq κ]

theorem mem_keys_iff (t : Table κ α) (k : κ) : k ∈ t.keys ↔ (t.get? k).isSome := by
  simp [keys, get?]

theorem keys_insert_nodup {t : Table κ α} (h : t.keys.Nodup) (k : κ) (v : α) :
    (t.insert k v).keys.Nodup := by
  have hkeys : (t.filter fun e => e.1 ≠ k).map Prod.fst = t.keys.filter (· ≠ k) := by
    simp [keys, List.filter_map, Function.comp_def]
  simp only [insert, keys, List.map_cons, hkeys, List.nodup_cons]
  exact ⟨by simp, h.filter _⟩

end Table

/-! ## Logs -/

/-- The last dialect of a log under a name with the key `key`. -/
def lastUnder (log : List (String × Dialect)) (key : String) : Option Dialect :=
  (log.reverse.find? fun e => Registry.normalize e.1 = key).map Prod.snd

theorem lastUnder_append (log more : List (String × Dialect)) (key : String) :
    lastUnder (log ++ more) key = (lastUnder more key).or (lastUnder log key) := by
  simp [lastUnder, List.find?_append, Option.map_or]

/-- The last dialect under a key has a name with that key. -/
theorem exists_of_lastUnder {log : List (String × Dialect)} {key : String} {d : Dialect}
    (h : lastUnder log key = some d) : ∃ name, (name, d) ∈ log ∧ Registry.normalize name = key := by
  obtain ⟨⟨name, _⟩, hfind, rfl⟩ := Option.map_eq_some_iff.mp h
  exact ⟨name, by simpa using List.mem_of_find?_eq_some hfind, by simpa using List.find?_some hfind⟩

theorem lastUnder_singleton (name : String) (d : Dialect) (key : String) :
    lastUnder [(name, d)] key = if Registry.normalize name = key then some d else none := by
  by_cases h : Registry.normalize name = key <;> simp [lastUnder, h]

namespace Registry

/-- The registry after the registrations of a log. -/
def replay (r : Registry) (log : List (String × Dialect)) : Registry :=
  log.foldl (fun r e => r.register e.1 e.2) r

theorem replay_append (r : Registry) (log more : List (String × Dialect)) :
    r.replay (log ++ more) = (r.replay log).replay more :=
  List.foldl_append

theorem get?_register (r : Registry) (name : String) (d : Dialect) (key : String) :
    (r.register name d).entries.get? key =
      if normalize name = key then some (d.named key) else r.entries.get? key := by
  rw [register, Table.get?_insert]
  by_cases h : normalize name = key
  · rw [if_pos h.symm, if_pos h, h]
  · rw [if_neg (Ne.symm h), if_neg h]

/-- A key holds the last dialect of the log under it, else what it held before. -/
theorem get?_replay (r : Registry) (log : List (String × Dialect)) (key : String) :
    (r.replay log).entries.get? key =
      ((lastUnder log key).map (·.named key)).or (r.entries.get? key) := by
  induction log using List.reverseRecOn with
  | nil => rfl
  | append_singleton log e ih =>
    obtain ⟨name, d⟩ := e
    rw [replay_append, lastUnder_append, lastUnder_singleton]
    simp only [replay, List.foldl_cons, List.foldl_nil] at ih ⊢
    rw [get?_register, ih]
    by_cases h : normalize name = key <;> simp [h]

theorem keys_replay_nodup {r : Registry} (h : r.entries.keys.Nodup)
    (log : List (String × Dialect)) : (r.replay log).entries.keys.Nodup := by
  induction log generalizing r with
  | nil => exact h
  | cons e log ih => exact ih (Table.keys_insert_nodup h _ _)

/-! ## Answers -/

theorem resolve_eq_ok_iff (r : Registry) (name : String) (d : Dialect) :
    r.resolve name = .ok d ↔ r.entries.get? (normalize name) = some d := by
  cases h : r.entries.get? (normalize name) <;> simp [resolve, h]

theorem resolve_of_none {r : Registry} {name : String}
    (h : r.entries.get? (normalize name) = none) :
    ∃ hint, r.resolve name = .error (.unknownDialect name hint) := by
  simp [resolve, h]

theorem contains_eq_isOk (r : Registry) (name : String) :
    r.contains name = (r.resolve name).isOk := by
  cases h : r.entries.get? (normalize name) <;>
    simp [contains, resolve, h, Except.isOk, Except.toBool]

/-- The names of a registry without double keys rise. -/
theorem names_pairwise {r : Registry} (h : r.entries.keys.Nodup) : r.names.Pairwise (· < ·) := by
  have hsorted : r.names.Pairwise (· ≤ ·) := by
    have hsort := @List.pairwise_mergeSort _ (fun a b : String => decide (a ≤ b))
      (by simpa using fun a b c => le_trans) (by simpa using le_total) r.entries.keys
    simpa [names] using hsort
  have hnodup : r.names.Nodup := (List.mergeSort_perm _ _).nodup_iff.mpr h
  exact (hsorted.and hnodup).imp fun ⟨hle, hne⟩ => lt_of_le_of_ne hle hne

theorem mem_names_iff (r : Registry) (key : String) :
    key ∈ r.names ↔ (r.entries.get? key).isSome := by
  rw [names, List.mem_mergeSort, Table.mem_keys_iff]

theorem mem_names_iff_resolve (r : Registry) (key : String) :
    key ∈ r.names ∧ (∃ n, normalize n = key) ↔ ∃ n d, normalize n = key ∧ r.resolve n = .ok d := by
  rw [mem_names_iff]
  constructor
  · rintro ⟨h, n, rfl⟩
    obtain ⟨d, hd⟩ := Option.isSome_iff_exists.mp h
    exact ⟨n, d, rfl, (r.resolve_eq_ok_iff n d).mpr hd⟩
  · rintro ⟨n, d, rfl, h⟩
    exact ⟨by simp [(r.resolve_eq_ok_iff n d).mp h], n, rfl⟩

end Registry

/-! ## Custom dialects -/

namespace Dialect

variable {γ : Type} (view : Dialect → γ)

theorem view_foldl {β : Type} (f : Dialect → β → Dialect) (bs : List β) (d : Dialect)
    (hf : ∀ d b, view (f d b) = view d) : view (bs.foldl f d) = view d := by
  induction bs generalizing d with
  | nil => rfl
  | cons b bs ih => rw [List.foldl_cons, ih, hf]

/-- A style of row limits shows only in a view of words, of constructs or of the limits
themselves. -/
theorem view_limitStyle (d : Dialect) (style : LimitStyle)
    (hlimits : ∀ d r style, view { d with reading := r, writing.limitStyle := style } = view d)
    (hrelease : ∀ d w, view (d.releaseWord w) = view d)
    (hreserve : ∀ d w, view (d.reserveWord w) = view d)
    (hallow : ∀ d c, view (d.allow c) = view d) (hforbid : ∀ d c, view (d.forbid c) = view d) :
    view (d.limitStyle style) = view d := by
  have hfold (d : Dialect) (free taken : List String) :
      view (taken.foldl reserveWord (free.foldl releaseWord d)) = view d := by
    rw [view_foldl view reserveWord _ _ hreserve, view_foldl view releaseWord _ _ hrelease]
  unfold limitStyle
  dsimp only
  split
  · rw [hallow, hfold, hlimits]
  · rw [hforbid, hfold, hlimits]

theorem view_reserve (d : Dialect) (words : List String)
    (hreserve : ∀ d w, view (d.reserveWord w) = view d) : view (d.reserve words) = view d :=
  view_foldl view _ _ _ fun d w => hreserve d (Text.upper w)

theorem name_limitStyle (d : Dialect) (style : LimitStyle) :
    (d.limitStyle style).name = d.name :=
  view_limitStyle name d style (fun _ _ _ => rfl) (fun _ _ => rfl) (fun _ _ => rfl)
    (fun _ _ => rfl) fun _ _ => rfl

end Dialect

namespace CustomDialect

/-- The base with the name and the quotes of a custom dialect. -/
def quoted (c : CustomDialect) (base : Dialect) : Option Dialect :=
  match c.nameQuote with
  | none => some (base.named c.name)
  | some quote => (quotesOf? quote).map fun q => (base.named c.name).quoteNames q.1 q.2

/-- The dialect that a custom dialect makes of its base with its name and quotes. -/
def refine (c : CustomDialect) (d : Dialect) : Dialect :=
  let d := (c.limitStyle.map d.limitStyle).getD d
  let d :=
    match c.unknownFunctions with
    | some policy => { d with reading.unknownFunctions := policy }
    | none => d
  let d := d.reserve c.reserved
  let d := c.functionAliases.foldl
    (fun d (name, canonical) => d.aliasFunction name (.rename (Text.upper canonical))) d
  c.functionNames.foldl (fun d (canonical, rendered) => d.renameFunction canonical rendered) d

/-- What a built dialect is: it has a name, and quotes that are known. -/
theorem build_eq_ok_iff (c : CustomDialect) (base d : Dialect) :
    c.build base = .ok d ↔
      Text.trim c.name ≠ "" ∧ ∃ q, c.quoted base = some q ∧ c.refine q = d := by
  by_cases hname : Text.trim c.name = ""
  · have hbuild : c.build base = .error (.settings .namelessDialect) := by
      simp only [build, hname]
      rfl
    simp [hbuild, hname]
  cases hq : c.nameQuote with
  | none =>
    have hbuild : c.build base = .ok (c.refine (base.named c.name)) := by
      simp only [build, beq_iff_eq, hname, hq]
      rfl
    simp [hbuild, hname, quoted, hq]
  | some quote =>
    cases hpair : quotesOf? quote with
    | none =>
      have hbuild : c.build base = .error (.settings (.badQuote c.name quote)) := by
        simp only [build, beq_iff_eq, hname, hq, hpair]
        rfl
      simp [hbuild, quoted, hq, hpair]
    | some pair =>
      have hbuild :
          c.build base = .ok (c.refine ((base.named c.name).quoteNames pair.1 pair.2)) := by
        simp only [build, beq_iff_eq, hname, hq, hpair]
        rfl
      simp [hbuild, hname, quoted, hq, hpair]

/-- A view of a dialect that shows no words, constructs, limits or functions is not changed behind
the name and the quotes. -/
theorem view_refine {γ : Type} (view : Dialect → γ) (c : CustomDialect) (d : Dialect)
    (hlimit : ∀ d style, view (Dialect.limitStyle d style) = view d)
    (hunknown : ∀ d policy, view { d with reading.unknownFunctions := policy } = view d)
    (hreserve : ∀ d w, view (Dialect.reserveWord d w) = view d)
    (halias : ∀ d name meaning, view (Dialect.aliasFunction d name meaning) = view d)
    (hrename : ∀ d name spelling, view (Dialect.renameFunction d name spelling) = view d) :
    view (c.refine d) = view d := by
  have haliases (d : Dialect) : view (c.functionAliases.foldl
      (fun d (name, canonical) => d.aliasFunction name (.rename (Text.upper canonical))) d) =
        view d :=
    Dialect.view_foldl view _ _ _ fun d ⟨name, canonical⟩ => halias d name _
  have hnames (d : Dialect) : view (c.functionNames.foldl
      (fun d (canonical, rendered) => d.renameFunction canonical rendered) d) = view d :=
    Dialect.view_foldl view _ _ _ fun d ⟨canonical, rendered⟩ => hrename d canonical rendered
  unfold refine
  dsimp only
  rw [hnames, haliases, Dialect.view_reserve view _ _ hreserve]
  cases c.unknownFunctions <;> cases c.limitStyle <;> simp [hlimit, hunknown]

theorem name_refine (c : CustomDialect) (d : Dialect) : (c.refine d).name = d.name :=
  view_refine Dialect.name c d Dialect.name_limitStyle (fun _ _ => rfl) (fun _ _ => rfl)
    (fun _ _ _ => rfl) fun _ _ _ => rfl

theorem name_of_build {c : CustomDialect} {base d : Dialect} (h : c.build base = .ok d) :
    d.name = c.name := by
  obtain ⟨-, q, hq, rfl⟩ := (build_eq_ok_iff c base d).mp h
  rw [name_refine]
  unfold quoted at hq
  split at hq
  · cases hq; rfl
  · obtain ⟨pair, -, rfl⟩ := Option.map_eq_some_iff.mp hq
    rfl

/-- A built dialect does not depend on the name of its base. -/
theorem build_named (c : CustomDialect) (base : Dialect) (name : String) :
    c.build (base.named name) = c.build base := rfl

/-- One step of building: the base of the first entry, the entry, and the others behind it. -/
theorem buildAll_cons_eq_ok_iff (r : Registry) (built : List Dialect) (c : CustomDialect)
    (cs : List CustomDialect) (all : List Dialect) :
    buildAll r built (c :: cs) = .ok all ↔
      ∃ base d, c.findBase r built = .ok base ∧ c.build base = .ok d ∧
        buildAll r (d :: built) cs = .ok all := by
  cases hbase : c.findBase r built with
  | error e => simp [buildAll, hbase, bind, Except.bind]
  | ok base => cases hd : c.build base <;> simp [buildAll, hbase, hd, bind, Except.bind]

theorem names_of_buildAll {r : Registry} {cs : List CustomDialect} {built all : List Dialect}
    (h : buildAll r built cs = .ok all) :
    all.map Dialect.name = (built.map Dialect.name).reverse ++ cs.map CustomDialect.name := by
  induction cs generalizing built with
  | nil => cases h; simp
  | cons c cs ih =>
    obtain ⟨base, d, -, hd, h⟩ := (buildAll_cons_eq_ok_iff r built c cs all).mp h
    simp [ih h, name_of_build hd]

/-- Every entry gives one dialect, in order, and builds it on the base that it finds among those before it. -/
theorem entries_of_buildAll {r : Registry} {cs : List CustomDialect} {built all : List Dialect}
    (h : buildAll r built cs = .ok all) :
    ∃ ds, all = built.reverse ++ ds ∧ ds.length = cs.length ∧
      ∀ (k : Nat) (c : CustomDialect), cs[k]? = some c → ∃ base d, ds[k]? = some d ∧
        c.findBase r ((ds.take k).reverse ++ built) = .ok base ∧ c.build base = .ok d := by
  induction cs generalizing built with
  | nil => exact ⟨[], by cases h; simp⟩
  | cons c cs ih =>
    obtain ⟨base, d, hbase, hd, hrest⟩ := (buildAll_cons_eq_ok_iff r built c cs all).mp h
    obtain ⟨ds, rfl, hlength, hentries⟩ := ih hrest
    refine ⟨d :: ds, by simp, by simp [hlength], fun k e hk => ?_⟩
    cases k with
    | zero =>
      obtain rfl : c = e := by simpa using hk
      exact ⟨base, d, rfl, hbase, hd⟩
    | succ k => simpa using hentries k e hk

end CustomDialect

/-! ## Calls -/

/-- A call that registers dialects. -/
inductive Registration where
  | dialect (name : String) (d : Dialect)
  | settings (s : Settings)

namespace Registration

/-- The registry after a call. A call that fails gives no other registry. -/
def run (r : Registry) : Registration → Registry
  | .dialect name d => r.register name d
  | .settings s =>
    match s.registerAll r with
    | .ok (r, _) => r
    | .error _ => r

/-- The dialects that a call registers, with the names it gives them: none, if it fails. -/
def log (r : Registry) : Registration → List (String × Dialect)
  | .dialect name d => [(name, d)]
  | .settings s =>
    match CustomDialect.buildAll r [] s.dialects with
    | .ok built => (s.dialects.map CustomDialect.name).zip built
    | .error _ => []

end Registration

theorem foldl_register_eq_replay (r : Registry) {names : List String} {built : List Dialect}
    (h : built.map Dialect.name = names) :
    built.foldl (fun r d => r.register d.name d) r = r.replay (names.zip built) := by
  subst h
  induction built generalizing r with
  | nil => rfl
  | cons d built ih => exact ih _

theorem Settings.registerAll_eq_ok_iff (s : Settings) (r r' : Registry) (names : List String) :
    s.registerAll r = .ok (r', names) ↔
      ∃ built, CustomDialect.buildAll r [] s.dialects = .ok built ∧
        r.replay ((s.dialects.map CustomDialect.name).zip built) = r' ∧
          s.dialects.map CustomDialect.name = names := by
  cases h : CustomDialect.buildAll r [] s.dialects with
  | error e => simp [registerAll, h, bind, Except.bind]
  | ok built =>
    have hnames : built.map Dialect.name = s.dialects.map CustomDialect.name := by
      simpa using CustomDialect.names_of_buildAll h
    simp [registerAll, h, bind, Except.bind, pure, Except.pure, hnames,
      foldl_register_eq_replay r hnames]

/-- The log has the entries of the settings in order, each under its name as it is written, with the dialect that
it builds on its base: the latest dialect of that name before it, or the one of the registry. -/
structure Settings.LoggedAs (s : Settings) (r : Registry) (log : List (String × Dialect)) : Prop where
  length : log.length = s.dialects.length
  entries : ∀ (k : Nat) (c : CustomDialect), s.dialects[k]? = some c → ∃ base d, log[k]? = some (c.name, d) ∧
    c.findBase r ((log.take k).map Prod.snd).reverse = .ok base ∧ c.build base = .ok d

/-- Settings that are accepted are logged entry by entry. -/
theorem Settings.loggedAs {s : Settings} {r r' : Registry} {names : List String}
    (h : s.registerAll r = .ok (r', names)) :
    names = s.dialects.map CustomDialect.name ∧ s.LoggedAs r ((Registration.settings s).log r) := by
  obtain ⟨built, hbuilt, -, rfl⟩ := (s.registerAll_eq_ok_iff r r' names).mp h
  obtain ⟨_, rfl, hlength, hentries⟩ := CustomDialect.entries_of_buildAll hbuilt
  have hlog : (Registration.settings s).log r = (s.dialects.map CustomDialect.name).zip built := by
    simp [Registration.log, hbuilt]
  have hdialects : ((s.dialects.map CustomDialect.name).zip built).map Prod.snd = built :=
    List.map_snd_zip (by simp [hlength])
  refine ⟨rfl, ⟨by simp [hlog, hlength], fun k c hk => ?_⟩⟩
  obtain ⟨base, d, hd, hbase, hbuild⟩ := hentries k c hk
  rw [List.append_nil] at hbase
  refine ⟨base, d, ?_, ?_, hbuild⟩
  · rw [hlog, List.getElem?_zip_eq_some]
    exact ⟨by simp [hk], hd⟩
  · rw [hlog, List.map_take, hdialects]
    exact hbase

/-- A call registers its log. -/
theorem Registration.run_eq_replay (r : Registry) (call : Registration) :
    call.run r = r.replay (call.log r) := by
  cases call with
  | dialect name d => rfl
  | settings s =>
    cases h : CustomDialect.buildAll r [] s.dialects with
    | error e => simp [run, log, Settings.registerAll, h, bind, Except.bind, Registry.replay]
    | ok built =>
      have hall := (s.registerAll_eq_ok_iff r _ _).mpr ⟨built, h, rfl, rfl⟩
      simp [run, log, h, hall]

namespace Registry

/-- The registry after a sequence of calls. -/
def after (r : Registry) (calls : List Registration) : Registry := calls.foldl Registration.run r

/-- The dialects that a sequence of calls registers, each call on the registry that those before it
leave. -/
def logOf (r : Registry) : List Registration → List (String × Dialect)
  | [] => []
  | call :: calls => call.log r ++ logOf (call.run r) calls

theorem after_eq_replay (r : Registry) (calls : List Registration) :
    r.after calls = r.replay (r.logOf calls) := by
  induction calls generalizing r with
  | nil => rfl
  | cons call calls ih =>
    rw [logOf, replay_append, ← call.run_eq_replay r, ← ih]
    rfl

theorem logOf_append (r : Registry) (before rest : List Registration) :
    r.logOf (before ++ rest) = r.logOf before ++ (r.after before).logOf rest := by
  induction before generalizing r with
  | nil => rfl
  | cons call before ih => simp [logOf, ih, after]

/-- A call that fails may be left out. -/
theorem after_of_failed (r : Registry) (before rest : List Registration) {s : Settings} {e : Fault}
    (h : s.registerAll (r.after before) = .error e) :
    r.after (before ++ .settings s :: rest) = r.after (before ++ rest) := by
  have hrun : (Registration.settings s).run (r.after before) = r.after before := by
    simp [Registration.run, h]
  simp only [after, List.foldl_append, List.foldl_cons] at hrun ⊢
  rw [hrun]

/-- The registry that calls start on: the dialects that come with the library, or none. -/
def start : Bool → Registry
  | true => builtin
  | false => empty

/-- The dialects of the registry that calls start on, with their names. -/
def startLog : Bool → List (String × Dialect)
  | true => Dialect.builtins.map fun d => (d.name, d)
  | false => []

theorem start_eq_replay (withBuiltins : Bool) :
    start withBuiltins = empty.replay (startLog withBuiltins) := by
  cases withBuiltins with
  | true => simp [start, startLog, builtin, replay, List.foldl_map]
  | false => rfl

end Registry

/-- After any sequence of calls, of which some may fail, a name means the dialect registered last
under it, with its key for a name, and has none exactly if no call registered one; settings that are
accepted register each of their entries, in order, under the names that the call returns; the calls that
fail have no part in this; and the names are the keys with a dialect, in order. -/
theorem registrations_last_wins (withBuiltins : Bool) (calls : List Registration) :
    let start := Registry.start withBuiltins
    let log := Registry.startLog withBuiltins ++ start.logOf calls
    let r := start.after calls
    (∀ name,
      match lastUnder log (Registry.normalize name) with
      | some d => r.resolve name = .ok (d.named (Registry.normalize name))
      | none => ∃ hint, r.resolve name = .error (.unknownDialect name hint)) ∧
    (∀ name, r.contains name = (r.resolve name).isOk) ∧
    (∀ before s rest r' names, calls = before ++ .settings s :: rest →
      s.registerAll (start.after before) = .ok (r', names) →
        names = s.dialects.map CustomDialect.name ∧ ∃ more, s.LoggedAs (start.after before) more ∧
          log = Registry.startLog withBuiltins ++ start.logOf before ++ more ++ r'.logOf rest) ∧
    (∀ before s rest e, calls = before ++ .settings s :: rest →
      s.registerAll (start.after before) = .error e → r = start.after (before ++ rest)) ∧
    r.names.Pairwise (· < ·) ∧
    (∀ key, key ∈ r.names ↔ ∃ name d, Registry.normalize name = key ∧ r.resolve name = .ok d) := by
  intro start log r
  have hr : r = Registry.empty.replay log := by
    rw [Registry.replay_append, ← Registry.start_eq_replay]
    exact Registry.after_eq_replay start calls
  have hget (key : String) :
      r.entries.get? key = (lastUnder log key).map (·.named key) := by
    rw [hr, Registry.get?_replay]
    exact Option.or_none
  refine ⟨fun name => ?_, r.contains_eq_isOk, ?_, ?_, ?_, fun key => ?_⟩
  · have h := hget (Registry.normalize name)
    cases hlast : lastUnder log (Registry.normalize name) with
    | none => exact Registry.resolve_of_none (by simpa [hlast] using h)
    | some d => exact (r.resolve_eq_ok_iff name _).mpr (by simpa [hlast] using h)
  · rintro before s rest r' names rfl hok
    obtain ⟨hnames, hlogged⟩ := Settings.loggedAs hok
    have hrun : (Registration.settings s).run (start.after before) = r' := by
      simp [Registration.run, hok]
    refine ⟨hnames, _, hlogged, ?_⟩
    simp [log, Registry.logOf_append, Registry.logOf, hrun]
  · rintro before s rest e rfl herror
    exact start.after_of_failed before rest herror
  · rw [hr]
    exact Registry.names_pairwise (Registry.keys_replay_nodup (r := Registry.empty) .nil log)
  · rw [← Registry.mem_names_iff_resolve, iff_self_and, Registry.mem_names_iff, hget]
    intro h
    obtain ⟨d, hd⟩ := Option.isSome_iff_exists.mp (Option.isSome_map ▸ h)
    obtain ⟨name, -, hname⟩ := exists_of_lastUnder hd
    exact ⟨name, hname⟩

/-! ## Entries one at a time -/

/-- The registry after the dialects of settings, each registered on the registry that those before
it leave. -/
def Settings.registerEach (r : Registry) : List CustomDialect → Except Fault Registry
  | [] => .ok r
  | c :: cs => do
    let (r, _) ← Settings.registerAll { dialects := [c] } r
    registerEach r cs

/-- The name that an entry gives its base. -/
def CustomDialect.baseName (c : CustomDialect) : String := c.base.getD "ansi"

/-- Whether the name of one entry answers to the base of a later one in the file exactly if it does
in a registry. -/
def CustomDialect.Answers (c later : CustomDialect) : Prop :=
  Text.sameWord c.name (Text.trim later.baseName) = true ↔
    Registry.normalize c.name = Registry.normalize later.baseName

instance (c later : CustomDialect) : Decidable (c.Answers later) :=
  inferInstanceAs (Decidable (_ ↔ _))

namespace CustomDialect

variable {r : Registry} {c : CustomDialect}

theorem findBase_cons (c : CustomDialect) (r : Registry) (latest : Dialect) (built : List Dialect) :
    c.findBase r (latest :: built) =
      if Text.sameWord latest.name (Text.trim c.baseName) then .ok latest
      else c.findBase r built := by
  rw [baseName]
  cases h : Text.sameWord latest.name (Text.trim (c.base.getD "ansi")) <;>
    simp [findBase, h]

theorem registerEach_cons_eq_ok_iff (r r' : Registry) (c : CustomDialect)
    (cs : List CustomDialect) :
    Settings.registerEach r (c :: cs) = .ok r' ↔
      ∃ base d, r.resolve c.baseName = .ok base ∧ c.build base = .ok d ∧
        Settings.registerEach (r.register c.name d) cs = .ok r' := by
  have hfind : c.findBase r [] = r.resolve c.baseName := rfl
  cases hbase : r.resolve c.baseName with
  | error e =>
    simp [Settings.registerEach, Settings.registerAll, buildAll, hfind, hbase, bind, Except.bind]
  | ok base =>
    cases hd : c.build base with
    | error e =>
      simp [Settings.registerEach, Settings.registerAll, buildAll, hfind, hbase, hd, bind,
        Except.bind]
    | ok d =>
      simp [Settings.registerEach, Settings.registerAll, buildAll, hfind, hbase, hd, bind,
        Except.bind, pure, Except.pure, name_of_build hd]

/-- The registry with the dialects of `built`, the latest first. -/
def registerBuilt (r : Registry) (built : List Dialect) : Registry :=
  built.foldr (fun d r => r.register d.name d) r

/-- An entry is built on the registry with the dialects before it just as it is built on the file
and the first registry. -/
theorem build_registered_iff {built : List Dialect}
    (h : ∀ d ∈ built, Text.sameWord d.name (Text.trim c.baseName) = true ↔
      Registry.normalize d.name = Registry.normalize c.baseName) (d : Dialect) :
    (∃ base, (registerBuilt r built).resolve c.baseName = .ok base ∧ c.build base = .ok d) ↔
      ∃ base, c.findBase r built = .ok base ∧ c.build base = .ok d := by
  induction built with
  | nil => rfl
  | cons latest built ih =>
    have hlatest := h latest (by simp)
    have hget := Registry.get?_register (registerBuilt r built) latest.name latest
      (Registry.normalize c.baseName)
    by_cases hname : Registry.normalize latest.name = Registry.normalize c.baseName
    · rw [if_pos hname] at hget
      have hresolve : (registerBuilt r (latest :: built)).resolve c.baseName =
          .ok (latest.named (Registry.normalize c.baseName)) :=
        (Registry.resolve_eq_ok_iff _ _ _).mpr hget
      simp [hresolve, findBase_cons, hlatest.mpr hname, build_named]
    · rw [if_neg hname] at hget
      have hresolve (base : Dialect) :
          (registerBuilt r (latest :: built)).resolve c.baseName = .ok base ↔
            (registerBuilt r built).resolve c.baseName = .ok base := by
        simp only [Registry.resolve_eq_ok_iff, ← hget]
        rfl
      simp only [hresolve, findBase_cons, mt hlatest.mp hname]
      exact ih fun d hd => h d (List.mem_cons_of_mem _ hd)

/-- What is built behind `built` on one registry is registered one at a time on the registry with
`built`. -/
theorem buildAll_iff_registerEach {cs : List CustomDialect} {built : List Dialect}
    (hbuilt : ∀ c ∈ cs, ∀ d ∈ built, Text.sameWord d.name (Text.trim c.baseName) = true ↔
      Registry.normalize d.name = Registry.normalize c.baseName)
    (hcs : cs.Pairwise Answers) (r' : Registry) :
    (∃ all, buildAll r built cs = .ok all ∧ registerBuilt r all.reverse = r') ↔
      Settings.registerEach (registerBuilt r built) cs = .ok r' := by
  induction cs generalizing built with
  | nil => simp [buildAll, Settings.registerEach]
  | cons c cs ih =>
    obtain ⟨hc, hcs⟩ := List.pairwise_cons.mp hcs
    have hnext {base d : Dialect} (hd : c.build base = .ok d) :
        (∃ all, buildAll r (d :: built) cs = .ok all ∧ registerBuilt r all.reverse = r') ↔
          Settings.registerEach ((registerBuilt r built).register c.name d) cs = .ok r' := by
      have hname := name_of_build hd
      rw [← hname]
      refine ih (fun later hlater e he => ?_) hcs
      rcases List.mem_cons.mp he with rfl | he
      · rw [hname]
        exact hc later hlater
      · exact hbuilt later (List.mem_cons_of_mem _ hlater) e he
    have hbase := build_registered_iff (r := r) (hbuilt c (by simp))
    constructor
    · rintro ⟨all, hall, hr'⟩
      obtain ⟨base, d, hfind, hd, hrest⟩ := (buildAll_cons_eq_ok_iff r built c cs all).mp hall
      obtain ⟨base', hresolve, hd'⟩ := (hbase d).mpr ⟨base, hfind, hd⟩
      exact (registerEach_cons_eq_ok_iff _ r' c cs).mpr
        ⟨base', d, hresolve, hd', (hnext hd).mp ⟨all, hrest, hr'⟩⟩
    · intro heach
      obtain ⟨base, d, hresolve, hd, hrest⟩ := (registerEach_cons_eq_ok_iff _ r' c cs).mp heach
      obtain ⟨base', hfind, hd'⟩ := (hbase d).mp ⟨base, hresolve, hd⟩
      obtain ⟨all, hall, hr'⟩ := (hnext hd).mpr hrest
      exact ⟨all, (buildAll_cons_eq_ok_iff r built c cs all).mpr ⟨base', d, hfind, hd', hall⟩, hr'⟩

end CustomDialect

/-! ## ASCII names -/

namespace Text

theorem lowerFrom_ascii {cs : List Char} (h : ∀ c ∈ cs, isAscii c = true) (before : List Char) :
    lowerFrom before cs = cs.map Char.toLower := by
  induction cs generalizing before with
  | nil => rfl
  | cons c cs ih =>
    have hc := h c (by simp)
    have hsigma : c ≠ capitalSigma := by
      rintro rfl
      exact absurd hc (by decide)
    rw [lowerFrom, if_neg hsigma, lowerChar, if_pos hc, ih fun x hx => h x (by simp [hx])]
    rfl

theorem toLower_toUpper {c : Char} (hc : isAscii c = true) :
    c.toUpper.toLower = c.toLower ∧ c.toLower.toUpper = c.toUpper := by
  have hall : ∀ n < 128, (Char.ofNat n).toUpper.toLower = (Char.ofNat n).toLower ∧
      (Char.ofNat n).toLower.toUpper = (Char.ofNat n).toUpper := by decide
  have hn : c.toNat < 128 := by simpa [isAscii, UInt32.lt_iff_toNat_lt] using hc
  have hc := hall c.toNat hn
  rwa [Char.ofNat_toNat] at hc

/-- On ASCII texts the two ways of comparing names agree. -/
theorem sameWord_iff_lower_eq {a b : String} (ha : ∀ c ∈ a.toList, isAscii c = true)
    (hb : ∀ c ∈ b.toList, isAscii c = true) : sameWord a b = true ↔ lower a = lower b := by
  have hlower {cs : List Char} (h : ∀ c ∈ cs, isAscii c = true) :
      (cs.map Char.toUpper).map Char.toLower = cs.map Char.toLower := by
    rw [List.map_map]
    exact List.map_congr_left fun c hc => (toLower_toUpper (h c hc)).1
  have hupper {cs : List Char} (h : ∀ c ∈ cs, isAscii c = true) :
      (cs.map Char.toLower).map Char.toUpper = cs.map Char.toUpper := by
    rw [List.map_map]
    exact List.map_congr_left fun c hc => (toLower_toUpper (h c hc)).2
  rw [lower, lower, lowerFrom_ascii ha, lowerFrom_ascii hb, String.ofList_inj, sameWord, beq_iff_eq]
  constructor
  · intro h
    rw [← hlower ha, h, hlower hb]
  · intro h
    rw [← hupper ha, h, hupper hb]

theorem mem_of_mem_trim {s : String} {c : Char} (h : c ∈ (trim s).toList) : c ∈ s.toList := by
  rw [trim, String.toList_ofList, List.mem_reverse] at h
  exact (List.dropWhile_sublist _).mem (List.mem_reverse.mp ((List.dropWhile_sublist _).mem h))

end Text

/-- An ASCII name without blanks around it answers alike to every ASCII base. -/
theorem CustomDialect.answers_of_ascii {c later : CustomDialect} (htrim : Text.trim c.name = c.name)
    (hc : ∀ x ∈ c.name.toList, Text.isAscii x = true)
    (hbase : ∀ x ∈ later.baseName.toList, Text.isAscii x = true) : c.Answers later := by
  rw [Answers, Registry.normalize, htrim, Registry.normalize]
  exact Text.sameWord_iff_lower_eq hc fun x hx => hbase x (Text.mem_of_mem_trim hx)

/-! ## Settings at once and one at a time -/

/-- Settings whose entries answer to later bases alike in the file and in a registry mean the same
at once and one at a time: both ways succeed together, and with the same registry. -/
theorem registerAll_iff_registerEach (s : Settings) (h : s.dialects.Pairwise CustomDialect.Answers)
    (r r' : Registry) :
    (∃ names, s.registerAll r = .ok (r', names)) ↔ Settings.registerEach r s.dialects = .ok r' := by
  have heach : (∃ all, CustomDialect.buildAll r [] s.dialects = .ok all ∧
      CustomDialect.registerBuilt r all.reverse = r') ↔
        Settings.registerEach r s.dialects = .ok r' :=
    CustomDialect.buildAll_iff_registerEach (by simp) h r'
  rw [← heach]
  cases hall : CustomDialect.buildAll r [] s.dialects with
  | error e => simp [Settings.registerAll, hall, bind, Except.bind]
  | ok all =>
    simp [Settings.registerAll, hall, bind, Except.bind, pure, Except.pure,
      CustomDialect.registerBuilt]

/-- A base is found under the name of an earlier entry in another case. -/
theorem registerAll_lake_pond :
    let s : Settings :=
      { dialects := [{ name := "lake", limitStyle := some .fetchFirst },
          { name := "pond", base := some " LAKE " }] }
    let r := Registry.empty.register "ansi" Dialect.ansi
    s.dialects.Pairwise CustomDialect.Answers ∧
      ∃ r', (∃ names, s.registerAll r = .ok (r', names)) ∧
        Settings.registerEach r s.dialects = .ok r' := by
  intro s r
  have hs : s.dialects.Pairwise CustomDialect.Answers := by decide
  exact ⟨hs, _, (registerAll_iff_registerEach s hs r _).mpr rfl, rfl⟩

/-- A name with a blank before it is found in a registry but not in the file. -/
example : ¬ CustomDialect.Answers { name := " lake" } { name := "pond", base := some "lake" } := by
  decide

end SqlDialects
