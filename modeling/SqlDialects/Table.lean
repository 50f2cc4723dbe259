/-!
# Finite tables

* `Table κ α` : a finite map from keys to values, each key at most once;
* `Table.get?`, `Table.insert`, `Table.keep` : look-up, a new entry in place of an old one of the
  same key, and the entries that pass a test.
-/

namespace SqlDialects

/-- A finite map from `κ` to `α`, as the list of its entries. -/
abbrev Table (κ α : Type) := List (κ × α)

namespace Table

variable {κ α : Type} [DecidableEq κ]

/-- The value at `k`. -/
def get? (t : Table κ α) (k : κ) : Option α := (t.find? fun e => e.1 = k).map Prod.snd

/-- The table with `v` at `k`. -/
def insert (t : Table κ α) (k : κ) (v : α) : Table κ α :=
  (k, v) :: t.filter fun e => e.1 ≠ k

/-- The keys of a table. -/
def keys (t : Table κ α) : List κ := t.map Prod.fst

/-- The entries whose value passes `p`. -/
def keep (t : Table κ α) (p : α → Bool) : Table κ α := t.filter fun e => p e.2

theorem mem_of_get? {t : Table κ α} {k : κ} {v : α} (h : t.get? k = some v) : (k, v) ∈ t := by
  obtain ⟨entry, hfind, rfl⟩ := Option.map_eq_some_iff.mp h
  obtain rfl : entry.1 = k := by simpa using List.find?_some hfind
  exact List.mem_of_find?_eq_some hfind

theorem mem_keys_of_get? {t : Table κ α} {k : κ} {v : α} (h : t.get? k = some v) : k ∈ t.keys :=
  List.mem_map_of_mem (mem_of_get? h)

@[simp] theorem get?_insert_self (t : Table κ α) (k : κ) (v : α) :
    (t.insert k v).get? k = some v := by
  simp [insert, get?]

theorem get?_insert_of_ne (t : Table κ α) {k j : κ} (v : α) (h : j ≠ k) :
    (t.insert k v).get? j = t.get? j := by
  have hk : ¬ k = j := fun e => h e.symm
  simp only [insert, get?, List.find?_cons, hk, decide_false, List.find?_filter]
  congr 2
  funext e
  by_cases he : e.1 = j
  · simp [he, h]
  · simp [he]

theorem get?_insert (t : Table κ α) (k j : κ) (v : α) :
    (t.insert k v).get? j = if j = k then some v else t.get? j := by
  by_cases h : j = k
  · subst h; simp
  · simp [h, get?_insert_of_ne]

end Table

end SqlDialects
