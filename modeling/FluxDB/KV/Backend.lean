import FluxDB.KV.Keys
import Mathlib.Data.List.Sigma
import Mathlib.Data.List.Sort

/-!
# The backend key-value store

The code talks to its backend (`kv.KVStore`) through a narrow contract: `Get`, `BatchGet`,
`Scan`, `Prefix`, `Put` and `FlushPuts`.  The backend itself is not part of this repository; this
file says what the code relies on it for, and nothing more.

* Its content is a finite map from byte strings to byte strings, kept here as a list of entries
  strictly sorted by key (`KVMap`).  Keeping the list sorted is what makes a `Scan` a `filter`: the
  entries come out in ascending key order with no sorting step, and two maps with the same lookups
  are the same list (`KVMap.ext`).
* `Put` stages the entry; `FlushPuts` commits everything staged so far, in order.  A backend may
  also commit all it has staged right after a `Put` (`Backend.commitsEarly`), as one that writes
  its batch out once it is big enough does, so a put can be committed before `FlushPuts`.  A
  call that fails changes nothing.
* A `Scan`, `Prefix` or `BatchGet` answers with an iterator: the items `Next` yields, then what
  `Err` reports.  `Backend.iterFault` is where the backend's iterators break off, if they do.
-/

set_option autoImplicit false

namespace FluxDB

/-- One key of the backend with its value. -/
abbrev Entry := (_ : Bytes) × Bytes

/-- The limit of a scan: `kv.Unlimited`, or at most `n` items. -/
inductive Limit where
  | unlimited
  | atMost (n : Nat)

/-- Cut a scan's answer down to its limit. -/
def Limit.apply {α : Type} : Limit → List α → List α
  | .unlimited, l => l
  | .atMost n, l => l.take n

theorem Limit.apply_map {α β : Type} (limit : Limit) (f : α → β) (l : List α) :
    limit.apply (l.map f) = (limit.apply l).map f := by
  cases limit with
  | unlimited => rfl
  | atMost n => exact (List.map_take f l n).symm

/-! ## Sorted maps -/

/-- Insert `⟨k, v⟩` into a key-sorted entry list, replacing the entry of `k` if there is one. -/
def insertSorted (k v : Bytes) : List Entry → List Entry
  | [] => [⟨k, v⟩]
  | e :: rest =>
    if k < e.1 then ⟨k, v⟩ :: e :: rest
    else if k = e.1 then ⟨k, v⟩ :: rest
    else e :: insertSorted k v rest

theorem mem_insertSorted {k v : Bytes} {e : Entry} {l : List Entry}
    (h : e ∈ insertSorted k v l) : e = ⟨k, v⟩ ∨ e ∈ l := by
  induction l with
  | nil => simpa [insertSorted] using h
  | cons d rest ih =>
    rw [insertSorted] at h
    split_ifs at h <;> simp only [List.mem_cons] at h
    · exact h.imp_right List.mem_cons.2
    · exact h.imp_right (fun h => List.mem_cons_of_mem _ h)
    · rcases h with rfl | h
      · exact Or.inr (List.mem_cons_self _ _)
      · exact (ih h).imp_right (List.mem_cons_of_mem _)

theorem insertSorted_sorted (k v : Bytes) {l : List Entry}
    (h : l.Pairwise fun a b => a.1 < b.1) :
    (insertSorted k v l).Pairwise fun a b => a.1 < b.1 := by
  induction l with
  | nil => simp [insertSorted]
  | cons d rest ih =>
    rw [List.pairwise_cons] at h
    rw [insertSorted]
    split_ifs with h1 h2
    · refine List.Pairwise.cons (fun a ha => ?_) (List.Pairwise.cons h.1 h.2)
      rcases List.mem_cons.1 ha with rfl | ha
      · exact h1
      · exact h1.trans (h.1 a ha)
    · exact List.Pairwise.cons (fun a ha => h2 ▸ h.1 a ha) h.2
    · refine List.Pairwise.cons (fun a ha => ?_) (ih h.2)
      rcases mem_insertSorted ha with rfl | ha
      · exact lt_of_le_of_ne (not_lt.1 h1) (Ne.symm h2)
      · exact h.1 a ha

/-- Looking a key up in an entry list, one entry at a time. -/
theorem dlookup_entry_cons (k : Bytes) (e : Entry) (l : List Entry) :
    (e :: l).dlookup k = if k = e.1 then some e.2 else l.dlookup k := by
  obtain ⟨d, w⟩ := e
  by_cases h : k = d
  · subst h; simp [List.dlookup_cons_eq]
  · simp [h, List.dlookup_cons_ne _ (⟨d, w⟩ : Entry) h]

theorem dlookup_insertSorted (k v k' : Bytes) (l : List Entry) :
    (insertSorted k v l).dlookup k' = if k' = k then some v else l.dlookup k' := by
  induction l with
  | nil => simp [insertSorted, dlookup_entry_cons]
  | cons d rest ih =>
    rw [insertSorted]
    by_cases hk : k' = k <;> split_ifs with h1 h2 <;> simp_all [dlookup_entry_cons]

/-- The backend's content: every key it holds with its value, in ascending key order. -/
structure KVMap where
  entries : List Entry
  sorted : entries.Pairwise fun a b => a.1 < b.1

namespace KVMap

/-- The empty store. -/
def empty : KVMap := ⟨[], .nil⟩

/-- `Get`: the value under `key`, if there is one. -/
def get (m : KVMap) (key : Bytes) : Option Bytes := m.entries.dlookup key

/-- What a committed `Put` does: `key` now maps to `value`. -/
def put (m : KVMap) (key value : Bytes) : KVMap :=
  ⟨insertSorted key value m.entries, insertSorted_sorted key value m.sorted⟩

/-- `Scan(start, end, limit)`: the entries with `start ≤ key < end`, in ascending key order. -/
def scan (m : KVMap) (start endKey : Bytes) (limit : Limit) : List Entry :=
  limit.apply (m.entries.filter fun e => start ≤ e.1 ∧ e.1 < endKey)

/-- `Prefix(p, limit)`: the entries whose key begins with `p`, in ascending key order. -/
def prefixScan (m : KVMap) (p : Bytes) (limit : Limit) : List Entry :=
  limit.apply (m.entries.filter fun e => p.isPrefixOf e.1)

/-- `BatchGet(keys)`: one item per key asked for, in that order, with a `nil` value (`none`)
exactly for the keys that are absent. -/
def batchGet (m : KVMap) (keys : List Bytes) : List (Bytes × Option Bytes) :=
  keys.map fun k => (k, m.get k)

theorem get_put (m : KVMap) (key value k : Bytes) :
    (m.put key value).get k = if k = key then some value else m.get k :=
  dlookup_insertSorted key value k m.entries

@[simp] theorem get_empty (k : Bytes) : empty.get k = none := rfl

theorem nodupKeys (m : KVMap) : m.entries.NodupKeys :=
  List.nodupKeys_iff_pairwise.2 (m.sorted.imp ne_of_lt)

/-- Two stores that agree on every key are the same store. -/
theorem ext {m m' : KVMap} (h : ∀ k, m.get k = m'.get k) : m = m' := by
  have hperm : m.entries.Perm m'.entries :=
    List.lookup_ext m.nodupKeys m'.nodupKeys fun k _ => by
      rw [show m.entries.dlookup k = m'.entries.dlookup k from h k]
  haveI : IsAntisymm Entry fun a b => a.1 < b.1 :=
    ⟨fun _ _ h1 h2 => absurd (h1.trans h2) (lt_irrefl _)⟩
  cases m; cases m'
  congr
  exact List.eq_of_perm_of_sorted hperm (by assumption) (by assumption)

/-- Committing a list of puts in order: the last put of a key wins. -/
theorem get_foldl_put (ps : List Entry) (m : KVMap) (k : Bytes) :
    (ps.foldl (fun m e => m.put e.1 e.2) m).get k = (ps.reverse.dlookup k <|> m.get k) := by
  induction ps generalizing m with
  | nil => simp
  | cons e ps ih =>
    rw [List.foldl_cons, ih, get_put, List.reverse_cons, List.dlookup_append]
    cases ps.reverse.dlookup k <;> by_cases hk : k = e.1 <;> simp [hk, dlookup_entry_cons]

end KVMap

/-! ## The backend and its calls -/

/-- An iterator's run: the items `Next` yields, then what `Err` reports. -/
structure Iter (α : Type) where
  items : List α
  err : Option GoError

/-- The backend as the code sees it. -/
structure Backend where
  /-- What is committed, and what every read sees. -/
  content : KVMap
  /-- What `Put` has staged and the backend has not yet committed, oldest first. -/
  pending : List Entry := []
  /-- Whether the backend commits what it has staged right after a `Put`, given all it then has
  staged: a backend that writes its batch out once it is big enough does.  So a put can be
  committed before `FlushPuts` is called. -/
  commitsEarly : List Entry → Bool := fun _ => false
  /-- Where this backend's iterators break off: after so many items, with this error. -/
  iterFault : Option (Nat × GoError) := none
  /-- The error `Get` fails with instead of answering, if it fails. -/
  getFault : Option GoError := none

/-- A backend iterator over `items`, cut short where the backend fails. -/
def Backend.iter {α : Type} (db : Backend) (items : List α) : Iter α :=
  match db.iterFault with
  | none => ⟨items, none⟩
  | some (n, e) => ⟨items.take n, some e⟩

/-- A write the code makes on the backend. -/
inductive Call where
  | put (key value : Bytes)
  | flushPuts
  deriving DecidableEq, Repr

/-- Commit everything staged, in order: what `FlushPuts` does, and what a backend that commits
early does after a `Put`. -/
def Backend.commit (db : Backend) : Backend :=
  { db with content := db.pending.foldl (fun m e => m.put e.1 e.2) db.content, pending := [] }

/-- What a call that succeeds does to the backend.  `Put` stages the entry, and the backend
commits all it has staged if it commits early; `FlushPuts` commits all it has staged. -/
def Backend.apply (db : Backend) : Call → Backend
  | .put k v =>
    let staged : Backend := { db with pending := db.pending ++ [⟨k, v⟩] }
    if db.commitsEarly staged.pending then staged.commit else staged
  | .flushPuts => db.commit

/-- What the backend will hold once everything staged is committed. -/
def Backend.view (db : Backend) (k : Bytes) : Option Bytes :=
  db.pending.reverse.dlookup k <|> db.content.get k

/-- Committing what is staged changes nothing a later read of everything will see. -/
theorem Backend.view_commit (db : Backend) (k : Bytes) : db.commit.view k = db.view k := by
  simp [view, commit, KVMap.get_foldl_put]

theorem Backend.view_apply_put (db : Backend) (key value k : Bytes) :
    (db.apply (.put key value)).view k = if k = key then some value else db.view k := by
  have hstaged : ({ db with pending := db.pending ++ [⟨key, value⟩] } : Backend).view k =
      if k = key then some value else db.view k := by
    simp only [view, List.reverse_append, List.reverse_cons, List.reverse_nil, List.nil_append,
      List.singleton_append]
    by_cases hk : k = key <;> simp [hk, dlookup_entry_cons]
  cases hc : db.commitsEarly (db.pending ++ [⟨key, value⟩])
  · simpa only [apply, hc] using hstaged
  · simpa only [apply, hc, if_true, view_commit] using hstaged

theorem Backend.view_apply_flushPuts (db : Backend) (k : Bytes) :
    (db.apply .flushPuts).view k = db.view k :=
  db.view_commit k

@[simp] theorem Backend.pending_apply_flushPuts (db : Backend) :
    (db.apply .flushPuts).pending = [] := rfl

/-- With nothing staged, the view is the committed content. -/
theorem Backend.view_of_pending_nil {db : Backend} (h : db.pending = []) (k : Bytes) :
    db.view k = db.content.get k := by
  simp [view, h]

end FluxDB
