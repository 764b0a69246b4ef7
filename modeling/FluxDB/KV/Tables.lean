import FluxDB.KV.ReadSpec

/-!
# Each table as a map of its own

The three tables share one flat key space (`FluxDB.KV.Keys`).  This file gives each table back
as a map of its own, `KVMap.table m t`: the logical keys of table `t` with their values, in
ascending key order.  Against it, the reads of one table are queries on that table alone:

* `scanRange`, which scans from `packKey t keyStart` up to `packKey t keyEnd`, or up to the
  one-byte key `[t + 1]` when `keyEnd` is empty, hands its callback the rows of `t` whose logical
  key lies in the range, each under its packed key.  This holds for every table byte but `0xff`,
  whose `t + 1` wraps to `0x00`;
* `scanPrefix` hands its callback the rows of `t` whose logical key begins with the prefix;
* so no read of one table ever sees a row of another.  `FetchSingletEntry` and `FetchIndex` then
  read as "the first row of the range": `FetchIndex` keeps that row when its *packed* key begins
  with the prefix it is given, which is why it misses the snapshots under a logical prefix
  (`fetchIndex_misses_snapshot`).

## What is here

* `inTable`, `KVMap.table`, `packRow` and their lemmas (`mem_table`, `table_sorted`);
* `filter_eq_map_table`: the one induction both scans rest on.  A filter of the entries that
  only keys of table `t` pass is a filter of the table, packed back;
* `KVMap.scan_packKey`, `KVMap.prefixScan_packKey`: the two scans of one table;
* `Backend.rangeIter_eq_table`, `Backend.prefixIter_eq_table`: the iterators the reads loop over;
* `scanRange_calls`, `scanPrefix_calls`: what the two helpers hand their callbacks;
* `fetchSingletEntry_first_row`, `fetchIndex_first_row`: the two point reads in table terms.
-/

set_option autoImplicit false

namespace FluxDB

/-! ## The order at a table's edges -/

/-- Below `0xff`, the byte after `t` is `t + 1` with no wrap. -/
theorem lt_add_one_byte_iff {t u : UInt8} (ht : t ≠ 255) : u < t + 1 ↔ u ≤ t := by
  have h : t.toBitVec ≠ 255 := fun h => ht (UInt8.eq_of_toBitVec_eq h)
  have h1 : (1 : UInt8).toBitVec.toNat = 1 := rfl
  rw [UInt8.lt_def, UInt8.le_def, UInt8.add_def]
  bv_omega

/-- A key sorts below a one-byte key exactly when its first byte does. -/
theorem cons_lt_singleton_iff {t u : UInt8} {a : Bytes} : t :: a < [u] ↔ t < u :=
  ⟨fun h' => match h' with
    | .cons h => absurd h (List.Lex.not_nil_right _ _)
    | .rel hr => hr, List.Lex.rel⟩

theorem head_le_of_cons_le {t u : UInt8} {a b : Bytes} (h : t :: a ≤ u :: b) : t ≤ u := by
  rcases le_iff_lt_or_eq.1 h with h | h
  · exact List.head_le_of_lt h
  · exact (List.cons_eq_cons.1 h).1.le

/-! ## The table view -/

/-- The row of table `t` an entry holds: its logical key and value, if its key is in `t`. -/
def inTable (t : UInt8) : Entry → Option (Bytes × Bytes)
  | ⟨u :: k, v⟩ => if u = t then some (k, v) else none
  | ⟨[], _⟩ => none

/-- The entry a row of table `t` is stored as: its key packed, its value as it is. -/
def packRow (t : UInt8) (kv : Bytes × Bytes) : Entry := ⟨packKey t kv.1, kv.2⟩

theorem inTable_eq_some {t : UInt8} {e : Entry} {kv : Bytes × Bytes} :
    inTable t e = some kv ↔ e = packRow t kv := by
  obtain ⟨_ | ⟨u, k⟩, v⟩ := e
  · simp [inTable, packRow, packKey]
  · by_cases hu : u = t <;> simp [inTable, hu, Ne.symm, packRow, packKey, Prod.ext_iff, eq_comm]

/-- An entry whose key is in table `t` holds a row of `t`. -/
theorem inTable_of_fst_eq {t : UInt8} {e : Entry} {k : Bytes} (h : e.1 = packKey t k) :
    inTable t e = some (k, e.2) :=
  inTable_eq_some.2 (Sigma.ext h HEq.rfl)

/-- Table `t` of the store: its logical keys with their values, in ascending key order. -/
def KVMap.table (m : KVMap) (t : UInt8) : List (Bytes × Bytes) := m.entries.filterMap (inTable t)

namespace KVMap

variable (m : KVMap) (t : UInt8)

/-- A row is in table `t` exactly when its packed key maps to its value. -/
theorem mem_table {k v : Bytes} : (k, v) ∈ m.table t ↔ m.get (packKey t k) = some v := by
  rw [table, List.mem_filterMap]
  simp only [inTable_eq_some, exists_eq_right, packRow]
  exact (List.mem_dlookup_iff m.nodupKeys).symm

theorem table_sorted : (m.table t).Pairwise fun a b => a.1 < b.1 :=
  m.sorted.filterMap (inTable t) fun a a' h kv hkv kv' hkv' => by
    rw [Option.mem_def, inTable_eq_some] at hkv hkv'
    subst hkv hkv'
    exact packKey_lt_packKey_iff.1 h

end KVMap

/-- **A filter that only one table passes is a filter of that table.**  If only keys of table
`t` pass `p`, and `packKey t k` passes it as `k` passes `q`, then filtering the entries by `p`
is filtering the rows of `t` by `q` and packing them back, in the same order. -/
theorem filter_eq_map_table (l : List Entry) (t : UInt8) {p : Entry → Bool} {q : Bytes → Bool}
    (hp : ∀ e, p e = true → ∃ k, e.1 = packKey t k) (hq : ∀ k v, p (packRow t (k, v)) = q k) :
    l.filter p = ((l.filterMap (inTable t)).filter (q ·.1)).map (packRow t) := by
  induction l with
  | nil => rfl
  | cons e l ih =>
    rw [List.filterMap_cons]
    cases he : inTable t e with
    | none =>
      have hpe : p e = false := Bool.eq_false_iff.2 fun hpe => by
        obtain ⟨k, hk⟩ := hp e hpe
        simp [inTable_of_fst_eq hk] at he
      rw [List.filter_cons_of_neg (by simp [hpe]), ih]
    | some kv =>
      obtain rfl := inTable_eq_some.1 he
      by_cases hk : q kv.1 = true <;> simp [List.filter_cons, hq, hk, ih]

/-! ## The two scans of one table -/

/-- Whether a logical key lies in the range `scanRange` is asked for: from `keyStart` on, and
below `keyEnd` unless `keyEnd` is empty. -/
def inRange (keyStart keyEnd k : Bytes) : Bool :=
  decide (keyStart ≤ k ∧ (keyEnd = [] ∨ k < keyEnd))

@[simp] theorem inRange_nil (keyStart k : Bytes) :
    inRange keyStart [] k = decide (keyStart ≤ k) := by
  simp [inRange]

section Scans

variable {t : UInt8} (keyStart keyEnd : Bytes)

/-- Only keys of table `t` lie in a range `scanRange` scans of `t`, for `t` below `0xff`. -/
theorem exists_packKey_of_scanned (ht : t ≠ 255) {key : Bytes} (h1 : packKey t keyStart ≤ key)
    (h2 : key < if keyEnd ≠ [] then packKey t keyEnd else [t + 1]) : ∃ k, key = packKey t k := by
  obtain _ | ⟨u, k⟩ := key
  · exact absurd h1 (not_le.2 (nil_lt_cons _ _))
  have hu : u ≤ t := by
    split_ifs at h2
    · exact List.head_le_of_lt h2
    · exact (lt_add_one_byte_iff ht).1 (cons_lt_singleton_iff.1 h2)
  exact ⟨k, by rw [le_antisymm hu (head_le_of_cons_le h1)]; rfl⟩

/-- A key of table `t` lies in the scanned range exactly when its logical key is `inRange`. -/
theorem scanned_packKey_iff (ht : t ≠ 255) (k : Bytes) :
    (packKey t keyStart ≤ packKey t k ∧
      packKey t k < if keyEnd ≠ [] then packKey t keyEnd else [t + 1]) ↔
      inRange keyStart keyEnd k = true := by
  rw [inRange, decide_eq_true_iff, packKey_le_packKey_iff]
  refine and_congr_right fun _ => ?_
  split_ifs with hke
  · simp [hke, packKey_lt_packKey_iff]
  · simp only [ne_eq, not_not] at hke
    simp [hke, packKey, cons_lt_singleton_iff, (lt_add_one_byte_iff ht).2 le_rfl]

/-- **A range scan of one table is a range query on it.**  For `t` below `0xff`, the entries
from `packKey t keyStart` up to the end key of `scanRange` are the rows of table `t` whose
logical key is `inRange`, in ascending key order, each under its packed key. -/
theorem KVMap.scan_packKey (m : KVMap) (ht : t ≠ 255) (limit : Limit) :
    m.scan (packKey t keyStart) (if keyEnd ≠ [] then packKey t keyEnd else [t + 1]) limit =
      limit.apply (((m.table t).filter fun kv => inRange keyStart keyEnd kv.1).map (packRow t)) :=
  congrArg limit.apply <| filter_eq_map_table m.entries t
    (fun _ he => exists_packKey_of_scanned keyStart keyEnd ht (of_decide_eq_true he).1
      (of_decide_eq_true he).2)
    (fun k _ => Bool.eq_iff_iff.2
      (decide_eq_true_iff.trans (scanned_packKey_iff keyStart keyEnd ht k)))

/-- **A prefix scan of one table is a prefix query on it.**  The entries whose key begins with
`packKey t p` are the rows of table `t` whose logical key begins with `p`, in ascending key
order, each under its packed key. -/
theorem KVMap.prefixScan_packKey (m : KVMap) (t : UInt8) (p : Bytes) (limit : Limit) :
    m.prefixScan (packKey t p) limit =
      limit.apply (((m.table t).filter fun kv => p.isPrefixOf kv.1).map (packRow t)) :=
  congrArg limit.apply <| filter_eq_map_table m.entries t
    (fun _ he => by
      obtain ⟨r, hr⟩ := List.isPrefixOf_iff_prefix.1 he
      exact ⟨p ++ r, hr.symm⟩)
    (fun k _ => by simp [packRow, packKey, List.isPrefixOf])

end Scans

/-! ## The reads of one table -/

/-- The store holding the `ROWS` row `"a"` (`0x61`) with value `"v"`, and the `INDEX` snapshot
`"a"` with value `"x"`: one key in two tables. -/
def rowAndSnapshot : Backend :=
  { content := (KVMap.empty.put (packKey tblPrefixRows [0x61]) [0x76]).put
      (packKey tblPrefixIndex [0x61]) [0x78] }

namespace Backend

variable (db : Backend) (h : db.iterFault = none)
include h

/-- The rows `scanRange` reads from table `t`, below `0xff`: those whose logical key is `inRange`,
in ascending key order, cut to the limit, each under its packed key. -/
theorem rangeIter_eq_table {t : UInt8} (ht : t ≠ 255) (keyStart keyEnd : Bytes) (limit : Limit) :
    db.rangeIter t keyStart keyEnd limit =
      ⟨limit.apply (((db.content.table t).filter fun kv => inRange keyStart keyEnd kv.1).map
        (packRow t)), none⟩ := by
  simp only [rangeIter, iter, h, KVMap.scan_packKey keyStart keyEnd db.content ht]

/-- The rows `scanPrefix` reads from table `t`: those whose logical key begins with `prefixKey`,
in ascending key order, cut to the limit, each under its packed key. -/
theorem prefixIter_eq_table (t : UInt8) (prefixKey : Bytes) (limit : Limit) :
    db.prefixIter t prefixKey limit =
      ⟨limit.apply (((db.content.table t).filter fun kv => prefixKey.isPrefixOf kv.1).map
        (packRow t)), none⟩ := by
  simp only [prefixIter, iter, h, KVMap.prefixScan_packKey]

end Backend

/-- **`scanRange` reads one table.**  With an iterator that does not fail, and a table byte below
`0xff`, `scanRange` calls its callback on the rows of table `t` whose logical key lies in the
range, in ascending key order, cut to the limit, up to and including the first call it does not
answer with `nil`.  No row of another table ever reaches the callback; the key it gets is the
row's packed key. -/
theorem scanRange_calls (db : Backend) (h : db.iterFault = none) {t : UInt8} (ht : t ≠ 255)
    (keyStart keyEnd : Bytes) (limit : Limit) {σ : Type} (onRow : OnRow σ) (s : σ) :
    (db.scanRange t keyStart keyEnd limit (logCalls onRow) (s, [])).1.2 =
      handed (fun kv => onRow kv.1 kv.2) s
        ((limit.apply ((db.content.table t).filter fun kv => inRange keyStart keyEnd kv.1)).map
          fun kv => (packKey t kv.1, kv.2)) ∧
    (db.content.table t).Pairwise fun a b => a.1 < b.1 := by
  refine ⟨?_, db.content.table_sorted t⟩
  rw [show logCalls onRow = fun key value => logCalls onRow key (id value) from rfl]
  simp only [Backend.scanRange, LoopExit.finish_fst, rowLoop_logCalls, List.nil_append,
    db.rangeIter_eq_table h ht, Limit.apply_map, List.map_map]
  rfl

/-- A scan of all of `ROWS` over `rowAndSnapshot` calls the callback on the row and not on the
snapshot. -/
theorem scanRange_calls_rowAndSnapshot :
    rowAndSnapshot.iterFault = none ∧ tblPrefixRows ≠ 255 ∧
      (rowAndSnapshot.scanRange tblPrefixRows [] [] .unlimited (logCalls recordRows)
        ([], [])).1.2 = [([0x00, 0x61], [0x76])] :=
  ⟨rfl, by decide,
    (scanRange_calls rowAndSnapshot rfl (by decide) [] [] .unlimited recordRows []).1.trans rfl⟩

/-- **`scanPrefix` reads one table.**  With an iterator that does not fail, `scanPrefix` calls
its callback on the rows of table `t` whose logical key begins with `prefixKey`, in ascending key
order, cut to the limit, up to and including the first call it does not answer with `nil`.  No
row of another table ever reaches the callback; the key it gets is the row's packed key. -/
theorem scanPrefix_calls (db : Backend) (h : db.iterFault = none) (t : UInt8)
    (prefixKey : Bytes) (limit : Limit) {σ : Type} (onRow : OnRow σ) (s : σ) :
    (db.scanPrefix t prefixKey limit (logCalls onRow) (s, [])).1.2 =
      handed (fun kv => onRow kv.1 kv.2) s
        ((limit.apply ((db.content.table t).filter fun kv => prefixKey.isPrefixOf kv.1)).map
          fun kv => (packKey t kv.1, kv.2)) ∧
    (db.content.table t).Pairwise fun a b => a.1 < b.1 := by
  refine ⟨?_, db.content.table_sorted t⟩
  rw [show logCalls onRow = fun key value => logCalls onRow key (id value) from rfl]
  simp only [Backend.scanPrefix, LoopExit.finish_fst, rowLoop_logCalls, List.nil_append,
    db.prefixIter_eq_table h, Limit.apply_map, List.map_map]
  rfl

/-- A prefix scan of `INDEX` under `"a"` over `rowAndSnapshot` calls the callback on the
snapshot and not on the row. -/
theorem scanPrefix_calls_rowAndSnapshot :
    rowAndSnapshot.iterFault = none ∧
      (rowAndSnapshot.scanPrefix tblPrefixIndex [0x61] .unlimited (logCalls recordRows)
        ([], [])).1.2 = [([0x01, 0x61], [0x78])] :=
  ⟨rfl, (scanPrefix_calls rowAndSnapshot rfl tblPrefixIndex [0x61] .unlimited recordRows []).1.trans
    rfl⟩

/-- **`FetchSingletEntry` returns the first row of its range.**  With an iterator that does
not fail, it returns, with no error, the first row of `ROWS` whose logical key lies in
`[keyStart, keyEnd)` (or from `keyStart` on when `keyEnd` is empty), under its packed key, or
`("", nil)` when there is none. -/
theorem fetchSingletEntry_first_row (db : Backend) (h : db.iterFault = none)
    (keyStart keyEnd : Bytes) :
    db.fetchSingletEntry keyStart keyEnd =
      .ok ((((db.content.table tblPrefixRows).filter fun kv => inRange keyStart keyEnd kv.1).head?
        |>.map fun kv => (packKey tblPrefixRows kv.1, some kv.2)).getD ([], none)) := by
  simp only [Backend.fetchSingletEntry, Backend.scanRange,
    db.rangeIter_eq_table h (show tblPrefixRows ≠ 255 by decide)]
  cases (db.content.table tblPrefixRows).filter fun kv => inRange keyStart keyEnd kv.1 <;> rfl

theorem fetchSingletEntry_first_row_rowAndSnapshot :
    rowAndSnapshot.iterFault = none ∧
      rowAndSnapshot.fetchSingletEntry [] [] = .ok ([0x00, 0x61], some [0x76]) :=
  ⟨rfl, (fetchSingletEntry_first_row rowAndSnapshot rfl [] []).trans rfl⟩

/-- **`FetchIndex` looks at one row only.**  With an iterator that does not fail, it reads the
first row of `INDEX` from `keyStart` on, and nothing after it: it returns that row, under its
packed key, when the packed key begins with `prefixKey`, and `store.ErrNotFound` otherwise, also
when a later row would match. -/
theorem fetchIndex_first_row (db : Backend) (h : db.iterFault = none)
    (tableKey prefixKey keyStart : Bytes) :
    db.fetchIndex tableKey prefixKey keyStart =
      match ((db.content.table tblPrefixIndex).filter fun kv => keyStart ≤ kv.1).head? with
      | some (k, v) =>
        if prefixKey.isPrefixOf (packKey tblPrefixIndex k) then .ok (packKey tblPrefixIndex k, v)
        else .error .notFound
      | none => .error .notFound := by
  simp only [Backend.fetchIndex, Backend.scanInfiniteRange, Backend.scanRange,
    db.rangeIter_eq_table h (show tblPrefixIndex ≠ 255 by decide), inRange_nil]
  cases (db.content.table tblPrefixIndex).filter fun kv => decide (keyStart ≤ kv.1) with
  | nil => rfl
  | cons kv rows =>
    cases hp : prefixKey.isPrefixOf (packKey tblPrefixIndex kv.1) <;>
      simp [Limit.apply, rowLoop, packRow, hp, LoopExit.finish, Backend.reported]

/-- Over `rowAndSnapshot`, `FetchIndex` finds the snapshot `"a"` under the prefix `0x01 0x61`,
the packed key, and returns it under its packed key. -/
theorem fetchIndex_first_row_rowAndSnapshot :
    rowAndSnapshot.iterFault = none ∧
      rowAndSnapshot.fetchIndex [] [0x01, 0x61] [] = .ok ([0x01, 0x61], [0x78]) :=
  ⟨rfl, (fetchIndex_first_row rowAndSnapshot rfl [] [0x01, 0x61] []).trans rfl⟩

end FluxDB
