import FluxDB.KV.Backend

/-!
# The read API of the KV store

Every read of the store goes through one of three helpers, each a loop over a backend iterator
that hands each item to a row callback:

* `scanRange` scans the keys of one table from `keyStart` up to `keyEnd`, or to the end of the
  table when `keyEnd` is empty (the end key is then the next table byte, `table + 1`);
* `scanPrefix` scans the keys of one table that begin with a given logical prefix;
* `fetchKeys` asks for a list of keys at once and skips the ones that come back `nil`.

A callback answers `nil` to go on, `store.BreakScan` to stop (the helper then returns `nil`), or
any other error, which the helper wraps and returns.  When the iterator ends, the helper returns
the iterator's own error, wrapped, if it has one.  Go callbacks write to variables they close
over; here a callback threads a state `σ` instead, and the helpers return the final state with
the error.

The public reads — `fetchSingletEntry`, `fetchIndex`, `hasTabletRow`, `fetchTabletRow(s)`,
`scanTabletRows`, `fetchLastWrittenBlock`, `scanLastShardsWrittenBlock` — are thin wrappers that
pick a table, a limit and a callback.

Each helper passes the callback the string half of `unpackKey` on the backend's key, which is the
packed key with its table byte still on (`FluxDB.KV.Keys`).  So `scanTabletRows` reports the row
`k` as `0x00 :: k` (`scanTabletRows_reports_packed_key`), `fetchSingletEntry` returns it so
(`fetchSingletEntry_first_row`), and
`fetchTabletRows` and `scanLastShardsWrittenBlock` hand their callbacks `0x00 :: k` and
`0x03 :: k`.  `fetchIndex` checks the key it is handed against a logical prefix, so it finds no
snapshot under a prefix that does not itself start with the `INDEX` byte
(`fetchIndex_misses_snapshot`).
-/

set_option autoImplicit false

namespace FluxDB

/-- A row callback: given a key and a value, the next state and `nil` or an error. -/
abbrev OnRow (σ : Type) := Bytes → Bytes → σ → σ × Option GoError

/-- How a loop over an iterator ended. -/
inductive LoopExit where
  /-- The callback returned `store.BreakScan`: the helper returns `nil` at once. -/
  | stopped
  /-- The callback returned another error, which the helper returns, wrapped. -/
  | failed (e : GoError)
  /-- `Next` returned false: the helper goes on to check the iterator's error. -/
  | exhausted

/-- The `for itr.Next()` loop of `scanRange` and `scanPrefix`: unpack each key and hand it to the
callback, and wrap a callback error with the item's table byte and key. -/
def rowLoop {σ : Type} (onRow : OnRow σ) (wrap : UInt8 → Bytes → GoError → GoError) :
    σ → List Entry → σ × LoopExit
  | s, [] => (s, .exhausted)
  | s, item :: items =>
    match onRow (unpackKey item.1).2 item.2 s with
    | (s', none) => rowLoop onRow wrap s' items
    | (s', some .breakScan) => (s', .stopped)
    | (s', some err) => (s', .failed (wrap (unpackKey item.1).1 (unpackKey item.1).2 err))

section Loops

variable {σ : Type} {s s' : σ} {e : GoError}

theorem rowLoop_cons_none {onRow : OnRow σ} (wrap : UInt8 → Bytes → GoError → GoError)
    {item : Entry} (items : List Entry) (h : onRow (unpackKey item.1).2 item.2 s = (s', none)) :
    rowLoop onRow wrap s (item :: items) = rowLoop onRow wrap s' items := by
  simp only [rowLoop, h]

theorem rowLoop_cons_some {onRow : OnRow σ} (wrap : UInt8 → Bytes → GoError → GoError)
    {item : Entry} (items : List Entry) (h : onRow (unpackKey item.1).2 item.2 s = (s', some e)) :
    rowLoop onRow wrap s (item :: items) = (s', if e = .breakScan then .stopped
      else .failed (wrap (unpackKey item.1).1 (unpackKey item.1).2 e)) := by
  simp only [rowLoop, h]; cases e <;> rfl

end Loops

/-- After the loop: `nil` on a stop, the callback's error, or the iterator's error if it has one. -/
def LoopExit.finish {σ : Type} (r : σ × LoopExit) (itrErr : Option GoError)
    (wrapItr : GoError → GoError) : σ × Option GoError :=
  match r.2 with
  | .stopped => (r.1, none)
  | .failed e => (r.1, some e)
  | .exhausted => (r.1, itrErr.map wrapItr)

@[simp] theorem LoopExit.finish_fst {σ : Type} (r : σ × LoopExit) (err : Option GoError)
    (wrapItr : GoError → GoError) : (LoopExit.finish r err wrapItr).1 = r.1 := by
  unfold LoopExit.finish; split <;> rfl

namespace Backend

variable (db : Backend)

/-- The iterator `scanRange` reads: `Scan` from `packKey table keyStart` up to
`packKey table keyEnd`, or up to `[table + 1]`, the end of the table, when `keyEnd` is empty. -/
def rangeIter (table : UInt8) (keyStart keyEnd : Bytes) (limit : Limit) : Iter Entry :=
  let startKey := packKey table keyStart
  let endKey := if keyEnd ≠ [] then packKey table keyEnd else [table + 1]
  db.iter (db.content.scan startKey endKey limit)

/-- `scanRange`. -/
def scanRange {σ : Type} (table : UInt8) (keyStart keyEnd : Bytes) (limit : Limit)
    (onRow : OnRow σ) (s : σ) : σ × Option GoError :=
  let itr := db.rangeIter table keyStart keyEnd limit
  LoopExit.finish
    (rowLoop onRow (fun t key err => .wrap "scan range: unable to process for table %q with key %q: %w"
      [.text (tblPrefixName t), .str key] err) s itr.items)
    itr.err
    (.wrap "unable to scan table %q keys with start key %q and end key %q: %w"
      [.text (tblPrefixName table), .str keyStart, .str keyEnd])

/-- `scanInfiniteRange`: `scanRange` to the end of the table. -/
def scanInfiniteRange {σ : Type} (table : UInt8) (keyStart : Bytes) (limit : Limit)
    (onRow : OnRow σ) (s : σ) : σ × Option GoError :=
  db.scanRange table keyStart [] limit onRow s

/-- The iterator `scanPrefix` reads: `Prefix` under `packKey table prefixKey`. -/
def prefixIter (table : UInt8) (prefixKey : Bytes) (limit : Limit) : Iter Entry :=
  db.iter (db.content.prefixScan (packKey table prefixKey) limit)

/-- `scanPrefix`. -/
def scanPrefix {σ : Type} (table : UInt8) (prefixKey : Bytes) (limit : Limit) (onRow : OnRow σ)
    (s : σ) : σ × Option GoError :=
  let itr := db.prefixIter table prefixKey limit
  LoopExit.finish
    (rowLoop onRow (fun t key err => .wrap "scan prefix: unable to process for table %q with key %q: %w"
      [.text (tblPrefixName t), .str key] err) s itr.items)
    itr.err
    (.wrap "unable to scan table %q keys with prefix %q: %w"
      [.text (tblPrefixName table), .str prefixKey])

/-- `fetchKey`: `kv.ErrNotFound` becomes `store.ErrNotFound`; other errors are wrapped. -/
def fetchKey (table : UInt8) (key : Bytes) : Except GoError Bytes :=
  match db.getFault with
  | some err =>
    if err = .kvNotFound then .error .notFound
    else .error (.wrap "unable to fetch table %q key %q: %w" [.text (tblPrefixName table), .str key] err)
  | none =>
    match db.content.get (packKey table key) with
    | some out => .ok out
    | none => .error .notFound

/-- The loop of `fetchKeys`: skip a `nil` value, which marks an absent key; hand the others on. -/
def fetchLoop {σ : Type} (onTabletRow : OnRow σ) : σ → List (Bytes × Option Bytes) → σ × LoopExit
  | s, [] => (s, .exhausted)
  | s, (_, none) :: items => fetchLoop onTabletRow s items
  | s, (k, some value) :: items =>
    match onTabletRow (unpackKey k).2 value s with
    | (s', none) => fetchLoop onTabletRow s' items
    | (s', some .breakScan) => (s', .stopped)
    | (s', some err) =>
      (s', .failed (.wrap "on tablet row for key %q failed: %w" [.str (unpackKey k).2] err))

section Loops

variable {σ : Type} {s s' : σ} {e : GoError}

@[simp] theorem fetchLoop_cons_absent (onTabletRow : OnRow σ) (k : Bytes)
    (items : List (Bytes × Option Bytes)) :
    fetchLoop onTabletRow s ((k, none) :: items) = fetchLoop onTabletRow s items := rfl

theorem fetchLoop_cons_none {onTabletRow : OnRow σ} {k value : Bytes}
    (items : List (Bytes × Option Bytes)) (h : onTabletRow (unpackKey k).2 value s = (s', none)) :
    fetchLoop onTabletRow s ((k, some value) :: items) = fetchLoop onTabletRow s' items := by
  simp only [fetchLoop, h]

theorem fetchLoop_cons_some {onTabletRow : OnRow σ} {k value : Bytes}
    (items : List (Bytes × Option Bytes)) (h : onTabletRow (unpackKey k).2 value s = (s', some e)) :
    fetchLoop onTabletRow s ((k, some value) :: items) = (s', if e = .breakScan then .stopped
      else .failed (.wrap "on tablet row for key %q failed: %w" [.str (unpackKey k).2] e)) := by
  simp only [fetchLoop, h]; cases e <;> rfl

end Loops

/-- `fetchKeys`. -/
def fetchKeys {σ : Type} (table : UInt8) (keys : List Bytes) (onTabletRow : OnRow σ) (s : σ) :
    σ × Option GoError :=
  let itr := db.iter (db.content.batchGet (keys.map (packKey table)))
  LoopExit.finish (fetchLoop onTabletRow s itr.items) itr.err
    (.wrap "unable to fetch table %q keys (%d): %w"
      [.text (tblPrefixName table), .num keys.length])

/-- `err != nil && err != store.BreakScan`: the error a public read reports, if any. -/
def reported (err : Option GoError) : Option GoError := err.filter (· != .breakScan)

/-- `FetchSingletEntry`: the first `ROWS` entry of the range, or `("", nil)`. -/
def fetchSingletEntry (keyStart keyEnd : Bytes) : Except GoError (Bytes × Option Bytes) :=
  let r := db.scanRange tblPrefixRows keyStart keyEnd (.atMost 1)
    (fun rowKey rowValue _ => ((rowKey, some rowValue), some .breakScan)) ([], none)
  match reported r.2 with
  | some err => .error (.wrap "unable to fetch single tablet row (range [%s, %s[): %w"
      [.str keyStart, .str keyEnd] err)
  | none => .ok r.1

/-- `FetchIndex`: the first `INDEX` entry from `keyStart` on, if its key begins with
`prefixKey`; `store.ErrNotFound` otherwise. -/
def fetchIndex (_tableKey prefixKey keyStart : Bytes) : Except GoError (Bytes × Bytes) :=
  let r := db.scanInfiniteRange tblPrefixIndex keyStart (.atMost 1)
    (fun key value s => if prefixKey.isPrefixOf key then ((key, some value), some .breakScan)
      else (s, some .breakScan)) ([], none)
  match reported r.2, r.1 with
  | some err, _ => .error (.wrap "unable to fetch index for key prefix %q: %w" [.str prefixKey] err)
  | none, (_, none) => .error .notFound
  | none, (rowKey, some rawIndex) => .ok (rowKey, rawIndex)

/-- `HasTabletRow`: whether some `ROWS` key begins with `tabletKey`. -/
def hasTabletRow (tabletKey : Bytes) : Except GoError Bool :=
  let r := db.scanPrefix tblPrefixRows tabletKey (.atMost 1) (fun _ _ _ => (true, some .breakScan))
    false
  match reported r.2 with
  | some err => .error (.wrap "scan prefix %q for table %q: %w"
      [.str tabletKey, .text (tblPrefixName tblPrefixRows)] err)
  | none => .ok r.1

/-- `FetchTabletRow`. -/
def fetchTabletRow (key : Bytes) : Except GoError Bytes := db.fetchKey tblPrefixRows key

/-- `FetchTabletRows`. -/
def fetchTabletRows {σ : Type} (keys : List Bytes) (onTabletRow : OnRow σ) (s : σ) :
    σ × Option GoError :=
  db.fetchKeys tblPrefixRows keys onTabletRow s

/-- The callback wrapper of `ScanTabletRows` and `ScanLastShardsWrittenBlock`: pass `BreakScan`
and `nil` through, wrap any other error. -/
def passBreak {σ : Type} (onRow : OnRow σ) (wrap : Bytes → GoError → GoError) : OnRow σ :=
  fun key value s =>
    match onRow key value s with
    | (s', some .breakScan) => (s', some .breakScan)
    | (s', some err) => (s', some (wrap key err))
    | (s', none) => (s', none)

/-- `passBreak` keeps the callback's state, and wraps every error of it but `BreakScan`. -/
theorem passBreak_eq {σ : Type} (onRow : OnRow σ) (wrap : Bytes → GoError → GoError)
    (key value : Bytes) (s : σ) :
    passBreak onRow wrap key value s = ((onRow key value s).1,
      (onRow key value s).2.map fun e => if e = .breakScan then .breakScan else wrap key e) := by
  simp only [passBreak]
  rcases onRow key value s with ⟨s', _ | e⟩
  · rfl
  · cases e <;> rfl

/-- `ScanTabletRows`. -/
def scanTabletRows {σ : Type} (keyStart keyEnd : Bytes) (onTabletRow : OnRow σ) (s : σ) :
    σ × Option GoError :=
  let r := db.scanRange tblPrefixRows keyStart keyEnd .unlimited
    (passBreak onTabletRow fun key err => .wrap "on tablet row for key %q failed: %w" [.str key] err)
    s
  (r.1, (reported r.2).map (.wrap "unable to scan tablet rows [%q, %q[: %w"
    [.str keyStart, .str keyEnd]))

/-- `FetchLastWrittenBlock`: the block reference stored under `key` in `LAST`. -/
def fetchLastWrittenBlock (key : Bytes) (blockRefFromID : Bytes → BlockRef) :
    Except GoError BlockRef :=
  (db.fetchKey tblPrefixLast key).map blockRefFromID

/-- `ScanLastShardsWrittenBlock`: the callback gets each `LAST` key under `keyPrefix` with the
block reference its value holds. -/
def scanLastShardsWrittenBlock {σ : Type} (keyPrefix : Bytes) (blockRefFromID : Bytes → BlockRef)
    (onBlockRef : Bytes → BlockRef → σ → σ × Option GoError) (s : σ) : σ × Option GoError :=
  let r := db.scanPrefix tblPrefixLast keyPrefix .unlimited
    (passBreak (fun key value => onBlockRef key (blockRefFromID value)) fun key err =>
      .wrap "on block ref for table %q key %q failed: %w" [.num tblPrefixRows.toNat, .str key] err)
    s
  (r.1, (reported r.2).map (.wrap "unable to determine if table %q has key prefix %q: %w"
    [.num tblPrefixLast.toNat, .str keyPrefix]))

end Backend

/-! ## The table byte reaches the callbacks -/

/-- A callback that records every row it is handed and asks for more. -/
def recordRows : OnRow (List (Bytes × Bytes)) := fun key value s => (s ++ [(key, value)], none)

/-- The store holding one `ROWS` row, `"a"` (`0x61`) with value `"v"` (`0x76`). -/
def oneRow : Backend := { content := KVMap.empty.put (packKey tblPrefixRows [0x61]) [0x76] }

/-- Scanning all of `ROWS` over `oneRow` hands the callback the key `0x00 0x61`, not `"a"`. -/
theorem scanTabletRows_reports_packed_key :
    oneRow.scanTabletRows [] [] recordRows [] = ([([0x00, 0x61], [0x76])], none) := rfl

/-- `FetchTabletRows` over `oneRow`, asked for `"a"`, hands the callback the key `0x00 0x61`, not
`"a"`. -/
theorem fetchTabletRows_reports_packed_key :
    oneRow.fetchTabletRows [[0x61]] recordRows [] = ([([0x00, 0x61], [0x76])], none) := rfl

/-- The store holding one `INDEX` snapshot, under `"ab"` (`0x61 0x62`), with value `"x"`. -/
def oneSnapshot : Backend :=
  { content := KVMap.empty.put (packKey tblPrefixIndex [0x61, 0x62]) [0x78] }

/-- `FetchIndex` under the prefix `"a"` from `"a"` misses the snapshot `"ab"`: the key it checks
is `0x01 0x61 0x62`, which does not begin with `"a"`. -/
theorem fetchIndex_misses_snapshot :
    oneSnapshot.fetchIndex [] [0x61] [0x61] = .error .notFound := rfl

/-- The store holding one `LAST` entry, for the shard `"s"` (`0x73`), with the block id `"i"`
(`0x69`). -/
def oneLast : Backend := { content := KVMap.empty.put (packKey tblPrefixLast [0x73]) [0x69] }

/-- A callback that records every block reference it is handed and asks for more. -/
def recordRefs : Bytes → BlockRef → List (Bytes × BlockRef) → List (Bytes × BlockRef) × Option GoError :=
  fun key ref s => (s ++ [(key, ref)], none)

/-- `ScanLastShardsWrittenBlock` under the empty prefix over `oneLast` hands the callback the key
`0x03 0x73`, not `"s"`. -/
theorem scanLastShardsWrittenBlock_reports_packed_key :
    oneLast.scanLastShardsWrittenBlock [] (fun id => ⟨id, 0⟩) recordRefs [] =
      ([([0x03, 0x73], ⟨[0x69], 0⟩)], none) := rfl

end FluxDB
