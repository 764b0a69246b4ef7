import FluxDB.KV.Batch

/-!
# What a flush commits

`FluxDB.KV.Batch` says what a flush puts, in what order, and that over a whole run nothing is
lost.  This file says what the store's readers see of one flush.  Reads see the committed content
only (`Backend.content`).  `FlushPuts` commits everything staged, and a backend may also commit
what it has staged right after a `Put` (`Backend.commitsEarly`: kvdb backends write their batch
out once it grows large), so:

* **A flush commits its puts in order, the data before `LAST`**
  (`flush_commits_data_before_last`).  Whatever fails, what a flush leaves committed is what was
  staged before it followed by its own puts, cut at some point: inside its `ROWS` and `INDEX`
  puts, or after all of them, inside its `LAST` puts.  So no `LAST` entry of a flush is durable
  unless every row and index entry of that flush is.  One that succeeds commits them all and
  leaves nothing staged.  What was staged before it includes the puts of any earlier flush on
  the same store that failed: `Reset` empties a batch, never the backend's staging.
* **A flush puts each key once** (`flush_puts_each_key_once`): each put it makes carries a
  pending mutation of the batch, no key twice; one that succeeds puts every pending mutation.
* **Go's map iteration order does not matter to a flush that succeeds**
  (`flush_independent_of_order`).  In whatever order each table's map is visited, a flush
  succeeds or fails alike, and one that succeeds leaves the same committed content.

## What is here

* `Mutation.entry`, `Call.putEntry`, `Batch.run`, `KVMap.foldl_put_perm`;
* `Backend.StagedAfter`: what a backend has committed and staged after a run of puts, with its
  step lemmas `StagedAfter.put` and `StagedAfter.commit`;
* `Batch.flush_ok_iff`, `Batch.flush_of_ok`, `Batch.flush_content_of_ok`,
  `Batch.flush_content_take`: one flush;
* `Batch.dataPuts`, `Batch.lastPuts`, `Batch.mutations_perm`, `Batch.mutations_nodupKeys`;
* the three results above;
* `Batch.size` and `flushIfFull_bounds_flush`: over any run the batch holds no more mutations
  than its `count`, so after a `FlushIfFull` that returns `nil` the next flush makes at most
  `maxMutationCount + 1` backend calls.
-/

set_option autoImplicit false

namespace FluxDB

/-- The entry a mutation puts: `packKey(table, key)` with the value. -/
def Mutation.entry (m : Mutation) : Entry := ⟨packKey m.1 m.2.1, m.2.2⟩

/-- The entry a backend call puts, if it is a `Put`. -/
def Call.putEntry : Call → Option Entry
  | .put key value => some ⟨key, value⟩
  | .flushPuts => none

/-- The batch and backend after the calls `cs`, from a fresh batch. -/
def Batch.run (db : Backend) (cs : List BatchCall) : Batch × Backend :=
  cs.foldl BatchCall.step (Batch.reset, db)

/-- Committing entries with distinct keys gives the same store in any order. -/
theorem KVMap.foldl_put_perm (m : KVMap) {es es' : List Entry} (nd : es.NodupKeys)
    (p : es.Perm es') :
    es.foldl (fun m e => m.put e.1 e.2) m = es'.foldl (fun m e => m.put e.1 e.2) m := by
  have hr : es.reverse.Perm es'.reverse :=
    (List.reverse_perm es).trans (p.trans (List.reverse_perm es').symm)
  have nd' : es.reverse.NodupKeys := (List.perm_nodupKeys (List.reverse_perm es)).2 nd
  refine KVMap.ext fun k => ?_
  rw [get_foldl_put, get_foldl_put, List.perm_dlookup k nd' ((List.perm_nodupKeys hr).1 nd') hr]

/-! ## Staging and committing

A backend commits, whenever it commits, everything it has staged.  So after a run of puts what it
has committed is the entries it was handed, in order, cut at some point, and what it has staged
is the rest. -/

namespace Backend

/-- `db'` is `db` after the puts `es`: of what `db` had staged followed by `es`, the first `n` are
committed over `db`'s content, in order, and the rest are staged. -/
def StagedAfter (db db' : Backend) (es : List Entry) : Prop :=
  ∃ n ≤ (db.pending ++ es).length,
    db'.content = ((db.pending ++ es).take n).foldl (fun m e => m.put e.1 e.2) db.content ∧
    db'.pending = (db.pending ++ es).drop n

variable {db db' : Backend} {es : List Entry}

theorem StagedAfter.nil (db : Backend) : db.StagedAfter db [] :=
  ⟨0, Nat.zero_le _, rfl, by simp⟩

/-- Committing after a run of puts commits all of them. -/
theorem StagedAfter.commit (h : db.StagedAfter db' es) :
    db'.commit.content = (db.pending ++ es).foldl (fun m e => m.put e.1 e.2) db.content ∧
      db'.commit.pending = [] := by
  obtain ⟨n, -, hc, hp⟩ := h
  refine ⟨?_, rfl⟩
  show db'.pending.foldl _ db'.content = _
  rw [hc, hp, ← List.foldl_append, List.take_append_drop]

theorem StagedAfter.commit_stagedAfter (h : db.StagedAfter db' es) :
    db.StagedAfter db'.commit es :=
  ⟨_, le_refl _, by rw [h.commit.1, List.take_length], by rw [h.commit.2, List.drop_length]⟩

/-- **The step lemma**: a put stages its entry, and may commit. -/
theorem StagedAfter.put (h : db.StagedAfter db' es) (key value : Bytes) :
    db.StagedAfter (db'.apply (.put key value)) (es ++ [⟨key, value⟩]) := by
  obtain ⟨n, hn, hc, hp⟩ := h
  have hstaged : db.StagedAfter { db' with pending := db'.pending ++ [⟨key, value⟩] }
      (es ++ [⟨key, value⟩]) := by
    refine ⟨n, by simp only [List.length_append] at hn ⊢; omega, ?_, ?_⟩
    · rw [hc, ← List.append_assoc, List.take_append_of_le_length hn]
    · show db'.pending ++ _ = _
      rw [hp, ← List.append_assoc, List.drop_append_of_le_length hn]
  simp only [apply]
  split
  · exact hstaged.commit_stagedAfter
  · exact hstaged

/-- **The run lemma**: after a run of puts, its entries are committed in order up to some point
and staged after it. -/
theorem StagedAfter.applyAll (h : db.StagedAfter db' es) (ms : List Mutation) :
    db.StagedAfter (db'.applyAll (ms.map Mutation.call)) (es ++ ms.map Mutation.entry) := by
  induction ms generalizing db' es with
  | nil => simpa using h
  | cons m ms ih =>
    rw [List.map_cons, applyAll, List.foldl_cons, ← applyAll, List.map_cons,
      ← List.singleton_append, ← List.append_assoc]
    exact ih (h.put _ _)

end Backend

/-! ## One flush -/

namespace Batch

variable (b : Batch) (order : IterOrder) (fails : Nat → Option GoError) (db : Backend)

/-- A flush succeeds exactly when none of its calls fails: its puts, then `FlushPuts`. -/
theorem flush_ok_iff :
    (b.flush order fails db).result = .ok () ↔
      ∀ l ≤ (b.mutations order).length, fails l = none := by
  rcases flush_cases b order fails db with
    ⟨j, hj, e, _, hj', heq⟩ | ⟨_, e, hf, heq⟩ | ⟨hall, heq⟩ <;> rw [heq]
  · exact iff_of_false nofun fun h => by simp [h j hj.le] at hj'
  · exact iff_of_false nofun fun h => by simp [h _ le_rfl] at hf
  · exact iff_of_true rfl hall

/-- A flush that succeeds made every put, then `FlushPuts`, and emptied the batch. -/
theorem flush_of_ok (h : (b.flush order fails db).result = .ok ()) :
    b.flush order fails db = ⟨.ok (), reset,
      (db.applyAll ((b.mutations order).map Mutation.call)).apply .flushPuts,
      (b.mutations order).map Mutation.call ++ [.flushPuts]⟩ := by
  -- the two ways to fail contradict `h`
  rcases flush_cases b order fails db with ⟨_, _, _, _, _, heq⟩ | ⟨_, _, _, heq⟩ | ⟨_, heq⟩ <;>
    rw [heq] at h ⊢ <;> cases h

/-- A flush that succeeds commits what was staged, then its own puts, and leaves nothing
staged. -/
theorem flush_content_of_ok (h : (b.flush order fails db).result = .ok ()) :
    (b.flush order fails db).db.content =
        (db.pending ++ (b.mutations order).map Mutation.entry).foldl
          (fun m e => m.put e.1 e.2) db.content ∧
      (b.flush order fails db).db.pending = [] := by
  rw [b.flush_of_ok order fails db h]
  simpa only [List.nil_append, Backend.apply] using
    ((Backend.StagedAfter.nil db).applyAll (b.mutations order)).commit

/-- Whatever fails, a flush leaves committed what was staged before it followed by its puts, cut
at some point. -/
theorem flush_content_take : ∃ n, (b.flush order fails db).db.content =
    ((db.pending ++ (b.mutations order).map Mutation.entry).take n).foldl
      (fun m e => m.put e.1 e.2) db.content := by
  have hrun := (Backend.StagedAfter.nil db).applyAll
  rcases flush_cases b order fails db with ⟨j, _, _, _, _, heq⟩ | ⟨_, _, _, heq⟩ | ⟨_, heq⟩
  · -- a put fails: the puts before it, cut at some point
    obtain ⟨n, hn, hc, -⟩ := hrun ((b.mutations order).take j)
    have hpre : (db.pending ++ ((b.mutations order).take j).map Mutation.entry).IsPrefix
        (db.pending ++ (b.mutations order).map Mutation.entry) := by
      rw [List.map_take]
      exact List.prefix_append_right_inj _ |>.2 (List.take_prefix _ _)
    refine ⟨n, ?_⟩
    rw [heq, hc, List.nil_append, List.prefix_iff_eq_take.1 hpre, List.take_take, min_eq_left]
    simpa using hn
  · -- `FlushPuts` fails: all the puts, cut at some point
    obtain ⟨n, -, hc, -⟩ := hrun (b.mutations order)
    exact ⟨n, by rw [heq, hc, List.nil_append]⟩
  · -- success: all of them
    refine ⟨(db.pending ++ (b.mutations order).map Mutation.entry).length, ?_⟩
    rw [List.take_length]
    exact (b.flush_content_of_ok order fails db (by rw [heq])).1

/-- The entries of a flush's `ROWS` and `INDEX` puts, in the order it makes them. -/
def dataPuts : List Entry :=
  (order.visit tblPrefixRows (b.tableMutations tblPrefixRows)).map
      (fun e => Mutation.entry (tblPrefixRows, e)) ++
    (order.visit tblPrefixIndex (b.tableMutations tblPrefixIndex)).map
      (fun e => Mutation.entry (tblPrefixIndex, e))

/-- The entries of a flush's `LAST` puts, in the order it makes them. -/
def lastPuts : List Entry :=
  (order.visit tblPrefixLast (b.tableMutations tblPrefixLast)).map
    (fun e => Mutation.entry (tblPrefixLast, e))

theorem mutations_entry :
    (b.mutations order).map Mutation.entry = b.dataPuts order ++ b.lastPuts order := by
  simp [mutations_eq, dataPuts, lastPuts, Function.comp_def]

/-- Two iteration orders put the same mutations, in two orders. -/
theorem mutations_perm (order' : IterOrder) : (b.mutations order).Perm (b.mutations order') :=
  List.Perm.flatMap_left _ fun t _ => ((order.perm t _).trans (order'.perm t _).symm).map _

/-- The keys a flush puts are distinct: within a table, a map holds each key once, and two tables
put keys with different first bytes. -/
theorem mutations_nodupKeys : ((b.mutations order).map Mutation.entry).NodupKeys := by
  rw [List.nodupKeys_iff_pairwise, List.pairwise_map, mutations, List.pairwise_flatMap]
  refine ⟨fun t _ => ?_, ?_⟩
  · rw [List.pairwise_map]
    exact (List.nodupKeys_iff_pairwise.1 ((List.perm_nodupKeys (order.perm t _)).2
      (b.tableMutations t).nodupKeys)).imp fun h h' => h (packKey_inj.1 h').2
  · refine (show tableNames.Pairwise (· ≠ ·) by decide).imp fun htu x hx y hy hxy => htu ?_
    obtain ⟨_, _, rfl⟩ := List.mem_map.1 hx
    obtain ⟨_, _, rfl⟩ := List.mem_map.1 hy
    exact (packKey_inj.1 hxy).1

/-- The puts a flush makes are among those of its mutations. -/
theorem flush_putEntries :
    ((b.flush order fails db).calls.filterMap Call.putEntry).Sublist
      ((b.mutations order).map Mutation.entry) := by
  obtain ⟨n, -, -, hc, -⟩ := flush_calls_take b order fails db
  have hput : ((b.mutations order).map Mutation.call ++ [Call.flushPuts]).filterMap Call.putEntry =
      (b.mutations order).map Mutation.entry := by
    have hm : Call.putEntry ∘ Mutation.call = some ∘ Mutation.entry := rfl
    simp [List.filterMap_map, hm, List.filterMap_eq_map, Call.putEntry]
  rw [hc, ← hput]
  exact (List.take_sublist _ _).filterMap _

end Batch

/-! ## What readers see of a flush -/

/-- **A flush commits its puts in order, the data before `LAST`.**  For every batch, iteration
order, failure pattern and backend, whether or not the backend commits early: the content a
flush leaves committed is what was staged before it, then its `ROWS` and `INDEX` puts cut at some
point; or all of those, then its `LAST` puts cut at some point.  So a reader never sees a `LAST`
entry of a flush unless it sees every row and index entry of that flush.  A flush that returns
`nil` commits all of it and leaves nothing staged. -/
theorem flush_commits_data_before_last (b : Batch) (order : IterOrder)
    (fails : Nat → Option GoError) (db : Backend) :
    ((∃ n, (b.flush order fails db).db.content =
        ((db.pending ++ b.dataPuts order).take n).foldl (fun m e => m.put e.1 e.2) db.content) ∨
      ∃ k, (b.flush order fails db).db.content =
        (db.pending ++ b.dataPuts order ++ (b.lastPuts order).take k).foldl
          (fun m e => m.put e.1 e.2) db.content) ∧
    ((b.flush order fails db).result = .ok () →
      (b.flush order fails db).db.content =
        (db.pending ++ b.dataPuts order ++ b.lastPuts order).foldl
          (fun m e => m.put e.1 e.2) db.content ∧
      (b.flush order fails db).db.pending = []) := by
  obtain ⟨n, hn⟩ := b.flush_content_take order fails db
  rw [b.mutations_entry order, ← List.append_assoc] at hn
  refine ⟨?_, fun h => ?_⟩
  · by_cases hle : n ≤ (db.pending ++ b.dataPuts order).length
    · exact .inl ⟨n, by rw [hn, List.take_append_of_le_length hle]⟩
    · refine .inr ⟨n - (db.pending ++ b.dataPuts order).length, ?_⟩
      rw [hn, List.take_append_eq_append_take, List.take_of_length_le (by omega)]
  · rw [List.append_assoc, ← b.mutations_entry order]
    exact b.flush_content_of_ok order fails db h

/-- On a backend that commits after every put, a flush whose `LAST` put fails leaves its row
committed and no `LAST` entry. -/
example :
    (((Batch.reset.setRow [1] [2]).setLast [1] [3]).flush .stored
        (fun i => if i = 1 then some (.external 0) else none)
        { content := KVMap.empty, commitsEarly := fun _ => true }).db.content.get
      (packKey tblPrefixRows [1]) = some [2] ∧
    (((Batch.reset.setRow [1] [2]).setLast [1] [3]).flush .stored
        (fun i => if i = 1 then some (.external 0) else none)
        { content := KVMap.empty, commitsEarly := fun _ => true }).db.content.get
      (packKey tblPrefixLast [1]) = none :=
  ⟨rfl, rfl⟩

/-- The puts of a failed flush outlive a `Reset`: a row set, a flush whose `FlushPuts` fails, a
`Reset`, and a flush of the empty batch that succeeds commit the row. -/
example :
    (Batch.run { content := KVMap.empty } [.op (.setRow [1] [2]),
      .op (.flush .stored fun i => if i = 1 then some (.external 0) else none), .reset,
      .op (.flush .stored fun _ => none)]).2.content.get (packKey tblPrefixRows [1]) = some [2] :=
  rfl

/-- **A flush puts each mutation once.**  For every batch, iteration order, failure pattern and
backend, the puts a flush makes have pairwise distinct keys, and each puts `v` under `key` only
when the batch holds `v` for `key`; a flush that returns `nil` has put every mutation the batch
holds. -/
theorem flush_puts_each_key_once (b : Batch) (order : IterOrder) (fails : Nat → Option GoError)
    (db : Backend) :
    ((b.flush order fails db).calls.filterMap Call.putEntry).NodupKeys ∧
    (∀ key v, Call.put key v ∈ (b.flush order fails db).calls → b.lookup key = some v) ∧
    ((b.flush order fails db).result = .ok () →
      ∀ key v, b.lookup key = some v → Call.put key v ∈ (b.flush order fails db).calls) := by
  obtain ⟨n, -, -, hc, -⟩ := b.flush_calls_take order fails db
  refine ⟨(b.mutations_nodupKeys order).sublist (b.flush_putEntries order fails db),
    fun key v h => ?_, fun hr key v h => ?_⟩
  · rw [hc] at h
    rcases List.mem_append.1 (List.mem_of_mem_take h) with h | h
    · obtain ⟨m, hm, hm'⟩ := List.mem_map.1 h
      simp only [Mutation.call, Call.put.injEq] at hm'
      rw [← hm'.1, ← hm'.2]
      exact Batch.lookup_of_mem_mutations hm
    · simp at h
  · -- a flush that succeeds made every put
    obtain ⟨m, hm, hm'⟩ := Batch.exists_mem_mutations order h
    rw [b.flush_of_ok order fails db hr]
    exact List.mem_append_left _ (List.mem_map.2 ⟨m, hm, hm'⟩)

/-- **A flush that succeeds does not depend on the map iteration order.**  For every batch,
failure pattern and backend, and any two iteration orders of the tables' maps, the flush succeeds
under one exactly when it succeeds under the other, and then leaves the same committed content.
Go picks the order afresh on every run; what a reader sees after a flush that returns `nil` does
not depend on it. -/
theorem flush_independent_of_order (b : Batch) (order order' : IterOrder)
    (fails : Nat → Option GoError) (db : Backend) :
    ((b.flush order fails db).result = .ok () ↔ (b.flush order' fails db).result = .ok ()) ∧
    ((b.flush order fails db).result = .ok () →
      (b.flush order fails db).db.content = (b.flush order' fails db).db.content) := by
  have hok : (b.flush order fails db).result = .ok () ↔
      (b.flush order' fails db).result = .ok () := by
    rw [Batch.flush_ok_iff, Batch.flush_ok_iff, (b.mutations_perm order order').length_eq]
  refine ⟨hok, fun h => ?_⟩
  rw [(b.flush_content_of_ok order fails db h).1,
    (b.flush_content_of_ok order' fails db (hok.1 h)).1, List.foldl_append, List.foldl_append]
  exact KVMap.foldl_put_perm _ (b.mutations_nodupKeys order) ((b.mutations_perm order order').map _)

/-! ## The size of a batch

`count` counts set calls, and a key set twice is one mutation, so a batch never holds more
mutations than its `count`.  `FlushIfFull` looks at `count`; so it may flush before the batch
holds `maxMutationCount` mutations, never after.
-/

namespace Batch

/-- The number of mutations the batch holds, over the tables `Flush` writes. -/
def size (b : Batch) : Nat :=
  tableNames.foldr (fun t n => (b.tableMutations t).entries.length + n) 0

variable (b : Batch) (order : IterOrder) (fails : Nat → Option GoError) (db : Backend)

theorem length_mutations : (b.mutations order).length = b.size := by
  simp [mutations_eq, size, tableNames, (order.perm _ _).length_eq, Nat.add_assoc]

/-- A flush makes at most one call per mutation, then `FlushPuts`. -/
theorem flush_calls_length_le : (b.flush order fails db).calls.length ≤ b.size + 1 := by
  obtain ⟨n, -, hn, hc, -⟩ := flush_calls_take b order fails db
  rw [hc, List.length_take, List.length_append, List.length_map, length_mutations]
  simp

/-- A set call adds at most one mutation: none when its key is already pending. -/
theorem size_setTable_le {t : UInt8} (ht : t ∈ tableNames) (k v : Bytes) :
    (b.setTable t k v).size ≤ b.size + 1 := by
  have hins : ((b.tableMutations t).insert k v).entries.length ≤
      (b.tableMutations t).entries.length + 1 := by
    rw [AList.insert_entries, List.length_cons]
    exact Nat.succ_le_succ (List.kerase_sublist _ _).length_le
  have hne : tblPrefixIndex ≠ tblPrefixRows ∧ tblPrefixLast ≠ tblPrefixRows ∧
      tblPrefixLast ≠ tblPrefixIndex := by decide
  simp only [tableNames, List.mem_cons, List.mem_singleton, List.not_mem_nil, or_false] at ht
  rcases ht with rfl | rfl | rfl <;>
    simp [size, setTable, tableNames, Function.update_apply, hne.1, hne.2.1, hne.2.2, hne.1.symm,
      hne.2.1.symm, hne.2.2.symm] at hins ⊢ <;> omega

/-- With no more mutations than `count`, a `FlushIfFull` that returns `nil` leaves at most
`maxMutationCount` of them. -/
theorem size_flushIfFull_le (h : b.size ≤ b.count)
    (hok : (b.flushIfFull order fails db).result = .ok ()) :
    (b.flushIfFull order fails db).batch.size ≤ maxMutationCount := by
  by_cases hc : b.count ≤ maxMutationCount
  · rw [flushIfFull_of_le b order fails db hc]
    exact h.trans hc
  · rw [flushIfFull_batch, hok, decide_eq_true (Nat.lt_of_not_le hc)]
    exact Nat.zero_le _

end Batch

namespace BatchCall

/-- Every call keeps the batch within its `count`. -/
theorem size_le_count_step {bd : Batch × Backend} (h : bd.1.size ≤ bd.1.count) (c : BatchCall) :
    (step bd c).1.size ≤ (step bd c).1.count := by
  obtain ⟨b, db⟩ := bd
  -- a flush leaves the batch as it was or empties it
  have hkeep : ∀ cl : Bool,
      (if cl then Batch.reset else b).size ≤ (if cl then Batch.reset else b).count := by
    intro cl
    cases cl
    exacts [h, le_rfl]
  rcases c with (⟨k, v⟩ | ⟨k, v⟩ | ⟨k, v⟩ | ⟨o, f⟩ | ⟨o, f⟩) | _
  iterate 3 exact (b.size_setTable_le (by decide) k v).trans (Nat.succ_le_succ h)
  · show (b.flushIfFull o f db).batch.size ≤ (b.flushIfFull o f db).batch.count
    rw [Batch.flushIfFull_batch]
    exact hkeep _
  · show (b.flush o f db).batch.size ≤ (b.flush o f db).batch.count
    rw [Batch.flush_batch]
    exact hkeep _
  · exact le_rfl

theorem size_le_count_run (db : Backend) (cs : List BatchCall) :
    (Batch.run db cs).1.size ≤ (Batch.run db cs).1.count := by
  suffices ∀ bd : Batch × Backend, bd.1.size ≤ bd.1.count →
      (cs.foldl step bd).1.size ≤ (cs.foldl step bd).1.count from this _ le_rfl
  induction cs with
  | nil => exact fun _ h => h
  | cons c cs ih => exact fun bd h => ih _ (size_le_count_step h c)

end BatchCall

/-- **`FlushIfFull` bounds the work of a flush.**  In any run from a fresh batch, whatever
fails, the batch never holds more mutations than its `count`.  So after a `FlushIfFull` that
returns `nil`, the batch holds at most `maxMutationCount` mutations, and a `Flush` of it makes at
most `maxMutationCount + 1` backend calls, in any iteration order, on any backend, whatever
fails. -/
theorem flushIfFull_bounds_flush (db : Backend) (cs : List BatchCall) (order : IterOrder)
    (fails : Nat → Option GoError) :
    (Batch.run db cs).1.size ≤ (Batch.run db cs).1.count ∧
    (((Batch.run db cs).1.flushIfFull order fails (Batch.run db cs).2).result = .ok () →
      ((Batch.run db cs).1.flushIfFull order fails (Batch.run db cs).2).batch.size ≤
        maxMutationCount ∧
      ∀ order' fails' db', (((Batch.run db cs).1.flushIfFull order fails
        (Batch.run db cs).2).batch.flush order' fails' db').calls.length ≤
          maxMutationCount + 1) := by
  have hinv := BatchCall.size_le_count_run db cs
  refine ⟨hinv, fun hok => ⟨Batch.size_flushIfFull_le _ order fails _ hinv hok, fun o f d => ?_⟩⟩
  exact (Batch.flush_calls_length_le _ o f d).trans
    (Nat.succ_le_succ (Batch.size_flushIfFull_le _ order fails _ hinv hok))

end FluxDB
