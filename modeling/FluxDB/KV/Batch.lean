import FluxDB.KV.Backend
import Mathlib.Data.List.AList

/-!
# The mutation batch

Writes do not go to the backend one at a time.  `SetRow`, `SetIndex` and `SetLast` record the
mutation in one of three in-memory maps, one per table, so that a key written twice in a batch is
written once, with its last value.  `Flush` then puts every pending mutation, table by table, and
commits with one `FlushPuts`; `FlushIfFull` does so once more than `maxMutationCount` set calls
are pending.

Two properties of `Flush` matter to the rest of the system, and they are the two results here.

* **The order of the puts** (`flush_put_order`).  `LAST` holds the resumption watermark, so its
  puts must come after every `ROWS` and `INDEX` put of the same batch, whatever order Go's map
  iteration visits each table in and wherever the backend fails.  A crash at any point of the
  sequence then never leaves a watermark put whose rows were not put.
* **Nothing is lost** (`batch_final_content`).  Over any sequence of set calls and flushes, some of
  which fail, the backend ends up, after a flush that succeeds, holding exactly what writing every
  set call straight through would have left.  A failed flush keeps its mutations pending, and the
  next flush puts them again.

A third result says what `FlushIfFull` decides on (`flush_keeps_or_empties_batch`).  A flush
that fails leaves the batch as it was, and one that succeeds empties it.  So `count` is always
the number of set calls since the batch was last emptied, by `Reset` or by a flush that
succeeded.

Go's map iteration order is chosen afresh on every run, so `Flush` takes it as an argument
(`IterOrder`), and so does the pattern of backend failures (`fails i`, the error of the `i`-th
call of the flush, if it fails): every result holds for every choice of the two.
-/

set_option autoImplicit false

namespace FluxDB

/-- One table's pending mutations: a Go `map[string][]byte`. -/
abbrev Mutations := AList fun _ : Bytes => Bytes

/-- The tables `Flush` writes, in the order it writes them; `LAST` must come last. -/
def tableNames : List UInt8 := [tblPrefixRows, tblPrefixIndex, tblPrefixLast]

/-- `maxMutationCount`: `FlushIfFull` flushes once more set calls than this are pending.  The
source's comment speaks of flushing each time 100 mutations are pending; the code compares
`count`, the set calls since the last flush (a key set twice counts twice), with `<=`, so it
flushes at the 101st set call. -/
def maxMutationCount : Nat := 100

/-- A batch: the pending mutations of each table, and the number of set calls since the last
reset. -/
structure Batch where
  count : Nat
  tableMutations : UInt8 → Mutations

/-- The order in which `for key, value := range muts` visits one table's map: any permutation of
its entries, chosen per table and per flush. -/
structure IterOrder where
  visit : UInt8 → Mutations → List Entry
  perm : ∀ t m, (visit t m).Perm m.entries

/-- One iteration order: each map in the order its entries are stored. -/
def IterOrder.stored : IterOrder := ⟨fun _ m => m.entries, fun _ _ => .refl _⟩

/-- One mutation as `Flush` puts it: its table and its entry. -/
abbrev Mutation := UInt8 × Entry

/-- The backend call that writes a mutation: `Put(packKey(table, key), value)`. -/
def Mutation.call (m : Mutation) : Call := .put (packKey m.1 m.2.1) m.2.2

/-- What a `Flush` or a `FlushIfFull` returns, and what it leaves behind: the batch, the backend,
and the backend calls it made, the failing one included. -/
structure FlushResult where
  result : Except GoError Unit
  batch : Batch
  db : Backend
  calls : List Call

/-- Make each call of `cs` that succeeds, in order. -/
def Backend.applyAll (db : Backend) (cs : List Call) : Backend := cs.foldl Backend.apply db

namespace Batch

/-- `Reset`, and `newBatch`: no mutation pending, count zero. -/
def reset : Batch := ⟨0, fun _ => ∅⟩

/-- `setTable`: the key's pending mutation in `table` is now `value`. -/
def setTable (b : Batch) (table : UInt8) (key value : Bytes) : Batch :=
  ⟨b.count + 1, Function.update b.tableMutations table ((b.tableMutations table).insert key value)⟩

/-- `SetRow`. -/
def setRow (b : Batch) (key value : Bytes) : Batch := b.setTable tblPrefixRows key value

/-- `SetLast`. -/
def setLast (b : Batch) (key value : Bytes) : Batch := b.setTable tblPrefixLast key value

/-- `SetIndex`. -/
def setIndex (b : Batch) (key tableSnapshot : Bytes) : Batch :=
  b.setTable tblPrefixIndex key tableSnapshot

/-- The mutations `Flush` puts, in order: the tables of `tableNames` in turn, each in the order
its map iteration visits it.  (`Flush` skips an empty table, which puts nothing either way.) -/
def mutations (b : Batch) (order : IterOrder) : List Mutation :=
  tableNames.flatMap fun t => (order.visit t (b.tableMutations t)).map (t, ·)

end Batch

/-- The puts of `Flush`, numbered from `i`: stop at the first that fails, with its error. -/
def putMutations (fails : Nat → Option GoError) :
    Nat → Backend → List Mutation → Backend × List Call × Option GoError
  | _, db, [] => (db, [], none)
  | i, db, m :: ms =>
    match fails i with
    | some e =>
      (db, [m.call], some (.wrap "unable to add table %q key %q to tx: %w" [.num m.1.toNat, .str m.2.1] e))
    | none =>
      let r := putMutations fails (i + 1) (db.apply m.call) ms
      (r.1, m.call :: r.2.1, r.2.2)

namespace Batch

/-- `Flush`: put every pending mutation, then `FlushPuts`, then `Reset`; return at the first call
that fails, leaving the batch as it was. -/
def flush (b : Batch) (order : IterOrder) (fails : Nat → Option GoError) (db : Backend) :
    FlushResult :=
  match putMutations fails 0 db (b.mutations order) with
  | (db', made, some err) => ⟨.error err, b, db', made⟩
  | (db', made, none) =>
    match fails (b.mutations order).length with
    | some e => ⟨.error (.wrap "apply bulk: %w" [] e), b, db', made ++ [.flushPuts]⟩
    | none => ⟨.ok (), reset, db'.apply .flushPuts, made ++ [.flushPuts]⟩

/-- `FlushIfFull`: flush only once more than `maxMutationCount` set calls are pending. -/
def flushIfFull (b : Batch) (order : IterOrder) (fails : Nat → Option GoError) (db : Backend) :
    FlushResult :=
  if b.count ≤ maxMutationCount then ⟨.ok (), b, db, []⟩
  else
    let r := b.flush order fails db
    match r.result with
    | .ok () => r
    | .error e => { r with result := .error (.wrap "flushing batch set: %w" [] e) }

end Batch

/-! ## What one flush does -/

/-- The puts stop at the first failing call `j`, or make them all. -/
theorem putMutations_cases (fails : Nat → Option GoError) (i : Nat) (db : Backend)
    (ms : List Mutation) :
    (∃ j, ∃ h : j < ms.length, ∃ e, (∀ l < j, fails (i + l) = none) ∧ fails (i + j) = some e ∧
      putMutations fails i db ms = (db.applyAll ((ms.take j).map Mutation.call),
        (ms.take (j + 1)).map Mutation.call,
        some (.wrap "unable to add table %q key %q to tx: %w"
          [.num ms[j].1.toNat, .str ms[j].2.1] e))) ∨
    ((∀ l < ms.length, fails (i + l) = none) ∧
      putMutations fails i db ms = (db.applyAll (ms.map Mutation.call), ms.map Mutation.call, none)) := by
  induction ms generalizing i db with
  | nil => exact .inr ⟨fun l h => absurd h (Nat.not_lt_zero l), rfl⟩
  | cons m ms ih =>
    cases hf : fails i with
    | some e =>
      refine .inl ⟨0, by simp, e, fun l h => absurd h (Nat.not_lt_zero l), hf, ?_⟩
      simp [putMutations, hf, Backend.applyAll]
    | none =>
      rcases ih (i + 1) (db.apply m.call) with ⟨j, hj, e, hpre, hj', heq⟩ | ⟨hall, heq⟩
      · refine .inl ⟨j + 1, by simpa using hj, e, fun l hl => ?_, by rw [← hj', show i + (j + 1) = i + 1 + j by omega], ?_⟩
        · cases l with
          | zero => simpa using hf
          | succ l => rw [show i + (l + 1) = i + 1 + l by omega]; exact hpre l (by omega)
        · simp [putMutations, hf, heq, Backend.applyAll]
      · refine .inr ⟨fun l hl => ?_, by simp [putMutations, hf, heq, Backend.applyAll]⟩
        cases l with
        | zero => simpa using hf
        | succ l => rw [show i + (l + 1) = i + 1 + l by omega]; exact hall l (by simpa using hl)

namespace Batch

variable (b : Batch) (order : IterOrder) (fails : Nat → Option GoError) (db : Backend)

/-- **What one `Flush` can do**: stop at the failing put of mutation `j`, stop at a failing
`FlushPuts`, or succeed and reset. -/
theorem flush_cases :
    (∃ j, ∃ h : j < (b.mutations order).length, ∃ e, (∀ l < j, fails l = none) ∧
      fails j = some e ∧
      b.flush order fails db = ⟨.error (.wrap "unable to add table %q key %q to tx: %w"
          [.num (b.mutations order)[j].1.toNat, .str (b.mutations order)[j].2.1] e), b,
        db.applyAll (((b.mutations order).take j).map Mutation.call),
        ((b.mutations order).take (j + 1)).map Mutation.call⟩) ∨
    ((∀ l < (b.mutations order).length, fails l = none) ∧ ∃ e,
      fails (b.mutations order).length = some e ∧
      b.flush order fails db = ⟨.error (.wrap "apply bulk: %w" [] e), b,
        db.applyAll ((b.mutations order).map Mutation.call),
        (b.mutations order).map Mutation.call ++ [.flushPuts]⟩) ∨
    ((∀ l ≤ (b.mutations order).length, fails l = none) ∧
      b.flush order fails db = ⟨.ok (), reset,
        (db.applyAll ((b.mutations order).map Mutation.call)).apply .flushPuts,
        (b.mutations order).map Mutation.call ++ [.flushPuts]⟩) := by
  rcases putMutations_cases fails 0 db (b.mutations order) with
    ⟨j, hj, e, hpre, hj', heq⟩ | ⟨hall, heq⟩
  · exact .inl ⟨j, hj, e, by simpa using hpre, by simpa using hj', by simp only [flush, heq]⟩
  · cases hf : fails (b.mutations order).length with
    | some e => exact .inr (.inl ⟨by simpa using hall, e, rfl, by simp only [flush, heq, hf]⟩)
    | none =>
      refine .inr (.inr ⟨fun l hl => ?_, by simp only [flush, heq, hf]⟩)
      rcases Nat.lt_or_eq_of_le hl with hl | rfl
      · simpa using hall l hl
      · exact hf

/-- The mutations of a flush, table by table: each table's map in its iteration order. -/
theorem mutations_eq : b.mutations order =
    (order.visit tblPrefixRows (b.tableMutations tblPrefixRows)).map (tblPrefixRows, ·) ++
    (order.visit tblPrefixIndex (b.tableMutations tblPrefixIndex)).map (tblPrefixIndex, ·) ++
    (order.visit tblPrefixLast (b.tableMutations tblPrefixLast)).map (tblPrefixLast, ·) := by
  simp [mutations, tableNames]

/-- The calls a flush makes are the first `n` of its puts and `FlushPuts`, where the `n`-th is
the first that fails, or the last of them. -/
theorem flush_calls_take :
    ∃ n, 0 < n ∧ n ≤ (b.mutations order).length + 1 ∧
      (b.flush order fails db).calls =
        ((b.mutations order).map Mutation.call ++ [Call.flushPuts]).take n ∧
      (∀ i, i + 1 < n → fails i = none) ∧
      (n ≤ (b.mutations order).length → (fails (n - 1)).isSome) ∧
      ((b.flush order fails db).result = .ok () ↔ fails (n - 1) = none) := by
  rcases flush_cases b order fails db with ⟨j, hj, e, hpre, hj', heq⟩ | ⟨hall, e, hf, heq⟩ |
    ⟨hall, heq⟩
  · refine ⟨j + 1, by omega, by omega, ?_, fun i hi => hpre i (by omega), by simp [hj'], ?_⟩
    · rw [heq, List.take_append_of_le_length (by simpa using hj)]
      exact List.map_take ..
    · simp [heq, hj']
  · refine ⟨(b.mutations order).length + 1, by omega, le_rfl, ?_, fun i hi => hall i (by omega),
      by omega, by simp [heq, hf]⟩
    rw [heq, List.take_of_length_le (by simp)]
  · refine ⟨(b.mutations order).length + 1, by omega, le_rfl, ?_,
      fun i hi => hall i (by omega), by omega, by simp [heq, hall _ le_rfl]⟩
    rw [heq, List.take_of_length_le (by simp)]

end Batch

/-- A call that no element of `front` is: among the first `m` calls of `front ++ rest`, it comes
after all of `front`. -/
theorem prefix_take_of_mem_take {front rest : List Call} {c : Call} {m : Nat}
    (hc : c ∈ (front ++ rest).take m) (hnot : c ∉ front) :
    front.length < m ∧ front <+: (front ++ rest).take m := by
  have hlt : front.length < m := by
    by_contra hle
    rw [List.take_append_of_le_length (by omega)] at hc
    exact hnot (List.mem_of_mem_take hc)
  refine ⟨hlt, ?_⟩
  rw [List.take_append_eq_append_take, List.take_of_length_le (by omega)]
  exact List.prefix_append _ _

namespace Batch

variable (b : Batch) (order : IterOrder) (fails : Nat → Option GoError) (db : Backend)

/-- The `ROWS` and `INDEX` puts of a flush, in the order it makes them. -/
def dataCalls : List Call :=
  (order.visit tblPrefixRows (b.tableMutations tblPrefixRows)).map
      (fun e => Mutation.call (tblPrefixRows, e)) ++
    (order.visit tblPrefixIndex (b.tableMutations tblPrefixIndex)).map
      (fun e => Mutation.call (tblPrefixIndex, e))

/-- No `LAST` put is a `ROWS` or `INDEX` put: the table bytes differ. -/
theorem lastCall_not_mem_dataCalls (e : Entry) :
    Mutation.call (tblPrefixLast, e) ∉ dataCalls b order := by
  simp only [dataCalls, List.mem_append, List.mem_map, not_or, not_exists, not_and]
  constructor <;> intro d _ h <;> simp only [Mutation.call, packKey, Call.put.injEq,
    List.cons.injEq] at h <;> exact absurd h.1.1 (by decide)

theorem calls_eq_dataCalls_append :
    (b.mutations order).map Mutation.call ++ [.flushPuts] =
      dataCalls b order ++ ((order.visit tblPrefixLast (b.tableMutations tblPrefixLast)).map
        (fun e => Mutation.call (tblPrefixLast, e)) ++ [.flushPuts]) := by
  simp [mutations_eq, dataCalls, Function.comp_def]

/-- **The order of a flush's puts.**  For every batch, every iteration order and every pattern of
backend failures: the flush puts each pending `ROWS` mutation, then each `INDEX` mutation, then
each `LAST` mutation, each exactly once (each table's puts are a permutation of its map) and
under `packKey` of its table, then calls `FlushPuts`, and it stops at the first call that fails.
So at every crash point `n` of that sequence, once a `LAST` mutation has been put, the calls made
so far begin with every `ROWS` and `INDEX` put, each of which succeeded. -/
theorem flush_put_order :
    (b.mutations order).map Mutation.call ++ [.flushPuts] =
      (order.visit tblPrefixRows (b.tableMutations tblPrefixRows)).map
          (fun e => Mutation.call (tblPrefixRows, e)) ++
        (order.visit tblPrefixIndex (b.tableMutations tblPrefixIndex)).map
          (fun e => Mutation.call (tblPrefixIndex, e)) ++
        (order.visit tblPrefixLast (b.tableMutations tblPrefixLast)).map
          (fun e => Mutation.call (tblPrefixLast, e)) ++ [.flushPuts] ∧
    (∀ t, (order.visit t (b.tableMutations t)).Perm (b.tableMutations t).entries) ∧
    (∃ n, 0 < n ∧ n ≤ (b.mutations order).length + 1 ∧
      (b.flush order fails db).calls =
        ((b.mutations order).map Mutation.call ++ [Call.flushPuts]).take n ∧
      (∀ i, i + 1 < n → fails i = none) ∧
      (n ≤ (b.mutations order).length → (fails (n - 1)).isSome) ∧
      ((b.flush order fails db).result = .ok () ↔ fails (n - 1) = none)) ∧
    (∀ n, (∃ e, Mutation.call (tblPrefixLast, e) ∈ (b.flush order fails db).calls.take n) →
      dataCalls b order <+: (b.flush order fails db).calls.take n ∧
      ∀ i < (dataCalls b order).length, fails i = none) := by
  refine ⟨by rw [calls_eq_dataCalls_append, dataCalls]; simp, fun t => order.perm t _,
    flush_calls_take b order fails db, ?_⟩
  rintro n ⟨e, he⟩
  obtain ⟨N, -, -, hcalls, hok, -, -⟩ := flush_calls_take b order fails db
  rw [hcalls, List.take_take, calls_eq_dataCalls_append] at he ⊢
  obtain ⟨hlt, hpre⟩ := prefix_take_of_mem_take he (lastCall_not_mem_dataCalls b order e)
  exact ⟨hpre, fun i hi => hok i (by omega)⟩

end Batch

/-! ## Nothing is lost

A batch together with its backend simulates the store that every set call would have written
straight through (`Batch.Simulates`): looking a key up in the batch first, and in what the backend
will hold once its staged puts are committed otherwise, gives the value of that store.  Every set
call keeps this, and so does every flush, whether it fails or not (`Simulates.flush`): the puts it
manages to make only repeat what the batch already says, and the batch is only reset once all of
them are committed. -/

namespace Batch

/-- The value the batch holds for a physical key, if it holds one. -/
def lookup (b : Batch) : Bytes → Option Bytes
  | [] => none
  | t :: k => if t ∈ tableNames then (b.tableMutations t).lookup k else none

/-- The batch over the backend agrees with the store `A` on every key. -/
def Simulates (b : Batch) (db : Backend) (A : KVMap) : Prop :=
  ∀ key, (b.lookup key <|> db.view key) = A.get key

@[simp] theorem lookup_reset (key : Bytes) : reset.lookup key = none := by
  cases key <;> simp [lookup, reset, AList.lookup_empty]

theorem lookup_setTable (b : Batch) {t : UInt8} (ht : t ∈ tableNames) (k v key : Bytes) :
    (b.setTable t k v).lookup key = if key = packKey t k then some v else b.lookup key := by
  cases key with
  | nil => simp [lookup, packKey]
  | cons u key =>
    by_cases hu : u = t
    · subst hu
      by_cases hk : key = k
      · subst hk; simp [lookup, setTable, ht, packKey, AList.lookup_insert]
      · simp [lookup, setTable, ht, hk, packKey, AList.lookup_insert_ne hk]
    · simp [lookup, setTable, hu, packKey, Function.update_noteq hu]

variable {b : Batch} {order : IterOrder}

/-- Every mutation a flush puts is what the batch holds for that key. -/
theorem lookup_of_mem_mutations {m : Mutation} (h : m ∈ b.mutations order) :
    b.lookup (packKey m.1 m.2.1) = some m.2.2 := by
  simp only [mutations, List.mem_flatMap, List.mem_map] at h
  obtain ⟨t, ht, e, he, rfl⟩ := h
  have hmem : e ∈ (b.tableMutations t).entries := (order.perm t _).subset he
  simp only [lookup, packKey, ht, if_true]
  exact AList.mem_lookup_iff.2 hmem

/-- Every value the batch holds is among the mutations a flush puts. -/
theorem exists_mem_mutations (order : IterOrder) {key v : Bytes} (h : b.lookup key = some v) :
    ∃ m ∈ b.mutations order, m.call = .put key v := by
  cases key with
  | nil => simp [lookup] at h
  | cons t k =>
    by_cases ht : t ∈ tableNames
    · simp only [lookup, ht, if_true] at h
      have he : (⟨k, v⟩ : Entry) ∈ order.visit t (b.tableMutations t) :=
        (order.perm t _).symm.subset (AList.mem_lookup_iff.1 h)
      exact ⟨(t, ⟨k, v⟩), List.mem_flatMap.2 ⟨t, ht, List.mem_map.2 ⟨_, he, rfl⟩⟩, rfl⟩
    · simp [lookup, ht] at h

end Batch

/-- Puts that repeat what the batch holds are hidden behind it. -/
theorem Batch.lookup_orElse_view_applyAll (b : Batch) (cs : List Call)
    (hcs : ∀ k v, Call.put k v ∈ cs → b.lookup k = some v) (db : Backend) (key : Bytes) :
    (b.lookup key <|> (db.applyAll cs).view key) = (b.lookup key <|> db.view key) := by
  induction cs generalizing db with
  | nil => rfl
  | cons c cs ih =>
    rw [Backend.applyAll, List.foldl_cons, ← Backend.applyAll,
      ih (fun k v h => hcs k v (List.mem_cons_of_mem _ h))]
    cases c with
    | flushPuts => rw [Backend.view_apply_flushPuts]
    | put k v =>
      rw [Backend.view_apply_put]
      by_cases hk : key = k
      · subst hk; simp [hcs key v (List.mem_cons_self _ _)]
      · simp [hk]

/-- After calls whose puts of `key` all carry `v`, the view of `key` is `v` if it was before or
if one of them put it. -/
theorem Backend.view_applyAll_of_puts (cs : List Call) {key v : Bytes}
    (hcs : ∀ v', Call.put key v' ∈ cs → v' = v) (db : Backend)
    (h : db.view key = some v ∨ Call.put key v ∈ cs) : (db.applyAll cs).view key = some v := by
  induction cs generalizing db with
  | nil => simpa using h
  | cons c cs ih =>
    rw [Backend.applyAll, List.foldl_cons, ← Backend.applyAll]
    refine ih (fun v' h' => hcs v' (List.mem_cons_of_mem _ h')) _ ?_
    cases c with
    | flushPuts => simpa [Backend.view_apply_flushPuts] using h
    | put k w =>
      rw [Backend.view_apply_put]
      by_cases hk : key = k
      · subst hk; exact .inl (by simp [hcs w (List.mem_cons_self _ _)])
      · simpa [hk] using h

namespace Batch

variable {b : Batch} {order : IterOrder} {db : Backend} {A : KVMap}

theorem Simulates.setTable (hs : Simulates b db A) {t : UInt8} (ht : t ∈ tableNames)
    (k v : Bytes) : Simulates (b.setTable t k v) db (A.put (packKey t k) v) := by
  intro key
  rw [lookup_setTable b ht, KVMap.get_put]
  by_cases hk : key = packKey t k
  · simp [hk]
  · simp [hk, hs key]

/-- Puts taken from the batch's own mutations keep the simulation. -/
theorem Simulates.applyAll_mutations (hs : Simulates b db A) {cs : List Call}
    (hcs : ∀ c ∈ cs, ∃ m ∈ b.mutations order, c = m.call) : Simulates b (db.applyAll cs) A := by
  intro key
  rw [Batch.lookup_orElse_view_applyAll b cs (fun k v h => ?_) db key, hs key]
  obtain ⟨m, hm, hc⟩ := hcs _ h
  simp only [Mutation.call, Call.put.injEq] at hc
  rw [hc.1, hc.2]
  exact lookup_of_mem_mutations hm

/-- Committing every mutation of the batch empties it into the backend. -/
theorem Simulates.commit (hs : Simulates b db A) :
    Simulates reset ((db.applyAll ((b.mutations order).map Mutation.call)).apply .flushPuts) A := by
  intro key
  rw [lookup_reset, Backend.view_apply_flushPuts, ← hs key]
  cases hb : b.lookup key with
  | some v =>
    obtain ⟨m, hm, hc⟩ := exists_mem_mutations order hb
    refine Backend.view_applyAll_of_puts _ (fun v' h' => ?_) db (.inr (List.mem_map.2 ⟨m, hm, hc⟩))
    obtain ⟨m', hm', hc'⟩ := List.mem_map.1 h'
    simp only [Mutation.call, Call.put.injEq] at hc'
    have := lookup_of_mem_mutations hm'
    rw [hc'.1, hc'.2, hb] at this
    exact (Option.some_inj.1 this).symm
  | none =>
    have := Batch.lookup_orElse_view_applyAll b ((b.mutations order).map Mutation.call)
      (fun k v h => ?_) db key
    · simpa [hb] using this
    · obtain ⟨m, hm, hc⟩ := List.mem_map.1 h
      simp only [Mutation.call, Call.put.injEq] at hc
      rw [← hc.1, ← hc.2]
      exact lookup_of_mem_mutations hm

theorem mem_take_mutations {j : Nat} {c : Call}
    (h : c ∈ ((b.mutations order).take j).map Mutation.call) :
    ∃ m ∈ b.mutations order, c = m.call := by
  obtain ⟨m, hm, rfl⟩ := List.mem_map.1 h
  exact ⟨m, List.mem_of_mem_take hm, rfl⟩

/-- **A flush keeps the simulation**, whatever it returns; when it succeeds, the batch is empty. -/
theorem Simulates.flush (hs : Simulates b db A) (order : IterOrder) (fails : Nat → Option GoError) :
    Simulates (b.flush order fails db).batch (b.flush order fails db).db A := by
  rcases flush_cases b order fails db with ⟨j, _, _, _, _, heq⟩ | ⟨_, _, _, heq⟩ | ⟨_, heq⟩
  · rw [heq]; exact hs.applyAll_mutations fun c h => mem_take_mutations h
  · rw [heq]
    exact hs.applyAll_mutations fun c h => by
      obtain ⟨m, hm, rfl⟩ := List.mem_map.1 h
      exact ⟨m, hm, rfl⟩
  · rw [heq]; exact hs.commit

theorem flush_ok {fails : Nat → Option GoError} (h : (b.flush order fails db).result = .ok ()) :
    (b.flush order fails db).batch = reset ∧ (b.flush order fails db).db.pending = [] := by
  rcases flush_cases b order fails db with ⟨_, _, _, _, _, heq⟩ | ⟨_, _, _, heq⟩ | ⟨_, heq⟩
  · rw [heq] at h; cases h
  · rw [heq] at h; cases h
  · rw [heq]; exact ⟨rfl, rfl⟩

/-- `FlushIfFull` leaves the batch and the backend as they are, or as `Flush` leaves them. -/
theorem flushIfFull_state (fails : Nat → Option GoError) :
    (b.flushIfFull order fails db).batch =
        (if b.count ≤ maxMutationCount then b else (b.flush order fails db).batch) ∧
      (b.flushIfFull order fails db).db =
        (if b.count ≤ maxMutationCount then db else (b.flush order fails db).db) := by
  unfold flushIfFull
  split_ifs
  · exact ⟨rfl, rfl⟩
  · dsimp only; split <;> exact ⟨rfl, rfl⟩

theorem Simulates.flushIfFull (hs : Simulates b db A) (fails : Nat → Option GoError) :
    Simulates (b.flushIfFull order fails db).batch (b.flushIfFull order fails db).db A := by
  rw [(flushIfFull_state fails).1, (flushIfFull_state fails).2]
  split_ifs
  · exact hs
  · exact hs.flush order fails

end Batch

/-- A call a caller makes on one batch. -/
inductive BatchOp where
  | setRow (key value : Bytes)
  | setIndex (key tableSnapshot : Bytes)
  | setLast (key value : Bytes)
  | flushIfFull (order : IterOrder) (fails : Nat → Option GoError)
  | flush (order : IterOrder) (fails : Nat → Option GoError)

namespace BatchOp

/-- What one call does to the batch and its backend. -/
def step : Batch × Backend → BatchOp → Batch × Backend
  | (b, db), .setRow k v => (b.setRow k v, db)
  | (b, db), .setIndex k v => (b.setIndex k v, db)
  | (b, db), .setLast k v => (b.setLast k v, db)
  | (b, db), .flushIfFull o f => ((b.flushIfFull o f db).batch, (b.flushIfFull o f db).db)
  | (b, db), .flush o f => ((b.flush o f db).batch, (b.flush o f db).db)

/-- The write a set call asks for, under its physical key. -/
def write : BatchOp → Option Entry
  | .setRow k v => some ⟨packKey tblPrefixRows k, v⟩
  | .setIndex k v => some ⟨packKey tblPrefixIndex k, v⟩
  | .setLast k v => some ⟨packKey tblPrefixLast k, v⟩
  | _ => none

/-- The store every write of `ops` leaves when written straight through, in call order. -/
def direct (c0 : KVMap) (ops : List BatchOp) : KVMap :=
  (ops.filterMap write).foldl (fun m e => m.put e.1 e.2) c0

theorem step_simulates {b : Batch} {db : Backend} {A : KVMap} (hs : b.Simulates db A)
    (op : BatchOp) :
    (step (b, db) op).1.Simulates (step (b, db) op).2
      (match write op with | some e => A.put e.1 e.2 | none => A) := by
  cases op with
  | setRow k v => exact hs.setTable (by decide) k v
  | setIndex k v => exact hs.setTable (by decide) k v
  | setLast k v => exact hs.setTable (by decide) k v
  | flushIfFull o f => exact hs.flushIfFull f
  | flush o f => exact hs.flush o f

theorem run_simulates (ops : List BatchOp) :
    ∀ {b : Batch} {db : Backend} {A : KVMap}, b.Simulates db A →
      (ops.foldl step (b, db)).1.Simulates (ops.foldl step (b, db)).2
        ((ops.filterMap write).foldl (fun m e => m.put e.1 e.2) A) := by
  induction ops with
  | nil => exact fun hs => hs
  | cons op ops ih =>
    intro b db A hs
    have h := ih (step_simulates hs op)
    cases hw : write op <;> simpa [List.filterMap_cons, hw] using h

end BatchOp

/-- **Buffering loses no write.**  From any backend content `c0` and a fresh batch, run any
sequence of set calls, `FlushIfFull`s and `Flush`es, in which any backend call may fail; if a
final `Flush` succeeds, the backend holds exactly `c0` overwritten, in call order, by every set
call's write under `packKey` of its table. -/
theorem batch_final_content (c0 : KVMap) (ops : List BatchOp) (order : IterOrder)
    (fails : Nat → Option GoError)
    (hok : ((ops.foldl BatchOp.step (Batch.reset, { content := c0 })).1.flush order fails
      (ops.foldl BatchOp.step (Batch.reset, { content := c0 })).2).result = .ok ()) :
    ((ops.foldl BatchOp.step (Batch.reset, { content := c0 })).1.flush order fails
      (ops.foldl BatchOp.step (Batch.reset, { content := c0 })).2).db.content =
      BatchOp.direct c0 ops := by
  have hs0 : Batch.reset.Simulates { content := c0 } c0 := fun key => by
    simp [Backend.view]
  have hs := (BatchOp.run_simulates ops hs0).flush order fails
  obtain ⟨hb, hp⟩ := Batch.flush_ok hok
  refine KVMap.ext fun key => ?_
  rw [← Backend.view_of_pending_nil hp, BatchOp.direct, ← hs key, hb]
  simp

/-- A row written, a flush whose first call fails, the row rewritten, and a flush that succeeds:
the backend holds the second value. -/
theorem batch_final_content_after_retry :
    (([BatchOp.setRow [1] [2], .flush .stored (fun _ => some (.external 0)),
          .setRow [1] [3]].foldl BatchOp.step (Batch.reset, { content := KVMap.empty })).1.flush
        .stored (fun _ => none)
        ([BatchOp.setRow [1] [2], .flush .stored (fun _ => some (.external 0)),
          .setRow [1] [3]].foldl BatchOp.step (Batch.reset, { content := KVMap.empty })).2).result =
      .ok () ∧
    (([BatchOp.setRow [1] [2], .flush .stored (fun _ => some (.external 0)),
          .setRow [1] [3]].foldl BatchOp.step (Batch.reset, { content := KVMap.empty })).1.flush
        .stored (fun _ => none)
        ([BatchOp.setRow [1] [2], .flush .stored (fun _ => some (.external 0)),
          .setRow [1] [3]].foldl BatchOp.step (Batch.reset, { content := KVMap.empty })).2).db.content =
      BatchOp.direct KVMap.empty
        [BatchOp.setRow [1] [2], .flush .stored (fun _ => some (.external 0)), .setRow [1] [3]] :=
  ⟨rfl, batch_final_content KVMap.empty _ .stored (fun _ => none) rfl⟩

/-! ## The count

`count` is what `FlushIfFull` decides on.  It counts set calls, not mutations: a key set twice
counts twice.  A flush that fails leaves the batch as it was, its mutations pending and still
counted; one that succeeds resets it.  So over any run, whatever fails, `count` is the number of
set calls since the last `Reset` or flush that returned `nil`.
-/

namespace Batch

variable (b : Batch) (order : IterOrder) (fails : Nat → Option GoError) (db : Backend)

/-- **What a flush leaves of the batch**: all of it when it fails, nothing when it succeeds. -/
theorem flush_batch :
    (b.flush order fails db).batch = if (b.flush order fails db).result.isOk then reset else b := by
  rcases flush_cases b order fails db with ⟨_, _, _, _, _, heq⟩ | ⟨_, _, _, heq⟩ | ⟨_, heq⟩ <;>
    rw [heq] <;> rfl

/-- A flush always calls the backend: it stops at a put, or reaches `FlushPuts`. -/
theorem flush_calls_ne_nil : (b.flush order fails db).calls ≠ [] := by
  obtain ⟨n, hn, -, hc, -⟩ := flush_calls_take b order fails db
  rw [hc]
  simp [List.take_eq_nil_iff, Nat.pos_iff_ne_zero.1 hn]

/-- With at most `maxMutationCount` set calls pending, `FlushIfFull` does nothing. -/
theorem flushIfFull_of_le (h : b.count ≤ maxMutationCount) :
    b.flushIfFull order fails db = ⟨.ok (), b, db, []⟩ := by
  simp only [flushIfFull, if_pos h]

/-- With more pending, it is a `Flush`, its error wrapped once more. -/
theorem flushIfFull_of_lt (h : maxMutationCount < b.count) :
    (b.flushIfFull order fails db).batch = (b.flush order fails db).batch ∧
    (b.flushIfFull order fails db).calls = (b.flush order fails db).calls ∧
    (b.flushIfFull order fails db).result.isOk = (b.flush order fails db).result.isOk := by
  unfold flushIfFull
  rw [if_neg (Nat.not_le.2 h)]
  dsimp only
  split
  · exact ⟨rfl, rfl, rfl⟩
  · rename_i heq; exact ⟨rfl, rfl, by rw [heq]; rfl⟩

/-- **What `FlushIfFull` leaves of the batch**: nothing when it flushed and succeeded, all of it
otherwise. -/
theorem flushIfFull_batch :
    (b.flushIfFull order fails db).batch =
      if decide (maxMutationCount < b.count) && (b.flushIfFull order fails db).result.isOk then reset
      else b := by
  by_cases h : maxMutationCount < b.count
  · obtain ⟨hb, -, hr⟩ := flushIfFull_of_lt b order fails db h
    rw [hb, hr, flush_batch, decide_eq_true h, Bool.true_and]
  · simp [h, flushIfFull_of_le b order fails db (Nat.not_lt.1 h)]

/-- `FlushIfFull` calls the backend exactly when more than `maxMutationCount` set calls are
pending. -/
theorem flushIfFull_calls_ne_nil_iff :
    (b.flushIfFull order fails db).calls ≠ [] ↔ maxMutationCount < b.count := by
  by_cases h : maxMutationCount < b.count
  · rw [(flushIfFull_of_lt b order fails db h).2.1]
    exact iff_of_true (flush_calls_ne_nil b order fails db) h
  · simp [h, flushIfFull_of_le b order fails db (Nat.not_lt.1 h)]

end Batch

/-- A call on one batch: one of `BatchOp`'s, or `Reset`. -/
inductive BatchCall where
  | op (o : BatchOp)
  | reset

namespace BatchCall

/-- What one call does to the batch and its backend. -/
def step : Batch × Backend → BatchCall → Batch × Backend
  | bd, .op o => BatchOp.step bd o
  | (_, db), .reset => (Batch.reset, db)

/-- Whether a call is `SetRow`, `SetIndex` or `SetLast`. -/
def isSet : BatchCall → Bool
  | .op (.setRow ..) | .op (.setIndex ..) | .op (.setLast ..) => true
  | _ => false

/-- Whether a call made on `bd` empties the batch: a `Reset`, or a flush that returns `nil`,
`FlushIfFull` included when it flushes. -/
def clears : Batch × Backend → BatchCall → Bool
  | _, .reset => true
  | (b, db), .op (.flush o f) => (b.flush o f db).result.isOk
  | (b, db), .op (.flushIfFull o f) =>
    decide (maxMutationCount < b.count) && (b.flushIfFull o f db).result.isOk
  | _, .op (.setRow ..) | _, .op (.setIndex ..) | _, .op (.setLast ..) => false

/-- The calls of a run from `bd`, each with whether it emptied the batch. -/
def trace : Batch × Backend → List BatchCall → List (BatchCall × Bool)
  | _, [] => []
  | bd, c :: cs => (c, clears bd c) :: trace (step bd c) cs

/-- The number of set calls of a run since the last call that emptied the batch. -/
def setsSinceClear (tr : List (BatchCall × Bool)) : Nat :=
  (tr.reverse.takeWhile fun p => !p.2).countP fun p => p.1.isSet

/-- **One call**: it empties the batch, or adds one to `count` if it is a set call and nothing
otherwise. -/
theorem count_step (bd : Batch × Backend) (c : BatchCall) :
    (step bd c).1.count = if clears bd c then 0 else bd.1.count + if c.isSet then 1 else 0 := by
  obtain ⟨b, db⟩ := bd
  rcases c with (⟨k, v⟩ | ⟨k, v⟩ | ⟨k, v⟩ | ⟨o, f⟩ | ⟨o, f⟩) | _
  · rfl
  · rfl
  · rfl
  · show (b.flushIfFull o f db).batch.count =
      if decide (maxMutationCount < b.count) && (b.flushIfFull o f db).result.isOk then 0
      else b.count + 0
    rw [Batch.flushIfFull_batch]
    split <;> rfl
  · show (b.flush o f db).batch.count = if (b.flush o f db).result.isOk then 0 else b.count + 0
    rw [Batch.flush_batch]
    split <;> rfl
  · rfl

theorem trace_append_single (bd : Batch × Backend) (cs : List BatchCall) (c : BatchCall) :
    trace bd (cs ++ [c]) = trace bd cs ++ [(c, clears (cs.foldl step bd) c)] := by
  induction cs generalizing bd with
  | nil => rfl
  | cons c' cs ih => exact congrArg _ (ih _)

theorem setsSinceClear_append_single (tr : List (BatchCall × Bool)) (c : BatchCall) (cl : Bool) :
    setsSinceClear (tr ++ [(c, cl)]) =
      if cl then 0 else setsSinceClear tr + if c.isSet then 1 else 0 := by
  cases cl <;> cases h : c.isSet <;> simp [setsSinceClear, List.takeWhile_cons, h]

/-- **`count` over a run.**  From a fresh batch, whatever fails, `count` is the number of set
calls since the last `Reset` or flush that returned `nil`. -/
theorem count_run (db : Backend) (cs : List BatchCall) :
    (cs.foldl step (Batch.reset, db)).1.count = setsSinceClear (trace (Batch.reset, db) cs) := by
  induction cs using List.reverseRecOn with
  | nil => rfl
  | append_singleton cs c ih =>
    rw [List.foldl_append, trace_append_single, setsSinceClear_append_single, List.foldl_cons,
      List.foldl_nil, count_step, ih]

end BatchCall

/-- **A flush keeps the batch or empties it, and `count` counts the pending set calls.**  For
every batch, iteration order, backend and failure pattern, a `Flush` that fails, or a
`FlushIfFull` that flushes and fails, leaves the batch exactly as it was, pending mutations and
count; one that returns `nil` leaves it empty with count 0.  So in any run from a fresh batch,
`count` is the number of set calls since the last `Reset` or flush that returned `nil`, and the
next `FlushIfFull` flushes exactly when more than `maxMutationCount` of them are pending. -/
theorem flush_keeps_or_empties_batch :
    (∀ (b : Batch) (order : IterOrder) (fails : Nat → Option GoError) (db : Backend),
      (∀ e, (b.flush order fails db).result = .error e → (b.flush order fails db).batch = b) ∧
      ((b.flush order fails db).result = .ok () → (b.flush order fails db).batch = Batch.reset)) ∧
    (∀ (b : Batch) (order : IterOrder) (fails : Nat → Option GoError) (db : Backend),
      maxMutationCount < b.count →
      (∀ e, (b.flushIfFull order fails db).result = .error e →
        (b.flushIfFull order fails db).batch = b) ∧
      ((b.flushIfFull order fails db).result = .ok () →
        (b.flushIfFull order fails db).batch = Batch.reset)) ∧
    (∀ (db : Backend) (cs : List BatchCall),
      (cs.foldl BatchCall.step (Batch.reset, db)).1.count =
        BatchCall.setsSinceClear (BatchCall.trace (Batch.reset, db) cs)) ∧
    (∀ (db : Backend) (cs : List BatchCall) (order : IterOrder) (fails : Nat → Option GoError),
      ((cs.foldl BatchCall.step (Batch.reset, db)).1.flushIfFull order fails
          (cs.foldl BatchCall.step (Batch.reset, db)).2).calls ≠ [] ↔
        maxMutationCount < BatchCall.setsSinceClear (BatchCall.trace (Batch.reset, db) cs)) := by
  have hcases : ∀ {r : FlushResult} {b : Batch}, r.batch = (if r.result.isOk then Batch.reset else b) →
      (∀ e, r.result = .error e → r.batch = b) ∧ (r.result = .ok () → r.batch = Batch.reset) :=
    fun h => ⟨fun _ he => by rw [h, he]; rfl, fun he => by rw [h, he]; rfl⟩
  refine ⟨fun b o f db => hcases (Batch.flush_batch b o f db), fun b o f db h => hcases ?_,
    BatchCall.count_run, fun db cs o f => ?_⟩
  · rw [Batch.flushIfFull_batch, decide_eq_true h, Bool.true_and]
  · rw [Batch.flushIfFull_calls_ne_nil_iff, BatchCall.count_run]

end FluxDB
