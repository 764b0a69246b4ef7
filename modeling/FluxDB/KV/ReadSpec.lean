import FluxDB.KV.Read

/-!
# What the reads return

Every public read is a loop over one backend iterator, and what it returns depends only on how
that loop ended.  The callback stops it with `store.BreakScan`, or fails it with another error,
or the iterator runs out and `Err` reports its own error, if it has one.  `loopEnding` says how
the loop ends, given the items and what the callback answers, with the helpers' wrapping left
out.  `Ending.Reports` says what a read must then return:

* never `store.BreakScan`: the scan helpers and the reads catch it where it was raised;
* no error when the callback stopped the loop or the iterator ran out cleanly;
* an error wrapping the callback's error, or the iterator's, otherwise.

## What is here

* `rowLoop_reports`, `fetchLoop_reports`: the two loops of the helpers, said once, for every
  callback and every wrapping.
* `Ending.reports_of_passBreak`: the wrapper of `ScanTabletRows` and
  `ScanLastShardsWrittenBlock` adds a wrap and changes nothing else.
* `reads_report_their_ending`: all six reads, over every backend content, every point at which
  the backend's iterator fails, and every callback.
* `fetchTabletRows_calls`, `scanTabletRows_calls`, `scanLastShardsWrittenBlock_calls`: the calls
  a read makes of its callback, seen through `logCalls`.  They are the items the read is meant to
  hand on, in order, each with its table byte still on its key.
* `hasTabletRow_iff`: `HasTabletRow` answers whether some logical `ROWS` key has the prefix.
-/

set_option autoImplicit false

namespace FluxDB

/-! ## How a loop ends -/

/-- How a loop that hands the items of an iterator to a callback ended. -/
inductive Ending where
  /-- The callback returned `store.BreakScan`. -/
  | breaks
  /-- The callback returned `e`, another error. -/
  | fails (e : GoError)
  /-- The items ran out, and `Err` reported `err`. -/
  | ends (err : Option GoError)
  deriving DecidableEq, Repr

/-- How a loop ends that hands `items`, then an iterator error `err`, to `cb`, from the state
`s`. -/
def loopEnding {α σ : Type} (cb : α → σ → σ × Option GoError) : σ → List α → Option GoError → Ending
  | _, [], err => .ends err
  | s, a :: as, err =>
    match cb a s with
    | (s', none) => loopEnding cb s' as err
    | (_, some e) => if e = .breakScan then .breaks else .fails e

/-- How a loop over the iterator `itr` ends. -/
def Iter.ending {α σ : Type} (itr : Iter α) (cb : α → σ → σ × Option GoError) (s : σ) : Ending :=
  loopEnding cb s itr.items itr.err

/-- How a loop over `itr` ends whose callback returns `BreakScan` at once: at the first item, or
as the iterator ends if it yields none. -/
def Iter.firstEnding {α : Type} (itr : Iter α) : Ending :=
  match itr.items with
  | [] => .ends itr.err
  | _ :: _ => .breaks

section Loop

variable {α σ : Type} (cb : α → σ → σ × Option GoError) {s s' : σ} {a : α} {err : Option GoError}

theorem loopEnding_cons_none (as : List α) (h : cb a s = (s', none)) :
    loopEnding cb s (a :: as) err = loopEnding cb s' as err := by
  simp only [loopEnding, h]

theorem loopEnding_cons_some {e : GoError} (as : List α) (h : cb a s = (s', some e)) :
    loopEnding cb s (a :: as) err = if e = .breakScan then .breaks else .fails e := by
  simp only [loopEnding, h]

/-- A callback that always answers `BreakScan` ends the loop at the first item. -/
theorem loopEnding_of_breaks (h : ∀ a s, (cb a s).2 = some .breakScan) (items : List α) :
    loopEnding cb s items err = Iter.firstEnding ⟨items, err⟩ := by
  cases items with
  | nil => rfl
  | cons a as => rw [loopEnding_cons_some cb as (Prod.ext rfl (h a s)), if_pos rfl]; rfl

end Loop

/-! ## Wrapped errors -/

/-- `err` wraps `e`: it is `e` under one `%w` or more. -/
inductive Wraps (e : GoError) : GoError → Prop
  | wrap (format : String) (args : List FmtArg) : Wraps e (.wrap format args e)
  | wrap_wraps (format : String) (args : List FmtArg) {c : GoError} :
      Wraps e c → Wraps e (.wrap format args c)

theorem Wraps.trans {e c d : GoError} (hc : Wraps e c) (hd : Wraps c d) : Wraps e d := by
  induction hd with
  | wrap format args => exact .wrap_wraps format args hc
  | wrap_wraps format args _ ih => exact .wrap_wraps format args ih

theorem Wraps.ne_breakScan {e c : GoError} (h : Wraps e c) : c ≠ .breakScan := by
  cases h <;> nofun

/-- The wrap of a helper or a read: `fmt.Errorf(format, args..., err)` for every `err`. -/
theorem wraps_wrap (format : String) (args : List FmtArg) (e : GoError) :
    Wraps e (.wrap format args e) :=
  .wrap format args

/-- What a read returns after a loop that ended `en`.  It never returns `BreakScan` (which the
other clauses imply: a wrapped error is not `BreakScan`); it returns no error when the callback
stopped the loop or the iterator ran out cleanly, and an error wrapping the callback's or the
iterator's error otherwise. -/
def Ending.Reports (en : Ending) (err : Option GoError) : Prop :=
  err ≠ some .breakScan ∧
    match en with
    | .breaks | .ends none => err = none
    | .fails e | .ends (some e) => ∃ e', err = some e' ∧ Wraps e e'

namespace Ending

theorem reports_none {en : Ending} (h : en = .breaks ∨ en = .ends none) : en.Reports none := by
  rcases h with rfl | rfl <;> exact ⟨nofun, rfl⟩

theorem reports_wraps {en : Ending} {e e' : GoError}
    (h : en = .fails e ∨ en = .ends (some e)) (he : Wraps e e') : en.Reports (some e') := by
  rcases h with rfl | rfl <;> exact ⟨fun h => he.ne_breakScan (Option.some.inj h), e', rfl, he⟩

/-- The iterator's error, wrapped as the helper wraps it, is what a loop that ran out reports. -/
theorem reports_ends (err : Option GoError) {wrapItr : GoError → GoError}
    (hitr : ∀ e, Wraps e (wrapItr e)) : (Ending.ends err).Reports (err.map wrapItr) := by
  cases err with
  | none => exact reports_none (.inr rfl)
  | some e => exact reports_wraps (.inr rfl) (hitr e)

/-- A read that passes an error through `err != nil && err != BreakScan` and wraps it again
reports what the helper reported. -/
theorem Reports.reported_map {en : Ending} {err : Option GoError} (h : en.Reports err)
    {wrap : GoError → GoError} (hw : ∀ e, Wraps e (wrap e)) :
    en.Reports ((Backend.reported err).map wrap) := by
  obtain ⟨hb, h⟩ := h
  cases err with
  | none => exact ⟨nofun, h⟩
  | some c =>
    rw [show Backend.reported (some c) = some c by simpa [Backend.reported] using hb]
    rcases en with _ | e | (_ | e)
    · cases h
    · obtain ⟨e', ⟨⟩, he⟩ := h; exact reports_wraps (.inl rfl) (he.trans (hw _))
    · cases h
    · obtain ⟨e', ⟨⟩, he⟩ := h; exact reports_wraps (.inr rfl) (he.trans (hw _))

end Ending

/-! ## The helpers' loops -/

/-- The item callback of `scanRange` and `scanPrefix`: the string half of `unpackKey`, and the
value. -/
def onEntry {σ : Type} (onRow : OnRow σ) (item : Entry) : σ → σ × Option GoError :=
  onRow (unpackKey item.1).2 item.2

/-- The item callback of `fetchKeys`, on the items that have a value. -/
def onPair {σ : Type} (onRow : OnRow σ) (item : Bytes × Bytes) : σ → σ × Option GoError :=
  onRow (unpackKey item.1).2 item.2

/-- The items of a `BatchGet` that have a value, with it. -/
def presentItems (items : List (Bytes × Option Bytes)) : List (Bytes × Bytes) :=
  items.filterMap fun item => item.2.map (item.1, ·)

section Helpers

variable {σ : Type} (onRow : OnRow σ)

/-- **The loop of `scanRange` and `scanPrefix`.**  For every callback, and whatever the helper
wraps the callback's and the iterator's errors in, the loop reports how it ended. -/
theorem rowLoop_reports {wrap : UInt8 → Bytes → GoError → GoError}
    (hwrap : ∀ t k e, Wraps e (wrap t k e)) {wrapItr : GoError → GoError}
    (hitr : ∀ e, Wraps e (wrapItr e)) (s : σ) (items : List Entry) (err : Option GoError) :
    (loopEnding (onEntry onRow) s items err).Reports
      (LoopExit.finish (rowLoop onRow wrap s items) err wrapItr).2 := by
  induction items generalizing s with
  | nil => exact Ending.reports_ends err hitr
  | cons item items ih =>
    rcases h : onRow (unpackKey item.1).2 item.2 s with ⟨s', _ | e⟩
    · rw [rowLoop_cons_none wrap items h, loopEnding_cons_none (onEntry onRow) items h]
      exact ih s'
    · rw [rowLoop_cons_some wrap items h, loopEnding_cons_some (onEntry onRow) items h]
      split_ifs
      · exact Ending.reports_none (.inl rfl)
      · exact Ending.reports_wraps (.inl rfl) (hwrap _ _ e)

/-- **The loop of `fetchKeys`.**  It skips the keys that came back `nil` and reports how the loop
over the others ended. -/
theorem fetchLoop_reports {wrapItr : GoError → GoError} (hitr : ∀ e, Wraps e (wrapItr e)) (s : σ)
    (items : List (Bytes × Option Bytes)) (err : Option GoError) :
    (loopEnding (onPair onRow) s (presentItems items) err).Reports
      (LoopExit.finish (Backend.fetchLoop onRow s items) err wrapItr).2 := by
  induction items generalizing s with
  | nil => exact Ending.reports_ends err hitr
  | cons item items ih =>
    obtain ⟨k, _ | value⟩ := item
    · exact ih s
    have hp : presentItems ((k, some value) :: items) = (k, value) :: presentItems items := rfl
    rcases h : onRow (unpackKey k).2 value s with ⟨s', _ | e⟩
    · rw [Backend.fetchLoop_cons_none items h, hp,
        loopEnding_cons_none (onPair onRow) _ (show onPair onRow (k, value) s = _ from h)]
      exact ih s'
    · rw [Backend.fetchLoop_cons_some items h, hp,
        loopEnding_cons_some (onPair onRow) _ (show onPair onRow (k, value) s = _ from h)]
      split_ifs
      · exact Ending.reports_none (.inl rfl)
      · exact Ending.reports_wraps (.inl rfl) (wraps_wrap _ _ e)

/-- **`passBreak` only wraps.**  What reports how a loop through `passBreak onRow` ended reports
how the loop through `onRow` itself ends. -/
theorem Ending.reports_of_passBreak {wrap : Bytes → GoError → GoError}
    (hw : ∀ k e, Wraps e (wrap k e)) (s : σ) (items : List Entry) (err : Option GoError)
    {out : Option GoError} (h : (loopEnding (onEntry (Backend.passBreak onRow wrap)) s items err).Reports out) :
    (loopEnding (onEntry onRow) s items err).Reports out := by
  induction items generalizing s with
  | nil => exact h
  | cons item items ih =>
    have hp := Backend.passBreak_eq onRow wrap (unpackKey item.1).2 item.2 s
    rcases hr : onRow (unpackKey item.1).2 item.2 s with ⟨s', _ | e⟩ <;> rw [hr] at hp
    · rw [loopEnding_cons_none _ items hr]
      exact ih s' (by rwa [loopEnding_cons_none _ items hp] at h)
    · rw [loopEnding_cons_some _ items hp] at h
      rw [loopEnding_cons_some _ items hr]
      by_cases hb : e = .breakScan
      · simpa [hb] using h
      · simp only [if_neg hb, if_neg (hw _ e).ne_breakScan] at h ⊢
        obtain ⟨hout, e', rfl, he⟩ := h
        exact ⟨hout, e', rfl, (hw _ e).trans he⟩

end Helpers

/-! ## The six reads -/

/-- The error of a read that returns a value or an error. -/
def errorOf {α : Type} : Except GoError α → Option GoError
  | .error e => some e
  | .ok _ => none

/-- Whether a loop ended cleanly: the callback stopped it, or the iterator ran out with no
error. -/
def Ending.isClean : Ending → Bool
  | .breaks | .ends none => true
  | .fails _ | .ends (some _) => false

/-- A read reports no error exactly after a clean ending. -/
theorem Ending.Reports.eq_none_iff {en : Ending} {err : Option GoError} (h : en.Reports err) :
    err = none ↔ en.isClean = true := by
  obtain ⟨-, h⟩ := h
  rcases en with _ | e | (_ | e)
  · exact iff_of_true h rfl
  · obtain ⟨e', rfl, -⟩ := h; exact iff_of_false nofun nofun
  · exact iff_of_true h rfl
  · obtain ⟨e', rfl, -⟩ := h; exact iff_of_false nofun nofun

/-- Whether `FetchIndex`'s callback records a row from `itr`: the first item, if there is one,
has a key, as the callback is handed it, that begins with `prefixKey`. -/
def Iter.firstMatches (itr : Iter Entry) (prefixKey : Bytes) : Bool :=
  itr.items.head?.any fun item => prefixKey.isPrefixOf (unpackKey item.1).2

namespace Backend

variable (db : Backend)

/-- The iterator `fetchKeys` reads, less the keys that came back `nil`. -/
def presentIter (table : UInt8) (keys : List Bytes) : Iter (Bytes × Bytes) :=
  let itr := db.iter (db.content.batchGet (keys.map (packKey table)))
  ⟨presentItems itr.items, itr.err⟩

section Reads

variable {σ : Type}

theorem scanRange_reports (table : UInt8) (keyStart keyEnd : Bytes) (limit : Limit)
    (onRow : OnRow σ) (s : σ) :
    ((db.rangeIter table keyStart keyEnd limit).ending (onEntry onRow) s).Reports
      (db.scanRange table keyStart keyEnd limit onRow s).2 :=
  rowLoop_reports onRow (fun _ _ _ => wraps_wrap _ _ _) (wraps_wrap _ _) s _ _

theorem scanPrefix_reports (table : UInt8) (prefixKey : Bytes) (limit : Limit) (onRow : OnRow σ)
    (s : σ) :
    ((db.prefixIter table prefixKey limit).ending (onEntry onRow) s).Reports
      (db.scanPrefix table prefixKey limit onRow s).2 :=
  rowLoop_reports onRow (fun _ _ _ => wraps_wrap _ _ _) (wraps_wrap _ _) s _ _

theorem scanTabletRows_reports (keyStart keyEnd : Bytes) (onTabletRow : OnRow σ) (s : σ) :
    ((db.rangeIter tblPrefixRows keyStart keyEnd .unlimited).ending (onEntry onTabletRow) s).Reports
      (db.scanTabletRows keyStart keyEnd onTabletRow s).2 :=
  (Ending.reports_of_passBreak onTabletRow (fun _ _ => wraps_wrap _ _ _) s _ _
    (db.scanRange_reports _ _ _ _ _ s)).reported_map (wraps_wrap _ _)

theorem fetchSingletEntry_reports (keyStart keyEnd : Bytes) :
    (db.rangeIter tblPrefixRows keyStart keyEnd (.atMost 1)).firstEnding.Reports
      (errorOf (db.fetchSingletEntry keyStart keyEnd)) := by
  have h := (db.scanRange_reports tblPrefixRows keyStart keyEnd (.atMost 1)
    (fun rowKey rowValue _ => ((rowKey, some rowValue), some .breakScan)) ([], none)).reported_map
    (wraps_wrap "unable to fetch single tablet row (range [%s, %s[): %w" [.str keyStart, .str keyEnd])
  rw [Iter.ending, loopEnding_of_breaks _ (fun _ _ => rfl)] at h
  dsimp only [fetchSingletEntry]
  split <;> rename_i heq <;> rw [heq] at h <;> exact h

/-- `FetchIndex`'s callback records a row exactly when the first item of its iterator matches. -/
theorem fetchIndex_records (prefixKey keyStart : Bytes) :
    (db.scanInfiniteRange tblPrefixIndex keyStart (.atMost 1)
      (fun key value s => if prefixKey.isPrefixOf key then ((key, some value), some .breakScan)
        else (s, some .breakScan)) ([], none)).1.2.isSome =
      (db.rangeIter tblPrefixIndex keyStart [] (.atMost 1)).firstMatches prefixKey := by
  simp only [scanInfiniteRange, scanRange, LoopExit.finish_fst, Iter.firstMatches]
  cases (db.rangeIter tblPrefixIndex keyStart [] (.atMost 1)).items with
  | nil => rfl
  | cons item items => cases hp : prefixKey.isPrefixOf (unpackKey item.1).2 <;> simp [rowLoop, hp]

theorem fetchIndex_reports (tableKey prefixKey keyStart : Bytes) :
    ((db.rangeIter tblPrefixIndex keyStart [] (.atMost 1)).firstMatches prefixKey = true ∨
        (db.rangeIter tblPrefixIndex keyStart [] (.atMost 1)).firstEnding.isClean = false →
      (db.rangeIter tblPrefixIndex keyStart [] (.atMost 1)).firstEnding.Reports
        (errorOf (db.fetchIndex tableKey prefixKey keyStart))) ∧
    ((db.rangeIter tblPrefixIndex keyStart [] (.atMost 1)).firstMatches prefixKey = false →
      (db.rangeIter tblPrefixIndex keyStart [] (.atMost 1)).firstEnding.isClean = true →
      db.fetchIndex tableKey prefixKey keyStart = .error .notFound) := by
  have h := (db.scanRange_reports tblPrefixIndex keyStart [] (.atMost 1)
    (fun key value s => if prefixKey.isPrefixOf key then ((key, some value), some .breakScan)
      else (s, some .breakScan)) ([], none)).reported_map
    (wraps_wrap "unable to fetch index for key prefix %q: %w" [.str prefixKey])
  rw [Iter.ending, loopEnding_of_breaks _ (fun _ _ => by dsimp only [onEntry]; split <;> rfl)] at h
  have hrec := db.fetchIndex_records prefixKey keyStart
  dsimp only [fetchIndex, scanInfiniteRange] at hrec ⊢
  split
  · -- the scan failed: the error is reported, wrapped, and the ending was not clean
    rename_i heq
    rw [heq] at h
    exact ⟨fun _ => h, fun _ hc => absurd (h.eq_none_iff.2 hc) nofun⟩
  · -- no row recorded after a clean ending: `store.ErrNotFound`
    rename_i heq hr
    rw [heq] at h
    rw [hr] at hrec
    have hc := h.eq_none_iff.1 rfl
    exact ⟨fun hm => by rw [← hrec, hc] at hm; simp at hm, fun _ _ => rfl⟩
  · -- a row recorded: no error
    rename_i heq hr
    rw [heq] at h
    rw [hr] at hrec
    exact ⟨fun _ => h, fun hm => by rw [← hrec] at hm; simp at hm⟩

theorem hasTabletRow_reports (tabletKey : Bytes) :
    (db.prefixIter tblPrefixRows tabletKey (.atMost 1)).firstEnding.Reports
      (errorOf (db.hasTabletRow tabletKey)) := by
  have h := (db.scanPrefix_reports tblPrefixRows tabletKey (.atMost 1)
    (fun _ _ _ => (true, some .breakScan)) false).reported_map
    (wraps_wrap "scan prefix %q for table %q: %w"
      [.str tabletKey, .text (tblPrefixName tblPrefixRows)])
  rw [Iter.ending, loopEnding_of_breaks _ (fun _ _ => rfl)] at h
  dsimp only [hasTabletRow]
  split <;> rename_i heq <;> rw [heq] at h <;> exact h

theorem fetchTabletRows_reports (keys : List Bytes) (onTabletRow : OnRow σ) (s : σ) :
    ((db.presentIter tblPrefixRows keys).ending (onPair onTabletRow) s).Reports
      (db.fetchTabletRows keys onTabletRow s).2 :=
  fetchLoop_reports onTabletRow (wraps_wrap _ _) s _ _

theorem scanLastShardsWrittenBlock_reports (keyPrefix : Bytes) (blockRefFromID : Bytes → BlockRef)
    (onBlockRef : Bytes → BlockRef → σ → σ × Option GoError) (s : σ) :
    ((db.prefixIter tblPrefixLast keyPrefix .unlimited).ending
        (onEntry fun key value => onBlockRef key (blockRefFromID value)) s).Reports
      (db.scanLastShardsWrittenBlock keyPrefix blockRefFromID onBlockRef s).2 :=
  (Ending.reports_of_passBreak _ (fun _ _ => wraps_wrap _ _ _) s _ _
    (db.scanPrefix_reports _ _ _ _ s)).reported_map (wraps_wrap _ _)

end Reads

end Backend

/-- **No read returns `BreakScan`, and each reports how its loop ended.**  Over every backend
content, every point at which the backend's iterators break off, and every callback, each of the
six reads returns no error when its callback stopped the loop with `BreakScan` or the iterator
ran out cleanly, and an error wrapping the callback's error, or the iterator's, otherwise.  The
one exception is `FetchIndex`: after a clean ending it returns `store.ErrNotFound`, exactly when
its callback recorded no row (there was no first item, or its key, as the callback is handed it,
does not begin with `prefixKey`).  The three reads with a callback of their own stop at the first
row. -/
theorem reads_report_their_ending (db : Backend) :
    (∀ {σ : Type} (keyStart keyEnd : Bytes) (onTabletRow : OnRow σ) (s : σ),
      ((db.rangeIter tblPrefixRows keyStart keyEnd .unlimited).ending (onEntry onTabletRow) s).Reports
        (db.scanTabletRows keyStart keyEnd onTabletRow s).2) ∧
    (∀ keyStart keyEnd : Bytes,
      (db.rangeIter tblPrefixRows keyStart keyEnd (.atMost 1)).firstEnding.Reports
        (errorOf (db.fetchSingletEntry keyStart keyEnd))) ∧
    (∀ tableKey prefixKey keyStart : Bytes,
      ((db.rangeIter tblPrefixIndex keyStart [] (.atMost 1)).firstMatches prefixKey = true ∨
          (db.rangeIter tblPrefixIndex keyStart [] (.atMost 1)).firstEnding.isClean = false →
        (db.rangeIter tblPrefixIndex keyStart [] (.atMost 1)).firstEnding.Reports
          (errorOf (db.fetchIndex tableKey prefixKey keyStart))) ∧
      ((db.rangeIter tblPrefixIndex keyStart [] (.atMost 1)).firstMatches prefixKey = false →
        (db.rangeIter tblPrefixIndex keyStart [] (.atMost 1)).firstEnding.isClean = true →
        db.fetchIndex tableKey prefixKey keyStart = .error .notFound)) ∧
    (∀ tabletKey : Bytes,
      (db.prefixIter tblPrefixRows tabletKey (.atMost 1)).firstEnding.Reports
        (errorOf (db.hasTabletRow tabletKey))) ∧
    (∀ {σ : Type} (keys : List Bytes) (onTabletRow : OnRow σ) (s : σ),
      ((db.presentIter tblPrefixRows keys).ending (onPair onTabletRow) s).Reports
        (db.fetchTabletRows keys onTabletRow s).2) ∧
    (∀ {σ : Type} (keyPrefix : Bytes) (blockRefFromID : Bytes → BlockRef)
        (onBlockRef : Bytes → BlockRef → σ → σ × Option GoError) (s : σ),
      ((db.prefixIter tblPrefixLast keyPrefix .unlimited).ending
          (onEntry fun key value => onBlockRef key (blockRefFromID value)) s).Reports
        (db.scanLastShardsWrittenBlock keyPrefix blockRefFromID onBlockRef s).2) :=
  ⟨db.scanTabletRows_reports, db.fetchSingletEntry_reports, db.fetchIndex_reports,
    db.hasTabletRow_reports, db.fetchTabletRows_reports, db.scanLastShardsWrittenBlock_reports⟩

/-! ## What the callbacks are handed

To see the calls a read makes of its callback, wrap the callback in `logCalls`, which keeps a
log of them in its state.  The calls are then `handed`: the items in turn, up to and including
the first the callback does not answer with `nil`.  They are the items the specification asks
for, except that each key comes with its table byte on (`unpackKey`).
-/

/-- The items a loop hands its callback `cb` from `s`: each in turn, up to and including the
first one the callback answers with something other than `nil`. -/
def handed {α σ : Type} (cb : α → σ → σ × Option GoError) : σ → List α → List α
  | _, [] => []
  | s, a :: as =>
    match cb a s with
    | (s', none) => a :: handed cb s' as
    | (_, some _) => [a]

/-- `cb`, keeping a log of the keys and values it is called with. -/
def logCalls {β σ : Type} (cb : Bytes → β → σ → σ × Option GoError) :
    Bytes → β → σ × List (Bytes × β) → (σ × List (Bytes × β)) × Option GoError :=
  fun key value st => (((cb key value st.1).1, st.2 ++ [(key, value)]), (cb key value st.1).2)

section Handed

variable {α β σ : Type}

theorem handed_cons_none (cb : α → σ → σ × Option GoError) {s s' : σ} {a : α} (as : List α)
    (h : cb a s = (s', none)) : handed cb s (a :: as) = a :: handed cb s' as := by
  simp only [handed, h]

theorem handed_cons_some (cb : α → σ → σ × Option GoError) {s s' : σ} {a : α} {e : GoError}
    (as : List α) (h : cb a s = (s', some e)) : handed cb s (a :: as) = [a] := by
  simp only [handed, h]

theorem logCalls_eq (cb : Bytes → β → σ → σ × Option GoError) {key : Bytes} {value : β}
    {s s' : σ} {answer : Option GoError} (log : List (Bytes × β)) (h : cb key value s = (s', answer)) :
    logCalls cb key value (s, log) = ((s', log ++ [(key, value)]), answer) := by
  simp only [logCalls, h]

/-- The calls of `fetchKeys`' loop: its items with a value, with the string half of `unpackKey`
for key. -/
theorem fetchLoop_logCalls (onRow : OnRow σ) (s : σ) (log : List (Bytes × Bytes))
    (items : List (Bytes × Option Bytes)) :
    (Backend.fetchLoop (logCalls onRow) (s, log) items).1.2 = log ++
      handed (fun kv => onRow kv.1 kv.2) s
        ((presentItems items).map fun kv => ((unpackKey kv.1).2, kv.2)) := by
  induction items generalizing s log with
  | nil => exact (List.append_nil log).symm
  | cons item items ih =>
    obtain ⟨k, _ | value⟩ := item
    · exact ih s log
    have hp : presentItems ((k, some value) :: items) = (k, value) :: presentItems items := rfl
    rcases h : onRow (unpackKey k).2 value s with ⟨s', _ | e⟩
    · rw [Backend.fetchLoop_cons_none items (logCalls_eq onRow log h), ih, hp, List.map_cons,
        handed_cons_none (fun kv : Bytes × Bytes => onRow kv.1 kv.2) _
          (show onRow ((unpackKey k).2, value).1 ((unpackKey k).2, value).2 s = _ from h),
        List.append_assoc, List.singleton_append]
    · rw [Backend.fetchLoop_cons_some items (logCalls_eq onRow log h), hp, List.map_cons,
        handed_cons_some (fun kv : Bytes × Bytes => onRow kv.1 kv.2) _
          (show onRow ((unpackKey k).2, value).1 ((unpackKey k).2, value).2 s = _ from h)]

/-- The calls of the loop of `scanRange` and `scanPrefix`: its items, the value read through `f`,
with the string half of `unpackKey` for key. -/
theorem rowLoop_logCalls (cb : Bytes → β → σ → σ × Option GoError) (f : Bytes → β)
    (wrap : UInt8 → Bytes → GoError → GoError) (s : σ) (log : List (Bytes × β))
    (items : List Entry) :
    (rowLoop (fun key value => logCalls cb key (f value)) wrap (s, log) items).1.2 = log ++
      handed (fun kv => cb kv.1 kv.2) s (items.map fun e => ((unpackKey e.1).2, f e.2)) := by
  induction items generalizing s log with
  | nil => exact (List.append_nil log).symm
  | cons item items ih =>
    -- the callback as `handed` calls it, on the pair
    have hcb : ∀ {s' : σ} {answer : Option GoError},
        cb (unpackKey item.1).2 (f item.2) s = (s', answer) →
        cb ((unpackKey item.1).2, f item.2).1 ((unpackKey item.1).2, f item.2).2 s = (s', answer) :=
      id
    rcases h : cb (unpackKey item.1).2 (f item.2) s with ⟨s', _ | e⟩
    · rw [rowLoop_cons_none wrap items (logCalls_eq cb log h), ih, List.map_cons,
        handed_cons_none (fun kv : Bytes × β => cb kv.1 kv.2) _ (hcb h), List.append_assoc,
        List.singleton_append]
    · rw [rowLoop_cons_some wrap items (logCalls_eq cb log h), List.map_cons,
        handed_cons_some (fun kv : Bytes × β => cb kv.1 kv.2) _ (hcb h)]

/-- `passBreak` changes a callback's errors, never its state, nor which answers are `nil`: the
loop under it runs through the same items to the same state. -/
theorem rowLoop_passBreak_fst (g : OnRow σ) (wrapKey : Bytes → GoError → GoError)
    (wrap : UInt8 → Bytes → GoError → GoError) (s : σ) (items : List Entry) :
    (rowLoop (Backend.passBreak g wrapKey) wrap s items).1 = (rowLoop g wrap s items).1 := by
  induction items generalizing s with
  | nil => rfl
  | cons item items ih =>
    have hp := Backend.passBreak_eq g wrapKey (unpackKey item.1).2 item.2 s
    rcases h : g (unpackKey item.1).2 item.2 s with ⟨s', _ | e⟩ <;> rw [h] at hp
    · rw [rowLoop_cons_none wrap items hp, rowLoop_cons_none wrap items h, ih]
    · rw [rowLoop_cons_some wrap items hp, rowLoop_cons_some wrap items h]

/-- The calls of the loop of `scanRange` and `scanPrefix` under `passBreak`: its items, the value
read through `f`, with the string half of `unpackKey` for key. -/
theorem rowLoop_passBreak_logCalls (cb : Bytes → β → σ → σ × Option GoError) (f : Bytes → β)
    (wrapKey : Bytes → GoError → GoError) (wrap : UInt8 → Bytes → GoError → GoError) (s : σ)
    (log : List (Bytes × β)) (items : List Entry) :
    (rowLoop (Backend.passBreak (fun key value => logCalls cb key (f value)) wrapKey) wrap
        (s, log) items).1.2 = log ++
      handed (fun kv => cb kv.1 kv.2) s (items.map fun e => ((unpackKey e.1).2, f e.2)) := by
  rw [rowLoop_passBreak_fst, rowLoop_logCalls]

end Handed

/-- The items of `fetchKeys`' loop, with no failure: the keys asked for that are present, in the
order asked, each under its packed key. -/
theorem presentItems_batchGet (m : KVMap) (table : UInt8) (keys : List Bytes) :
    (presentItems (m.batchGet (keys.map (packKey table)))).map (fun kv => ((unpackKey kv.1).2, kv.2)) =
      keys.filterMap fun k => (m.get (packKey table k)).map (packKey table k, ·) := by
  induction keys with
  | nil => rfl
  | cons k keys ih =>
    simp only [presentItems, KVMap.batchGet, List.map_cons, List.filterMap_cons] at ih ⊢
    cases m.get (packKey table k) <;> simp only [Option.map_none', Option.map_some', List.map_cons,
      unpackKey_packKey, ih]

/-- **What `FetchTabletRows` hands its callback.**  With an iterator that does not fail, the
callback is called once for each key of `keys` present in `ROWS`, empty values included, in the
order of `keys`, with the stored value, up to and including the first call it does not answer
with `nil`.  The key it gets is `packKey tblPrefixRows k`, the logical key with the table byte
on. -/
theorem fetchTabletRows_calls (db : Backend) (h : db.iterFault = none) {σ : Type}
    (keys : List Bytes) (onTabletRow : OnRow σ) (s : σ) :
    (db.fetchTabletRows keys (logCalls onTabletRow) (s, [])).1.2 =
      handed (fun kv => onTabletRow kv.1 kv.2) s
        (keys.filterMap fun k =>
          (db.content.get (packKey tblPrefixRows k)).map (packKey tblPrefixRows k, ·)) := by
  simp only [Backend.fetchTabletRows, Backend.fetchKeys, Backend.iter, h, LoopExit.finish_fst,
    fetchLoop_logCalls, List.nil_append, presentItems_batchGet]

theorem fetchTabletRows_calls_oneRow :
    oneRow.iterFault = none ∧
      (oneRow.fetchTabletRows [[0x61], [0x62]] (logCalls recordRows) ([], [])).1.2 =
        handed (fun kv => recordRows kv.1 kv.2) []
          ([[0x61], [0x62]].filterMap fun k =>
            (oneRow.content.get (packKey tblPrefixRows k)).map (packKey tblPrefixRows k, ·)) :=
  ⟨rfl, fetchTabletRows_calls oneRow rfl _ _ _⟩

/-- Some logical key of `table` begins with `p` exactly when some entry's key begins with
`packKey table p`: `packKey` keeps prefixes within a table, and keeps the tables apart. -/
theorem exists_entry_isPrefixOf_iff (m : KVMap) (table : UInt8) (p : Bytes) :
    (∃ e ∈ m.entries, (packKey table p).isPrefixOf e.1) ↔
      ∃ k v, m.get (packKey table k) = some v ∧ p <+: k := by
  constructor
  · rintro ⟨⟨_ | ⟨t, k⟩, v⟩, he, hp⟩
    · simp [packKey] at hp
    · obtain ⟨rfl, hk⟩ := List.cons_prefix_cons.1 (List.isPrefixOf_iff_prefix.1 hp)
      exact ⟨k, v, (List.mem_dlookup_iff m.nodupKeys).2 he, hk⟩
  · rintro ⟨k, v, hk, hp⟩
    exact ⟨⟨packKey table k, v⟩, (List.mem_dlookup_iff m.nodupKeys).1 hk,
      List.isPrefixOf_iff_prefix.2 (List.cons_prefix_cons.2 ⟨rfl, hp⟩)⟩

/-- With an iterator that does not fail, `HasTabletRow` returns whether some entry's key begins
with the packed prefix. -/
theorem Backend.hasTabletRow_eq (db : Backend) (h : db.iterFault = none) (tabletKey : Bytes) :
    db.hasTabletRow tabletKey = .ok !(db.content.entries.filter fun e =>
      (packKey tblPrefixRows tabletKey).isPrefixOf e.1).isEmpty := by
  simp only [Backend.hasTabletRow, Backend.scanPrefix, Backend.prefixIter, Backend.iter, h, KVMap.prefixScan,
    Limit.apply]
  cases db.content.entries.filter fun e => (packKey tblPrefixRows tabletKey).isPrefixOf e.1 with
  | nil => rfl
  | cons e l => rfl

/-- **`HasTabletRow` looks for a logical key.**  With an iterator that does not fail, it returns,
with no error, whether some logical key of `ROWS` begins with `tabletKey`. -/
theorem hasTabletRow_iff (db : Backend) (h : db.iterFault = none) (tabletKey : Bytes) :
    ∃ b, db.hasTabletRow tabletKey = .ok b ∧
      (b = true ↔ ∃ k v, db.content.get (packKey tblPrefixRows k) = some v ∧ tabletKey <+: k) := by
  refine ⟨_, db.hasTabletRow_eq h tabletKey, ?_⟩
  rw [← exists_entry_isPrefixOf_iff]
  simp [List.isEmpty_iff, List.filter_eq_nil_iff]

theorem hasTabletRow_iff_oneRow :
    oneRow.iterFault = none ∧ ∃ b, oneRow.hasTabletRow [] = .ok b ∧
      (b = true ↔ ∃ k v, oneRow.content.get (packKey tblPrefixRows k) = some v ∧ [] <+: k) :=
  ⟨rfl, hasTabletRow_iff oneRow rfl []⟩

/-- **What `ScanTabletRows` hands its callback.**  With an iterator that does not fail, the
callback is called on the entries of the scanned range, `ROWS` from `keyStart` up to `keyEnd` or
to the end of the table, in ascending key order, up to and including the first call it does not
answer with `nil`.  The key it gets is the entry's whole key, table byte on. -/
theorem scanTabletRows_calls (db : Backend) (h : db.iterFault = none) {σ : Type}
    (keyStart keyEnd : Bytes) (onTabletRow : OnRow σ) (s : σ) :
    (db.scanTabletRows keyStart keyEnd (logCalls onTabletRow) (s, [])).1.2 =
      handed (fun kv => onTabletRow kv.1 kv.2) s
        ((db.content.scan (packKey tblPrefixRows keyStart)
          (if keyEnd ≠ [] then packKey tblPrefixRows keyEnd else [tblPrefixRows + 1]) .unlimited).map
          fun e => (e.1, e.2)) ∧
    (db.content.scan (packKey tblPrefixRows keyStart)
      (if keyEnd ≠ [] then packKey tblPrefixRows keyEnd else [tblPrefixRows + 1]) .unlimited).Pairwise
      fun a b => a.1 < b.1 := by
  refine ⟨?_, db.content.sorted.filter _⟩
  simp only [Backend.scanTabletRows, Backend.scanRange, Backend.rangeIter, Backend.iter, h,
    LoopExit.finish_fst]
  rw [show logCalls onTabletRow = fun key value => logCalls onTabletRow key (id value) from rfl,
    rowLoop_passBreak_logCalls, List.nil_append]
  -- every key from the packed start key on is non-empty, so `unpackKey` hands it back whole
  refine congrArg _ (List.map_congr_left fun e he => ?_)
  have hle := (of_decide_eq_true (List.mem_filter.1 he).2).1
  rw [unpackKey_snd fun hnil => absurd hle (by rw [hnil]; exact not_le.2 (nil_lt_cons _ _))]
  rfl

theorem scanTabletRows_calls_oneRow :
    oneRow.iterFault = none ∧
      (oneRow.scanTabletRows [] [] (logCalls recordRows) ([], [])).1.2 =
        handed (fun kv => recordRows kv.1 kv.2) []
          ((oneRow.content.scan (packKey tblPrefixRows [])
            (if ([] : Bytes) ≠ [] then packKey tblPrefixRows [] else [tblPrefixRows + 1]) .unlimited).map
            fun e => (e.1, e.2)) ∧
      (oneRow.content.scan (packKey tblPrefixRows [])
        (if ([] : Bytes) ≠ [] then packKey tblPrefixRows [] else [tblPrefixRows + 1]) .unlimited).Pairwise
        fun a b => a.1 < b.1 :=
  ⟨rfl, scanTabletRows_calls oneRow rfl [] [] _ _⟩

/-- **What `ScanLastShardsWrittenBlock` hands its callback.**  With an iterator that does not
fail, the callback is called on the `LAST` entries whose key begins with
`packKey tblPrefixLast keyPrefix`, in ascending key order, each with the block reference read
from its value, up to and including the first call it does not answer with `nil`.  The key it
gets is the entry's whole key, table byte on. -/
theorem scanLastShardsWrittenBlock_calls (db : Backend) (h : db.iterFault = none) {σ : Type}
    (keyPrefix : Bytes) (blockRefFromID : Bytes → BlockRef)
    (onBlockRef : Bytes → BlockRef → σ → σ × Option GoError) (s : σ) :
    (db.scanLastShardsWrittenBlock keyPrefix blockRefFromID (logCalls onBlockRef) (s, [])).1.2 =
      handed (fun kr => onBlockRef kr.1 kr.2) s
        ((db.content.entries.filter fun e => (packKey tblPrefixLast keyPrefix).isPrefixOf e.1).map
          fun e => (e.1, blockRefFromID e.2)) ∧
    (db.content.entries.filter fun e => (packKey tblPrefixLast keyPrefix).isPrefixOf e.1).Pairwise
      fun a b => a.1 < b.1 := by
  refine ⟨?_, db.content.sorted.filter _⟩
  simp only [Backend.scanLastShardsWrittenBlock, Backend.scanPrefix, Backend.prefixIter,
    Backend.iter, h,
    KVMap.prefixScan, Limit.apply, LoopExit.finish_fst, rowLoop_passBreak_logCalls, List.nil_append]
  -- every key under the packed prefix is non-empty, so `unpackKey` hands it back whole
  refine congrArg _ (List.map_congr_left fun e he => ?_)
  have hp := List.isPrefixOf_iff_prefix.1 (List.mem_filter.1 he).2
  rw [unpackKey_snd fun hnil => by simp [hnil, packKey] at hp]

theorem scanLastShardsWrittenBlock_calls_oneLast :
    oneLast.iterFault = none ∧
      (oneLast.scanLastShardsWrittenBlock [] (fun id => ⟨id, 0⟩) (logCalls recordRefs) ([], [])).1.2 =
        handed (fun kr => recordRefs kr.1 kr.2) []
          ((oneLast.content.entries.filter fun e => (packKey tblPrefixLast []).isPrefixOf e.1).map
            fun e => (e.1, ⟨e.2, 0⟩)) ∧
      (oneLast.content.entries.filter fun e => (packKey tblPrefixLast []).isPrefixOf e.1).Pairwise
        fun a b => a.1 < b.1 :=
  ⟨rfl, scanLastShardsWrittenBlock_calls oneLast rfl [] _ _ _⟩

end FluxDB
