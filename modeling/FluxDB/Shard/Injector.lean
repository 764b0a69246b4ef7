import FluxDB.Shard.FileName
import FluxDB.Shard.Stream

/-!
# The shard injector

`ShardInjector.Run` replays the sharder's files into the store.  It reads the block the store was
last written up to, then walks the shards store.  Each file names the inclusive block range it
covers, and the walk callback

* stops with a gap error if the file starts past the block right after the watermark,
* skips the file if it ends at or below the watermark,
* otherwise opens it, decodes its requests above the watermark, writes them as one batch, and
  moves the watermark to the file's last block.

The callback is `onFile`, with its second half, from opening the file on, cut out as `inject`;
the walk is `walkFiles`, a fold of the callback that stops at the first error.  The watermark
`startAfterNum`, a variable the callback captures in Go, is threaded through an explicit state,
together with the calls made so far.  Whatever the run asks of the world (the store's watermark,
the names the walk lists and their order, the objects' contents, the answers of `WriteBatch`) is
a parameter, so every result holds for every store, every walk order and every failure.

## What is here

* `inject_cases`, `onFile_cases`, `onFile_ok`: what one callback can do, said once.
* `walkFiles_append_ok`: the state after the first files is the walk over them.
* `walkFiles_startAfterNum`: the watermark is the running maximum of the files' last blocks.
* `walkFiles_gap`: a gap error is raised at the first file that leaves a hole, and only there.
* `walkFiles_covers`: the written files leave no hole above the starting watermark.
* `run_batches_ascend`: every batch is above the starting watermark and above every earlier
  batch, whatever the files hold and whatever fails.
* `run_stops_at_failed_file`: a file that fails before its batch is written leaves the calls of
  the files before it, and at most its own opening.
-/

set_option autoImplicit false

namespace FluxDB

/-! ## The run -/

/-- A call the run makes on the shards store or the database. -/
inductive InjectorCall where
  /-- `shardsStore.OpenObject(ctx, filename)`. -/
  | openObject (filename : String)
  /-- `db.WriteBatch(ctx, requests)`, made while handling `filename`. -/
  | writeBatch (filename : String) (requests : List WriteRequest)
  deriving DecidableEq, Repr

/-- The requests a call writes, if it is a `WriteBatch` call. -/
def InjectorCall.written : InjectorCall → Option (List WriteRequest)
  | .openObject _ => none
  | .writeBatch _ requests => some requests

/-- The batches of a list of calls, in the order they were written. -/
def batches (calls : List InjectorCall) : List (List WriteRequest) :=
  calls.filterMap InjectorCall.written

/-- What `ShardInjector.Run` asks of the world. -/
structure ShardInjector where
  /-- `db.FetchLastWrittenBlock`: the block the store was last written up to. -/
  lastWrittenBlock : Except GoError BlockRef
  /-- The names `shardsStore.Walk` hands its callback, in the order it does. -/
  walk : List String
  /-- `shardsStore.OpenObject`: the object's content, or the error opening it. -/
  openObject : String → Except GoError Bytes
  /-- `db.WriteBatch`, given how many batches the run has written before this one. -/
  writeBatch : Nat → List WriteRequest → Except GoError Unit

/-- The state the walk callback carries from one file to the next. -/
structure InjectorState where
  /-- `startAfterNum`: the last block written. -/
  startAfterNum : Nat
  /-- The calls made so far, oldest first. -/
  calls : List InjectorCall

/-- The state before the first file: nothing called, and the store's own watermark. -/
def InjectorState.start (startAfter : BlockRef) : InjectorState := ⟨startAfter.num, []⟩

/-- The state after making `cs`. -/
def InjectorState.record (st : InjectorState) (cs : List InjectorCall) : InjectorState :=
  { st with calls := st.calls ++ cs }

/-- The error for a file that starts past the block after the watermark. -/
def gapError (filename : String) (fileFirst : Nat) (startAfter : BlockRef) : GoError :=
  .errorf ("file %s starts at block %d, we were expecting to start right after %d, " ++
    "there is a hole in your block range files") [.text filename, .num fileFirst, .ref startAfter]

/-- The error for a file that cannot be opened. -/
def openError (filename : String) (err : GoError) : GoError :=
  .wrap "opening object from shards store %q: %w" [.text filename] err

/-- The error for a file whose requests cannot be decoded. -/
def readError (filename : String) (err : GoError) : GoError :=
  .wrap "unable to read all write requests in batch %q: %w" [.text filename] err

/-- The error for a batch the database refuses. -/
def writeError (filename : String) (err : GoError) : GoError :=
  .wrap "write batch %q: %w" [.text filename] err

/-- The error `Run` returns for a walk that stopped on `err`. -/
def walkError (err : GoError) : GoError := .wrap "walking shards store: %w" [] err

/-- The second half of the walk callback, for a file that ends past the watermark: open it,
read its requests above the watermark, write them, and move the watermark to `fileLast`. -/
def ShardInjector.inject (inj : ShardInjector) (st : InjectorState) (filename : String)
    (fileLast : Nat) : InjectorState × Option GoError :=
  match inj.openObject filename with
  | .error err => (st.record [.openObject filename], some (openError filename err))
  | .ok reader =>
    match readWriteRequestsForBatch reader st.startAfterNum with
    | .error err => (st.record [.openObject filename], some (readError filename err))
    | .ok requests =>
      let st' := st.record [.openObject filename, .writeBatch filename requests]
      match inj.writeBatch (batches st.calls).length requests with
      | .error err => (st', some (writeError filename err))
      | .ok () => ({ st' with startAfterNum := fileLast }, none)

/-- The walk callback of `Run`, on one name.  `startAfter` is the block the run started after,
which the gap error quotes; `startAfterNum + 1` is computed in `uint64`. -/
def ShardInjector.onFile (inj : ShardInjector) (startAfter : BlockRef) (st : InjectorState)
    (filename : String) : InjectorState × Option GoError :=
  match parseFileName filename with
  | .error err => (st, some err)
  | .ok (fileFirst, fileLast) =>
    if (st.startAfterNum + 1) % 2 ^ 64 < fileFirst then
      (st, some (gapError filename fileFirst startAfter))
    else if fileLast ≤ st.startAfterNum then (st, none)
    else inj.inject st filename fileLast

/-- `shardsStore.Walk`: hand the callback each name in turn, and stop at the first error. -/
def walkFiles (step : InjectorState → String → InjectorState × Option GoError) :
    InjectorState → List String → InjectorState × Option GoError
  | st, [] => (st, none)
  | st, filename :: filenames =>
    match step st filename with
    | (st', none) => walkFiles step st' filenames
    | (st', some err) => (st', some err)

/-- `ShardInjector.Run`: its result, and the calls it made. -/
def ShardInjector.run (inj : ShardInjector) : Except GoError Unit × List InjectorCall :=
  match inj.lastWrittenBlock with
  | .error err => (.error err, [])
  | .ok startAfter =>
    match walkFiles (inj.onFile startAfter) (.start startAfter) inj.walk with
    | (st, some err) => (.error (walkError err), st.calls)
    | (st, none) => (.ok (), st.calls)

/-! ## Calls and batches -/

@[simp] theorem batches_nil : batches [] = [] := rfl

@[simp] theorem batches_append (cs cs' : List InjectorCall) :
    batches (cs ++ cs') = batches cs ++ batches cs' :=
  List.filterMap_append _ _ _

@[simp] theorem batches_openObject (f : String) : batches [.openObject f] = [] := rfl

@[simp] theorem batches_writeBatch (f g : String) (rs : List WriteRequest) :
    batches [.openObject f, .writeBatch g rs] = [rs] := rfl

@[simp] theorem record_startAfterNum (st : InjectorState) (cs : List InjectorCall) :
    (st.record cs).startAfterNum = st.startAfterNum := rfl

@[simp] theorem record_calls (st : InjectorState) (cs : List InjectorCall) :
    (st.record cs).calls = st.calls ++ cs := rfl

/-- The errors of a file the callback has started to inject: opening, reading or writing it
failed. -/
def IsInjectError (e : GoError) : Prop :=
  ∃ f cause, e = openError f cause ∨ e = readError f cause ∨ e = writeError f cause

theorem IsInjectError.ne_gapError {e : GoError} (h : IsInjectError e) (f : String) (a : Nat)
    (sa : BlockRef) : e ≠ gapError f a sa := by
  obtain ⟨g, cause, rfl | rfl | rfl⟩ := h <;> nofun

/-! ## One file -/

section Step

variable (inj : ShardInjector) (sa : BlockRef) (st : InjectorState) (f : String)

/-- Everything `inject` can do: fail to open, fail to read, fail to write, or write. -/
theorem inject_cases (b : Nat) :
    (∃ e, inj.inject st f b = (st.record [.openObject f], some (openError f e))) ∨
    (∃ e, inj.inject st f b = (st.record [.openObject f], some (readError f e))) ∨
    (∃ c rs e, inj.openObject f = .ok c ∧ readWriteRequestsForBatch c st.startAfterNum = .ok rs ∧
      inj.inject st f b = (st.record [.openObject f, .writeBatch f rs], some (writeError f e))) ∨
    (∃ c rs, inj.openObject f = .ok c ∧ readWriteRequestsForBatch c st.startAfterNum = .ok rs ∧
      inj.inject st f b = (⟨b, st.calls ++ [.openObject f, .writeBatch f rs]⟩, none)) := by
  unfold ShardInjector.inject
  split
  · exact .inl ⟨_, rfl⟩
  rename_i c hc
  split
  · exact .inr (.inl ⟨_, rfl⟩)
  rename_i rs hr
  split
  · exact .inr (.inr (.inl ⟨c, rs, _, hc, hr, rfl⟩))
  · exact .inr (.inr (.inr ⟨c, rs, hc, hr, rfl⟩))

/-- A file that opens, decodes and is written moves the watermark to its last block. -/
theorem inject_of_ok (b : Nat) {c : Bytes} {rs : List WriteRequest}
    (hc : inj.openObject f = .ok c) (hr : readWriteRequestsForBatch c st.startAfterNum = .ok rs)
    (hw : inj.writeBatch (batches st.calls).length rs = .ok ()) :
    inj.inject st f b = (⟨b, st.calls ++ [.openObject f, .writeBatch f rs]⟩, none) := by
  simp only [ShardInjector.inject, hc, hr, hw]; rfl

theorem onFile_of_parse_error {e : GoError} (h : parseFileName f = .error e) :
    inj.onFile sa st f = (st, some e) := by
  simp only [ShardInjector.onFile, h]

theorem onFile_of_parse {a b : Nat} (h : parseFileName f = .ok (a, b)) :
    inj.onFile sa st f =
      if (st.startAfterNum + 1) % 2 ^ 64 < a then (st, some (gapError f a sa))
      else if b ≤ st.startAfterNum then (st, none) else inj.inject st f b := by
  simp only [ShardInjector.onFile, h]

/-- A file that starts no later than the block after the watermark and ends at or below it is
skipped. -/
theorem onFile_skip {a b : Nat} (hp : parseFileName f = .ok (a, b))
    (hw : st.startAfterNum < 2 ^ 64 - 1) (ha : a ≤ st.startAfterNum + 1)
    (hb : b ≤ st.startAfterNum) : inj.onFile sa st f = (st, none) := by
  rw [onFile_of_parse inj sa st f hp, Nat.mod_eq_of_lt (by omega), if_neg (by omega), if_pos hb]

/-- A file that starts no later than the block after the watermark, ends past it, opens, decodes
and is written moves the watermark to its last block. -/
theorem onFile_write {a b : Nat} {c : Bytes} {rs : List WriteRequest}
    (hp : parseFileName f = .ok (a, b)) (hw : st.startAfterNum < 2 ^ 64 - 1)
    (ha : a ≤ st.startAfterNum + 1) (hb : st.startAfterNum < b) (hc : inj.openObject f = .ok c)
    (hr : readWriteRequestsForBatch c st.startAfterNum = .ok rs)
    (hwb : inj.writeBatch (batches st.calls).length rs = .ok ()) :
    inj.onFile sa st f = (⟨b, st.calls ++ [.openObject f, .writeBatch f rs]⟩, none) := by
  rw [onFile_of_parse inj sa st f hp, Nat.mod_eq_of_lt (by omega), if_neg (by omega),
    if_neg (by omega), inject_of_ok inj st f b hc hr hwb]

/-- Everything the callback can do with a name: fail to parse it, find a gap, skip the file, or
inject it.  Past the gap check the file starts at most one block after the watermark, with no
`uint64` wrap: either it is skipped, or it ends past the watermark and so below `2 ^ 32`. -/
theorem onFile_cases :
    (∃ e, parseFileName f = .error e ∧ inj.onFile sa st f = (st, some e)) ∨
    ∃ a b, parseFileName f = .ok (a, b) ∧
      ((st.startAfterNum + 1) % 2 ^ 64 < a ∧ inj.onFile sa st f = (st, some (gapError f a sa)) ∨
       a ≤ st.startAfterNum + 1 ∧ b ≤ st.startAfterNum ∧ inj.onFile sa st f = (st, none) ∨
       a ≤ st.startAfterNum + 1 ∧ st.startAfterNum < b ∧ inj.onFile sa st f = inj.inject st f b) := by
  rcases hp : parseFileName f with e | ⟨a, b⟩
  · exact .inl ⟨e, rfl, onFile_of_parse_error inj sa st f hp⟩
  refine .inr ⟨a, b, rfl, ?_⟩
  rw [onFile_of_parse inj sa st f hp]
  have hmod := Nat.mod_le (st.startAfterNum + 1) (2 ^ 64)
  split_ifs with hg hb
  · exact .inl ⟨hg, rfl⟩
  · exact .inr (.inl ⟨by omega, hb, rfl⟩)
  · exact .inr (.inr ⟨by omega, by omega, rfl⟩)

/-- A callback that returns no error skipped the file, or wrote the file's requests above the
watermark and moved the watermark to the file's last block. -/
theorem onFile_ok {st' : InjectorState} (h : inj.onFile sa st f = (st', none)) :
    ∃ a b, parseFileName f = .ok (a, b) ∧ a ≤ st.startAfterNum + 1 ∧
      (b ≤ st.startAfterNum ∧ st' = st ∨
       st.startAfterNum < b ∧ ∃ c rs, inj.openObject f = .ok c ∧
         readWriteRequestsForBatch c st.startAfterNum = .ok rs ∧
         st' = ⟨b, st.calls ++ [.openObject f, .writeBatch f rs]⟩) := by
  rcases onFile_cases inj sa st f with ⟨e, -, he⟩ | ⟨a, b, hp, ⟨-, he⟩ | ⟨ha, hb, he⟩ | ⟨ha, hb, he⟩⟩ <;>
    rw [he] at h
  · cases h
  · cases h
  · cases h
    exact ⟨a, b, hp, ha, .inl ⟨hb, rfl⟩⟩
  · refine ⟨a, b, hp, ha, .inr ⟨hb, ?_⟩⟩
    rcases inject_cases inj st f b with ⟨e, he⟩ | ⟨e, he⟩ | ⟨c, rs, e, -, -, he⟩ | ⟨c, rs, hc, hr, he⟩ <;>
      rw [he] at h <;> cases h
    exact ⟨c, rs, hc, hr, rfl⟩

/-- A callback that returns no error leaves the watermark at the larger of the old one and the
file's last block. -/
theorem onFile_ok_startAfterNum {st' : InjectorState} {a b : Nat}
    (h : inj.onFile sa st f = (st', none)) (hp : parseFileName f = .ok (a, b)) :
    st'.startAfterNum = max st.startAfterNum b := by
  obtain ⟨a', b', hp', -, ⟨hb, rfl⟩ | ⟨hb, c, rs, -, -, rfl⟩⟩ := onFile_ok inj sa st f h <;>
    cases hp.symm.trans hp' <;> simp only [Nat.max_def] <;> split_ifs <;> omega

/-- An injected file that fails leaves the watermark alone, and its error is an injection error. -/
theorem inject_error {b : Nat} {st' : InjectorState} {e : GoError}
    (h : inj.inject st f b = (st', some e)) :
    IsInjectError e ∧ st'.startAfterNum = st.startAfterNum := by
  rcases inject_cases inj st f b with ⟨e', he⟩ | ⟨e', he⟩ | ⟨c, rs, e', -, -, he⟩ | ⟨c, rs, -, -, he⟩ <;>
    rw [he] at h <;> cases h
  · exact ⟨⟨f, e', .inl rfl⟩, rfl⟩
  · exact ⟨⟨f, e', .inr (.inl rfl)⟩, rfl⟩
  · exact ⟨⟨f, e', .inr (.inr rfl)⟩, rfl⟩

/-- A callback that fails has made no call, or has only opened the file, unless the database
refused the file's batch. -/
theorem onFile_error {st' : InjectorState} {e : GoError} (h : inj.onFile sa st f = (st', some e)) :
    (st'.calls = st.calls ∨ st'.calls = st.calls ++ [.openObject f]) ∨
    ∃ a b c, parseFileName f = .ok (a, b) ∧ e = writeError f c := by
  rcases onFile_cases inj sa st f with ⟨e', -, he⟩ | ⟨a, b, hp, ⟨-, he⟩ | ⟨-, -, he⟩ | ⟨-, -, he⟩⟩ <;>
    rw [he] at h
  · cases h; exact .inl (.inl rfl)
  · cases h; exact .inl (.inl rfl)
  · cases h
  · rcases inject_cases inj st f b with ⟨c, hi⟩ | ⟨c, hi⟩ | ⟨_, _, c, -, -, hi⟩ | ⟨_, _, -, -, hi⟩ <;>
      rw [hi] at h <;> cases h
    · exact .inl (.inr rfl)
    · exact .inl (.inr rfl)
    · exact .inr ⟨a, b, c, hp, rfl⟩

end Step

/-! ## The walk -/

section Walk

variable (step : InjectorState → String → InjectorState × Option GoError)

@[simp] theorem walkFiles_nil (st : InjectorState) : walkFiles step st [] = (st, none) := rfl

theorem walkFiles_cons_ok {st st' : InjectorState} {f : String} (fs : List String)
    (h : step st f = (st', none)) : walkFiles step st (f :: fs) = walkFiles step st' fs := by
  simp only [walkFiles, h]

theorem walkFiles_cons_error {st st' : InjectorState} {f : String} {e : GoError} (fs : List String)
    (h : step st f = (st', some e)) : walkFiles step st (f :: fs) = (st', some e) := by
  simp only [walkFiles, h]

/-- A walk whose first files go through goes on from where they left it.  So the state after the
first `i` files of a walk is the walk over `take i` of them. -/
theorem walkFiles_append_ok {st st' : InjectorState} {fs : List String} (gs : List String)
    (h : walkFiles step st fs = (st', none)) :
    walkFiles step st (fs ++ gs) = walkFiles step st' gs := by
  induction fs generalizing st with
  | nil => cases h; rfl
  | cons f fs ih =>
    rcases hs : step st f with ⟨s, _ | e⟩
    · rw [walkFiles_cons_ok step fs hs] at h
      rw [List.cons_append, walkFiles_cons_ok step _ hs, ih h]
    · rw [walkFiles_cons_error step fs hs] at h; cases h

/-- A walk that stops in its first files stops there. -/
theorem walkFiles_append_error {st st' : InjectorState} {fs : List String} {e : GoError}
    (gs : List String) (h : walkFiles step st fs = (st', some e)) :
    walkFiles step st (fs ++ gs) = (st', some e) := by
  induction fs generalizing st with
  | nil => cases h
  | cons f fs ih =>
    rcases hs : step st f with ⟨s, _ | e'⟩
    · rw [walkFiles_cons_ok step fs hs] at h
      rw [List.cons_append, walkFiles_cons_ok step _ hs, ih h]
    · rw [walkFiles_cons_error step fs hs] at h
      rw [List.cons_append, walkFiles_cons_error step _ hs, h]

/-- An invariant of the callback's successful steps on the walk's names holds after every
successful walk. -/
theorem walkFiles_ok_induction (I : InjectorState → Prop) {fs : List String}
    (hstep : ∀ st f st', f ∈ fs → I st → step st f = (st', none) → I st')
    {st st' : InjectorState} (hI : I st) (h : walkFiles step st fs = (st', none)) : I st' := by
  induction fs generalizing st with
  | nil => cases h; exact hI
  | cons f fs ih =>
    rcases hs : step st f with ⟨s, _ | e⟩
    · rw [walkFiles_cons_ok step fs hs] at h
      exact ih (fun st g st' hg => hstep st g st' (List.mem_cons_of_mem f hg))
        (hstep st f s (List.mem_cons_self f fs) hI hs) h
    · rw [walkFiles_cons_error step fs hs] at h; cases h

/-- The same for any walk: `I` holds of the states the walk goes on from, and `P` of the state it
ends in, whether it ends after the last name or at an error. -/
theorem walkFiles_induction (I P : InjectorState → Prop) (hIP : ∀ st, I st → P st) {fs : List String}
    (hstep : ∀ st f st', f ∈ fs → I st → step st f = (st', none) → I st')
    (herr : ∀ st f st' e, f ∈ fs → I st → step st f = (st', some e) → P st')
    {st : InjectorState} (hI : I st) : P (walkFiles step st fs).1 := by
  induction fs generalizing st with
  | nil => exact hIP st hI
  | cons f fs ih =>
    rcases hs : step st f with ⟨s, _ | e⟩
    · rw [walkFiles_cons_ok step fs hs]
      exact ih (fun st g st' hg => hstep st g st' (List.mem_cons_of_mem f hg))
        (fun st g st' e hg => herr st g st' e (List.mem_cons_of_mem f hg))
        (hstep st f s (List.mem_cons_self f fs) hI hs)
    · rw [walkFiles_cons_error step fs hs]
      exact herr st f s e (List.mem_cons_self f fs) hI hs

end Walk

/-- `Run` is the walk from the store's watermark. -/
theorem run_eq {inj : ShardInjector} {sa : BlockRef} (hl : inj.lastWrittenBlock = .ok sa) :
    inj.run = ((walkFiles (inj.onFile sa) (.start sa) inj.walk).2.elim (.ok ()) (.error ∘ walkError),
      (walkFiles (inj.onFile sa) (.start sa) inj.walk).1.calls) := by
  rcases h : walkFiles (inj.onFile sa) (.start sa) inj.walk with ⟨st, _ | e⟩ <;>
    simp only [ShardInjector.run, hl, h] <;> rfl

/-! ## The watermark, the gap check and coverage

Take the ranges the walk's names parse to.  After the first files go through, the watermark is
the running maximum of their last blocks (`watermarkAfter`).  The gap error is raised at the
first file that starts past the block after the running maximum of the files before it
(`firstGap`), unless a file before that one fails to open, decode or be written.  A walk that
goes through has written, for every block above the starting watermark up to the final one, a
file whose range holds it (`Covered`).
-/

/-- The watermark after files of `ranges` all go through: the running maximum of their last
blocks. -/
def watermarkAfter (w : Nat) (ranges : List (Nat × Nat)) : Nat :=
  ranges.foldl (fun w r => max w r.2) w

/-- The position of the first file that starts past the block after the watermark of the files
before it, if there is one. -/
def firstGap (w : Nat) : List (Nat × Nat) → Option Nat
  | [] => none
  | (a, b) :: ranges => if w + 1 < a then some 0 else (firstGap (max w b) ranges).map (· + 1)

/-- Block `n` lies in the range of a file whose batch `calls` wrote. -/
def Covered (calls : List InjectorCall) (n : Nat) : Prop :=
  ∃ f rs a b, InjectorCall.writeBatch f rs ∈ calls ∧ parseFileName f = .ok (a, b) ∧ a ≤ n ∧ n ≤ b

theorem map_parseFileName_cons {f : String} {fs : List String} {ranges : List (Nat × Nat)}
    (hp : (f :: fs).map parseFileName = ranges.map .ok) :
    ∃ r rs, ranges = r :: rs ∧ parseFileName f = .ok r ∧ fs.map parseFileName = rs.map .ok := by
  obtain ⟨r, rs, rfl, hr, hrs⟩ := List.map_eq_cons_iff.1 hp.symm
  exact ⟨r, rs, rfl, hr.symm, hrs.symm⟩

section Ranges

variable (inj : ShardInjector) (sa : BlockRef)

/-- The callback on a name that parses, seen from the watermark: a gap, an injection that fails,
or a step to the larger of the watermark and the file's last block. -/
theorem onFile_parsed (st : InjectorState) {f : String} {a b : Nat}
    (hp : parseFileName f = .ok (a, b)) :
    (st.startAfterNum + 1) % 2 ^ 64 < a ∧ inj.onFile sa st f = (st, some (gapError f a sa)) ∨
    a ≤ st.startAfterNum + 1 ∧
      ((∃ st' e, inj.onFile sa st f = (st', some e) ∧ IsInjectError e) ∨
       ∃ st', inj.onFile sa st f = (st', none) ∧ st'.startAfterNum = max st.startAfterNum b) := by
  rcases onFile_cases inj sa st f with ⟨e, hpe, -⟩ | ⟨a', b', hp', hc⟩
  · rw [hp] at hpe; cases hpe
  obtain ⟨h1, h2⟩ := Prod.mk.inj (Except.ok.inj (hp.symm.trans hp'))
  subst h1 h2
  rcases hc with hg | ⟨ha, hb, he⟩ | ⟨ha, -, he⟩
  · exact .inl hg
  · exact .inr ⟨ha, .inr ⟨st, he, (max_eq_left hb).symm⟩⟩
  · refine .inr ⟨ha, ?_⟩
    rcases hi : inj.inject st f b with ⟨st', _ | e⟩ <;> rw [hi] at he
    · exact .inr ⟨st', he, onFile_ok_startAfterNum inj sa st f he hp⟩
    · exact .inl ⟨st', e, he, (inject_error inj st f hi).1⟩

/-- The watermark after a walk that goes through is the running maximum of the last blocks. -/
theorem walkFiles_startAfterNum {fs : List String} {ranges : List (Nat × Nat)}
    {st st' : InjectorState} (hp : fs.map parseFileName = ranges.map .ok)
    (h : walkFiles (inj.onFile sa) st fs = (st', none)) :
    st'.startAfterNum = watermarkAfter st.startAfterNum ranges := by
  induction fs generalizing st ranges with
  | nil =>
    cases h
    cases ranges with
    | nil => rfl
    | cons => cases hp
  | cons f fs ih =>
    obtain ⟨⟨a, b⟩, rs, rfl, hpf, hp⟩ := map_parseFileName_cons hp
    rcases hs : inj.onFile sa st f with ⟨s, _ | e⟩
    · rw [walkFiles_cons_ok _ fs hs] at h
      rw [ih hp h, onFile_ok_startAfterNum inj sa st f hs hpf]; rfl
    · rw [walkFiles_cons_error _ fs hs] at h; cases h

/-- The gap check of a walk: with no hole, no gap error; with the first hole at file `j`, either a
file before it fails to inject, or the walk stops there with the gap error naming file `j`. -/
theorem walkFiles_gap (st : InjectorState) {fs : List String} {ranges : List (Nat × Nat)}
    (hp : fs.map parseFileName = ranges.map .ok) (hw : st.startAfterNum < 2 ^ 64 - 1) :
    (firstGap st.startAfterNum ranges = none →
      ∀ f a, (walkFiles (inj.onFile sa) st fs).2 ≠ some (gapError f a sa)) ∧
    ∀ j, firstGap st.startAfterNum ranges = some j →
      (∃ e, IsInjectError e ∧ (walkFiles (inj.onFile sa) st (fs.take j)).2 = some e) ∨
      ∃ f a b, fs[j]? = some f ∧ ranges[j]? = some (a, b) ∧
        (walkFiles (inj.onFile sa) st fs).2 = some (gapError f a sa) := by
  induction fs generalizing st ranges with
  | nil =>
    cases ranges with
    | nil => exact ⟨fun _ _ _ => nofun, fun _ => nofun⟩
    | cons => cases hp
  | cons f fs ih =>
    obtain ⟨⟨a, b⟩, rs, rfl, hpf, hp⟩ := map_parseFileName_cons hp
    have hb := (parseFileName_le hpf).2
    rcases onFile_parsed inj sa st hpf with ⟨hg, he⟩ | ⟨ha, ⟨st', e, he, hie⟩ | ⟨st', he, hst'⟩⟩
    · -- the hole is at this file
      have hgap : st.startAfterNum + 1 < a := by rwa [Nat.mod_eq_of_lt (by omega)] at hg
      simp only [firstGap, if_pos hgap]
      refine ⟨nofun, ?_⟩
      rintro j ⟨⟩
      exact .inr ⟨f, a, b, List.getElem?_cons_zero, List.getElem?_cons_zero,
        by rw [walkFiles_cons_error _ fs he]⟩
    · -- this file fails to inject
      simp only [firstGap, if_neg (show ¬st.startAfterNum + 1 < a by omega)]
      rw [walkFiles_cons_error _ fs he]
      refine ⟨fun _ f' a' h => hie.ne_gapError f' a' sa (Option.some.inj h), fun j hj => ?_⟩
      obtain ⟨j, -, rfl⟩ := Option.map_eq_some'.1 hj
      exact .inl ⟨e, hie, by rw [List.take_succ_cons, walkFiles_cons_error _ _ he]⟩
    · -- this file goes through, and the walk goes on from the larger watermark
      simp only [firstGap, if_neg (show ¬st.startAfterNum + 1 < a by omega)]
      rw [walkFiles_cons_ok _ fs he]
      have ih' := ih st' hp (by rw [hst']; unfold maxUint32 at hb; omega)
      rw [hst'] at ih'
      refine ⟨fun hn => ih'.1 (Option.map_eq_none'.1 hn), fun j hj => ?_⟩
      obtain ⟨k, hk, rfl⟩ := Option.map_eq_some'.1 hj
      rw [List.take_succ_cons, walkFiles_cons_ok _ _ he, List.getElem?_cons_succ,
        List.getElem?_cons_succ]
      exact ih'.2 k hk

/-- A walk that goes through keeps every block above `w`, up to its watermark, covered. -/
theorem walkFiles_covers (w : Nat) {fs : List String} {st st' : InjectorState}
    (h : walkFiles (inj.onFile sa) st fs = (st', none))
    (hI : ∀ n, w < n → n ≤ st.startAfterNum → Covered st.calls n) :
    ∀ n, w < n → n ≤ st'.startAfterNum → Covered st'.calls n := by
  refine walkFiles_ok_induction _ (fun st => ∀ n, w < n → n ≤ st.startAfterNum → Covered st.calls n)
    (fun st f st' _ hI hs => ?_) hI h
  obtain ⟨a, b, hp, ha, ⟨-, rfl⟩ | ⟨-, c, rs, -, -, rfl⟩⟩ := onFile_ok inj sa st f hs
  · exact hI
  · intro n hn hnb
    by_cases hn' : n ≤ st.startAfterNum
    · obtain ⟨g, rs', a', b', hm, hg⟩ := hI n hn hn'
      exact ⟨g, rs', a', b', List.mem_append_left _ hm, hg⟩
    · exact ⟨f, rs, a, b, by simp, hp, by omega, hnb⟩

end Ranges

/-- **The watermark, the gap check and coverage over a whole run.**  Take a run from a store at a
block below `2 ^ 64 - 1`, over names that parse to `ranges`.  When its first `i` files go
through, its watermark is the running maximum of their last blocks, and the run goes on from
there over the rest of the files.  It stops with the gap error
at the first file that leaves a hole, unless a file before that one fails to open, decode or be
written, and it never raises the gap error if no file leaves one.  When it returns `nil`, every
block above the starting watermark, up to the last block of all the files, lies in the range of
a file it wrote. -/
theorem run_watermark_gap_coverage (inj : ShardInjector) (sa : BlockRef)
    (ranges : List (Nat × Nat)) (hl : inj.lastWrittenBlock = .ok sa) (hw : sa.num < 2 ^ 64 - 1)
    (hp : inj.walk.map parseFileName = ranges.map .ok) :
    (∀ i st, walkFiles (inj.onFile sa) (.start sa) (inj.walk.take i) = (st, none) →
      st.startAfterNum = watermarkAfter sa.num (ranges.take i) ∧
      walkFiles (inj.onFile sa) (.start sa) inj.walk = walkFiles (inj.onFile sa) st (inj.walk.drop i)) ∧
    (∀ j, firstGap sa.num ranges = some j →
      (∃ e, IsInjectError e ∧ (walkFiles (inj.onFile sa) (.start sa) (inj.walk.take j)).2 = some e ∧
        inj.run.1 = .error (walkError e)) ∨
      ∃ f a b, inj.walk[j]? = some f ∧ ranges[j]? = some (a, b) ∧
        inj.run.1 = .error (walkError (gapError f a sa))) ∧
    (firstGap sa.num ranges = none → ∀ f a, inj.run.1 ≠ .error (walkError (gapError f a sa))) ∧
    (inj.run.1 = .ok () →
      ∀ n, sa.num < n → n ≤ watermarkAfter sa.num ranges → Covered inj.run.2 n) := by
  obtain ⟨hnone, hsome⟩ := walkFiles_gap inj sa (.start sa) hp hw
  rw [run_eq hl]
  refine ⟨fun i st h => ⟨walkFiles_startAfterNum inj sa (by rw [List.map_take, hp, List.map_take]) h,
    by rw [← walkFiles_append_ok _ _ h, List.take_append_drop]⟩,
    fun j hj => ?_, fun hn f a h => ?_, fun hok n hn hnw => ?_⟩
  · rcases hsome j hj with ⟨e, hie, he⟩ | ⟨f, a, b, hf, hab, he⟩
    · -- the walk stops in its first `j` files, and so stops there as a whole
      obtain ⟨st, hst⟩ : ∃ st, walkFiles (inj.onFile sa) (.start sa) (inj.walk.take j) = (st, some e) :=
        ⟨_, Prod.ext rfl he⟩
      have hall := walkFiles_append_error _ (inj.walk.drop j) hst
      rw [List.take_append_drop] at hall
      exact .inl ⟨e, hie, he, by rw [hall]; rfl⟩
    · exact .inr ⟨f, a, b, hf, hab, by rw [he]; rfl⟩
  · rcases hW : walkFiles (inj.onFile sa) (.start sa) inj.walk with ⟨st, _ | e⟩ <;> rw [hW] at h
    · cases h
    · cases h
      exact hnone hn f a (by rw [hW])
  · rcases hW : walkFiles (inj.onFile sa) (.start sa) inj.walk with ⟨st, _ | e⟩ <;> rw [hW] at hok
    · refine walkFiles_covers inj sa sa.num hW (fun n h1 h2 => absurd h1 (by
        simp only [InjectorState.start] at h2; omega)) n hn ?_
      rw [walkFiles_startAfterNum inj sa hp hW]; exact hnw
    · cases hok

/-- A store at block 0 and one shard file, `1-2`, holding blocks 1 and 2. -/
def sampleInjector : ShardInjector :=
  ⟨.ok ⟨[], 0⟩, ["1-2"], fun _ => .ok (encodeRequests [⟨1, []⟩, ⟨2, []⟩]), fun _ _ => .ok ()⟩

/-- The state after the sample file: watermark at its last block, the file opened and written. -/
def sampleInjectorAfter : InjectorState :=
  ⟨2, [.openObject "1-2", .writeBatch "1-2" [⟨1, []⟩, ⟨2, []⟩]]⟩

/-- The sample file goes through whole. -/
theorem sampleInjector_onFile :
    sampleInjector.onFile ⟨[], 0⟩ (.start ⟨[], 0⟩) "1-2" = (sampleInjectorAfter, none) :=
  onFile_write sampleInjector ⟨[], 0⟩ (.start ⟨[], 0⟩) "1-2" (rfl : parseFileName "1-2" = .ok (1, 2))
    (by decide) (by decide) (by decide) rfl
    (readWriteRequestsForBatch_of_ok (readWriteRequests_encode _) _) rfl

/-- The sample run writes its one file whole. -/
theorem sampleInjector_run : sampleInjector.run = (.ok (), sampleInjectorAfter.calls) := by
  rw [run_eq rfl, show sampleInjector.walk = ["1-2"] from rfl,
    walkFiles_cons_ok _ _ sampleInjector_onFile]
  rfl

theorem run_watermark_gap_coverage_sample :
    sampleInjector.lastWrittenBlock = .ok ⟨[], 0⟩ ∧ (0 : Nat) < 2 ^ 64 - 1 ∧
    sampleInjector.walk.map parseFileName = [(1, 2)].map .ok ∧
    (∀ i st, walkFiles (sampleInjector.onFile ⟨[], 0⟩) (.start ⟨[], 0⟩) (sampleInjector.walk.take i) =
        (st, none) → st.startAfterNum = watermarkAfter 0 ([(1, 2)].take i) ∧
        walkFiles (sampleInjector.onFile ⟨[], 0⟩) (.start ⟨[], 0⟩) sampleInjector.walk =
          walkFiles (sampleInjector.onFile ⟨[], 0⟩) st (sampleInjector.walk.drop i)) ∧
    (∀ j, firstGap 0 [(1, 2)] = some j →
      (∃ e, IsInjectError e ∧
        (walkFiles (sampleInjector.onFile ⟨[], 0⟩) (.start ⟨[], 0⟩) (sampleInjector.walk.take j)).2 =
          some e ∧ sampleInjector.run.1 = .error (walkError e)) ∨
      ∃ f a b, sampleInjector.walk[j]? = some f ∧ [(1, 2)][j]? = some (a, b) ∧
        sampleInjector.run.1 = .error (walkError (gapError f a ⟨[], 0⟩))) ∧
    (firstGap 0 [(1, 2)] = none →
      ∀ f a, sampleInjector.run.1 ≠ .error (walkError (gapError f a ⟨[], 0⟩))) ∧
    (sampleInjector.run.1 = .ok () →
      ∀ n, 0 < n → n ≤ watermarkAfter 0 [(1, 2)] → Covered sampleInjector.run.2 n) :=
  ⟨rfl, by decide, rfl, run_watermark_gap_coverage sampleInjector ⟨[], 0⟩ [(1, 2)] rfl (by decide) rfl⟩

/-! ## Batches

Each batch holds requests above the watermark the file was read at, and a file that goes through
moves the watermark to its last block.  So if a file's requests lie at or below its last block,
the next batch is above all of this one: batches ascend, however the ranges overlap, and whatever
fails.
-/

/-- The batches of a run: all above the starting watermark `w`, each above every earlier one. -/
def BatchesAscend (w : Nat) (bs : List (List WriteRequest)) : Prop :=
  (∀ rs ∈ bs, ∀ r ∈ rs, w < r.height) ∧
    bs.Pairwise fun rs rs' => ∀ r ∈ rs, ∀ r' ∈ rs', r.height < r'.height

/-- Every request file `f` decodes to is at or below the file's last block. -/
def ShardInjector.WithinLast (inj : ShardInjector) (f : String) : Prop :=
  ∀ a b c rs, parseFileName f = .ok (a, b) → inj.openObject f = .ok c →
    readWriteRequests c = .ok rs → ∀ r ∈ rs, r.height ≤ b

/-- What the walk keeps from one file to the next: the batches ascend from `w`, none goes past
the watermark, and the watermark is at least `w`. -/
structure BatchInv (w : Nat) (st : InjectorState) : Prop where
  ascend : BatchesAscend w (batches st.calls)
  le_watermark : ∀ rs ∈ batches st.calls, ∀ r ∈ rs, r.height ≤ st.startAfterNum
  start_le : w ≤ st.startAfterNum

theorem BatchInv.start (sa : BlockRef) : BatchInv sa.num (.start sa) :=
  ⟨⟨nofun, .nil⟩, nofun, le_refl _⟩

section Batches

variable {inj : ShardInjector} {sa : BlockRef} {w : Nat} {st st' : InjectorState} {f : String}

/-- A batch above the watermark keeps the batches ascending. -/
theorem BatchInv.ascend_push (hI : BatchInv w st) {rs : List WriteRequest}
    (hrs : ∀ r ∈ rs, st.startAfterNum < r.height) : BatchesAscend w (batches st.calls ++ [rs]) := by
  refine ⟨fun rs' hm r hr => ?_, List.pairwise_append.2 ⟨hI.ascend.2, List.pairwise_singleton _ _,
    fun rs' hm rs'' hm' r hr r' hr' => ?_⟩⟩
  · rcases List.mem_append.1 hm with hm | hm
    · exact hI.ascend.1 rs' hm r hr
    · rw [List.mem_singleton] at hm; subst hm
      exact lt_of_le_of_lt hI.start_le (hrs r hr)
  · rw [List.mem_singleton] at hm'; subst hm'
    exact lt_of_le_of_lt (hI.le_watermark rs' hm r hr) (hrs r' hr')

/-- A file that goes through keeps the invariant, if its requests lie at or below its last
block. -/
theorem BatchInv.onFile (hf : inj.WithinLast f) (hI : BatchInv w st)
    (h : inj.onFile sa st f = (st', none)) : BatchInv w st' := by
  obtain ⟨a, b, hp, -, ⟨-, rfl⟩ | ⟨hb, c, rs, hc, hr, rfl⟩⟩ := onFile_ok inj sa st f h
  · exact hI
  obtain ⟨all, hall, rfl⟩ := readWriteRequestsForBatch_ok hr
  have hrs : ∀ r ∈ all.filter (fun r => st.startAfterNum < r.height),
      st.startAfterNum < r.height ∧ r.height ≤ b := fun r hr => by
    rw [List.mem_filter, decide_eq_true_iff] at hr
    exact ⟨hr.2, hf a b c all hp hc hall r hr.1⟩
  refine ⟨by simpa using hI.ascend_push fun r hr => (hrs r hr).1, fun rs hm r hr => ?_,
    hI.start_le.trans hb.le⟩
  simp only [batches_append, batches_writeBatch, List.mem_append, List.mem_singleton] at hm
  rcases hm with hm | rfl
  · exact (hI.le_watermark rs hm r hr).trans hb.le
  · exact (hrs r hr).2

/-- A file that fails leaves the batches ascending: the batch it may have written is above the
watermark. -/
theorem BatchInv.onFile_error {e : GoError} (hI : BatchInv w st)
    (h : inj.onFile sa st f = (st', some e)) : BatchesAscend w (batches st'.calls) := by
  rcases onFile_cases inj sa st f with ⟨e', -, he⟩ | ⟨a, b, -, ⟨-, he⟩ | ⟨-, -, he⟩ | ⟨-, -, he⟩⟩ <;>
    rw [he] at h
  · cases h; exact hI.ascend
  · cases h; exact hI.ascend
  · cases h
  rcases inject_cases inj st f b with ⟨e', he'⟩ | ⟨e', he'⟩ | ⟨c, rs, e', -, hr, he'⟩ | ⟨c, rs, -, -, he'⟩ <;>
    rw [he'] at h <;> cases h
  · simpa using hI.ascend
  · simpa using hI.ascend
  · obtain ⟨all, -, rfl⟩ := readWriteRequestsForBatch_ok hr
    simpa using hI.ascend_push fun r hr => by simpa using (List.mem_filter.1 hr).2

end Batches

/-- **Batches ascend.**  In any run from a store at block `W0`, over files whose requests lie at or
below their last blocks, every request written is above `W0`, and above every request of every
earlier batch.  The ranges may overlap, repeat or come in any order, and files may fail: no
block's writes are applied twice in one run. -/
theorem run_batches_ascend (inj : ShardInjector) (sa : BlockRef)
    (hl : inj.lastWrittenBlock = .ok sa) (hf : ∀ f ∈ inj.walk, inj.WithinLast f) :
    BatchesAscend sa.num (batches inj.run.2) := by
  rw [run_eq hl]
  exact walkFiles_induction _ (BatchInv sa.num) (fun st => BatchesAscend sa.num (batches st.calls))
    (fun _ hI => hI.ascend) (fun _ f _ hm hI h => hI.onFile (hf f hm) h)
    (fun _ _ _ _ _ hI h => hI.onFile_error h) (BatchInv.start sa)

/-- The sample file's requests lie within its range. -/
theorem sampleInjector_withinLast : ∀ f ∈ sampleInjector.walk, sampleInjector.WithinLast f := by
  intro f hf a b c rs hp hc hr r hrs
  rw [List.mem_singleton.1 hf] at hp
  cases hp.symm.trans (rfl : parseFileName "1-2" = .ok (1, 2))
  cases hc
  rw [readWriteRequests_encode] at hr
  cases hr
  rcases List.mem_pair.1 hrs with rfl | rfl <;> decide

theorem run_batches_ascend_sample :
    sampleInjector.lastWrittenBlock = .ok ⟨[], 0⟩ ∧
      (∀ f ∈ sampleInjector.walk, sampleInjector.WithinLast f) ∧
      BatchesAscend 0 (batches sampleInjector.run.2) :=
  ⟨rfl, sampleInjector_withinLast,
    run_batches_ascend sampleInjector ⟨[], 0⟩ rfl sampleInjector_withinLast⟩

/-! ## A file that fails

A file that fails before its batch is written (its name does not parse, it leaves a gap, it
cannot be opened, or its content does not decode) stops the run having written nothing of it:
the decoder reads a file whole or not at all, and the walk goes no further.
-/

/-- **A failing file leaves the writes of the files before it.**  Suppose a run gets through its
first `i` files and fails on file `i` for one of these reasons: the name does not parse, the file
starts past the block after the watermark, it cannot be opened, or its content does not decode.
Then `Run` returns that error, and the calls it made are those of a run over the first `i` files
alone, which succeeds, followed at most by opening file `i`: none of its requests is written, and
no later file is opened. -/
theorem run_stops_at_failed_file (inj : ShardInjector) (sa : BlockRef)
    (hl : inj.lastWrittenBlock = .ok sa) (i : Nat) (f : String) (hf : inj.walk[i]? = some f)
    (st st' : InjectorState) (e : GoError)
    (hpre : walkFiles (inj.onFile sa) (.start sa) (inj.walk.take i) = (st, none))
    (hfail : inj.onFile sa st f = (st', some e))
    (hwhy : parseFileName f = .error e ∨ (∃ a, e = gapError f a sa) ∨ (∃ c, e = openError f c) ∨
      ∃ c, e = readError f c) :
    inj.run.1 = .error (walkError e) ∧
    ({ inj with walk := inj.walk.take i } : ShardInjector).run.1 = .ok () ∧
    (inj.run.2 = ({ inj with walk := inj.walk.take i } : ShardInjector).run.2 ∨
      inj.run.2 = ({ inj with walk := inj.walk.take i } : ShardInjector).run.2 ++ [.openObject f]) := by
  obtain ⟨hi, rfl⟩ := List.getElem?_eq_some_iff.1 hf
  have hwalk : walkFiles (inj.onFile sa) (.start sa) inj.walk = (st', some e) := by
    rw [← List.take_append_drop i inj.walk, List.drop_eq_getElem_cons hi,
      walkFiles_append_ok _ _ hpre, walkFiles_cons_error _ _ hfail]
  have hpre' : walkFiles (({ inj with walk := inj.walk.take i } : ShardInjector).onFile sa)
      (.start sa) ({ inj with walk := inj.walk.take i } : ShardInjector).walk = (st, none) := hpre
  rw [run_eq hl, run_eq (show ({ inj with walk := inj.walk.take i } : ShardInjector).lastWrittenBlock
    = .ok sa from hl), hwalk, hpre']
  refine ⟨rfl, rfl, ?_⟩
  rcases onFile_error inj sa st _ hfail with hcalls | ⟨a, b, c, hp, rfl⟩
  · exact hcalls
  -- the database refusing the batch is not among the reasons
  rcases hwhy with h | ⟨_, h⟩ | ⟨_, h⟩ | ⟨_, h⟩
  · cases hp.symm.trans h
  · cases h
  · exact absurd (GoError.wrap.inj h).1 (by decide)
  · exact absurd (GoError.wrap.inj h).1 (by decide)

/-- The sample store with a second file, `5-6`, that leaves blocks 3 and 4 out. -/
def gapInjector : ShardInjector := { sampleInjector with walk := ["1-2", "5-6"] }

theorem run_stops_at_failed_file_gap :
    gapInjector.lastWrittenBlock = .ok ⟨[], 0⟩ ∧ gapInjector.walk[1]? = some "5-6" ∧
    walkFiles (gapInjector.onFile ⟨[], 0⟩) (.start ⟨[], 0⟩) (gapInjector.walk.take 1) =
      (sampleInjectorAfter, none) ∧
    gapInjector.onFile ⟨[], 0⟩ sampleInjectorAfter "5-6" =
      (sampleInjectorAfter, some (gapError "5-6" 5 ⟨[], 0⟩)) ∧
    gapInjector.run.1 = .error (walkError (gapError "5-6" 5 ⟨[], 0⟩)) ∧
    ({ gapInjector with walk := gapInjector.walk.take 1 } : ShardInjector).run.1 = .ok () ∧
    (gapInjector.run.2 = ({ gapInjector with walk := gapInjector.walk.take 1 } : ShardInjector).run.2 ∨
      gapInjector.run.2 =
        ({ gapInjector with walk := gapInjector.walk.take 1 } : ShardInjector).run.2 ++
          [.openObject "5-6"]) := by
  have hpre : walkFiles (gapInjector.onFile ⟨[], 0⟩) (.start ⟨[], 0⟩) (gapInjector.walk.take 1) =
      (sampleInjectorAfter, none) := walkFiles_cons_ok _ _ sampleInjector_onFile
  have hfail : gapInjector.onFile ⟨[], 0⟩ sampleInjectorAfter "5-6" =
      (sampleInjectorAfter, some (gapError "5-6" 5 ⟨[], 0⟩)) := by
    rw [onFile_of_parse _ _ _ _ (rfl : parseFileName "5-6" = .ok (5, 6)), if_pos (by decide)]
    rfl
  exact ⟨rfl, rfl, hpre, hfail, run_stops_at_failed_file gapInjector ⟨[], 0⟩ rfl 1 "5-6" rfl _ _ _
    hpre hfail (.inr (.inl ⟨5, rfl⟩))⟩

end FluxDB
