import FluxDB.Shard.Injector
import Mathlib.Data.List.Chain
import Mathlib.Data.List.Sort

/-!
# Replaying shards

What the injector is for.  The sharder cuts the blocks into files of consecutive ranges, each
holding the write requests of its blocks; the injector, run over the files, must write exactly
what ingesting the blocks directly would have written, and a run restarted from a later
watermark must write exactly what the first run would still have written.

* `run_replays_shards`: over a complete set of consecutive, padded files, listed lexically as
  `Walk` lists them, `Run` returns `nil` and writes, in order, every request above the store's
  watermark, which is what direct ingestion of the blocks after it writes (`directIngest`).
  Lexical order is block order here because the names share one width (`shardFileName_lt`).
* `run_resume`: a run that went through from `W0` goes through from any later `W'`, and writes
  what it wrote above `W'`.  The two walks are run side by side (`ResumeInv`): the second one's
  watermark is always the larger of `W'` and the first one's.
-/

set_option autoImplicit false

namespace FluxDB

/-! ## Complete shard sets -/

/-- A shard file as the sharder writes it: its inclusive block range and its requests. -/
structure ShardFile where
  first : Nat
  last : Nat
  requests : List WriteRequest
  deriving DecidableEq, Repr

/-- The file's name, in width `w`. -/
def ShardFile.name (w : Nat) (file : ShardFile) : String := shardFileName w file.first file.last

/-- A file as the sharder writes it in width `w`: both ends written in `w` digits and in 32 bits,
a range that is not empty, and every request inside the range. -/
structure ShardFile.WellFormed (w : Nat) (file : ShardFile) : Prop where
  first_fits : FitsWidth w file.first
  last_fits : FitsWidth w file.last
  last_le : file.last ≤ maxUint32
  first_le_last : file.first ≤ file.last
  heights : ∀ r ∈ file.requests, file.first ≤ r.height ∧ r.height ≤ file.last

/-- Consecutive ranges: each file starts at the block after the previous one's last. -/
def Consecutive (files : List ShardFile) : Prop :=
  files.Chain' fun f g => g.first = f.last + 1

/-- Direct, unsharded ingestion of the blocks after `w`: every request above `w`, in block
order. -/
def directIngest (w : Nat) (files : List ShardFile) : List WriteRequest :=
  (files.flatMap ShardFile.requests).filter fun r => w < r.height

theorem directIngest_cons (w : Nat) (f : ShardFile) (fs : List ShardFile) :
    directIngest w (f :: fs) = f.requests.filter (fun r => w < r.height) ++ directIngest w fs := by
  simp only [directIngest, List.flatMap_cons, List.filter_append]

/-- Below the lowest request, the watermark does not matter. -/
theorem directIngest_of_lt {w w' : Nat} {files : List ShardFile} (hw : w ≤ w')
    (h : ∀ r ∈ files.flatMap ShardFile.requests, w' < r.height) :
    directIngest w files = directIngest w' files := by
  unfold directIngest
  rw [List.filter_eq_self.2 fun r hr => by simpa using hw.trans_lt (h r hr),
    List.filter_eq_self.2 fun r hr => by simpa using h r hr]

/-- Each file of a consecutive set ends before every later one starts. -/
theorem Consecutive.pairwise {files : List ShardFile} (hc : Consecutive files)
    (hle : ∀ file ∈ files, file.first ≤ file.last) :
    files.Pairwise fun f g => f.last < g.first := by
  induction files with
  | nil => exact .nil
  | cons f fs ih =>
    have ih' := ih hc.tail fun g hg => hle g (List.mem_cons_of_mem f hg)
    refine List.pairwise_cons.2 ⟨fun g hg => ?_, ih'⟩
    cases fs with
    | nil => cases hg
    | cons g' gs =>
      have h1 : g'.first = f.last + 1 := (List.chain'_cons.1 hc).1
      rcases List.mem_cons.1 hg with rfl | hg
      · omega
      · have := List.rel_of_pairwise_cons ih' hg
        have := hle g' (List.mem_cons_of_mem f (List.mem_cons_self g' gs))
        omega

/-- The names of a consecutive set sort as the files come. -/
theorem names_sorted {w : Nat} {files : List ShardFile}
    (hwf : ∀ file ∈ files, file.WellFormed w) (hc : Consecutive files) :
    (files.map (ShardFile.name w)).Sorted (· < ·) :=
  List.pairwise_map.2 <| (hc.pairwise fun f hf => (hwf f hf).first_le_last).imp_of_mem
    fun hf hg hlt => shardFileName_lt (lt_of_le_of_lt (hwf _ hf).first_le_last hlt)
      (hwf _ hg).first_fits.2 _ _

section Replay

variable (inj : ShardInjector) (sa : BlockRef) (w : Nat)

/-- The walk over a consecutive set, from a watermark no lower than the block before the first
file: it goes through, and writes the requests above the watermark. -/
theorem walkFiles_replay {files : List ShardFile} (st : InjectorState)
    (hwf : ∀ file ∈ files, file.WellFormed w) (hc : Consecutive files)
    (hstart : ∀ file ∈ files.head?, file.first ≤ st.startAfterNum + 1)
    (hw : st.startAfterNum < 2 ^ 64 - 1)
    (hopen : ∀ file ∈ files, inj.openObject (file.name w) = .ok (encodeRequests file.requests))
    (hwrite : ∀ n rs, inj.writeBatch n rs = .ok ()) :
    ∃ st', walkFiles (inj.onFile sa) st (files.map (ShardFile.name w)) = (st', none) ∧
      (batches st'.calls).flatten = (batches st.calls).flatten ++ directIngest st.startAfterNum files := by
  induction files generalizing st with
  | nil => exact ⟨st, rfl, by simp [directIngest]⟩
  | cons f fs ih =>
    have hf := hwf f (List.mem_cons_self f fs)
    have hp : parseFileName (f.name w) = .ok (f.first, f.last) :=
      parseFileName_name hf.first_fits hf.last_fits (hf.first_le_last.trans hf.last_le) hf.last_le
    have ha : f.first ≤ st.startAfterNum + 1 := hstart f rfl
    have hnext : ∀ g ∈ fs.head?, g.first ≤ f.last + 1 := by
      cases fs with
      | nil => exact nofun
      | cons g gs => rintro _ ⟨⟩; exact (List.chain'_cons.1 hc).1.le
    have habove : ∀ r ∈ fs.flatMap ShardFile.requests, f.last < r.height := by
      intro r hr
      obtain ⟨g, hg, hrg⟩ := List.mem_flatMap.1 hr
      have hfg := List.rel_of_pairwise_cons
        (hc.pairwise fun g hg => (hwf g hg).first_le_last) hg
      exact lt_of_lt_of_le hfg ((hwf g (List.mem_cons_of_mem f hg)).heights r hrg).1
    have hwf' := fun g hg => hwf g (List.mem_cons_of_mem f hg)
    have hopen' := fun g hg => hopen g (List.mem_cons_of_mem f hg)
    rw [List.map_cons]
    by_cases hb : f.last ≤ st.startAfterNum
    · -- the file is below the watermark and skipped
      obtain ⟨st', hW, hB⟩ := ih st hwf' hc.tail (fun g hg => (hnext g hg).trans (by omega)) hw hopen'
      refine ⟨st', by rw [walkFiles_cons_ok _ _ (onFile_skip inj sa st _ hp hw ha hb), hW], ?_⟩
      rw [hB, directIngest_cons, List.filter_eq_nil_iff.2 fun r hr => by
        simpa using ((hf.heights r hr).2.trans hb), List.nil_append]
    · -- the file is read above the watermark, written, and the walk goes on from its last block
      have hr := readWriteRequestsForBatch_of_ok (readWriteRequests_encode f.requests) st.startAfterNum
      have hlast := hf.last_le
      unfold maxUint32 at hlast
      obtain ⟨st', hW, hB⟩ := ih ⟨f.last, st.calls ++ [.openObject (f.name w),
        .writeBatch (f.name w) (f.requests.filter fun r => st.startAfterNum < r.height)]⟩
        hwf' hc.tail hnext (by dsimp only; omega) hopen'
      refine ⟨st', by rw [walkFiles_cons_ok _ _ (onFile_write inj sa st _ hp hw ha (by omega)
        (hopen f (List.mem_cons_self f fs)) hr (hwrite _ _)), hW], ?_⟩
      rw [hB, directIngest_cons, directIngest_of_lt (show st.startAfterNum ≤ f.last by omega) habove]
      simp

end Replay

/-- **Replaying a complete shard set is direct ingestion.**  Take files of one width `w`, with
consecutive ranges of blocks below `2 ^ 32`, the first starting no later than the block after the
store's watermark `W0 < 2 ^ 64 - 1`, each holding the encoded requests of its range.  If `Walk`
lists their names in lexical order and no `WriteBatch` fails, `Run` returns `nil` and writes, in
order, every request above `W0`: what ingesting the blocks after `W0` directly writes. -/
theorem run_replays_shards (inj : ShardInjector) (sa : BlockRef) (w : Nat)
    (files : List ShardFile) (hl : inj.lastWrittenBlock = .ok sa) (hw : sa.num < 2 ^ 64 - 1)
    (hwf : ∀ file ∈ files, file.WellFormed w) (hc : Consecutive files)
    (hstart : ∀ file ∈ files.head?, file.first ≤ sa.num + 1)
    (hperm : inj.walk.Perm (files.map (ShardFile.name w))) (hsorted : inj.walk.Sorted (· < ·))
    (hopen : ∀ file ∈ files, inj.openObject (file.name w) = .ok (encodeRequests file.requests))
    (hwrite : ∀ n rs, inj.writeBatch n rs = .ok ()) :
    inj.run.1 = .ok () ∧ (batches inj.run.2).flatten = directIngest sa.num files := by
  have hwalk : inj.walk = files.map (ShardFile.name w) :=
    List.eq_of_perm_of_sorted hperm hsorted (names_sorted hwf hc)
  obtain ⟨st, hW, hB⟩ := walkFiles_replay inj sa w (.start sa) hwf hc hstart hw hopen hwrite
  rw [run_eq hl, hwalk, hW]
  exact ⟨rfl, hB⟩

/-- Two one-block files, `1-1` and `2-2`. -/
def sampleFiles : List ShardFile := [⟨1, 1, [⟨1, []⟩]⟩, ⟨2, 2, [⟨2, []⟩]⟩]

/-- An empty store over the shards store holding `sampleFiles`. -/
def sampleShardStore : ShardInjector :=
  ⟨.ok ⟨[], 0⟩, ["1-1", "2-2"],
    fun n => .ok (encodeRequests (if n = "1-1" then [⟨1, []⟩] else [⟨2, []⟩])), fun _ _ => .ok ()⟩

theorem sampleFiles_wellFormed : ∀ file ∈ sampleFiles, file.WellFormed 1 := by
  intro file hf
  rcases List.mem_pair.1 hf with rfl | rfl <;>
    exact ⟨⟨by decide, by decide⟩, ⟨by decide, by decide⟩, by decide, le_refl _, by simp⟩

theorem run_replays_shards_sample :
    sampleShardStore.lastWrittenBlock = .ok ⟨[], 0⟩ ∧ (0 : Nat) < 2 ^ 64 - 1 ∧
    (∀ file ∈ sampleFiles, file.WellFormed 1) ∧ Consecutive sampleFiles ∧
    (∀ file ∈ sampleFiles.head?, file.first ≤ 0 + 1) ∧
    sampleShardStore.walk.Perm (sampleFiles.map (ShardFile.name 1)) ∧
    sampleShardStore.walk.Sorted (· < ·) ∧
    (∀ file ∈ sampleFiles,
      sampleShardStore.openObject (file.name 1) = .ok (encodeRequests file.requests)) ∧
    (∀ n rs, sampleShardStore.writeBatch n rs = .ok ()) ∧
    sampleShardStore.run.1 = .ok () ∧
    (batches sampleShardStore.run.2).flatten = directIngest 0 sampleFiles := by
  have hc : Consecutive sampleFiles := List.chain'_pair.2 rfl
  have hstart : ∀ file ∈ sampleFiles.head?, file.first ≤ 0 + 1 := by
    rintro _ ⟨⟩; decide
  have hsorted : sampleShardStore.walk.Sorted (· < ·) := names_sorted sampleFiles_wellFormed hc
  have hopen : ∀ file ∈ sampleFiles,
      sampleShardStore.openObject (file.name 1) = .ok (encodeRequests file.requests) := by
    intro file hf
    rcases List.mem_pair.1 hf with rfl | rfl <;> rfl
  exact ⟨rfl, by decide, sampleFiles_wellFormed, hc, hstart, .refl _, hsorted, hopen, fun _ _ => rfl,
    run_replays_shards sampleShardStore ⟨[], 0⟩ 1 sampleFiles rfl (by decide) sampleFiles_wellFormed
      hc hstart (.refl _) hsorted hopen fun _ _ => rfl⟩

/-! ## Restarting from a later watermark -/

/-- Two walks over the same names side by side, the second from the larger watermark `w'`: its
watermark is the larger of `w'` and the first one's, and it has written what the first one wrote
above `w'`. -/
structure ResumeInv (w' : Nat) (st0 st1 : InjectorState) : Prop where
  watermark : st1.startAfterNum = max w' st0.startAfterNum
  lt : st1.startAfterNum < 2 ^ 64 - 1
  written : (batches st1.calls).flatten = (batches st0.calls).flatten.filter fun r => w' < r.height

/-- Keeping the requests above `w`, then those above `w'`, keeps those above both. -/
theorem filter_above_filter_above (w w' : Nat) (rs : List WriteRequest) :
    (rs.filter fun r => w < r.height).filter (fun r => w' < r.height) =
      rs.filter fun r => max w' w < r.height := by
  rw [List.filter_filter]
  congr 1
  funext r
  simp [max_lt_iff]

section Resume

variable {inj inj' : ShardInjector} {sa sa' : BlockRef} {w' : Nat}

/-- A file the first walk goes through, the second goes through too, and the two stay in step.
The second walk's injector reads the same objects, and its writes never fail. -/
theorem ResumeInv.step {st0 st0' st1 : InjectorState} {f : String} (hI : ResumeInv w' st0 st1)
    (ho : inj'.openObject = inj.openObject) (hwrite : ∀ n rs, inj'.writeBatch n rs = .ok ())
    (hf : inj.WithinLast f) (h : inj.onFile sa st0 f = (st0', none)) :
    ∃ st1', inj'.onFile sa' st1 f = (st1', none) ∧ ResumeInv w' st0' st1' := by
  have hwm := hI.watermark
  have hlt := hI.lt
  obtain ⟨a, b, hp, ha, ⟨hb, rfl⟩ | ⟨hb, c, rs, hc, hr, rfl⟩⟩ := onFile_ok inj sa st0 f h
  · exact ⟨st1, onFile_skip inj' sa' st1 f hp hlt (by omega) (by omega), hI⟩
  obtain ⟨all, hall, rfl⟩ := readWriteRequestsForBatch_ok hr
  have hle : ∀ r ∈ all, r.height ≤ b := hf a b c all hp hc hall
  have hb32 := (parseFileName_le hp).2
  unfold maxUint32 at hb32
  by_cases hb1 : b ≤ st1.startAfterNum
  · -- the second walk is already past the file: what the first one writes is at or below `w'`
    refine ⟨st1, onFile_skip inj' sa' st1 f hp hlt (by omega) hb1, by dsimp only; omega, hlt, ?_⟩
    have hnil : all.filter (fun r => st1.startAfterNum < r.height) = [] :=
      List.filter_eq_nil_iff.2 fun r hr => by simpa using (hle r hr).trans hb1
    rw [hI.written, batches_append, batches_writeBatch, List.flatten_append, List.flatten_singleton,
      List.filter_append, filter_above_filter_above, ← hwm, hnil, List.append_nil]
  · -- both walks write the file, the second one above the larger watermark
    refine ⟨_, onFile_write inj' sa' st1 f hp hlt (by omega) (by omega) (ho ▸ hc)
      (readWriteRequestsForBatch_of_ok hall _) (hwrite _ _),
      by dsimp only; omega, by dsimp only; omega, ?_⟩
    simp only [batches_append, batches_writeBatch, List.flatten_append, List.filter_append,
      hI.written, filter_above_filter_above, hwm, List.flatten_singleton]

end Resume

/-- A walk the first injector goes through, the second goes through side by side. -/
theorem walkFiles_resume (inj inj' : ShardInjector) (sa sa' : BlockRef) {w' : Nat}
    (ho : inj'.openObject = inj.openObject)
    (hwrite : ∀ n rs, inj'.writeBatch n rs = .ok ()) {fs : List String}
    (hf : ∀ f ∈ fs, inj.WithinLast f) {st0 st0' st1 : InjectorState}
    (h : walkFiles (inj.onFile sa) st0 fs = (st0', none)) (hI : ResumeInv w' st0 st1) :
    ∃ st1', walkFiles (inj'.onFile sa') st1 fs = (st1', none) ∧ ResumeInv w' st0' st1' := by
  induction fs generalizing st0 st1 with
  | nil => cases h; exact ⟨st1, rfl, hI⟩
  | cons f fs ih =>
    rcases hs : inj.onFile sa st0 f with ⟨s0, _ | e⟩
    · rw [walkFiles_cons_ok _ fs hs] at h
      obtain ⟨s1, hs1, hI1⟩ := hI.step ho hwrite (hf f (List.mem_cons_self f fs)) hs
      rw [walkFiles_cons_ok _ fs hs1]
      exact ih (fun g hg => hf g (List.mem_cons_of_mem f hg)) h hI1
    · rw [walkFiles_cons_error _ fs hs] at h; cases h

/-- **Restarting from a later watermark.**  Take files whose requests lie at or below their last
blocks, and watermarks `W0 ≤ W' < 2 ^ 64 - 1`, with `WriteBatch` never failing.  If `Run` from
`W0` returns `nil`, then `Run` from `W'` returns `nil` too, and writes, in the same order, what the
first run wrote above `W'`: nothing twice, nothing skipped. -/
theorem run_resume (inj : ShardInjector) (sa sa' : BlockRef) (hl : inj.lastWrittenBlock = .ok sa)
    (hle : sa.num ≤ sa'.num) (hw : sa'.num < 2 ^ 64 - 1) (hf : ∀ f ∈ inj.walk, inj.WithinLast f)
    (hwrite : ∀ n rs, inj.writeBatch n rs = .ok ()) (hok : inj.run.1 = .ok ()) :
    ({ inj with lastWrittenBlock := .ok sa' } : ShardInjector).run.1 = .ok () ∧
      (batches ({ inj with lastWrittenBlock := .ok sa' } : ShardInjector).run.2).flatten =
        (batches inj.run.2).flatten.filter fun r => sa'.num < r.height := by
  have hl' : ({ inj with lastWrittenBlock := .ok sa' } : ShardInjector).lastWrittenBlock =
      .ok sa' := rfl
  rw [run_eq hl] at hok ⊢
  rw [run_eq hl']
  rcases hW : walkFiles (inj.onFile sa) (.start sa) inj.walk with ⟨st0, _ | e⟩ <;> rw [hW] at hok
  · obtain ⟨st1, hW1, hI⟩ := walkFiles_resume inj { inj with lastWrittenBlock := .ok sa' } sa sa'
      rfl hwrite hf hW (⟨by simp only [InjectorState.start]; omega, hw, rfl⟩ :
        ResumeInv sa'.num (.start sa) (.start sa'))
    exact ⟨by rw [hW1]; rfl, by rw [hW1]; exact hI.written⟩
  · cases hok

theorem run_resume_sample :
    sampleInjector.lastWrittenBlock = .ok ⟨[], 0⟩ ∧ (0 : Nat) ≤ 1 ∧ (1 : Nat) < 2 ^ 64 - 1 ∧
    (∀ f ∈ sampleInjector.walk, sampleInjector.WithinLast f) ∧
    (∀ n rs, sampleInjector.writeBatch n rs = .ok ()) ∧ sampleInjector.run.1 = .ok () ∧
    ({ sampleInjector with lastWrittenBlock := .ok ⟨[], 1⟩ } : ShardInjector).run.1 = .ok () ∧
    (batches ({ sampleInjector with lastWrittenBlock := .ok ⟨[], 1⟩ } : ShardInjector).run.2).flatten =
      (batches sampleInjector.run.2).flatten.filter fun r => 1 < r.height :=
  ⟨rfl, by decide, by decide, sampleInjector_withinLast, fun _ _ => rfl, by rw [sampleInjector_run],
    run_resume sampleInjector ⟨[], 0⟩ ⟨[], 1⟩ rfl (by decide) (by decide) sampleInjector_withinLast
      (fun _ _ => rfl) (by rw [sampleInjector_run])⟩

end FluxDB
