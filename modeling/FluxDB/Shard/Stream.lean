import FluxDB.Basic

/-!
# Shard files: the stream of write requests

A shard file is the sharder's `gob` stream of write requests, one encoded request after another,
and `readWriteRequestsForBatch` is the loop that reads one back: decode a request, keep it if its
height is above the watermark, and go on until the decoder reports `io.EOF`.

`gob` is Go's library, not this repository's, and only its framing matters to the loop.  Each
value travels as one message, preceded by its byte count, so the decoder knows where a record
ends.  It reports `io.EOF` only when the input ends exactly where a record would begin, and
`io.ErrUnexpectedEOF` when it ends inside one.  This file keeps that framing and simplifies the
rest: the byte count is a LEB128 varint (`gob` writes a length-prefixed big-endian integer), and
a request's message is its height, as a varint, followed by the rest of the request, which the
injector never reads (its block reference, singlet entries and tablet rows) as opaque bytes.  The
type descriptors `gob` sends before the first value are left out; a stream cut inside them fails
like any other cut inside a record.

Since the loop stops at the first `io.EOF`, a file cut exactly between two records reads as a
shorter, well-formed file, and so does the empty file (`readWriteRequestsForBatch_truncated`
shows a truncated file accepted).  What does hold for every cut is `readWriteRequestsForBatch_prefix`:
a prefix of a file either ends on a record boundary, and reads as the requests before it, or fails
with `io.ErrUnexpectedEOF`.  `readWriteRequests_encode` is the round trip.
-/

set_option autoImplicit false

namespace FluxDB

/-- A write request as a shard file carries it: the height it is for, and the rest of the
request, passed on to `WriteBatch` unread. -/
structure WriteRequest where
  height : Nat
  body : Bytes
  deriving DecidableEq, Repr

/-! ## Varints -/

/-- LEB128: seven bits a byte, low bits first, the top bit set on every byte but the last. -/
def encodeUvarint (n : Nat) : Bytes :=
  if n < 128 then [n.toUInt8] else (n % 128 + 128).toUInt8 :: encodeUvarint (n / 128)
termination_by n
decreasing_by omega

/-- Read a varint off the front of a byte string; `none` if the bytes run out first. -/
def decodeUvarint : Bytes → Option (Nat × Bytes)
  | [] => none
  | b :: rest =>
    if b.toNat < 128 then some (b.toNat, rest)
    else (decodeUvarint rest).map fun p => (b.toNat - 128 + 128 * p.1, p.2)

theorem toNat_toUInt8 {n : Nat} (h : n < 256) : n.toUInt8.toNat = n :=
  UInt8.toNat_ofNat_of_lt h

theorem encodeUvarint_ne_nil (n : Nat) : encodeUvarint n ≠ [] := by
  rw [encodeUvarint]; split <;> simp

theorem decodeUvarint_encodeUvarint (n : Nat) (rest : Bytes) :
    decodeUvarint (encodeUvarint n ++ rest) = some (n, rest) := by
  induction n using Nat.strong_induction_on with
  | _ n ih =>
    rw [encodeUvarint]
    split
    · rename_i h
      simp [decodeUvarint, toNat_toUInt8 (show n < 256 by omega), h]
    · rename_i h
      have hb : (n % 128 + 128).toUInt8.toNat = n % 128 + 128 := toNat_toUInt8 (by omega)
      rw [List.cons_append, decodeUvarint, hb, if_neg (by omega), ih (n / 128) (by omega)]
      simp only [Option.map_some', Option.some.injEq, Prod.mk.injEq, and_true]
      omega

/-- A varint cut short does not decode. -/
theorem decodeUvarint_take (n k : Nat) (hk : k < (encodeUvarint n).length) :
    decodeUvarint ((encodeUvarint n).take k) = none := by
  induction n using Nat.strong_induction_on generalizing k with
  | _ n ih =>
    rw [encodeUvarint] at hk ⊢
    split
    · rename_i h; simp [h] at hk; subst hk; rfl
    · rename_i h
      cases k with
      | zero => rfl
      | succ k =>
        have hb : (n % 128 + 128).toUInt8.toNat = n % 128 + 128 := toNat_toUInt8 (by omega)
        simp only [h, if_false, List.length_cons] at hk
        simp only [List.take_succ_cons, decodeUvarint, hb, ih (n / 128) (by omega) k (by omega)]
        simp

/-- Reading a varint consumes at least one byte. -/
theorem decodeUvarint_length {l rest : Bytes} {n : Nat} (h : decodeUvarint l = some (n, rest)) :
    rest.length < l.length := by
  induction l generalizing n with
  | nil => simp [decodeUvarint] at h
  | cons b l ih =>
    rw [decodeUvarint] at h
    split at h
    · simp only [Option.some.injEq, Prod.mk.injEq] at h; rw [← h.2]; simp
    · obtain ⟨p, hp, hpe⟩ := Option.map_eq_some'.1 h
      simp only [Prod.mk.injEq] at hpe
      have := ih (show decodeUvarint l = some (p.1, rest) by rw [hp, ← hpe.2])
      simp only [List.length_cons]; omega

/-! ## Records -/

/-- One request as the sharder writes it: its message (the height, then the rest of the
request), preceded by the message's byte count. -/
def encodeRequest (r : WriteRequest) : Bytes :=
  encodeUvarint (encodeUvarint r.height ++ r.body).length ++ (encodeUvarint r.height ++ r.body)

/-- A shard file: its requests' records, one after another. -/
def encodeRequests (rs : List WriteRequest) : Bytes := rs.flatMap encodeRequest

/-- What one `decoder.Decode(req)` call reports. -/
inductive Decoded where
  /-- `io.EOF`: the stream ended where a record would begin. -/
  | eof
  /-- A request, and what is left of the stream. -/
  | ok (req : WriteRequest) (rest : Bytes)
  | error (err : GoError)

/-- `decoder.Decode(req)` on what is left of the stream. -/
def decodeRequest (input : Bytes) : Decoded :=
  if input.isEmpty then .eof
  else
    match decodeUvarint input with
    | none => .error .unexpectedEOF
    | some (n, rest) =>
      if rest.length < n then .error .unexpectedEOF
      else
        match decodeUvarint (rest.take n) with
        | none => .error .gobCorrupt
        | some (h, body) => .ok ⟨h, body⟩ (rest.drop n)

theorem decodeRequest_rest_lt {input rest : Bytes} {req : WriteRequest}
    (h : decodeRequest input = .ok req rest) : rest.length < input.length := by
  unfold decodeRequest at h
  split at h
  · cases h
  · split at h
    · cases h
    · rename_i n r hr
      split at h
      · cases h
      · split at h
        · cases h
        · cases h
          have := decodeUvarint_length hr
          simp only [List.length_drop]; omega

/-- The decoding loop of `readWriteRequestsForBatch`, which keeps the requests `keep` accepts. -/
def decodeLoop (keep : WriteRequest → Bool) (input : Bytes) : Except GoError (List WriteRequest) :=
  match h : decodeRequest input with
  | .eof => .ok []
  | .error e => .error (.wrap "unable to read WriteRequest: %w" [] e)
  | .ok req rest =>
    have := decodeRequest_rest_lt h
    (decodeLoop keep rest).map fun reqs => if keep req then req :: reqs else reqs
termination_by input.length

/-- `readWriteRequestsForBatch`: decode until `io.EOF`, skipping the requests at or below
`startAfter`. -/
def readWriteRequestsForBatch (input : Bytes) (startAfter : Nat) :
    Except GoError (List WriteRequest) :=
  decodeLoop (fun req => !decide (req.height ≤ startAfter)) input

/-- All the requests of a stream, as a decoder reads them. -/
def readWriteRequests (input : Bytes) : Except GoError (List WriteRequest) :=
  decodeLoop (fun _ => true) input

section Loop

variable (keep : WriteRequest → Bool) {input : Bytes}

theorem decodeLoop_eof (h : decodeRequest input = .eof) : decodeLoop keep input = .ok [] := by
  rw [decodeLoop]; split <;> simp_all

theorem decodeLoop_error {e : GoError} (h : decodeRequest input = .error e) :
    decodeLoop keep input = .error (.wrap "unable to read WriteRequest: %w" [] e) := by
  rw [decodeLoop]; split <;> simp_all

theorem decodeLoop_ok {req : WriteRequest} {rest : Bytes} (h : decodeRequest input = .ok req rest) :
    decodeLoop keep input =
      (decodeLoop keep rest).map fun reqs => if keep req then req :: reqs else reqs := by
  rw [decodeLoop]; split <;> simp_all

/-- The loop keeps exactly the requests `keep` accepts among all the stream's requests. -/
theorem decodeLoop_eq_filter (input : Bytes) :
    decodeLoop keep input = (readWriteRequests input).map (List.filter keep) := by
  generalize hn : input.length = n
  induction n using Nat.strong_induction_on generalizing input with
  | _ n ih =>
    subst hn
    cases hd : decodeRequest input with
    | eof => rw [readWriteRequests, decodeLoop_eof _ hd, decodeLoop_eof _ hd]; rfl
    | error e => simp [readWriteRequests, decodeLoop_error _ hd]; rfl
    | ok req rest =>
      rw [readWriteRequests, decodeLoop_ok _ hd, decodeLoop_ok _ hd,
        ih _ (decodeRequest_rest_lt hd) rest rfl, readWriteRequests]
      cases decodeLoop (fun _ => true) rest <;> simp [Except.map, List.filter_cons]

end Loop

/-- `readWriteRequestsForBatch` is the file's requests above the watermark. -/
theorem readWriteRequestsForBatch_eq (input : Bytes) (startAfter : Nat) :
    readWriteRequestsForBatch input startAfter =
      (readWriteRequests input).map (List.filter fun req => startAfter < req.height) := by
  have hkeep : (fun req : WriteRequest => !decide (req.height ≤ startAfter)) =
      fun req => decide (startAfter < req.height) := by
    funext req; simp only [← decide_not, not_le]
  rw [readWriteRequestsForBatch, decodeLoop_eq_filter, hkeep]

/-- A file that decodes reads, above a watermark, as its requests above the watermark. -/
theorem readWriteRequestsForBatch_of_ok {input : Bytes} {all : List WriteRequest}
    (h : readWriteRequests input = .ok all) (startAfter : Nat) :
    readWriteRequestsForBatch input startAfter = .ok (all.filter fun req => startAfter < req.height) := by
  rw [readWriteRequestsForBatch_eq, h]; rfl

/-- A file read above a watermark decodes as a whole, and what is kept is above the watermark. -/
theorem readWriteRequestsForBatch_ok {input : Bytes} {startAfter : Nat} {rs : List WriteRequest}
    (h : readWriteRequestsForBatch input startAfter = .ok rs) :
    ∃ all, readWriteRequests input = .ok all ∧ rs = all.filter fun req => startAfter < req.height := by
  rw [readWriteRequestsForBatch_eq] at h
  rcases hr : readWriteRequests input with e | all <;> rw [hr] at h
  · cases h
  · exact ⟨all, rfl, (Except.ok.inj h).symm⟩

/-! ## Whole files and cut ones -/

@[simp] theorem decodeRequest_nil : decodeRequest [] = .eof := rfl

theorem decodeRequest_encodeRequest (r : WriteRequest) (rest : Bytes) :
    decodeRequest (encodeRequest r ++ rest) = .ok r rest := by
  have hne : (encodeRequest r ++ rest).isEmpty = false := by
    simp [encodeRequest, encodeUvarint_ne_nil]
  rw [decodeRequest, if_neg (by simp [hne]), encodeRequest, List.append_assoc,
    decodeUvarint_encodeUvarint]
  simp only [List.length_append, List.take_left', List.drop_left', decodeUvarint_encodeUvarint]
  rw [if_neg (by omega)]

/-- A record cut anywhere inside fails with `io.ErrUnexpectedEOF`. -/
theorem decodeRequest_take (r : WriteRequest) {k : Nat} (h0 : 0 < k)
    (hk : k < (encodeRequest r).length) :
    decodeRequest ((encodeRequest r).take k) = .error .unexpectedEOF := by
  have hne : ((encodeRequest r).take k).isEmpty = false := by
    simp [encodeRequest, encodeUvarint_ne_nil]; omega
  rw [decodeRequest, if_neg (by simp [hne])]
  unfold encodeRequest at hk ⊢
  generalize encodeUvarint r.height ++ r.body = msg at hk ⊢
  by_cases hc : k < (encodeUvarint msg.length).length
  · rw [List.take_append_of_le_length hc.le, decodeUvarint_take _ _ hc]
  · rw [List.take_append_eq_append_take, List.take_of_length_le (by omega),
      decodeUvarint_encodeUvarint]
    simp only [List.length_append] at hk
    simp only [List.length_take]
    rw [if_pos (by omega)]

/-- **Round trip**: a shard file reads back as the requests it was written from. -/
theorem readWriteRequests_encode (rs : List WriteRequest) :
    readWriteRequests (encodeRequests rs) = .ok rs := by
  induction rs with
  | nil => exact decodeLoop_eof _ rfl
  | cons r rs ih =>
    rw [readWriteRequests, encodeRequests, List.flatMap_cons,
      decodeLoop_ok _ (decodeRequest_encodeRequest r _), ← readWriteRequests, ← encodeRequests, ih]
    rfl

/-- Every prefix of a shard file ends on a record boundary, and reads as the records before it,
or fails with `io.ErrUnexpectedEOF`. -/
theorem readWriteRequests_prefix (rs : List WriteRequest) {p : Bytes}
    (hp : p <+: encodeRequests rs) :
    (∃ k ≤ rs.length, p = encodeRequests (rs.take k) ∧ readWriteRequests p = .ok (rs.take k)) ∨
      readWriteRequests p = .error (.wrap "unable to read WriteRequest: %w" [] .unexpectedEOF) := by
  induction rs generalizing p with
  | nil =>
    rw [encodeRequests, List.flatMap_nil, List.prefix_nil] at hp
    subst hp
    exact .inl ⟨0, le_rfl, rfl, decodeLoop_eof _ rfl⟩
  | cons r rs ih =>
    rw [encodeRequests, List.flatMap_cons, ← encodeRequests] at hp
    rw [List.prefix_iff_eq_take] at hp
    by_cases h0 : p.length = 0
    · rw [List.length_eq_zero.1 h0]
      exact .inl ⟨0, by simp, rfl, decodeLoop_eof _ rfl⟩
    by_cases hr : p.length < (encodeRequest r).length
    · rw [List.take_append_of_le_length hr.le] at hp
      refine .inr ?_
      rw [hp, readWriteRequests, decodeLoop_error _ (decodeRequest_take r (by omega) hr)]
    · rw [List.take_append_eq_append_take, List.take_of_length_le (by omega)] at hp
      have hp' : (encodeRequests rs).take (p.length - (encodeRequest r).length) <+:
          encodeRequests rs := List.take_prefix _ _
      rw [hp, readWriteRequests, decodeLoop_ok _ (decodeRequest_encodeRequest r _),
        ← readWriteRequests]
      rcases ih hp' with ⟨k, hk, hpk, hread⟩ | hread
      · refine .inl ⟨k + 1, by simpa using hk, ?_, by rw [hread]; rfl⟩
        rw [hpk, List.take_succ_cons]
        simp [encodeRequests]
      · exact .inr (by rw [hread]; rfl)

/-- **A cut shard file**: for every request sequence `rs`, every prefix `p` of its file and every
watermark, `readWriteRequestsForBatch` either fails with `io.ErrUnexpectedEOF`, or `p` ends on a
record boundary, encoding the first `k` requests of `rs`, and it returns those of them above the
watermark, as it would for a complete file. -/
theorem readWriteRequestsForBatch_prefix (rs : List WriteRequest) {p : Bytes}
    (hp : p <+: encodeRequests rs) (startAfter : Nat) :
    (∃ k ≤ rs.length, p = encodeRequests (rs.take k) ∧
      readWriteRequestsForBatch p startAfter =
        .ok ((rs.take k).filter fun req => startAfter < req.height)) ∨
    readWriteRequestsForBatch p startAfter =
      .error (.wrap "unable to read WriteRequest: %w" [] .unexpectedEOF) := by
  rw [readWriteRequestsForBatch_eq]
  rcases readWriteRequests_prefix rs hp with ⟨k, hk, hpk, hread⟩ | hread
  · exact .inl ⟨k, hk, hpk, by rw [hread]; rfl⟩
  · exact .inr (by rw [hread]; rfl)

theorem readWriteRequestsForBatch_prefix_first_record :
    encodeRequests [⟨1, []⟩] <+: encodeRequests [⟨1, []⟩, ⟨2, []⟩] ∧
      ((∃ k ≤ 2, encodeRequests [⟨1, []⟩] = encodeRequests ([⟨1, []⟩, ⟨2, []⟩].take k) ∧
        readWriteRequestsForBatch (encodeRequests [⟨1, []⟩]) 0 =
          .ok (([⟨1, []⟩, ⟨2, []⟩].take k).filter fun req => 0 < req.height)) ∨
      readWriteRequestsForBatch (encodeRequests [⟨1, []⟩]) 0 =
        .error (.wrap "unable to read WriteRequest: %w" [] .unexpectedEOF)) :=
  ⟨⟨encodeRequests [⟨2, []⟩], by simp [encodeRequests]⟩,
    readWriteRequestsForBatch_prefix [⟨1, []⟩, ⟨2, []⟩] ⟨encodeRequests [⟨2, []⟩], by
      simp [encodeRequests]⟩ 0⟩

/-- A file of two requests cut after its first record is read without error, as a file of one
request. -/
theorem readWriteRequestsForBatch_truncated :
    encodeRequests [⟨1, []⟩] <+: encodeRequests [⟨1, []⟩, ⟨2, []⟩] ∧
      encodeRequests [⟨1, []⟩] ≠ encodeRequests [⟨1, []⟩, ⟨2, []⟩] ∧
      readWriteRequestsForBatch (encodeRequests [⟨1, []⟩]) 0 = .ok [⟨1, []⟩] := by
  refine ⟨⟨encodeRequests [⟨2, []⟩], by simp [encodeRequests]⟩, fun h => ?_, ?_⟩
  · have := congrArg List.length h
    simp [encodeRequests, encodeRequest] at this
    exact encodeUvarint_ne_nil _ this.2
  · rw [readWriteRequestsForBatch_eq, readWriteRequests_encode]
    rfl

end FluxDB
