import Prysm.Sync.RangeResponse

/-!
# The requesting side of `BeaconBlocksByRange` and `BeaconBlocksByRoot`

`SendBeaconBlocksByRangeRequest` of `rpc_send_request.go`. After a successful
`Send`, the peer's answer is what successive `ReadChunkedBlock` calls return, a
block or an error, and its end is `io.EOF`. Each block is checked against the
request in the order of the Go code and handed to the block processor. Go
panics on a `uint64` modulo by zero, so that is an outcome of its own here; no
input reaches it. The call returns the blocks exactly when the response passes
the protocol's checks (`Conformant`) and the processor accepts every block.
The range server writes its blocks as success chunks and then at most one error
chunk, which the requesting side reads as an error carrying the status code; so
on what the server writes the call returns the blocks written, or, after a server
error, that error.

`SendBeaconBlocksByRootRequest` reads at most one chunk per root asked for and
at most `MaxRequestBlocks`, and checks nothing but the processor's consent: it
returns the blocks of that prefix of the answer, and what the peer sends after
it is never read.
-/

namespace Prysm.Sync.SendRequest

open Prysm.Types Prysm.Sync.RangeRequest Prysm.Sync.BlocksByRange Prysm.Sync.RangeServer
  Prysm.Sync.RangeResponse

/-- What `SendBeaconBlocksByRangeRequest` fails with; a collaborator's error
carries a code. -/
inductive SendError
  /-- `p2pProvider.Send` failed. -/
  | send (code : ℕ)
  /-- `ReadChunkedBlock` failed with an error other than `io.EOF`. -/
  | read (code : ℕ)
  /-- `ErrInvalidFetchedData`: a block broke a check of the request. -/
  | invalidFetchedData
  /-- The block processor refused a block. -/
  | process (code : ℕ)
  deriving DecidableEq, Repr

/-- How a call ends. -/
inductive SendOutcome
  /-- `(blocks, nil)`. -/
  | ok (blocks : List SignedBeaconBlock)
  /-- `(nil, err)`. -/
  | error (e : SendError)
  /-- Go's run-time panic on a modulo by zero. -/
  | divideByZero
  deriving DecidableEq, Repr

/-- One `ReadChunkedBlock` call: a decoded block, or an error code. -/
abbrev ChunkRead := Except ℕ SignedBeaconBlock

/-- The block processor; `none` accepts the block. A nil processor accepts
every block. -/
abbrev BlockProcessor := SignedBeaconBlock → Option ℕ

/-- The `for i := uint64(0); ; i++` loop from chunk `i`, after a block at
`prevSlot`, with the blocks so far. `i` never passes `count`, so it does not
wrap and is a natural number here. -/
def readChunks (k : RangeLimits) (req : BeaconBlocksByRangeRequest) (process : BlockProcessor) :
    ℕ → U64 → List SignedBeaconBlock → List ChunkRead → SendOutcome
  | _, _, blocks, [] => .ok blocks
  | _, _, _, .error e :: _ => .error (.read e)
  | i, prevSlot, blocks, .ok blk :: rest =>
    if i ≥ req.count.toNat ∨ i ≥ k.maxRequestBlocks.toNat then .error .invalidFetchedData
    else if blk.slot < req.startSlot ∨ blk.slot ≥ req.startSlot + req.count * req.step then
      .error .invalidFetchedData
    else if i ≠ 0 ∧ prevSlot ≥ blk.slot then .error .invalidFetchedData
    else if i ≠ 0 ∧ req.step = 0 then .divideByZero
    else if i ≠ 0 ∧ (blk.slot - prevSlot) % req.step ≠ 0 then .error .invalidFetchedData
    else
      match process blk with
      | some e => .error (.process e)
      | none => readChunks k req process (i + 1) blk.slot (blocks ++ [blk]) rest

/-- `SendBeaconBlocksByRangeRequest`: send the request, then read the answer. -/
def sendBeaconBlocksByRangeRequest (k : RangeLimits) (req : BeaconBlocksByRangeRequest)
    (process : BlockProcessor) (sent : Except ℕ (List ChunkRead)) : SendOutcome :=
  match sent with
  | .error e => .error (.send e)
  | .ok chunks => readChunks k req process 0 0 [] chunks

/-- What the loop, at chunk `i` after a block at slot `prevSlot`, admits of the
blocks still to come: indices below `count` and `MAX_REQUEST_BLOCKS`, slots in
`[start_slot, start_slot + count*step)`, each above the one before by a
multiple of `step` (at chunk 0 there is none before), and the processor's
consent. -/
def Admits (k : RangeLimits) (req : BeaconBlocksByRangeRequest) (process : BlockProcessor)
    (i prevSlot : ℕ) (bs : List SignedBeaconBlock) : Prop :=
  i + bs.length ≤ req.count.toNat ∧ i + bs.length ≤ k.maxRequestBlocks.toNat ∧
    (∀ b ∈ bs, req.startSlot.toNat ≤ b.slot.toNat ∧
      b.slot.toNat < req.startSlot.toNat + req.count.toNat * req.step.toNat) ∧
    (if i = 0 then (bs.map (·.slot.toNat)).Chain' (fun a b => a < b ∧ (b - a) % req.step.toNat = 0)
      else (bs.map (·.slot.toNat)).Chain (fun a b => a < b ∧ (b - a) % req.step.toNat = 0)
        prevSlot) ∧
    ∀ b ∈ bs, process b = none

section Loop

variable {k : RangeLimits} {req : BeaconBlocksByRangeRequest} {process : BlockProcessor}

/-- A run of slots from the slot before, or from nothing at chunk 0. -/
theorem chain_from_cons {R : ℕ → ℕ → Prop} {i p s : ℕ} {ss : List ℕ} :
    (if i = 0 then (s :: ss).Chain' R else (s :: ss).Chain R p) ↔ (i ≠ 0 → R p s) ∧ ss.Chain R s := by
  split_ifs with hi
  · exact ⟨fun h => ⟨fun h' => absurd hi h', h⟩, fun h => h.2⟩
  · rw [List.chain_cons]
    exact ⟨fun h => ⟨fun _ => h.1, h.2⟩, fun h => ⟨h.1 hi, h.2⟩⟩

/-- The blocks after chunk `i` are admitted when the next one is, and the rest
are admitted after it. -/
theorem admits_cons {i prevSlot : ℕ} {b : SignedBeaconBlock} {bs : List SignedBeaconBlock} :
    Admits k req process i prevSlot (b :: bs) ↔
      (i < req.count.toNat ∧ i < k.maxRequestBlocks.toNat ∧
        (req.startSlot.toNat ≤ b.slot.toNat ∧
          b.slot.toNat < req.startSlot.toNat + req.count.toNat * req.step.toNat) ∧
        (i ≠ 0 → prevSlot < b.slot.toNat ∧ (b.slot.toNat - prevSlot) % req.step.toNat = 0) ∧
        process b = none) ∧
      Admits k req process (i + 1) b.slot.toNat bs := by
  simp only [Admits, List.map_cons, List.length_cons, List.forall_mem_cons, chain_from_cons,
    Nat.add_one_ne_zero, if_false]
  constructor
  · rintro ⟨h1, h2, ⟨h3, h3'⟩, ⟨h4, h4'⟩, h5, h5'⟩
    exact ⟨⟨by omega, by omega, h3, h4, h5⟩, by omega, by omega, h3', h4', h5'⟩
  · rintro ⟨⟨h1, h2, h3, h4, h5⟩, h1', h2', h3', h4', h5'⟩
    exact ⟨by omega, by omega, ⟨h3, h3'⟩, ⟨h4, h4'⟩, h5, h5'⟩

/-- The answer holds blocks only, the first one `b`. -/
theorem exists_map_ok_cons {b : SignedBeaconBlock} {rest : List ChunkRead}
    {P : List SignedBeaconBlock → Prop} :
    (∃ bs, Except.ok b :: rest = bs.map Except.ok ∧ P bs) ↔
      ∃ bs, rest = bs.map Except.ok ∧ P (b :: bs) := by
  constructor
  · rintro ⟨bs, h, hp⟩
    obtain ⟨a, l, rfl, ha, rfl⟩ := List.map_eq_cons_iff.mp h.symm
    cases ha
    exact ⟨l, rfl, hp⟩
  · rintro ⟨bs, rfl, hp⟩
    exact ⟨b :: bs, rfl, hp⟩

/-- Without wrap-around, the end of the requested range is `start + count*step`. -/
theorem rangeEnd_toNat
    (hno : req.startSlot.toNat + req.count.toNat * req.step.toNat < 2 ^ 64) :
    (req.startSlot + req.count * req.step).toNat =
      req.startSlot.toNat + req.count.toNat * req.step.toNat := by
  have hmul : (req.count * req.step).toNat = req.count.toNat * req.step.toNat :=
    BitVec.toNat_mul_of_lt (by omega)
  rw [BitVec.toNat_add_of_lt (by rw [hmul]; omega), hmul]

/-- The step check of one block, read in natural numbers. -/
theorem stepMod_eq_zero_iff {prevSlot slot step : U64} (h : prevSlot ≤ slot) :
    (slot - prevSlot) % step = 0 ↔ (slot.toNat - prevSlot.toNat) % step.toNat = 0 := by
  rw [BitVec.toNat_eq, BitVec.toNat_umod, BitVec.toNat_sub_of_le h]
  rfl

/-- The checks on one block, read in natural numbers: when none fails, the
block is admitted at chunk `i`. The range check fails for every slot when
`step = 0`, so the modulo is never by zero. -/
theorem head_admitted
    (hno : req.startSlot.toNat + req.count.toNat * req.step.toNat < 2 ^ 64) {i : ℕ}
    {prevSlot : U64} {b : SignedBeaconBlock}
    (h1 : ¬(i ≥ req.count.toNat ∨ i ≥ k.maxRequestBlocks.toNat))
    (h2 : ¬(b.slot < req.startSlot ∨ b.slot ≥ req.startSlot + req.count * req.step))
    (h3 : ¬(i ≠ 0 ∧ prevSlot ≥ b.slot))
    (h5 : ¬(i ≠ 0 ∧ (b.slot - prevSlot) % req.step ≠ 0)) :
    i < req.count.toNat ∧ i < k.maxRequestBlocks.toNat ∧
      (req.startSlot.toNat ≤ b.slot.toNat ∧
        b.slot.toNat < req.startSlot.toNat + req.count.toNat * req.step.toNat) ∧
      (i ≠ 0 → prevSlot.toNat < b.slot.toNat ∧
        (b.slot.toNat - prevSlot.toNat) % req.step.toNat = 0) := by
  rw [BitVec.lt_def, ge_iff_le, BitVec.le_def, rangeEnd_toNat hno] at h2
  refine ⟨by omega, by omega, by omega, fun hi => ?_⟩
  have hlt : prevSlot.toNat < b.slot.toNat := BitVec.lt_def.mp (BitVec.not_le.mp fun h => h3 ⟨hi, h⟩)
  refine ⟨hlt, (stepMod_eq_zero_iff (BitVec.le_def.mpr hlt.le)).mp ?_⟩
  by_contra h
  exact h5 ⟨hi, h⟩

/-- A block in range has a step that is not zero. -/
theorem step_ne_zero_of_inRange {b : SignedBeaconBlock}
    (h2 : ¬(b.slot < req.startSlot ∨ b.slot ≥ req.startSlot + req.count * req.step)) :
    req.step ≠ 0 := by
  rintro h0
  apply h2
  have hend : (req.startSlot + req.count * 0).toNat = req.startSlot.toNat := by bv_omega
  rw [h0, BitVec.lt_def, ge_iff_le, BitVec.le_def, hend]
  omega

/-- The loop from chunk `i` returns blocks exactly when every chunk is a block,
the loop's blocks are the ones it had followed by these, and the loop admits
them. -/
theorem readChunks_ok_iff
    (hno : req.startSlot.toNat + req.count.toNat * req.step.toNat < 2 ^ 64)
    (chunks : List ChunkRead) :
    ∀ i (prevSlot : U64) acc out, i ≤ req.count.toNat → i ≤ k.maxRequestBlocks.toNat →
      (readChunks k req process i prevSlot acc chunks = .ok out ↔
        ∃ bs, chunks = bs.map .ok ∧ out = acc ++ bs ∧ Admits k req process i prevSlot.toNat bs) := by
  induction chunks with
  | nil =>
    intro i prevSlot acc out hi hm
    simp only [readChunks, SendOutcome.ok.injEq]
    constructor
    · rintro rfl
      exact ⟨[], rfl, by simp, by simp [Admits, hi, hm]⟩
    · rintro ⟨bs, hbs, rfl, -⟩
      simp [List.map_eq_nil_iff.mp hbs.symm]
  | cons c rest ih =>
    intro i prevSlot acc out hi hm
    rcases c with e | b
    · simp only [readChunks, reduceCtorEq, false_iff, not_exists, not_and]
      intro bs h
      obtain ⟨a, l, -, ha, -⟩ := List.map_eq_cons_iff.mp h.symm
      cases ha
    rw [exists_map_ok_cons]
    simp only [readChunks]
    split_ifs with h1 h2 h3 h4 h5
    -- each rejected chunk: no admitted sequence starts with it
    any_goals
      simp only [reduceCtorEq, false_iff, not_exists, not_and]
      intro bs _ _ h
    · have := (admits_cons.mp h).1
      omega
    · have := (admits_cons.mp h).1.2.2.1
      rw [BitVec.lt_def, ge_iff_le, BitVec.le_def, rangeEnd_toNat hno] at h2
      omega
    · have := (admits_cons.mp h).1.2.2.2.1 h3.1
      rw [ge_iff_le, BitVec.le_def] at h3
      omega
    · exact absurd h4.2 (step_ne_zero_of_inRange h2)
    · obtain ⟨hlt, hmod⟩ := (admits_cons.mp h).1.2.2.2.1 h5.1
      exact h5.2 ((stepMod_eq_zero_iff (BitVec.le_def.mpr hlt.le)).mpr hmod)
    · have hhead := head_admitted (k := k) hno h1 h2 h3 h5
      cases hp : process b with
      | some e =>
        simp only [reduceCtorEq, false_iff, not_exists, not_and]
        intro bs _ _ h
        simp [(admits_cons.mp h).1.2.2.2.2] at hp
      | none =>
        rw [ih (i + 1) b.slot (acc ++ [b]) out (by omega) (by omega)]
        simp only [List.append_assoc, List.singleton_append]
        exact exists_congr fun bs => and_congr_right fun _ => and_congr_right fun _ =>
          (admits_cons.trans (and_iff_right ⟨hhead.1, hhead.2.1, hhead.2.2.1, hhead.2.2.2, hp⟩)).symm

/-- No chunk sequence makes the loop divide by zero. -/
theorem readChunks_ne_divideByZero (chunks : List ChunkRead) :
    ∀ i (prevSlot : U64) acc, readChunks k req process i prevSlot acc chunks ≠ .divideByZero := by
  induction chunks with
  | nil => intros; simp [readChunks]
  | cons c rest ih =>
    intro i prevSlot acc
    rcases c with e | b
    · simp [readChunks]
    simp only [readChunks]
    split_ifs with h1 h2 h3 h4
    · simp
    · simp
    · simp
    · exact absurd h4.2 (step_ne_zero_of_inRange h2)
    · simp
    · split
      · simp
      · exact ih _ _ _

/-- At chunk 0 the loop admits what the protocol's checks pass and the
processor accepts. -/
theorem admits_zero_iff {prevSlot : ℕ} {bs : List SignedBeaconBlock} :
    Admits k req process 0 prevSlot bs ↔
      Conformant k req (bs.map (·.slot.toNat)) ∧ ∀ b ∈ bs, process b = none := by
  simp only [Admits, Conformant, if_pos, List.length_map, List.forall_mem_map, Nat.zero_add,
    and_assoc]

/-- After a successful send, for a request whose range does not wrap, the call
returns blocks exactly when every chunk before `io.EOF` is a block, the blocks
pass the protocol's checks and the processor accepts each; it returns them in
arrival order. -/
theorem sendBeaconBlocksByRangeRequest_ok_iff
    (hno : req.startSlot.toNat + req.count.toNat * req.step.toNat < 2 ^ 64)
    (chunks : List ChunkRead) (blocks : List SignedBeaconBlock) :
    sendBeaconBlocksByRangeRequest k req process (.ok chunks) = .ok blocks ↔
      chunks = blocks.map .ok ∧ Conformant k req (blocks.map (·.slot.toNat)) ∧
        ∀ b ∈ blocks, process b = none := by
  rw [sendBeaconBlocksByRangeRequest, readChunks_ok_iff hno chunks 0 0 [] blocks (Nat.zero_le _)
    (Nat.zero_le _)]
  constructor
  · rintro ⟨bs, rfl, rfl, h⟩
    exact ⟨rfl, admits_zero_iff.mp h⟩
  · rintro ⟨rfl, h⟩
    exact ⟨blocks, rfl, rfl, admits_zero_iff.mpr h⟩

/-- For a request whose range `start + count*step` does not wrap (any step,
zero included), after a successful send: the call returns `(blocks, nil)`
exactly when every chunk before `io.EOF` is a block, the blocks pass the
protocol's checks and the processor accepts each, and then `blocks` are these
in arrival order; otherwise it returns an error, and it never divides by
zero. -/
theorem sendBeaconBlocksByRangeRequest_returns_iff_conformant
    (hno : req.startSlot.toNat + req.count.toNat * req.step.toNat < 2 ^ 64)
    (chunks : List ChunkRead) :
    (∀ blocks, sendBeaconBlocksByRangeRequest k req process (.ok chunks) = .ok blocks ↔
      chunks = blocks.map .ok ∧ Conformant k req (blocks.map (·.slot.toNat)) ∧
        ∀ b ∈ blocks, process b = none) ∧
    ((∃ blocks, sendBeaconBlocksByRangeRequest k req process (.ok chunks) = .ok blocks) ∨
      ∃ e, sendBeaconBlocksByRangeRequest k req process (.ok chunks) = .error e) := by
  refine ⟨sendBeaconBlocksByRangeRequest_ok_iff hno chunks, ?_⟩
  have h := @readChunks_ne_divideByZero k req process chunks 0 0 []
  rw [sendBeaconBlocksByRangeRequest]
  generalize readChunks k req process 0 0 [] chunks = o at h ⊢
  rcases o with blocks | e | _
  · exact .inl ⟨blocks, rfl⟩
  · exact .inr ⟨e, rfl⟩
  · exact absurd rfl h

/-- The blocks of `brokenLinkStore`, as chunks in slot order. -/
def brokenLinkChunks : List ChunkRead := brokenLinkStore.map fun e => .ok e.1

theorem sendBeaconBlocksByRangeRequest_brokenLinkChunks :
    slotsOneTwo.startSlot.toNat + slotsOneTwo.count.toNat * slotsOneTwo.step.toNat < 2 ^ 64 ∧
    (∀ blocks, sendBeaconBlocksByRangeRequest limits1024 slotsOneTwo (fun _ => none)
        (.ok brokenLinkChunks) = .ok blocks ↔
      brokenLinkChunks = blocks.map .ok ∧ Conformant limits1024 slotsOneTwo (blocks.map (·.slot.toNat)) ∧
        ∀ b ∈ blocks, (fun _ => none : BlockProcessor) b = none) ∧
    ((∃ blocks, sendBeaconBlocksByRangeRequest limits1024 slotsOneTwo (fun _ => none)
        (.ok brokenLinkChunks) = .ok blocks) ∨
      ∃ e, sendBeaconBlocksByRangeRequest limits1024 slotsOneTwo (fun _ => none)
        (.ok brokenLinkChunks) = .error e) :=
  have hno : slotsOneTwo.startSlot.toNat + slotsOneTwo.count.toNat * slotsOneTwo.step.toNat <
      2 ^ 64 := by decide
  ⟨hno, sendBeaconBlocksByRangeRequest_returns_iff_conformant hno brokenLinkChunks⟩

end Loop

/-! ## The stream the range server writes -/

/-- What one `ReadChunkedBlock` call reads of an event of the handler: a success
chunk is its block, an error chunk an error carrying its status code. The other
events write nothing to the stream. -/
def chunkRead : ServerEvent → Option ChunkRead
  | .chunk b => some (.ok b)
  | .errorChunk code _ => some (.error code.toNat)
  | _ => none

/-- The chunks of the handler's events in the order it writes them: what the
requesting side reads before `io.EOF`. -/
def streamOf (evs : List ServerEvent) : List ChunkRead := evs.filterMap chunkRead

/-- The status code of an error chunk. -/
def errorCode? : ServerEvent → Option UInt8
  | .errorChunk code _ => some code
  | _ => none

/-- The status code of the first error chunk among the events. -/
def firstErrorCode (evs : List ServerEvent) : Option UInt8 := evs.findSome? errorCode?

/-- The events write their blocks as success chunks, then at most one error
chunk, the first, and no chunk after it. -/
def ChunksThenError (evs : List ServerEvent) : Prop :=
  streamOf evs = (writtenBlocks evs).map .ok ++ ((firstErrorCode evs).map fun c => .error c.toNat).toList

section Stream

variable {env : RangeEnv}

attribute [simp] chunkRead errorCode?

@[simp] theorem streamOf_cons (e : ServerEvent) (l : List ServerEvent) :
    streamOf (e :: l) = (chunkRead e).toList ++ streamOf l := by
  simp only [streamOf, List.filterMap_cons]
  cases chunkRead e <;> rfl

@[simp] theorem streamOf_append (a b : List ServerEvent) :
    streamOf (a ++ b) = streamOf a ++ streamOf b := List.filterMap_append ..

@[simp] theorem firstErrorCode_cons (e : ServerEvent) (l : List ServerEvent) :
    firstErrorCode (e :: l) = (errorCode? e).or (firstErrorCode l) := by
  simp only [firstErrorCode, List.findSome?_cons]
  cases errorCode? e <;> rfl

@[simp] theorem firstErrorCode_append (a b : List ServerEvent) :
    firstErrorCode (a ++ b) = (firstErrorCode a).or (firstErrorCode b) := List.findSome?_append

/-- Without an error chunk the stream is the blocks. -/
theorem streamOf_of_firstErrorCode_none {evs : List ServerEvent} (h : firstErrorCode evs = none) :
    streamOf evs = (writtenBlocks evs).map .ok := by
  induction evs with
  | nil => rfl
  | cons e l ih => cases e <;> simp_all

theorem chunksThenError_of_none {evs : List ServerEvent} (h : firstErrorCode evs = none) :
    ChunksThenError evs := by
  simp [ChunksThenError, h, streamOf_of_firstErrorCode_none h]

/-- Events without an error chunk, then events that keep the shape, keep it. -/
theorem chunksThenError_append {a b : List ServerEvent} (hn : firstErrorCode a = none)
    (hb : ChunksThenError b) : ChunksThenError (a ++ b) := by
  unfold ChunksThenError at hb ⊢
  simp [hb, hn, streamOf_of_firstErrorCode_none hn]

/-- The write loop writes its blocks as success chunks, and an error chunk only when a
write fails. -/
theorem writeChunks_chunksThenError (bs : List SignedBeaconBlock) :
    ChunksThenError (writeChunks env bs).1 ∧
      ((writeChunks env bs).2 = none → firstErrorCode (writeChunks env bs).1 = none) := by
  induction bs with
  | nil => exact ⟨chunksThenError_of_none rfl, fun _ => rfl⟩
  | cons b bs ih =>
    unfold writeChunks
    split
    · exact ⟨chunksThenError_append (a := [.chunk b]) rfl ih.1, ih.2⟩
    · exact ⟨rfl, nofun⟩

/-- A batch writes its chunks, then an error chunk only when it fails with an RPC
error. -/
theorem writeBlockRangeToStream_chunksThenError (s e step : U64) (prev : Root) :
    ChunksThenError (writeBlockRangeToStream env s e step prev).1 ∧
      ((∀ err, (writeBlockRangeToStream env s e step prev).2 ≠ some (.rpc err)) →
        firstErrorCode (writeBlockRangeToStream env s e step prev).1 = none) := by
  unfold writeBlockRangeToStream
  split
  · exact ⟨rfl, fun h => absurd rfl (h .store)⟩
  · split
    · exact ⟨rfl, fun h => absurd rfl (h _)⟩
    · rename_i blks err _ _
      obtain ⟨hshape, hnone⟩ := @writeChunks_chunksThenError env blks
      dsimp only
      refine ⟨hshape, fun h => hnone ?_⟩
      rcases (@writeChunks_spec env blks).2.2.2 with h' | h'
      · exact h'
      · exact absurd (by rw [h']; rfl) (h .chunkWrite)

theorem firstErrorCode_rateLimiterDebit (step s e : U64) :
    firstErrorCode (rateLimiterDebit step s e) = none := by
  unfold rateLimiterDebit; split <;> rfl

/-- One iteration of the batching loop keeps the shape, and one that goes on has
written no error chunk. -/
theorem batchStep_chunksThenError {k : RangeLimits} {allowed : U64} {m : BeaconBlocksByRangeRequest}
    {endReqSlot : U64} {prev : Root} (i : ℕ) (s e : U64) :
    match batchStep k allowed env m endReqSlot prev i s e with
    | .stop evs _ => ChunksThenError evs
    | .next evs _ _ => firstErrorCode evs = none := by
  have hw := @writeBlockRangeToStream_chunksThenError env s e m.step prev
  have hd := firstErrorCode_rateLimiterDebit m.step s e
  unfold batchStep
  split_ifs
  · exact chunksThenError_of_none rfl
  · rfl
  · rcases h : (writeBlockRangeToStream env s e m.step prev).2 with _ | (b | err)
    · have hn := hw.2 (by simp [h])
      simp only [h]
      split_ifs
      · exact chunksThenError_of_none (by simp [hn, hd])
      · simp [hn, hd]
    · have hn := hw.2 (by simp [h])
      simp only [h]
      exact chunksThenError_of_none (by simp [hn, hd])
    · simp only [h]
      exact chunksThenError_append (a := [.batch s e]) rfl hw.1

/-- The batching loop keeps the shape. -/
theorem batchLoop_chunksThenError (k : RangeLimits) (allowed : U64) (m : BeaconBlocksByRangeRequest)
    (endReqSlot : U64) (prev : Root) (fuel i : ℕ) (s e : U64) :
    ChunksThenError (batchLoop k allowed env m endReqSlot prev fuel i s e).1 := by
  induction fuel generalizing i s e with
  | zero => exact chunksThenError_of_none rfl
  | succ fuel ih =>
    have hs := @batchStep_chunksThenError env k allowed m endReqSlot prev i s e
    unfold batchLoop
    split
    · cases hstep : batchStep k allowed env m endReqSlot prev i s e <;> rw [hstep] at hs
      · exact hs
      · exact chunksThenError_append hs (ih _ _ _)
    · exact chunksThenError_of_none rfl

/-- Every run of the range handler writes success chunks, then at most one error
chunk, and nothing after it. -/
theorem rangeHandler_chunksThenError (k : RangeLimits) (allowed : U64) (m : BeaconBlocksByRangeRequest)
    (fuel : ℕ) : ChunksThenError (beaconBlocksByRangeRPCHandler k allowed env m fuel).1 := by
  unfold beaconBlocksByRangeRPCHandler
  split
  · rfl
  · split
    · exact chunksThenError_of_none rfl
    · exact batchLoop_chunksThenError ..

end Stream

/-! ## The range server's response at the requesting side -/

section Response

variable {k : RangeLimits} {req : BeaconBlocksByRangeRequest} {process : BlockProcessor}

/-- A read error after chunks the loop accepts ends the call with that error. -/
theorem readChunks_append_error (c : ℕ) (chunks : List ChunkRead) :
    ∀ i (prevSlot : U64) acc out, readChunks k req process i prevSlot acc chunks = .ok out →
      readChunks k req process i prevSlot acc (chunks ++ [.error c]) = .error (.read c) := by
  induction chunks with
  | nil => intros; rfl
  | cons ch rest ih =>
    intro i prevSlot acc out h
    rcases ch with e | b
    · cases h
    simp only [List.cons_append, readChunks] at h ⊢
    split_ifs at h ⊢
    cases hp : process b with
    | some e => simp [hp] at h
    | none =>
      simp only [hp] at h ⊢
      exact ih _ _ _ _ h

/-- Whatever the collaborators answer, within the slot headroom, the requesting
side accepts the success chunks the range server wrote for an accepted request,
in order, when its processor accepts each. -/
theorem sendBeaconBlocksByRangeRequest_accepts_rangeHandler_response {env : RangeEnv} {allowed : U64}
    (hv : validateRangeRequest k env.currentSlot req = .ok ()) (hL : 1 ≤ allowed.toNat)
    (hh : SlotHeadroom k env.currentSlot) (hr : StoreInRange env) (hg : GenesisAtZero env)
    (hc : CanonicalUnique env) (fuel : ℕ) (hp : ∀ b, process b = none) :
    sendBeaconBlocksByRangeRequest k req process
        (.ok ((writtenBlocks (beaconBlocksByRangeRPCHandler k allowed env req fuel).1).map .ok)) =
      .ok (writtenBlocks (beaconBlocksByRangeRPCHandler k allowed env req fuel).1) :=
  have hv' := validateRangeRequest_ok hv
  (sendBeaconBlocksByRangeRequest_ok_iff (hv'.rangeEnd_lt hh) _ _).mpr
    ⟨rfl, ((rangeHandler_written_gridRun hv hL hh hr hg hc fuel).onRequestGrid hv').conformant,
      fun b _ => hp b⟩

/-- `brokenLinkEnv` on a stream that refuses every write. -/
def failingStreamEnv : RangeEnv := { brokenLinkEnv with chunkWriter := fun _ => false }

/-- The stream fails the first write: the server writes a server-error chunk,
and the requesting side returns its read error. -/
example : sendBeaconBlocksByRangeRequest limits1024 slotsOneTwo (fun _ => none)
    (.ok (streamOf (beaconBlocksByRangeRPCHandler limits1024 1 failingStreamEnv slotsOneTwo 2).1)) =
      .error (.read 2) := by
  decide

end Response

/-! ## The requesting side of `BeaconBlocksByRoot` -/

/-- `types.BeaconBlockByRootsReq`, the roots asked for; the loop reads only
their number. -/
abbrev BeaconBlockByRootsReq := List Root

/-- The `for i := 0; i < len(*req); i++` loop of `SendBeaconBlocksByRootRequest`
from chunk `i`, for a request of `reqLen` roots, with the blocks so far. It
stops at `len(*req)`, at `MaxRequestBlocks` and at `io.EOF`; a read error or a
refused block ends the call. No block is checked against the roots. -/
def readRootChunks (k : RangeLimits) (reqLen : ℕ) (process : BlockProcessor) :
    ℕ → List SignedBeaconBlock → List ChunkRead → SendOutcome
  | i, blocks, chunks =>
    if i < reqLen then
      if i ≥ k.maxRequestBlocks.toNat then .ok blocks
      else
        match chunks with
        | [] => .ok blocks
        | .error e :: _ => .error (.read e)
        | .ok blk :: rest =>
          match process blk with
          | some e => .error (.process e)
          | none => readRootChunks k reqLen process (i + 1) (blocks ++ [blk]) rest
    else .ok blocks

/-- `SendBeaconBlocksByRootRequest`: send the request, then read the answer. -/
def sendBeaconBlocksByRootRequest (k : RangeLimits) (req : BeaconBlockByRootsReq)
    (process : BlockProcessor) (sent : Except ℕ (List ChunkRead)) : SendOutcome :=
  match sent with
  | .error e => .error (.send e)
  | .ok chunks => readRootChunks k req.length process 0 [] chunks

section RootLoop

variable {k : RangeLimits} {reqLen : ℕ} {process : BlockProcessor}

/-- From `min (len req) MaxRequestBlocks` on, the loop reads nothing more. -/
theorem readRootChunks_of_bound {i : ℕ} {acc : List SignedBeaconBlock} {chunks : List ChunkRead}
    (h : min reqLen k.maxRequestBlocks.toNat ≤ i) :
    readRootChunks k reqLen process i acc chunks = .ok acc := by
  unfold readRootChunks
  split_ifs <;> first | rfl | omega

/-- At `io.EOF` the loop returns the blocks it has. -/
theorem readRootChunks_nil {i : ℕ} {acc : List SignedBeaconBlock} :
    readRootChunks k reqLen process i acc [] = .ok acc := by
  rw [readRootChunks]
  split_ifs <;> rfl

/-- No chunk left: no block to add. -/
theorem exists_nil_map_ok {acc out : List SignedBeaconBlock} :
    (∃ bs, ([] : List ChunkRead) = bs.map .ok ∧ out = acc ++ bs ∧ ∀ b ∈ bs, process b = none) ↔
      out = acc :=
  ⟨fun ⟨bs, hbs, hout, _⟩ => by rw [hout, List.map_eq_nil_iff.mp hbs.symm, List.append_nil],
    fun h => ⟨[], rfl, by rw [h, List.append_nil], fun _ hb => absurd hb (List.not_mem_nil _)⟩⟩

/-- Below the bound, a read error ends the call. -/
theorem readRootChunks_read_error {i : ℕ} {acc : List SignedBeaconBlock} {e : ℕ}
    {rest : List ChunkRead} (h : i < min reqLen k.maxRequestBlocks.toNat) :
    readRootChunks k reqLen process i acc (.error e :: rest) = .error (.read e) := by
  rw [readRootChunks, if_pos (by omega), if_neg (by omega)]

/-- Below the bound, a block the processor refuses ends the call. -/
theorem readRootChunks_refused {i : ℕ} {acc : List SignedBeaconBlock} {b : SignedBeaconBlock}
    {e : ℕ} {rest : List ChunkRead} (h : i < min reqLen k.maxRequestBlocks.toNat)
    (hp : process b = some e) :
    readRootChunks k reqLen process i acc (.ok b :: rest) = .error (.process e) := by
  rw [readRootChunks, if_pos (by omega), if_neg (by omega)]
  simp only [hp]

/-- Below the bound, a block the processor accepts is kept and the loop goes on. -/
theorem readRootChunks_accepted {i : ℕ} {acc : List SignedBeaconBlock} {b : SignedBeaconBlock}
    {rest : List ChunkRead} (h : i < min reqLen k.maxRequestBlocks.toNat)
    (hp : process b = none) :
    readRootChunks k reqLen process i acc (.ok b :: rest) =
      readRootChunks k reqLen process (i + 1) (acc ++ [b]) rest := by
  rw [readRootChunks, if_pos (by omega), if_neg (by omega)]
  simp only [hp]

/-- The loop from chunk `i` ends the same on the stream cut after chunk
`min (len req) MaxRequestBlocks`. -/
theorem readRootChunks_take (chunks : List ChunkRead) :
    ∀ i acc, readRootChunks k reqLen process i acc chunks =
      readRootChunks k reqLen process i acc (chunks.take (min reqLen k.maxRequestBlocks.toNat - i)) := by
  induction chunks with
  | nil => intros; simp
  | cons c rest ih =>
    intro i acc
    by_cases h : i < min reqLen k.maxRequestBlocks.toNat
    · rw [show min reqLen k.maxRequestBlocks.toNat - i =
          (min reqLen k.maxRequestBlocks.toNat - (i + 1)) + 1 by omega, List.take_succ_cons]
      rcases c with e | b
      · rw [readRootChunks_read_error h, readRootChunks_read_error h]
      · cases hp : process b with
        | some e => rw [readRootChunks_refused h hp, readRootChunks_refused h hp]
        | none => rw [readRootChunks_accepted h hp, readRootChunks_accepted h hp, ih]
    · rw [readRootChunks_of_bound (by omega), readRootChunks_of_bound (by omega)]

/-- The loop from chunk `i` returns blocks exactly when the chunks up to the
bound, or up to `io.EOF` before it, are blocks the processor accepts; it
returns them after the ones it had. -/
theorem readRootChunks_ok_iff (chunks : List ChunkRead) :
    ∀ i acc out, readRootChunks k reqLen process i acc chunks = .ok out ↔
      ∃ bs, chunks.take (min reqLen k.maxRequestBlocks.toNat - i) = bs.map .ok ∧
        out = acc ++ bs ∧ ∀ b ∈ bs, process b = none := by
  induction chunks with
  | nil =>
    intro i acc out
    rw [readRootChunks_nil, List.take_nil, exists_nil_map_ok, SendOutcome.ok.injEq, eq_comm]
  | cons c rest ih =>
    intro i acc out
    by_cases h : i < min reqLen k.maxRequestBlocks.toNat
    · rw [show min reqLen k.maxRequestBlocks.toNat - i =
          (min reqLen k.maxRequestBlocks.toNat - (i + 1)) + 1 by omega, List.take_succ_cons]
      rcases c with e | b
      · simp only [readRootChunks_read_error h, reduceCtorEq, false_iff, not_exists, not_and]
        intro bs hbs
        obtain ⟨a, l, -, ha, -⟩ := List.map_eq_cons_iff.mp hbs.symm
        cases ha
      rw [exists_map_ok_cons]
      cases hp : process b with
      | some e =>
        simp only [readRootChunks_refused h hp, reduceCtorEq, false_iff, not_exists, not_and]
        intro bs _ _ hb
        simp [hb b (List.mem_cons_self _ _)] at hp
      | none =>
        rw [readRootChunks_accepted h hp, ih]
        simp only [List.append_assoc, List.singleton_append, List.forall_mem_cons, hp, true_and]
    · rw [readRootChunks_of_bound (by omega), show min reqLen k.maxRequestBlocks.toNat - i = 0 by omega,
        List.take_zero, exists_nil_map_ok, SendOutcome.ok.injEq, eq_comm]

/-- Whatever a peer sends after chunk `min (len req) MaxRequestBlocks` (more
blocks, a read error, anything), the call ends the same: it reads no further. -/
theorem sendBeaconBlocksByRootRequest_take (req : BeaconBlockByRootsReq) (chunks : List ChunkRead) :
    sendBeaconBlocksByRootRequest k req process (.ok chunks) =
      sendBeaconBlocksByRootRequest k req process
        (.ok (chunks.take (min req.length k.maxRequestBlocks.toNat))) := by
  simpa only [sendBeaconBlocksByRootRequest, Nat.sub_zero] using readRootChunks_take chunks 0 []

/-- After a successful send, the call returns `(blocks, nil)` exactly when the
first `min (len req) MaxRequestBlocks` chunks, or those before an earlier
`io.EOF`, are blocks the processor accepts, and `blocks` are these in arrival
order. Nothing relates the blocks to the roots asked for. -/
theorem sendBeaconBlocksByRootRequest_ok_iff (req : BeaconBlockByRootsReq) (chunks : List ChunkRead)
    (blocks : List SignedBeaconBlock) :
    sendBeaconBlocksByRootRequest k req process (.ok chunks) = .ok blocks ↔
      chunks.take (min req.length k.maxRequestBlocks.toNat) = blocks.map .ok ∧
        ∀ b ∈ blocks, process b = none := by
  rw [sendBeaconBlocksByRootRequest, readRootChunks_ok_iff, Nat.sub_zero]
  constructor
  · rintro ⟨bs, h, rfl, hp⟩
    exact ⟨h, hp⟩
  · rintro ⟨h, hp⟩
    exact ⟨blocks, h, rfl, hp⟩

end RootLoop

end Prysm.Sync.SendRequest
