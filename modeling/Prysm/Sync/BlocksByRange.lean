import Prysm.Sync.FilterBlocks

/-!
# The `BeaconBlocksByRange` handler

`beaconBlocksByRangeRPCHandler` and `writeBlockRangeToStream` of
`rpc_beacon_blocks_by_range.go`. The collaborators (store, fork choice,
stream, rate limiter) are the answers they give. What the handler does to
the outside is one list of events in the order it does it: chunks written to
the stream, bad-response marks, calls of `writeBlockRangeToStream` with their
window, and rate-limiter debits. The Go loop need not terminate when a slot
wraps, so the model runs on fuel; `outOfFuel` is not a Go outcome.
-/

namespace Prysm.Sync.BlocksByRange

open Prysm.Types Prysm.Sync.RangeRequest Prysm.Sync.FilterBlocks

/-- Modelled from the spec: `responseCodeInvalidRequest`, status byte 1. -/
def responseCodeInvalidRequest : UInt8 := 1

/-- Modelled from the spec: `responseCodeServerError`, status byte 2. -/
def responseCodeServerError : UInt8 := 2

/-- `filters.NewFilter().SetStartSlot(..).SetEndSlot(..).SetSlotStep(..)`. -/
structure BlockFilter where
  /-- First slot of the query. -/
  startSlot : U64
  /-- Last slot of the query, inclusive. -/
  endSlot : U64
  /-- Step of the slot grid the query asks for. -/
  step : U64
  deriving DecidableEq, Repr

/-- The answers of the handler's collaborators. -/
structure RangeEnv where
  /-- `s.db.Blocks(ctx, filter)`; `none` is a store error. -/
  blocks : BlockFilter → Option (List BlockEntry)
  /-- `s.db.GenesisBlock(ctx)`; `none` is a store error. -/
  genesisBlock : Option SignedBeaconBlock
  /-- `HashTreeRoot()` of a block. -/
  hashTreeRoot : BeaconBlock → Root
  /-- `s.chain.IsCanonical(ctx, root)`; `none` is a lookup error. -/
  isCanonical : Root → Option Bool
  /-- Whether `s.chunkWriter(stream, b)` succeeds. -/
  chunkWriter : SignedBeaconBlock → Bool
  /-- Whether `s.rateLimiter.topicCollector` finds the protocol's bucket. -/
  topicCollectorOk : Bool
  /-- Whether `s.rateLimiter.validateRequest` passes before batch `i`. -/
  rateLimitOk : ℕ → Bool
  /-- `s.chain.CurrentSlot()`. -/
  currentSlot : U64

/-- What the handler does to the outside, in order. -/
inductive ServerEvent
  /-- A success chunk carrying a block. -/
  | chunk (blk : SignedBeaconBlock)
  /-- `writeErrorResponseToStream(code, reason)`. -/
  | errorChunk (code : UInt8) (reason : RpcError)
  /-- `BadResponsesScorer().Increment(peer)`. -/
  | badResponse
  /-- A call `writeBlockRangeToStream(startSlot, endSlot, ..)`. -/
  | batch (startSlot endSlot : U64)
  /-- `s.rateLimiter.add(stream, n)`. -/
  | debit (n : U64)
  deriving DecidableEq, Repr

/-- The block of a success chunk. -/
def ServerEvent.block? : ServerEvent → Option SignedBeaconBlock
  | .chunk b => some b
  | _ => none

/-- The window of a batch call. -/
def ServerEvent.window? : ServerEvent → Option (U64 × U64)
  | .batch s e => some (s, e)
  | _ => none

/-- The amount of a rate-limiter debit. -/
def ServerEvent.debit? : ServerEvent → Option U64
  | .debit n => some n
  | _ => none

/-- The blocks written to the stream, in order. -/
def writtenBlocks (evs : List ServerEvent) : List SignedBeaconBlock := evs.filterMap ServerEvent.block?

/-- The windows of the batches, in order. -/
def batchesOf (evs : List ServerEvent) : List (U64 × U64) := evs.filterMap ServerEvent.window?

/-- The rate-limiter debits, in order. -/
def debitsOf (evs : List ServerEvent) : List U64 := evs.filterMap ServerEvent.debit?

/-- How a run of the handler ended. Go returns `nil` after `completed` and after
`invalidParent` alike; the model keeps the block that broke the chain. -/
inductive HandlerOutcome
  /-- The loop passed the last requested slot. -/
  | completed
  /-- The loop broke on `ErrInvalidParent`. -/
  | invalidParent (blk : SignedBeaconBlock)
  /-- The handler returned this error. -/
  | failed (e : RpcError)
  /-- The fuel ran out; not an outcome of the Go code. -/
  | outOfFuel
  deriving DecidableEq, Repr

/-- The `for _, b := range blks` loop: a success chunk per block, or a
server-error chunk and the writer's error at the first failed write. -/
def writeChunks (env : RangeEnv) : List SignedBeaconBlock → List ServerEvent × Option BatchError
  | [] => ([], none)
  | b :: bs =>
    if env.chunkWriter b then
      let rest := writeChunks env bs
      (.chunk b :: rest.1, rest.2)
    else ([.errorChunk responseCodeServerError .generic], some (.rpc .chunkWrite))

/-- The genesis case: a batch that starts at slot 0 gets the genesis block and
its root in front of the store's answer. -/
def withGenesis (env : RangeEnv) (startSlot : U64) (entries : List BlockEntry) :
    Option (List BlockEntry) :=
  if startSlot = 0 then env.genesisBlock.map fun g => (g, env.hashTreeRoot g.block) :: entries
  else some entries

/-- `writeBlockRangeToStream`: query, genesis, dedup, sort, filter, write. Every
failure but a broken chain writes one server-error chunk. -/
def writeBlockRangeToStream (env : RangeEnv) (startSlot endSlot step : U64) (prevRoot : Root) :
    List ServerEvent × Option BatchError :=
  let serverError (e : RpcError) : List ServerEvent × Option BatchError :=
    ([.errorChunk responseCodeServerError .generic], some (.rpc e))
  match env.blocks ⟨startSlot, endSlot, step⟩ >>= withGenesis env startSlot with
  | none => serverError .store
  | some entries =>
    match filterBlocks env.isCanonical (sortBlocksAndRoots (dedupBlocksAndRoots entries))
        prevRoot step startSlot with
    | (_, some (.rpc e)) => serverError e
    | (blks, err) =>
      let written := writeChunks env blks
      (written.1, written.2 <|> err)

/-- Lines 96-98: the peer's bucket is debited by the number of grid points of
a non-empty window, `1 + (endSlot - startSlot)/step`. -/
def rateLimiterDebit (step startSlot endSlot : U64) : List ServerEvent :=
  if startSlot ≤ endSlot then [.debit (1 + (endSlot - startSlot) / step)] else []

/-- What one iteration of the batching loop leads to. -/
inductive LoopStep
  /-- The handler returns after these events. -/
  | stop (evs : List ServerEvent) (outcome : HandlerOutcome)
  /-- After these events the loop goes on with window `[startSlot, endSlot]`. -/
  | next (evs : List ServerEvent) (startSlot endSlot : U64)

/-- The body of the batching loop (lines 78-118) for batch `i` with window
`[startSlot, endSlot]`: rate limit, span check, the batch, the debit, and the
slot updates. The handler's `prevRoot` is read by every batch, written by none. -/
def batchStep (k : RangeLimits) (allowed : U64) (env : RangeEnv) (m : BeaconBlocksByRangeRequest)
    (endReqSlot : U64) (prevRoot : Root) (i : ℕ) (startSlot endSlot : U64) : LoopStep :=
  if env.rateLimitOk i = false then .stop [] (.failed .rateLimited)
  else if endSlot - startSlot > k.rangeLimit then
    .stop [.errorChunk responseCodeInvalidRequest .invalidRequest] (.failed .invalidRequest)
  else
    let written := writeBlockRangeToStream env startSlot endSlot m.step prevRoot
    let evs := ServerEvent.batch startSlot endSlot :: written.1
    let debit := rateLimiterDebit m.step startSlot endSlot
    match written.2 with
    | some (.rpc e) => .stop evs (.failed e)
    | some (.invalidParent b) => .stop (evs ++ debit) (.invalidParent b)
    | none =>
      let next := nextBatchSlots m.step allowed endReqSlot endSlot
      if next.1 > endReqSlot then .stop (evs ++ debit) .completed
      else .next (evs ++ debit) next.1 next.2

/-- The batching loop `for startSlot <= endReqSlot`, from batch `i`. -/
def batchLoop (k : RangeLimits) (allowed : U64) (env : RangeEnv) (m : BeaconBlocksByRangeRequest)
    (endReqSlot : U64) (prevRoot : Root) :
    ℕ → ℕ → U64 → U64 → List ServerEvent × HandlerOutcome
  | 0, _, _, _ => ([], .outOfFuel)
  | fuel + 1, i, startSlot, endSlot =>
    if startSlot ≤ endReqSlot then
      match batchStep k allowed env m endReqSlot prevRoot i startSlot endSlot with
      | .stop evs outcome => (evs, outcome)
      | .next evs s e =>
        let rest := batchLoop k allowed env m endReqSlot prevRoot fuel (i + 1) s e
        (evs ++ rest.1, rest.2)
    else ([], .completed)

/-- `beaconBlocksByRangeRPCHandler` on a decoded request, with `allowed` the
`BlockBatchLimit` flag. `var prevRoot [32]byte` stays the zero hash. -/
def beaconBlocksByRangeRPCHandler (k : RangeLimits) (allowed : U64) (env : RangeEnv)
    (m : BeaconBlocksByRangeRequest) (fuel : ℕ) : List ServerEvent × HandlerOutcome :=
  match validateRangeRequest k env.currentSlot m with
  | .error e => ([.errorChunk responseCodeInvalidRequest e, .badResponse], .failed e)
  | .ok () =>
    if env.topicCollectorOk = false then ([], .failed .noCollector)
    else
      let count := firstBatchCount m.count allowed
      let endSlot := m.startSlot + m.step * (count - 1)
      let endReqSlot := m.startSlot + m.step * (m.count - 1)
      batchLoop k allowed env m endReqSlot zeroHash fuel 0 m.startSlot endSlot

/-! ## One batch -/

section Batch

variable {env : RangeEnv}

@[simp] theorem writtenBlocks_append (a b : List ServerEvent) :
    writtenBlocks (a ++ b) = writtenBlocks a ++ writtenBlocks b := List.filterMap_append ..

@[simp] theorem batchesOf_append (a b : List ServerEvent) :
    batchesOf (a ++ b) = batchesOf a ++ batchesOf b := List.filterMap_append ..

@[simp] theorem debitsOf_append (a b : List ServerEvent) :
    debitsOf (a ++ b) = debitsOf a ++ debitsOf b := List.filterMap_append ..

@[simp] theorem writtenBlocks_cons (e : ServerEvent) (l : List ServerEvent) :
    writtenBlocks (e :: l) = e.block?.toList ++ writtenBlocks l := by
  cases h : e.block? <;> simp [writtenBlocks, List.filterMap_cons, h]

@[simp] theorem batchesOf_cons (e : ServerEvent) (l : List ServerEvent) :
    batchesOf (e :: l) = e.window?.toList ++ batchesOf l := by
  cases h : e.window? <;> simp [batchesOf, List.filterMap_cons, h]

@[simp] theorem debitsOf_cons (e : ServerEvent) (l : List ServerEvent) :
    debitsOf (e :: l) = e.debit?.toList ++ debitsOf l := by
  cases h : e.debit? <;> simp [debitsOf, List.filterMap_cons, h]

@[simp] theorem writtenBlocks_nil : writtenBlocks [] = [] := rfl

@[simp] theorem batchesOf_nil : batchesOf [] = [] := rfl

@[simp] theorem debitsOf_nil : debitsOf [] = [] := rfl

attribute [simp] ServerEvent.block? ServerEvent.window? ServerEvent.debit?

@[simp] theorem writtenBlocks_map_chunk (bs : List SignedBeaconBlock) :
    writtenBlocks (bs.map .chunk) = bs := by
  induction bs <;> simp [*]

/-- With a working stream every block becomes a success chunk. -/
theorem writeChunks_of_ok {bs : List SignedBeaconBlock} (hw : ∀ b, env.chunkWriter b = true) :
    writeChunks env bs = (bs.map .chunk, none) := by
  induction bs with
  | nil => rfl
  | cons b bs ih => simp [writeChunks, hw b, ih]

/-- The chunks written are a prefix of the blocks, with no batch or debit, and
the only error is the writer's. -/
theorem writeChunks_spec (bs : List SignedBeaconBlock) :
    List.IsPrefix (writtenBlocks (writeChunks env bs).1) bs ∧ batchesOf (writeChunks env bs).1 = [] ∧
      debitsOf (writeChunks env bs).1 = [] ∧
      ((writeChunks env bs).2 = none ∨ (writeChunks env bs).2 = some (.rpc .chunkWrite)) := by
  induction bs with
  | nil => simp [writeChunks, writtenBlocks, batchesOf, debitsOf]
  | cons b bs ih =>
    unfold writeChunks
    split
    · obtain ⟨⟨t, ht⟩, h2, h3, h4⟩ := ih
      refine ⟨⟨t, ?_⟩, ?_, ?_, h4⟩ <;>
        simp_all [writtenBlocks, batchesOf, debitsOf, ServerEvent.block?, ServerEvent.window?,
          ServerEvent.debit?]
    · simp [writtenBlocks, batchesOf, debitsOf, ServerEvent.block?, ServerEvent.window?,
        ServerEvent.debit?]

/-- A batch writes a prefix of the blocks of kept entries, chosen in order from
the sorted, deduplicated answer of the store; it records no batch and no debit. -/
theorem writeBlockRangeToStream_spec (s e step : U64) (prev : Root) :
    batchesOf (writeBlockRangeToStream env s e step prev).1 = [] ∧
      debitsOf (writeBlockRangeToStream env s e step prev).1 = [] ∧
      (writtenBlocks (writeBlockRangeToStream env s e step prev).1 = [] ∨
        ∃ entries sel, env.blocks ⟨s, e, step⟩ >>= withGenesis env s = some entries ∧
          List.Sublist sel (sortBlocksAndRoots (dedupBlocksAndRoots entries)) ∧
          (∀ x ∈ sel, Kept env.isCanonical step s x) ∧ (step = 1 → LinkedFrom prev sel) ∧
          List.IsPrefix (writtenBlocks (writeBlockRangeToStream env s e step prev).1)
            (sel.map Prod.fst)) := by
  have herr : batchesOf [ServerEvent.errorChunk responseCodeServerError .generic] = [] ∧
      debitsOf [ServerEvent.errorChunk responseCodeServerError .generic] = [] ∧
      writtenBlocks [ServerEvent.errorChunk responseCodeServerError .generic] = [] := by
    simp [writtenBlocks, batchesOf, debitsOf, ServerEvent.block?, ServerEvent.window?,
      ServerEvent.debit?]
  unfold writeBlockRangeToStream
  cases hq : env.blocks ⟨s, e, step⟩ >>= withGenesis env s with
  | none => exact ⟨herr.1, herr.2.1, .inl herr.2.2⟩
  | some entries =>
    simp only
    rcases @filterLoop_spec env.isCanonical step s []
      prev (sortBlocksAndRoots (dedupBlocksAndRoots entries)) with h | ⟨sel, hsub, hkept, hout, hnot, hlink⟩
    · simp only [filterBlocks, h]
      exact ⟨herr.1, herr.2.1, .inl herr.2.2⟩
    · simp only [filterBlocks]
      generalize filterLoop env.isCanonical step s [] prev
        (sortBlocksAndRoots (dedupBlocksAndRoots entries)) = res at hout hnot
      obtain ⟨blks, err⟩ := res
      simp only [List.nil_append] at hout
      subst hout
      obtain ⟨hpre, hb, hd, -⟩ := @writeChunks_spec env (sel.map Prod.fst)
      rcases err with _ | (b | e')
      · exact ⟨hb, hd, .inr ⟨entries, sel, rfl, hsub, hkept, hlink, hpre⟩⟩
      · exact ⟨hb, hd, .inr ⟨entries, sel, rfl, hsub, hkept, hlink, hpre⟩⟩
      · exact absurd rfl (hnot e')

/-- Without collaborator failures a batch writes exactly what `filterBlocks`
returns and passes on its error. -/
theorem writeBlockRangeToStream_of_ok {s e step : U64} {prev : Root} {entries : List BlockEntry}
    (hq : env.blocks ⟨s, e, step⟩ >>= withGenesis env s = some entries)
    (hlookup : ∀ x ∈ entries, env.isCanonical x.2 ≠ none) (hw : ∀ b, env.chunkWriter b = true) :
    writeBlockRangeToStream env s e step prev =
      ((filterBlocks env.isCanonical (sortBlocksAndRoots (dedupBlocksAndRoots entries)) prev step s).1.map
        .chunk,
        (filterBlocks env.isCanonical (sortBlocksAndRoots (dedupBlocksAndRoots entries)) prev step s).2) := by
  have hl : ∀ x ∈ sortBlocksAndRoots (dedupBlocksAndRoots entries), env.isCanonical x.2 ≠ none :=
    fun x hx => hlookup x ((dedupBlocksAndRoots_sublist entries).subset
      ((sortBlocksAndRoots_perm _).subset hx))
  have hnot := (@filterLoop_extends env.isCanonical step s [] prev _ hl).2
  unfold writeBlockRangeToStream
  rw [hq]
  simp only [filterBlocks]
  generalize filterLoop env.isCanonical step s [] prev
    (sortBlocksAndRoots (dedupBlocksAndRoots entries)) = res at hnot
  obtain ⟨blks, err⟩ := res
  rcases err with _ | (b | e')
  · simp [writeChunks_of_ok hw]
  · simp [writeChunks_of_ok hw]
  · exact absurd rfl (hnot e')

end Batch

@[simp] theorem writtenBlocks_rateLimiterDebit (step s e : U64) :
    writtenBlocks (rateLimiterDebit step s e) = [] := by
  unfold rateLimiterDebit; split <;> simp

/-! ## One iteration -/

section Step

variable {k : RangeLimits} {allowed : U64} {env : RangeEnv} {m : BeaconBlocksByRangeRequest}
  {endReqSlot : U64} {prev : Root}

/-- Everything one iteration can do: fail before its batch, writing no block;
or pass the rate limiter and the span check, write its batch, and then fail,
break on a broken chain, finish, or go on from the next window. -/
theorem batchStep_cases (i : ℕ) (s e : U64) :
    ((env.rateLimitOk i = false ∨ k.rangeLimit < e - s) ∧
      ∃ evs err, batchStep k allowed env m endReqSlot prev i s e = .stop evs (.failed err) ∧
        batchesOf evs = [] ∧ writtenBlocks evs = [] ∧ debitsOf evs = []) ∨
    (env.rateLimitOk i = true ∧ e - s ≤ k.rangeLimit ∧
      ((∃ err, (writeBlockRangeToStream env s e m.step prev).2 = some (.rpc err) ∧
          batchStep k allowed env m endReqSlot prev i s e =
            .stop (.batch s e :: (writeBlockRangeToStream env s e m.step prev).1) (.failed err)) ∨
        (∃ b, (writeBlockRangeToStream env s e m.step prev).2 = some (.invalidParent b) ∧
          batchStep k allowed env m endReqSlot prev i s e =
            .stop (.batch s e :: (writeBlockRangeToStream env s e m.step prev).1 ++
              rateLimiterDebit m.step s e) (.invalidParent b)) ∨
        ((writeBlockRangeToStream env s e m.step prev).2 = none ∧
          endReqSlot < (nextBatchSlots m.step allowed endReqSlot e).1 ∧
          batchStep k allowed env m endReqSlot prev i s e =
            .stop (.batch s e :: (writeBlockRangeToStream env s e m.step prev).1 ++
              rateLimiterDebit m.step s e) .completed) ∨
        ((writeBlockRangeToStream env s e m.step prev).2 = none ∧
          (nextBatchSlots m.step allowed endReqSlot e).1 ≤ endReqSlot ∧
          batchStep k allowed env m endReqSlot prev i s e =
            .next (.batch s e :: (writeBlockRangeToStream env s e m.step prev).1 ++
              rateLimiterDebit m.step s e) (nextBatchSlots m.step allowed endReqSlot e).1
              (nextBatchSlots m.step allowed endReqSlot e).2))) := by
  unfold batchStep
  split
  · exact .inl ⟨.inl (by assumption), [], _, rfl, rfl, rfl, rfl⟩
  · split
    · exact .inl ⟨.inr (by assumption), _, _, rfl, by simp [batchesOf, writtenBlocks, debitsOf,
        ServerEvent.window?, ServerEvent.block?, ServerEvent.debit?]⟩
    · rename_i hrate hspan
      refine .inr ⟨by simpa using hrate, BitVec.not_lt.mp hspan, ?_⟩
      rcases h : (writeBlockRangeToStream env s e m.step prev).2 with _ | (b | err)
      · simp only [h]
        split
        · exact .inr (.inr (.inl ⟨trivial, by assumption, rfl⟩))
        · exact .inr (.inr (.inr ⟨trivial, BitVec.not_lt.mp (by assumption), rfl⟩))
      · exact .inr (.inl ⟨b, rfl, by simp only [h]⟩)
      · exact .inl ⟨err, rfl, by simp only [h]⟩

end Step

end Prysm.Sync.BlocksByRange
