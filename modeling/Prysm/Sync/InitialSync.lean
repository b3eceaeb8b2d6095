import Prysm.Types
import Mathlib.Data.List.Chain

/-!
# Batches of initial sync

`processBatchedBlocks` and `isProcessedBlock` of `initial-sync/round_robin.go`:
drop the blocks already processed from the front of a fetched batch, check that
the first remaining block's parent is known and that the rest form a chain, and
hand the blocks with their roots to the batch receiver. The receiver is called
at most once, as the last step; the model returns that call, or the error
returned instead. `HashTreeRoot` of a decoded block does not fail, so it is a
function here, as in the range server.
-/

namespace Prysm.Sync.InitialSync

open Prysm.Types

/-- What `processBatchedBlocks` reads of the node. -/
structure InitSyncEnv where
  /-- `HashTreeRoot()` of a block. -/
  hashTreeRoot : BeaconBlock → Root
  /-- `s.chain.HeadSlot()`. -/
  headSlot : U64
  /-- `helpers.StartSlot(s.chain.FinalizedCheckpt().Epoch)`; `none` is its error. -/
  finalizedSlot : Option U64
  /-- `s.db.HasBlock(ctx, root)`. -/
  hasBlock : Root → Bool
  /-- `s.chain.HasInitSyncBlock(root)`. -/
  hasInitSyncBlock : Root → Bool

/-- The errors `processBatchedBlocks` returns before the receiver is called. -/
inductive SyncError
  /-- `"0 blocks provided into method"`. -/
  | noBlocks
  /-- `"no good blocks in batch"`. -/
  | noGoodBlocks
  /-- `errParentDoesNotExist`, with the parent root. -/
  | parentDoesNotExist (parent : Root)
  /-- `"expected linear block list ..."`, with the expected and the received parent root. -/
  | nonLinear (expected received : Root)
  deriving DecidableEq, Repr

/-- How a call ends: the batch receiver called once with these blocks and
roots, or an error without a call. -/
inductive BatchOutcome
  /-- `bFunc(ctx, blks, blockRoots)`. -/
  | received (blks : List SignedBeaconBlock) (roots : List Root)
  /-- An error returned before any call. -/
  | error (e : SyncError)
  deriving DecidableEq, Repr

/-- `isProcessedBlock`: at or below the finalized slot, or in the database or
the init-sync cache; `false` when the finalized slot cannot be computed. -/
def isProcessedBlock (env : InitSyncEnv) (blk : SignedBeaconBlock) (blkRoot : Root) : Bool :=
  match env.finalizedSlot with
  | none => false
  | some finalizedSlot =>
    decide (blk.slot ≤ finalizedSlot) || env.hasBlock blkRoot || env.hasInitSyncBlock blkRoot

/-- The test of the dropping loop, `headSlot >= slot && isProcessedBlock(..)`. -/
def skippable (env : InitSyncEnv) (blk : SignedBeaconBlock) : Bool :=
  decide (blk.slot ≤ env.headSlot) && isProcessedBlock env blk (env.hashTreeRoot blk.block)

/-- The loop that drops processed blocks from the front: the first block, its
root, and the blocks after it. -/
def skipProcessed (env : InitSyncEnv) :
    SignedBeaconBlock → Root → List SignedBeaconBlock →
      Except SyncError (SignedBeaconBlock × Root × List SignedBeaconBlock)
  | firstBlock, blkRoot, blks =>
    if env.headSlot ≥ firstBlock.slot ∧ isProcessedBlock env firstBlock blkRoot then
      match blks with
      | [] => .error .noGoodBlocks
      | b :: rest => skipProcessed env b (env.hashTreeRoot b.block) rest
    else .ok (firstBlock, blkRoot, blks)

/-- The loop over `blks[1:]` that checks each parent root against the root
before it and records the roots. -/
def linkRoots (env : InitSyncEnv) : Root → List SignedBeaconBlock → Except SyncError (List Root)
  | _, [] => .ok []
  | prev, b :: rest =>
    if b.block.parentRoot ≠ prev then .error (.nonLinear prev b.block.parentRoot)
    else (linkRoots env (env.hashTreeRoot b.block) rest).map (env.hashTreeRoot b.block :: ·)

/-- `processBatchedBlocks` with `bFunc` the batch receiver. -/
def processBatchedBlocks (env : InitSyncEnv) : List SignedBeaconBlock → BatchOutcome
  | [] => .error .noBlocks
  | firstBlock :: rest =>
    match skipProcessed env firstBlock (env.hashTreeRoot firstBlock.block) rest with
    | .error e => .error e
    | .ok (firstBlock, blkRoot, rest) =>
      let parentRoot := firstBlock.block.parentRoot
      if ¬env.hasBlock parentRoot ∧ ¬env.hasInitSyncBlock parentRoot then
        .error (.parentDoesNotExist parentRoot)
      else
        match linkRoots env blkRoot rest with
        | .error e => .error e
        | .ok roots => .received (firstBlock :: rest) (blkRoot :: roots)

/-- Each block names as parent the root before it: `prev` for the first, the
root of the block before for the others. -/
def ParentLinked (root : BeaconBlock → Root) : Root → List SignedBeaconBlock → Prop
  | _, [] => True
  | prev, b :: rest => b.block.parentRoot = prev ∧ ParentLinked root (root b.block) rest

section Batch

variable {env : InitSyncEnv}

/-- The dropping loop stops at the first block that is not skippable, or fails
when there is none. -/
theorem skipProcessed_eq (b : SignedBeaconBlock) (rest : List SignedBeaconBlock) :
    skipProcessed env b (env.hashTreeRoot b.block) rest =
      match (b :: rest).dropWhile (skippable env) with
      | [] => .error .noGoodBlocks
      | b' :: rest' => .ok (b', env.hashTreeRoot b'.block, rest') := by
  induction rest generalizing b with
  | nil | cons _ _ _ =>
    unfold skipProcessed
    by_cases h : skippable env b <;> simp_all [skippable, List.dropWhile_cons]

/-- The linking loop records the blocks' roots exactly when the blocks are
parent-linked from `prev`. -/
theorem linkRoots_eq_ok_iff (prev : Root) (bs : List SignedBeaconBlock) (roots : List Root) :
    linkRoots env prev bs = .ok roots ↔
      ParentLinked env.hashTreeRoot prev bs ∧ roots = bs.map (env.hashTreeRoot ·.block) := by
  induction bs generalizing prev roots with
  | nil => simp [linkRoots, ParentLinked, eq_comm]
  | cons b rest ih =>
    simp only [linkRoots, ParentLinked, ne_eq, ite_not, List.map_cons]
    split
    · rename_i h
      cases hr : linkRoots env (env.hashTreeRoot b.block) rest with
      | error e =>
        have hn : ¬ParentLinked env.hashTreeRoot (env.hashTreeRoot b.block) rest := fun hp => by
          simpa [hr] using (ih _ (rest.map (env.hashTreeRoot ·.block))).mpr ⟨hp, rfl⟩
        simp only [Except.map, reduceCtorEq, false_iff, not_and]
        exact fun hp _ => hn hp.2
      | ok rs =>
        obtain ⟨hl, rfl⟩ := (ih _ rs).mp hr
        simp only [Except.map, Except.ok.injEq]
        exact ⟨fun h' => ⟨⟨h, hl⟩, h'.symm⟩, fun h' => h'.2.symm⟩
    · simp_all

/-- A chain of parent links, from the root of its first block on. -/
theorem chain'_cons_iff_parentLinked (b : SignedBeaconBlock) (bs : List SignedBeaconBlock) :
    (b :: bs).Chain' (fun a c => c.block.parentRoot = env.hashTreeRoot a.block) ↔
      ParentLinked env.hashTreeRoot (env.hashTreeRoot b.block) bs := by
  induction bs generalizing b with
  | nil => simp [ParentLinked]
  | cons c rest ih => simp [ParentLinked, ← ih]

/-- For every batch and every state of the node, `processBatchedBlocks` calls
the batch receiver with `(blks', roots')` exactly when `blks'` is the batch
without its longest prefix of processed blocks at or below the head slot,
`blks'` is not empty, the parent of its first block is in the database or the
init-sync cache, `roots'` are the blocks' hash-tree roots and each block after
the first names the root of the block before as its parent. Otherwise it
returns an error and calls nothing. -/
theorem processBatchedBlocks_received_iff (blks blks' : List SignedBeaconBlock)
    (roots' : List Root) :
    processBatchedBlocks env blks = .received blks' roots' ↔
      blks' = blks.dropWhile (skippable env) ∧ blks' ≠ [] ∧
      (∀ b ∈ blks'.head?, env.hasBlock b.block.parentRoot ∨ env.hasInitSyncBlock b.block.parentRoot) ∧
      roots' = blks'.map (env.hashTreeRoot ·.block) ∧
      blks'.Chain' (fun a c => c.block.parentRoot = env.hashTreeRoot a.block) := by
  cases blks with
  | nil =>
    simp only [processBatchedBlocks, List.dropWhile_nil, reduceCtorEq, false_iff]
    rintro ⟨rfl, h, -⟩
    exact h rfl
  | cons b rest =>
    simp only [processBatchedBlocks, skipProcessed_eq]
    generalize (b :: rest).dropWhile (skippable env) = suffix
    cases suffix with
    | nil =>
      simp only [reduceCtorEq, false_iff]
      rintro ⟨rfl, h, -⟩
      exact h rfl
    | cons b' rest' =>
      simp only [List.head?_cons, Option.mem_def, Option.some.injEq, forall_eq']
      split
      · rename_i h
        simp only [reduceCtorEq, false_iff, not_and]
        rintro rfl - hp
        simp_all
      · rename_i h
        cases hr : linkRoots env (env.hashTreeRoot b'.block) rest' with
        | error e =>
          simp only [reduceCtorEq, false_iff, not_and]
          rintro rfl - - rfl hl
          have := (linkRoots_eq_ok_iff _ _ _).mpr ⟨(chain'_cons_iff_parentLinked b' rest').mp hl, rfl⟩
          rw [hr] at this
          cases this
        | ok rs =>
          obtain ⟨hl, rfl⟩ := (linkRoots_eq_ok_iff _ _ _).mp hr
          simp only [BatchOutcome.received.injEq]
          constructor
          · rintro ⟨rfl, rfl⟩
            exact ⟨rfl, List.cons_ne_nil _ _, by simpa [or_iff_not_imp_left] using h, rfl,
              (chain'_cons_iff_parentLinked _ _).mpr hl⟩
          · rintro ⟨rfl, -, -, rfl, -⟩
            exact ⟨rfl, rfl⟩

end Batch

end Prysm.Sync.InitialSync
