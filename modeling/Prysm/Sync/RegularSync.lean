import Prysm.Sync.InitialSync

/-!
# Block-by-block sync of fetched ranges

`processFetchedDataRegSync` and `processBlock` of `initial-sync/round_robin.go`,
the second phase of round-robin sync: every block of a fetched range goes to
`processBlock` on its own, which drops a block already processed and a block
whose parent is unknown, and otherwise hands it to the chain's `ReceiveBlock`.
A failed block is logged and the loop goes on with the next one.

The chain is a collaborator that changes what the next block is checked
against. It is a function from the node to the node after the call and the
error it returned. What regular sync relies on it for is `Keeps`: the hash
function and the finalized slot stay, no known block is forgotten, and a block
received without error is known afterwards. The calls made to it are the
effect of the loop and are kept in order in `RegSyncRun.calls`.

From that: no block is handed over again once the chain accepted it
(`regSyncLoop_calls_pairwise`), a parent-linked range whose first parent is
known ends with every block known (`regSyncLoop_known_of_chain`), and on a
range whose blocks past the processed prefix are all new, the block-by-block
path makes exactly the calls the batch path `processBatchedBlocks` makes at
once (`regSyncLoop_calls_eq_batch`).
-/

namespace Prysm.Sync.RegularSync

open Prysm.Types Prysm.Sync.InitialSync

/-- The errors `processBlock` returns. -/
inductive BlockError
  /-- `"slot: %d , root %#x: %w"` around `errBlockAlreadyProcessed`. -/
  | blockAlreadyProcessed (slot : U64) (root : Root)
  /-- `"%w: %#x"` around `errParentDoesNotExist`, with the parent root. -/
  | parentDoesNotExist (parent : Root)
  /-- The receiver's own error. -/
  | receiver (e : ℕ)
  deriving DecidableEq, Repr

/-- `blockReceiverFn`, here `s.chain.ReceiveBlock`: the node after the call,
and the error the call returned, if any. -/
abbrev BlockReceiver := InitSyncEnv → SignedBeaconBlock → Root → InitSyncEnv × Option ℕ

/-- `processBlock`: the node after the call and the error returned, if any. -/
def processBlock (env : InitSyncEnv) (blk : SignedBeaconBlock) (blockReceiver : BlockReceiver) :
    InitSyncEnv × Option BlockError :=
  let blkRoot := env.hashTreeRoot blk.block
  if isProcessedBlock env blk blkRoot then (env, some (.blockAlreadyProcessed blk.slot blkRoot))
  else
    let parentRoot := blk.block.parentRoot
    if !env.hasBlock parentRoot && !env.hasInitSyncBlock parentRoot then
      (env, some (.parentDoesNotExist parentRoot))
    else
      let (env', err) := blockReceiver env blk blkRoot
      (env', err.map .receiver)

/-- What the loop of `processFetchedDataRegSync` has done so far: the node,
the receiver calls with their block, root and success, and `invalidBlocks`. -/
structure RegSyncRun where
  /-- The node. -/
  env : InitSyncEnv
  /-- The calls of `blockReceiver`, in order: block, root, whether it returned no error. -/
  calls : List (SignedBeaconBlock × Root × Bool)
  /-- `invalidBlocks`: blocks dropped as processed or as orphans. -/
  invalidBlocks : ℕ

/-- The loop of `processFetchedDataRegSync` over `data.blocks`. -/
def regSyncLoop (blockReceiver : BlockReceiver) : RegSyncRun → List SignedBeaconBlock → RegSyncRun
  | run, [] => run
  | run, blk :: rest =>
    let blkRoot := run.env.hashTreeRoot blk.block
    let run' : RegSyncRun :=
      match processBlock run.env blk blockReceiver with
      | (env', some (.blockAlreadyProcessed _ _)) | (env', some (.parentDoesNotExist _)) =>
        { run with env := env', invalidBlocks := run.invalidBlocks + 1 }
      | (env', some (.receiver _)) => { run with env := env', calls := run.calls ++ [(blk, blkRoot, false)] }
      | (env', none) => { run with env := env', calls := run.calls ++ [(blk, blkRoot, true)] }
    regSyncLoop blockReceiver run' rest

/-- `processFetchedDataRegSync`: the run, and whether it logs "Range had no
valid blocks to process". -/
def processFetchedDataRegSync (env : InitSyncEnv) (blocks : List SignedBeaconBlock)
    (blockReceiver : BlockReceiver) : RegSyncRun × Bool :=
  let run := regSyncLoop blockReceiver ⟨env, [], 0⟩ blocks
  (run, blocks.length == run.invalidBlocks)

/-! ## What the chain does for regular sync -/

/-- A root is known when it is in the database or in the init-sync cache. -/
def known (env : InitSyncEnv) (r : Root) : Bool := env.hasBlock r || env.hasInitSyncBlock r

/-- What regular sync relies on `ReceiveBlock` for: the hash function and the
finalized slot stay, no known root is forgotten, and the root of a block
received without error is known afterwards. -/
structure Keeps (blockReceiver : BlockReceiver) : Prop where
  hashTreeRoot_eq : ∀ env b r, (blockReceiver env b r).1.hashTreeRoot = env.hashTreeRoot
  finalizedSlot_eq : ∀ env b r, (blockReceiver env b r).1.finalizedSlot = env.finalizedSlot
  known_mono : ∀ env b r x, known env x = true → known (blockReceiver env b r).1 x = true
  known_of_ok : ∀ env b r, (blockReceiver env b r).2 = none → known (blockReceiver env b r).1 r = true

/-- A receiver that learns no root but the one it receives. -/
def AddsOnly (blockReceiver : BlockReceiver) : Prop :=
  ∀ env b r x, known (blockReceiver env b r).1 x = true → known env x = true ∨ x = r

/-- A chain that saves every block it receives in its database. -/
def saveBlock : BlockReceiver := fun env _ r =>
  ({ env with hasBlock := fun x => x == r || env.hasBlock x }, none)

theorem saveBlock_keeps : Keeps saveBlock where
  hashTreeRoot_eq _ _ _ := rfl
  finalizedSlot_eq _ _ _ := rfl
  known_mono _ _ _ _ h := by
    simp only [saveBlock, known, Bool.or_eq_true] at h ⊢
    tauto
  known_of_ok _ _ _ _ := by simp [saveBlock, known]

theorem saveBlock_addsOnly : AddsOnly saveBlock := by
  intro env _ r x h
  simp only [saveBlock, known, Bool.or_eq_true, beq_iff_eq] at h ⊢
  tauto

/-- A node that has the block of root 100 at slot 0, finalized at slot 0, and
hashes a block to 100 plus its slot. -/
def genesisNode : InitSyncEnv where
  hashTreeRoot b := BitVec.ofNat 256 (b.slot.toNat + 100)
  headSlot := 0
  finalizedSlot := some 0
  hasBlock r := r == 100
  hasInitSyncBlock _ := false

/-- The blocks of slots 1 and 2 on top of it. -/
def slotOneBlock : SignedBeaconBlock := ⟨⟨1, 0, 100, 0⟩, 0⟩

def slotTwoBlock : SignedBeaconBlock := ⟨⟨2, 0, 101, 0⟩, 0⟩

/-! ## One block of the loop -/

section Step

variable {blockReceiver : BlockReceiver} {run : RegSyncRun} {blk : SignedBeaconBlock}
  {rest : List SignedBeaconBlock}

theorem isProcessedBlock_eq (env : InitSyncEnv) (blk : SignedBeaconBlock) (r : Root) :
    isProcessedBlock env blk r =
      match env.finalizedSlot with
      | none => false
      | some f => decide (blk.slot ≤ f) || known env r := by
  unfold isProcessedBlock known
  cases env.finalizedSlot <;> simp [Bool.or_assoc]

/-- With a finalized slot to compare with, an unprocessed block is unknown. -/
theorem known_eq_false_of_not_processed {env : InitSyncEnv} {r : Root} {f : U64}
    (hf : env.finalizedSlot = some f) (h : isProcessedBlock env blk r = false) : known env r = false := by
  rw [isProcessedBlock_eq, hf] at h
  simp only [Bool.or_eq_false_iff] at h
  exact h.2

/-- A processed block is dropped and counted. -/
theorem regSyncLoop_cons_of_processed
    (h : isProcessedBlock run.env blk (run.env.hashTreeRoot blk.block) = true) :
    regSyncLoop blockReceiver run (blk :: rest) =
      regSyncLoop blockReceiver { run with invalidBlocks := run.invalidBlocks + 1 } rest := by
  simp [regSyncLoop, processBlock, h]

/-- A block with an unknown parent is dropped and counted. -/
theorem regSyncLoop_cons_of_orphan
    (h : isProcessedBlock run.env blk (run.env.hashTreeRoot blk.block) = false)
    (hp : known run.env blk.block.parentRoot = false) :
    regSyncLoop blockReceiver run (blk :: rest) =
      regSyncLoop blockReceiver { run with invalidBlocks := run.invalidBlocks + 1 } rest := by
  simp only [known, Bool.or_eq_false_iff] at hp
  simp [regSyncLoop, processBlock, h, hp]

/-- Any other block goes to the receiver, and the call is recorded. -/
theorem regSyncLoop_cons_of_receive
    (h : isProcessedBlock run.env blk (run.env.hashTreeRoot blk.block) = false)
    (hp : known run.env blk.block.parentRoot = true) :
    regSyncLoop blockReceiver run (blk :: rest) =
      regSyncLoop blockReceiver
        ⟨(blockReceiver run.env blk (run.env.hashTreeRoot blk.block)).1,
          run.calls ++ [(blk, run.env.hashTreeRoot blk.block,
            (blockReceiver run.env blk (run.env.hashTreeRoot blk.block)).2.isNone)],
          run.invalidBlocks⟩ rest := by
  have hp' : (!run.env.hasBlock blk.block.parentRoot && !run.env.hasInitSyncBlock blk.block.parentRoot) =
      false := by
    simp only [known, Bool.or_eq_true] at hp
    rcases hp with hp | hp <;> simp [hp]
  rcases hr : blockReceiver run.env blk (run.env.hashTreeRoot blk.block) with ⟨env', _ | e⟩ <;>
    simp [regSyncLoop, processBlock, h, hp', hr]

end Step

/-- Every block is dropped (as processed, or as an orphan) or handed to the
receiver. -/
theorem regSyncLoop_cons_cases (blockReceiver : BlockReceiver) (run : RegSyncRun)
    (blk : SignedBeaconBlock) (rest : List SignedBeaconBlock) :
    ((isProcessedBlock run.env blk (run.env.hashTreeRoot blk.block) = true ∨
        known run.env blk.block.parentRoot = false) ∧
      regSyncLoop blockReceiver run (blk :: rest) =
        regSyncLoop blockReceiver { run with invalidBlocks := run.invalidBlocks + 1 } rest) ∨
    (isProcessedBlock run.env blk (run.env.hashTreeRoot blk.block) = false ∧
      known run.env blk.block.parentRoot = true ∧
      regSyncLoop blockReceiver run (blk :: rest) =
        regSyncLoop blockReceiver
          ⟨(blockReceiver run.env blk (run.env.hashTreeRoot blk.block)).1,
            run.calls ++ [(blk, run.env.hashTreeRoot blk.block,
              (blockReceiver run.env blk (run.env.hashTreeRoot blk.block)).2.isNone)],
            run.invalidBlocks⟩ rest) := by
  cases h : isProcessedBlock run.env blk (run.env.hashTreeRoot blk.block)
  · cases hp : known run.env blk.block.parentRoot
    · exact .inl ⟨.inr rfl, regSyncLoop_cons_of_orphan h hp⟩
    · exact .inr ⟨rfl, rfl, regSyncLoop_cons_of_receive h hp⟩
  · exact .inl ⟨.inl rfl, regSyncLoop_cons_of_processed h⟩

/-! ## Whole runs -/

section Runs

variable {blockReceiver : BlockReceiver}

/-- Over a whole run the hash function and the finalized slot stay, and every
known root stays known. -/
theorem regSyncLoop_preserves (hk : Keeps blockReceiver) (blks : List SignedBeaconBlock) :
    ∀ run, (regSyncLoop blockReceiver run blks).env.hashTreeRoot = run.env.hashTreeRoot ∧
      (regSyncLoop blockReceiver run blks).env.finalizedSlot = run.env.finalizedSlot ∧
      ∀ x, known run.env x = true → known (regSyncLoop blockReceiver run blks).env x = true := by
  induction blks with
  | nil => intro run; exact ⟨rfl, rfl, fun _ h => h⟩
  | cons blk rest ih =>
    intro run
    rcases regSyncLoop_cons_cases blockReceiver run blk rest
      with ⟨-, hstep⟩ | ⟨-, -, hstep⟩ <;> rw [hstep]
    · exact ih _
    · obtain ⟨h1, h2, h3⟩ := ih ⟨(blockReceiver run.env blk (run.env.hashTreeRoot blk.block)).1, _, _⟩
      exact ⟨h1.trans (hk.hashTreeRoot_eq _ _ _), h2.trans (hk.finalizedSlot_eq _ _ _),
        fun x hx => h3 x (hk.known_mono _ _ _ x hx)⟩

/-- Once the chain accepted a block, no later call in the run hands over its
root again: the loop's state form of `regSyncLoop_calls_pairwise`. -/
theorem regSyncLoop_calls_pairwise_of (hk : Keeps blockReceiver) (blks : List SignedBeaconBlock) :
    ∀ run, run.env.finalizedSlot.isSome →
      (∀ c ∈ run.calls, c.2.2 = true → known run.env c.2.1 = true) →
      run.calls.Pairwise (fun a b => a.2.2 = true → b.2.1 ≠ a.2.1) →
      (regSyncLoop blockReceiver run blks).calls.Pairwise (fun a b => a.2.2 = true → b.2.1 ≠ a.2.1) := by
  induction blks with
  | nil => intro run _ _ hp; exact hp
  | cons blk rest ih =>
    intro run hf hknown hp
    rcases regSyncLoop_cons_cases blockReceiver run blk rest
      with ⟨-, hstep⟩ | ⟨hnew, -, hstep⟩ <;> rw [hstep]
    · exact ih _ hf hknown hp
    · obtain ⟨f, hf'⟩ := Option.isSome_iff_exists.mp hf
      have hunknown := known_eq_false_of_not_processed hf' hnew
      refine ih _ (by rw [hk.finalizedSlot_eq]; exact hf) ?_ ?_
      · intro c hc hok
        rcases List.mem_append.mp hc with hc | hc
        · exact hk.known_mono _ _ _ _ (hknown c hc hok)
        · rw [List.mem_singleton.mp hc] at hok ⊢
          exact hk.known_of_ok _ _ _ (Option.isNone_iff_eq_none.mp hok)
      · refine List.pairwise_append.mpr ⟨hp, List.pairwise_singleton _ _, fun a ha b hb hok heq => ?_⟩
        rw [List.mem_singleton.mp hb] at heq
        have := hknown a ha hok
        rw [← heq, hunknown] at this
        exact Bool.false_ne_true this

/-- Regular sync never hands the chain a block again once the chain accepted
it, as long as the finalized slot can be computed. -/
theorem regSyncLoop_calls_pairwise (hk : Keeps blockReceiver) (env : InitSyncEnv)
    (hf : env.finalizedSlot.isSome) (blocks : List SignedBeaconBlock) :
    (processFetchedDataRegSync env blocks blockReceiver).1.calls.Pairwise
      fun a b => a.2.2 = true → b.2.1 ≠ a.2.1 :=
  regSyncLoop_calls_pairwise_of hk blocks _ hf (by simp) List.Pairwise.nil

theorem regSyncLoop_calls_pairwise_repeatedBlock :
    Keeps saveBlock ∧ genesisNode.finalizedSlot.isSome ∧
      (processFetchedDataRegSync genesisNode [slotOneBlock, slotOneBlock, slotTwoBlock] saveBlock).1.calls.Pairwise
        fun a b => a.2.2 = true → b.2.1 ≠ a.2.1 :=
  ⟨saveBlock_keeps, rfl, regSyncLoop_calls_pairwise saveBlock_keeps genesisNode rfl _⟩

/-- Without a finalized slot `isProcessedBlock` answers `false`, and the same
block is handed over twice. -/
example : ((processFetchedDataRegSync { genesisNode with finalizedSlot := none } [slotOneBlock, slotOneBlock]
    saveBlock).1.calls.map (·.2.1)) = [101, 101] := by decide

/-- The step at a block whose parent is known, with a receiver that never
fails: afterwards the block is known, whether it was handed over or dropped as
processed. -/
theorem regSyncLoop_cons_known (hk : Keeps blockReceiver) (hok : ∀ env b r, (blockReceiver env b r).2 = none)
    {run : RegSyncRun} {blk : SignedBeaconBlock} {f : U64} (hf : run.env.finalizedSlot = some f)
    (hp : known run.env blk.block.parentRoot = true)
    (hblk : f < blk.slot ∨ known run.env (run.env.hashTreeRoot blk.block) = true) (rest : List SignedBeaconBlock) :
    ∃ run', regSyncLoop blockReceiver run (blk :: rest) = regSyncLoop blockReceiver run' rest ∧
      run'.env.hashTreeRoot = run.env.hashTreeRoot ∧ run'.env.finalizedSlot = some f ∧
      (∀ x, known run.env x = true → known run'.env x = true) ∧
      known run'.env (run.env.hashTreeRoot blk.block) = true := by
  rcases regSyncLoop_cons_cases blockReceiver run blk rest with ⟨hdrop, hstep⟩ | ⟨-, -, hstep⟩
  · refine ⟨_, hstep, rfl, hf, fun _ h => h, ?_⟩
    rcases hdrop with hproc | horphan
    · rw [isProcessedBlock_eq, hf] at hproc
      rcases hblk with hlt | hkn
      · simpa [BitVec.not_le.mpr hlt] using hproc
      · exact hkn
    · rw [hp] at horphan
      exact absurd horphan (by decide)
  · exact ⟨_, hstep, hk.hashTreeRoot_eq _ _ _, (hk.finalizedSlot_eq _ _ _).trans hf,
      hk.known_mono _ _ _, hk.known_of_ok _ _ _ (hok _ _ _)⟩

/-- The loop's state form of `regSyncLoop_known_of_chain`. -/
theorem regSyncLoop_known_of_chain_of (hk : Keeps blockReceiver)
    (hok : ∀ env b r, (blockReceiver env b r).2 = none) {h : BeaconBlock → Root} {f : U64}
    (blks : List SignedBeaconBlock) :
    ∀ run (b : SignedBeaconBlock), run.env.hashTreeRoot = h → run.env.finalizedSlot = some f →
      (b :: blks).Chain' (fun a c => c.block.parentRoot = h a.block) →
      known run.env b.block.parentRoot = true →
      (∀ x ∈ b :: blks, f < x.slot ∨ known run.env (h x.block) = true) →
      ∀ x ∈ b :: blks, known (regSyncLoop blockReceiver run (b :: blks)).env (h x.block) = true := by
  induction blks with
  | nil =>
    intro run b hh hf _ hp hnew x hx
    obtain ⟨run', hstep, -, -, -, hb⟩ :=
      regSyncLoop_cons_known hk hok hf hp (hh ▸ hnew b (List.mem_singleton_self b)) []
    rw [List.mem_singleton.mp hx, hstep, ← hh]
    exact hb
  | cons c rest ih =>
    intro run b hh hf hchain hp hnew x hx
    obtain ⟨run', hstep, hh', hf', hmono, hb⟩ :=
      regSyncLoop_cons_known hk hok hf hp (hh ▸ hnew b (List.mem_cons_self b _)) (c :: rest)
    rw [hh] at hh' hb
    have hc : c.block.parentRoot = h b.block := (List.chain'_cons.mp hchain).1
    have hrest := ih run' c hh' hf' (List.chain'_cons.mp hchain).2 (hc ▸ hb)
      fun y hy => (hnew y (List.mem_cons_of_mem b hy)).imp_right (hmono _)
    rw [hstep]
    rcases List.mem_cons.mp hx with rfl | hx
    · exact (regSyncLoop_preserves hk (c :: rest) run').2.2 _ hb
    · exact hrest x hx

/-- A parent-linked range whose first parent is known, with every block above
the finalized slot or already known, ends with every block known, when the
chain accepts every block it is handed. -/
theorem regSyncLoop_known_of_chain (hk : Keeps blockReceiver)
    (hok : ∀ env b r, (blockReceiver env b r).2 = none) (env : InitSyncEnv) {f : U64}
    (hf : env.finalizedSlot = some f) (b : SignedBeaconBlock) (blks : List SignedBeaconBlock)
    (hchain : (b :: blks).Chain' fun a c => c.block.parentRoot = env.hashTreeRoot a.block)
    (hparent : known env b.block.parentRoot = true)
    (hnew : ∀ x ∈ b :: blks, f < x.slot ∨ known env (env.hashTreeRoot x.block) = true) :
    ∀ x ∈ b :: blks,
      known (processFetchedDataRegSync env (b :: blks) blockReceiver).1.env (env.hashTreeRoot x.block) = true :=
  regSyncLoop_known_of_chain_of hk hok blks ⟨env, [], 0⟩ b rfl hf hchain hparent hnew

theorem regSyncLoop_known_of_chain_slotsOneTwo :
    Keeps saveBlock ∧ (∀ env b r, (saveBlock env b r).2 = none) ∧ genesisNode.finalizedSlot = some 0 ∧
      [slotOneBlock, slotTwoBlock].Chain' (fun a c => c.block.parentRoot = genesisNode.hashTreeRoot a.block) ∧
      known genesisNode slotOneBlock.block.parentRoot = true ∧
      (∀ x ∈ [slotOneBlock, slotTwoBlock], 0 < x.slot ∨ known genesisNode (genesisNode.hashTreeRoot x.block) = true) ∧
      ∀ x ∈ [slotOneBlock, slotTwoBlock],
        known (processFetchedDataRegSync genesisNode [slotOneBlock, slotTwoBlock] saveBlock).1.env
          (genesisNode.hashTreeRoot x.block) = true :=
  have hchain : [slotOneBlock, slotTwoBlock].Chain'
      (fun a c => c.block.parentRoot = genesisNode.hashTreeRoot a.block) := List.chain'_pair.mpr (by decide)
  have hnew : ∀ x ∈ [slotOneBlock, slotTwoBlock],
      0 < x.slot ∨ known genesisNode (genesisNode.hashTreeRoot x.block) = true := by decide
  ⟨saveBlock_keeps, fun _ _ _ => rfl, rfl, hchain, rfl, hnew,
    regSyncLoop_known_of_chain saveBlock_keeps (fun _ _ _ => rfl) genesisNode rfl slotOneBlock [slotTwoBlock]
      hchain rfl hnew⟩

end Runs

/-! ## The batch path and the block-by-block path -/

/-- What a call of the batch receiver tells about the batch: the blocks are
those left after the processed prefix, the first parent is known, the roots
are the blocks' roots, and each block names the one before as parent. -/
theorem received_of_processBatchedBlocks {env : InitSyncEnv} {blks blks' : List SignedBeaconBlock}
    {roots' : List Root} (h : processBatchedBlocks env blks = .received blks' roots') :
    ∃ b rest, blks' = b :: rest ∧ blks.dropWhile (skippable env) = b :: rest ∧
      known env b.block.parentRoot = true ∧ roots' = blks'.map (env.hashTreeRoot ·.block) ∧
      ParentLinked env.hashTreeRoot (env.hashTreeRoot b.block) rest := by
  cases blks with
  | nil => simp [processBatchedBlocks] at h
  | cons b0 rest0 =>
    simp only [processBatchedBlocks, skipProcessed_eq] at h
    generalize hd : (b0 :: rest0).dropWhile (skippable env) = suffix at h
    cases suffix with
    | nil => simp at h
    | cons b rest =>
      simp only at h
      split at h
      · simp at h
      · rename_i hpar
        cases hr : linkRoots env (env.hashTreeRoot b.block) rest with
        | error e => simp [hr] at h
        | ok rs =>
          simp only [hr, BatchOutcome.received.injEq] at h
          obtain ⟨rfl, rfl⟩ := h
          obtain ⟨hl, rfl⟩ := (linkRoots_eq_ok_iff _ _ _).mp hr
          exact ⟨b, rest, rfl, rfl, by simpa [known, or_iff_not_imp_left] using hpar, rfl, hl⟩

section Batch

variable {blockReceiver : BlockReceiver}

/-- The blocks the batch path drops from the front are dropped block by block
too, without a call. -/
theorem regSyncLoop_dropWhile (blks : List SignedBeaconBlock) :
    ∀ run, ∃ n, regSyncLoop blockReceiver run blks =
      regSyncLoop blockReceiver { run with invalidBlocks := n } (blks.dropWhile (skippable run.env)) := by
  induction blks with
  | nil => intro run; exact ⟨run.invalidBlocks, rfl⟩
  | cons b rest ih =>
    intro run
    cases hs : skippable run.env b
    · exact ⟨run.invalidBlocks, by simp [List.dropWhile_cons, hs]⟩
    · have hproc : isProcessedBlock run.env b (run.env.hashTreeRoot b.block) = true := by
        simp only [skippable, Bool.and_eq_true] at hs
        exact hs.2
      obtain ⟨n, hn⟩ := ih { run with invalidBlocks := run.invalidBlocks + 1 }
      exact ⟨n, by rw [regSyncLoop_cons_of_processed hproc, hn, List.dropWhile_cons, if_pos hs]⟩

/-- A block new to the node is new to a later view of it that agrees on roots and
finality and knows, beyond the node's roots, only roots of `R` other than the block's. -/
theorem isProcessedBlock_eq_false_of_known_iff {env env' : InitSyncEnv} {R : List Root}
    {b : SignedBeaconBlock} (hh : env'.hashTreeRoot = env.hashTreeRoot)
    (hf : env'.finalizedSlot = env.finalizedSlot)
    (hknown : ∀ x, known env' x = true ↔ known env x = true ∨ x ∈ R)
    (hb : isProcessedBlock env b (env.hashTreeRoot b.block) = false)
    (hr : env.hashTreeRoot b.block ∉ R) :
    isProcessedBlock env' b (env'.hashTreeRoot b.block) = false := by
  rw [isProcessedBlock_eq, hf, hh]
  rw [isProcessedBlock_eq] at hb
  cases hfs : env.finalizedSlot with
  | none => rfl
  | some f =>
    rw [hfs] at hb
    simp only [Bool.or_eq_false_iff] at hb ⊢
    refine ⟨hb.1, Bool.eq_false_iff.mpr fun hkr => ?_⟩
    rcases (hknown _).mp hkr with h | h
    · rw [h] at hb
      exact absurd hb.2 (by decide)
    · exact hr h

/-- A receiver that keeps what it knows, learns only the root it accepts, and accepts
every block, knows after one block the roots it knew and that block's. -/
theorem known_receive_iff (hk : Keeps blockReceiver) (hadd : AddsOnly blockReceiver)
    (hok : ∀ env b r, (blockReceiver env b r).2 = none) {env env' : InitSyncEnv} {R : List Root}
    (hknown : ∀ x, known env' x = true ↔ known env x = true ∨ x ∈ R) (b : SignedBeaconBlock)
    (r : Root) (x : Root) :
    known (blockReceiver env' b r).1 x = true ↔ known env x = true ∨ x ∈ R ++ [r] := by
  rw [List.mem_append, List.mem_singleton]
  constructor
  · intro hx
    rcases hadd _ _ _ _ hx with hx | rfl
    · exact ((hknown x).mp hx).imp_right .inl
    · exact .inr (.inr rfl)
  · rintro (hx | hx | rfl)
    · exact hk.known_mono _ _ _ _ ((hknown x).mpr (.inl hx))
    · exact hk.known_mono _ _ _ _ ((hknown x).mpr (.inr hx))
    · exact hk.known_of_ok _ _ _ (hok _ _ _)

/-- On blocks that are new to the node, distinct and parent-linked from a
known root, every block is handed over and accepted, in order. -/
theorem regSyncLoop_new_chain (hk : Keeps blockReceiver) (hadd : AddsOnly blockReceiver)
    (hok : ∀ env b r, (blockReceiver env b r).2 = none) {env : InitSyncEnv} (bs : List SignedBeaconBlock) :
    ∀ run (prev : Root) (R : List Root), run.env.hashTreeRoot = env.hashTreeRoot →
      run.env.finalizedSlot = env.finalizedSlot →
      (∀ x, known run.env x = true ↔ known env x = true ∨ x ∈ R) → known run.env prev = true →
      ParentLinked env.hashTreeRoot prev bs →
      (∀ b ∈ bs, isProcessedBlock env b (env.hashTreeRoot b.block) = false) →
      (R ++ bs.map (env.hashTreeRoot ·.block)).Nodup →
      (regSyncLoop blockReceiver run bs).calls = run.calls ++ bs.map fun b => (b, env.hashTreeRoot b.block, true) := by
  induction bs with
  | nil => intro run _ _ _ _ _ _ _ _ _; simp [regSyncLoop]
  | cons b bs ih =>
    intro run prev R hh hf hknown hprev hlinked hnew hnodup
    obtain ⟨hpar, hlinked⟩ := hlinked
    have hnodup' : (R ++ [env.hashTreeRoot b.block] ++ bs.map (env.hashTreeRoot ·.block)).Nodup := by
      simpa using hnodup
    have hrR : env.hashTreeRoot b.block ∉ R := fun hm =>
      (List.pairwise_append.mp hnodup).2.2 _ hm _ (List.mem_cons_self _ _) rfl
    have hproc := isProcessedBlock_eq_false_of_known_iff hh hf hknown
      (hnew b (List.mem_cons_self _ _)) hrR
    rw [regSyncLoop_cons_of_receive hproc (hpar ▸ hprev), hh, hok,
      ih _ (env.hashTreeRoot b.block) (R ++ [env.hashTreeRoot b.block])
        ((hk.hashTreeRoot_eq _ _ _).trans hh) ((hk.finalizedSlot_eq _ _ _).trans hf)
        (known_receive_iff hk hadd hok hknown _ _) (hk.known_of_ok _ _ _ (hok _ _ _)) hlinked
        (fun x hx => hnew x (List.mem_cons_of_mem b hx)) hnodup']
    simp

/-- When the batch path hands a batch to `ReceiveBlockBatch`, and the blocks
it hands over are new to the node and have distinct roots, the block-by-block
path over the same fetched blocks hands the same blocks with the same roots to
a chain that saves each block it receives, one at a time, in the same order,
and each call succeeds. -/
theorem regSyncLoop_calls_eq_batch (hk : Keeps blockReceiver) (hadd : AddsOnly blockReceiver)
    (hok : ∀ env b r, (blockReceiver env b r).2 = none) (env : InitSyncEnv)
    {blks blks' : List SignedBeaconBlock} {roots' : List Root}
    (hb : processBatchedBlocks env blks = .received blks' roots')
    (hnew : ∀ x ∈ blks', isProcessedBlock env x (env.hashTreeRoot x.block) = false) (hnodup : roots'.Nodup) :
    (processFetchedDataRegSync env blks blockReceiver).1.calls = (blks'.zip roots').map fun p => (p.1, p.2, true) := by
  obtain ⟨b, rest, rfl, hdrop, hparent, rfl, hlinked⟩ := received_of_processBatchedBlocks hb
  obtain ⟨n, hloop⟩ := @regSyncLoop_dropWhile blockReceiver blks ⟨env, [], 0⟩
  have hzip := List.zip_map' id (env.hashTreeRoot ·.block) (b :: rest)
  rw [List.map_id] at hzip
  simp only [processFetchedDataRegSync]
  rw [hloop, hdrop, regSyncLoop_new_chain hk hadd hok (b :: rest) ⟨env, [], n⟩ b.block.parentRoot [] rfl rfl
    (by simp) hparent ⟨rfl, hlinked⟩ hnew (by simpa using hnodup), hzip, List.map_map]
  rfl

theorem regSyncLoop_calls_eq_batch_slotsOneTwo :
    Keeps saveBlock ∧ AddsOnly saveBlock ∧ (∀ env b r, (saveBlock env b r).2 = none) ∧
      processBatchedBlocks genesisNode [slotOneBlock, slotTwoBlock] =
        .received [slotOneBlock, slotTwoBlock] [101, 102] ∧
      (∀ x ∈ [slotOneBlock, slotTwoBlock], isProcessedBlock genesisNode x (genesisNode.hashTreeRoot x.block) = false) ∧
      [(101 : Root), 102].Nodup ∧
      (processFetchedDataRegSync genesisNode [slotOneBlock, slotTwoBlock] saveBlock).1.calls =
        ([slotOneBlock, slotTwoBlock].zip [101, 102]).map fun p => (p.1, p.2, true) :=
  have hb : processBatchedBlocks genesisNode [slotOneBlock, slotTwoBlock] =
      .received [slotOneBlock, slotTwoBlock] [101, 102] := by decide
  have hnew : ∀ x ∈ [slotOneBlock, slotTwoBlock],
      isProcessedBlock genesisNode x (genesisNode.hashTreeRoot x.block) = false := by decide
  have hnodup : [(101 : Root), 102].Nodup := by decide
  ⟨saveBlock_keeps, saveBlock_addsOnly, fun _ _ _ => rfl, hb, hnew, hnodup,
    regSyncLoop_calls_eq_batch saveBlock_keeps saveBlock_addsOnly (fun _ _ _ => rfl) genesisNode hb hnew hnodup⟩

end Batch

end Prysm.Sync.RegularSync
