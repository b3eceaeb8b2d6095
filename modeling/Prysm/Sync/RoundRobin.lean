import Prysm.Sync.RegularSync

/-!
# Round-robin sync

`roundRobinSync`, `processFetchedData` and `highestFinalizedEpoch` of
`initial-sync/round_robin.go`, over what its two block queues fetch. The batches of
the first phase go through `processFetchedData`: `processBatchedBlocks`, then the
chain's `ReceiveBlockBatch`. Unless the head has reached the current slot, the
batches of the second phase go through `processFetchedDataRegSync`: `processBlock`,
then `ReceiveBlock`, block by block. The queues are not in the sources, so their output
is an input here. Either path logs its errors and goes on with the next batch.

Every block either path hands to the chain comes with its own root. It names as parent
a root the node knows at that moment, or the block handed just before it in the same
batch. So with a chain that keeps what it accepts and accepts what it is handed, the
node ends knowing every block it handed over and the parent of each, whatever the peers
sent: round-robin sync leaves no orphan behind.
-/

namespace Prysm.Sync.RoundRobin

open Prysm.Types Prysm.Sync.InitialSync Prysm.Sync.RegularSync

/-- `batchBlockReceiverFn`, here `s.chain.ReceiveBlockBatch`: the node after the call,
and the error the call returned, if any. -/
abbrev BatchReceiver := InitSyncEnv → List SignedBeaconBlock → List Root → InitSyncEnv × Option ℕ

/-- `processFetchedData`: the node after the call, and the blocks handed to the chain
with their roots. The error of `processBatchedBlocks` is only logged. -/
def processFetchedData (env : InitSyncEnv) (blocks : List SignedBeaconBlock)
    (batchReceiver : BatchReceiver) : InitSyncEnv × List (SignedBeaconBlock × Root) :=
  match processBatchedBlocks env blocks with
  | .error _ => (env, [])
  | .received blks roots => ((batchReceiver env blks roots).1, blks.zip roots)

/-- The first loop of `roundRobinSync`, `for data := range queue.fetchedData`. -/
def batchPhase (batchReceiver : BatchReceiver) :
    InitSyncEnv → List (List SignedBeaconBlock) → InitSyncEnv × List (SignedBeaconBlock × Root)
  | env, [] => (env, [])
  | env, data :: rest =>
    let step := processFetchedData env data batchReceiver
    let run := batchPhase batchReceiver step.1 rest
    (run.1, step.2 ++ run.2)

/-- The second loop of `roundRobinSync`. -/
def regSyncPhase (blockReceiver : BlockReceiver) :
    InitSyncEnv → List (List SignedBeaconBlock) → InitSyncEnv × List (SignedBeaconBlock × Root)
  | env, [] => (env, [])
  | env, data :: rest =>
    let step := (processFetchedDataRegSync env data blockReceiver).1
    let run := regSyncPhase blockReceiver step.env rest
    (run.1, step.calls.map (fun c => (c.1, c.2.1)) ++ run.2)

/-- `roundRobinSync` over the data the two queues fetch: the node at the end and the
blocks handed to the chain, in order. `currentSlot` is `helpers.SlotsSince(genesis)`
when the first phase ends. -/
def roundRobinSync (batchReceiver : BatchReceiver) (blockReceiver : BlockReceiver)
    (currentSlot : U64) (env : InitSyncEnv) (phase1 phase2 : List (List SignedBeaconBlock)) :
    InitSyncEnv × List (SignedBeaconBlock × Root) :=
  let first := batchPhase batchReceiver env phase1
  if first.1.headSlot = currentSlot then first
  else
    let second := regSyncPhase blockReceiver first.1 phase2
    (second.1, first.2 ++ second.2)

/-- One peer of the loop of `highestFinalizedEpoch`: what `Peers().ChainState(pid)`
answers, an error or the finalized epoch of its status (`none` for a nil status). -/
def keepHighest (highest : U64) : Except ℕ (Option U64) → U64
  | .ok (some e) => if e > highest then e else highest
  | _ => highest

/-- `highestFinalizedEpoch`, over the answers for the connected peers. -/
def highestFinalizedEpoch (chainStates : List (Except ℕ (Option U64))) : U64 :=
  chainStates.foldl keepHighest 0

/-- What round-robin sync relies on `ReceiveBlockBatch` for, as `Keeps` for
`ReceiveBlock`: the hash function and the finalized slot stay, no known root is
forgotten, and the roots of a batch received without error are known afterwards. -/
structure BatchKeeps (batchReceiver : BatchReceiver) : Prop where
  hashTreeRoot_eq : ∀ env bs rs, (batchReceiver env bs rs).1.hashTreeRoot = env.hashTreeRoot
  finalizedSlot_eq : ∀ env bs rs, (batchReceiver env bs rs).1.finalizedSlot = env.finalizedSlot
  known_mono : ∀ env bs rs x, known env x = true → known (batchReceiver env bs rs).1 x = true
  known_of_ok : ∀ env bs rs, (batchReceiver env bs rs).2 = none →
    ∀ r ∈ rs, known (batchReceiver env bs rs).1 r = true

/-! ## The peers' finalized epoch -/

theorem keepHighest_cases (a : U64) (st : Except ℕ (Option U64)) :
    a ≤ keepHighest a st ∧ (∀ e, st = .ok (some e) → e ≤ keepHighest a st) ∧
      (keepHighest a st = a ∨ st = .ok (some (keepHighest a st))) := by
  rcases st with _ | _ | e
  · exact ⟨BitVec.le_refl a, fun _ h => (nomatch h), .inl rfl⟩
  · exact ⟨BitVec.le_refl a, fun _ h => (nomatch h), .inl rfl⟩
  · simp only [keepHighest, Except.ok.injEq, Option.some.injEq, forall_eq']
    split_ifs with h
    · exact ⟨by bv_omega, BitVec.le_refl e, .inr rfl⟩
    · exact ⟨BitVec.le_refl a, by bv_omega, .inl rfl⟩

theorem highestFinalizedEpoch_foldl (l : List (Except ℕ (Option U64))) :
    ∀ a, a ≤ l.foldl keepHighest a ∧ (∀ e, .ok (some e) ∈ l → e ≤ l.foldl keepHighest a) ∧
      (l.foldl keepHighest a = a ∨ .ok (some (l.foldl keepHighest a)) ∈ l) := by
  induction l with
  | nil => intro a; exact ⟨BitVec.le_refl a, fun _ h => (nomatch h), .inl rfl⟩
  | cons st l ih =>
    intro a
    obtain ⟨k1, k2, k3⟩ := keepHighest_cases a st
    obtain ⟨h1, h2, h3⟩ := ih (keepHighest a st)
    rw [List.foldl_cons]
    refine ⟨by bv_omega, fun e he => ?_, ?_⟩
    · rcases List.mem_cons.mp he with he | he
      · have := k2 e he.symm
        bv_omega
      · exact h2 e he
    · rcases h3 with h3 | h3
      · rw [h3]
        rcases k3 with k3 | k3
        · exact .inl k3
        · rw [← k3]
          exact .inr (List.mem_cons_self _ _)
      · exact .inr (List.mem_cons_of_mem _ h3)

/-- `highestFinalizedEpoch` is the largest finalized epoch a connected peer reports,
and 0 when none reports one. -/
theorem highestFinalizedEpoch_spec (l : List (Except ℕ (Option U64))) :
    (∀ e, .ok (some e) ∈ l → e ≤ highestFinalizedEpoch l) ∧
      (highestFinalizedEpoch l = 0 ∨ .ok (some (highestFinalizedEpoch l)) ∈ l) :=
  (highestFinalizedEpoch_foldl l 0).2

/-! ## What each path hands to the chain -/

section Paths

variable {batchReceiver : BatchReceiver} {blockReceiver : BlockReceiver}

/-- Each block of a parent-linked run names as parent the root before the run or the
root of a block of the run. -/
theorem parent_of_parentLinked {root : BeaconBlock → Root} (bs : List SignedBeaconBlock) :
    ∀ prev, ParentLinked root prev bs →
      ∀ x ∈ bs, x.block.parentRoot = prev ∨ ∃ y ∈ bs, x.block.parentRoot = root y.block := by
  induction bs with
  | nil => intro _ _ x hx; cases hx
  | cons b bs ih =>
    intro prev ⟨hb, hl⟩ x hx
    rcases List.mem_cons.mp hx with rfl | hx
    · exact .inl hb
    · rcases ih _ hl x hx with h | ⟨y, hy, h⟩
      · exact .inr ⟨b, List.mem_cons_self _ _, h⟩
      · exact .inr ⟨y, List.mem_cons_of_mem _ hy, h⟩

/-- A batch the chain accepts leaves every block it holds known, with its parent. -/
theorem processFetchedData_handed (hb : BatchKeeps batchReceiver)
    (hbok : ∀ env bs rs, (batchReceiver env bs rs).2 = none) (env : InitSyncEnv)
    (data : List SignedBeaconBlock) :
    let step := processFetchedData env data batchReceiver
    step.1.hashTreeRoot = env.hashTreeRoot ∧ step.1.finalizedSlot = env.finalizedSlot ∧
      (∀ x, known env x = true → known step.1 x = true) ∧
      ∀ p ∈ step.2, p.2 = env.hashTreeRoot p.1.block ∧ known step.1 p.2 = true ∧
        known step.1 p.1.block.parentRoot = true := by
  simp only [processFetchedData]
  cases h : processBatchedBlocks env data with
  | error e => exact ⟨rfl, rfl, fun _ hx => hx, fun _ hp => (nomatch hp)⟩
  | received blks roots =>
    obtain ⟨b, rest, rfl, -, hpar, rfl, hlinked⟩ := received_of_processBatchedBlocks h
    dsimp only
    have hroot : ∀ y ∈ b :: rest,
        known (batchReceiver env (b :: rest) ((b :: rest).map (env.hashTreeRoot ·.block))).1
          (env.hashTreeRoot y.block) = true :=
      fun y hy => hb.known_of_ok _ _ _ (hbok _ _ _) _ (List.mem_map_of_mem _ hy)
    refine ⟨hb.hashTreeRoot_eq _ _ _, hb.finalizedSlot_eq _ _ _, hb.known_mono _ _ _, fun p hp => ?_⟩
    have hzip := List.zip_map' id (env.hashTreeRoot ·.block) (b :: rest)
    rw [List.map_id] at hzip
    rw [hzip, List.mem_map] at hp
    obtain ⟨x, hx, rfl⟩ := hp
    refine ⟨rfl, hroot x hx, ?_⟩
    show known _ x.block.parentRoot = true
    rcases parent_of_parentLinked (b :: rest) b.block.parentRoot ⟨rfl, hlinked⟩ x hx with h | ⟨y, hy, h⟩
    · rw [h]
      exact hb.known_mono _ _ _ _ hpar
    · rw [h]
      exact hroot y hy

/-- In a run of `processFetchedDataRegSync` with a chain that accepts every block, every
block handed over is known at the end, with its parent, and came with its own root. -/
theorem regSyncLoop_calls_known (hk : Keeps blockReceiver)
    (hok : ∀ env b r, (blockReceiver env b r).2 = none) (blks : List SignedBeaconBlock) :
    ∀ run, (∀ c ∈ run.calls, c.2.1 = run.env.hashTreeRoot c.1.block ∧ known run.env c.2.1 = true ∧
        known run.env c.1.block.parentRoot = true) →
      ∀ c ∈ (regSyncLoop blockReceiver run blks).calls,
        c.2.1 = run.env.hashTreeRoot c.1.block ∧
          known (regSyncLoop blockReceiver run blks).env c.2.1 = true ∧
          known (regSyncLoop blockReceiver run blks).env c.1.block.parentRoot = true := by
  induction blks with
  | nil => intro run h; exact h
  | cons blk rest ih =>
    intro run hcalls
    rcases regSyncLoop_cons_cases blockReceiver run blk rest with ⟨-, hstep⟩ | ⟨-, hpar, hstep⟩ <;>
      rw [hstep]
    · exact ih _ hcalls
    · have hh := hk.hashTreeRoot_eq run.env blk (run.env.hashTreeRoot blk.block)
      have hmono := hk.known_mono run.env blk (run.env.hashTreeRoot blk.block)
      refine fun c hc => (ih _ (fun c hc => ?_) c hc).imp_left (·.trans (by rw [hh]))
      dsimp only at hc ⊢
      rw [hh]
      rcases List.mem_append.mp hc with hc | hc
      · obtain ⟨h1, h2, h3⟩ := hcalls c hc
        exact ⟨h1, hmono _ h2, hmono _ h3⟩
      · rw [List.mem_singleton.mp hc]
        exact ⟨rfl, hk.known_of_ok _ _ _ (hok _ _ _), hmono _ hpar⟩

end Paths

/-! ## Whole phases -/

section Phases

variable {batchReceiver : BatchReceiver} {blockReceiver : BlockReceiver}

/-- Over the first phase the hash function and the finalized slot stay, known roots stay
known, and every block handed over ends known with its parent. -/
theorem batchPhase_handed (hb : BatchKeeps batchReceiver)
    (hbok : ∀ env bs rs, (batchReceiver env bs rs).2 = none) (batches : List (List SignedBeaconBlock)) :
    ∀ env, let run := batchPhase batchReceiver env batches
      run.1.hashTreeRoot = env.hashTreeRoot ∧ run.1.finalizedSlot = env.finalizedSlot ∧
        (∀ x, known env x = true → known run.1 x = true) ∧
        ∀ p ∈ run.2, p.2 = env.hashTreeRoot p.1.block ∧ known run.1 p.2 = true ∧
          known run.1 p.1.block.parentRoot = true := by
  induction batches with
  | nil => intro env; exact ⟨rfl, rfl, fun _ hx => hx, fun _ hp => (nomatch hp)⟩
  | cons data rest ih =>
    intro env
    obtain ⟨s1, s2, s3, s4⟩ := processFetchedData_handed hb hbok env data
    obtain ⟨r1, r2, r3, r4⟩ := ih (processFetchedData env data batchReceiver).1
    refine ⟨r1.trans s1, r2.trans s2, fun x hx => r3 x (s3 x hx), fun p hp => ?_⟩
    rcases List.mem_append.mp hp with hp | hp
    · obtain ⟨h1, h2, h3⟩ := s4 p hp
      exact ⟨h1, r3 _ h2, r3 _ h3⟩
    · obtain ⟨h1, h2, h3⟩ := r4 p hp
      exact ⟨h1.trans (by rw [s1]), h2, h3⟩

/-- The same over the second phase, with a chain that accepts every block. -/
theorem regSyncPhase_handed (hk : Keeps blockReceiver)
    (hok : ∀ env b r, (blockReceiver env b r).2 = none) (batches : List (List SignedBeaconBlock)) :
    ∀ env, let run := regSyncPhase blockReceiver env batches
      run.1.hashTreeRoot = env.hashTreeRoot ∧
        (∀ x, known env x = true → known run.1 x = true) ∧
        ∀ p ∈ run.2, p.2 = env.hashTreeRoot p.1.block ∧ known run.1 p.2 = true ∧
          known run.1 p.1.block.parentRoot = true := by
  induction batches with
  | nil => intro env; exact ⟨rfl, fun _ hx => hx, fun _ hp => (nomatch hp)⟩
  | cons data rest ih =>
    intro env
    obtain ⟨s1, -, s3⟩ := regSyncLoop_preserves hk data ⟨env, [], 0⟩
    have s4 := regSyncLoop_calls_known hk hok data ⟨env, [], 0⟩ (fun _ hc => (nomatch hc))
    obtain ⟨r1, r3, r4⟩ := ih (regSyncLoop blockReceiver ⟨env, [], 0⟩ data).env
    refine ⟨r1.trans s1, fun x hx => r3 x (s3 x hx), fun p hp => ?_⟩
    rcases List.mem_append.mp hp with hp | hp
    · obtain ⟨c, hc, rfl⟩ := List.mem_map.mp hp
      obtain ⟨h1, h2, h3⟩ := s4 c hc
      exact ⟨h1, r3 _ h2, r3 _ h3⟩
    · obtain ⟨h1, h2, h3⟩ := r4 p hp
      exact ⟨h1.trans (by rw [s1]), h2, h3⟩

end Phases

/-- Whatever the queues fetch in either phase, with chains that keep what they accept
and accept what they are handed, round-robin sync ends with the node knowing every block
it handed to the chain and that block's parent, and each block was handed with its own
root. -/
theorem roundRobinSync_no_orphans {batchReceiver : BatchReceiver} {blockReceiver : BlockReceiver}
    (hb : BatchKeeps batchReceiver) (hbok : ∀ env bs rs, (batchReceiver env bs rs).2 = none)
    (hk : Keeps blockReceiver) (hok : ∀ env b r, (blockReceiver env b r).2 = none)
    (currentSlot : U64) (env : InitSyncEnv) (phase1 phase2 : List (List SignedBeaconBlock)) :
    ∀ p ∈ (roundRobinSync batchReceiver blockReceiver currentSlot env phase1 phase2).2,
      p.2 = env.hashTreeRoot p.1.block ∧
        known (roundRobinSync batchReceiver blockReceiver currentSlot env phase1 phase2).1 p.2 = true ∧
        known (roundRobinSync batchReceiver blockReceiver currentSlot env phase1 phase2).1
          p.1.block.parentRoot = true := by
  obtain ⟨f1, -, -, f4⟩ := batchPhase_handed hb hbok phase1 env
  simp only [roundRobinSync]
  split_ifs
  · exact f4
  · obtain ⟨s1, s3, s4⟩ := regSyncPhase_handed hk hok phase2 (batchPhase batchReceiver env phase1).1
    intro p hp
    rcases List.mem_append.mp hp with hp | hp
    · obtain ⟨h1, h2, h3⟩ := f4 p hp
      exact ⟨h1, s3 _ h2, s3 _ h3⟩
    · obtain ⟨h1, h2, h3⟩ := s4 p hp
      exact ⟨h1.trans (by rw [f1]), h2, h3⟩

/-- A chain that saves every batch it receives in its database. -/
def saveBatch : BatchReceiver := fun env _ rs =>
  ({ env with hasBlock := fun x => rs.contains x || env.hasBlock x }, none)

theorem saveBatch_batchKeeps : BatchKeeps saveBatch where
  hashTreeRoot_eq _ _ _ := rfl
  finalizedSlot_eq _ _ _ := rfl
  known_mono _ _ _ _ h := by
    simp only [saveBatch, known, Bool.or_eq_true] at h ⊢
    tauto
  known_of_ok _ _ _ _ r hr := by simp [saveBatch, known, hr]

theorem roundRobinSync_no_orphans_slotsOneTwo :
    BatchKeeps saveBatch ∧ (∀ env bs rs, (saveBatch env bs rs).2 = none) ∧ Keeps saveBlock ∧
      (∀ env b r, (saveBlock env b r).2 = none) ∧
      ∀ p ∈ (roundRobinSync saveBatch saveBlock 5 genesisNode [[slotOneBlock]] [[slotTwoBlock]]).2,
        p.2 = genesisNode.hashTreeRoot p.1.block ∧
          known (roundRobinSync saveBatch saveBlock 5 genesisNode [[slotOneBlock]] [[slotTwoBlock]]).1
            p.2 = true ∧
          known (roundRobinSync saveBatch saveBlock 5 genesisNode [[slotOneBlock]] [[slotTwoBlock]]).1
            p.1.block.parentRoot = true :=
  ⟨saveBatch_batchKeeps, fun _ _ _ => rfl, saveBlock_keeps, fun _ _ _ => rfl,
    roundRobinSync_no_orphans saveBatch_batchKeeps (fun _ _ _ => rfl) saveBlock_keeps (fun _ _ _ => rfl)
      5 genesisNode [[slotOneBlock]] [[slotTwoBlock]]⟩

end Prysm.Sync.RoundRobin
