import Prysm.Types
import Mathlib.Data.List.Basic

/-!
# Gossip admission of blocks

`validateBeaconBlockPubSub` and `validateBeaconBlock` of the sync service, with
the seen, bad-block and pending caches they read and write. Messages are
validated one at a time (`validateBlockLock`), so a run is a fold of the
validation step over the messages. What the node's other services answer (the
database, the clock, the fork choice, the state generator, signature and
proposer checks) may change from one message to the next: each message comes
with its own answers. The caches are not evicted from here.

The step reads the seen cache and never writes it, and it checks the parent's
root against the bad-block cache but never the block's own root. The seen cache
is written by the block subscriber, which gets each peer's block once validation
accepts it; with the subscriber, at most one peer's block per slot and proposer
is accepted along any run, and every later one is ignored.
-/

namespace Prysm.Sync.GossipBlocks

open Prysm.Types

/-- The caches of the sync service that gossip validation touches. -/
structure GossipState where
  /-- Keys `(slot, proposerIndex)` of `seenBlockCache`. -/
  seenBlocks : List (U64 × U64)
  /-- Keys of `badBlockCache`. -/
  badBlocks : List Root
  /-- Roots marked in `seenPendingBlocks`. -/
  seenPending : List Root
  deriving DecidableEq, Repr

/-- `pubsub.ValidationResult`. -/
inductive ValidationResult
  | accept
  | reject
  | ignore
  deriving DecidableEq, Repr

/-- What the rest of the node answers while one message is validated. -/
structure GossipAnswers where
  /-- `pid == s.p2p.PeerID()`: the node's own message. -/
  fromSelf : Bool
  /-- `s.initialSync.Syncing()`. -/
  syncing : Bool
  /-- The decoded message when it is a signed block with a non-nil block. -/
  decoded : Option SignedBeaconBlock
  /-- `s.db.HasBlock(ctx, root)`. -/
  dbHasBlock : Root → Bool
  /-- `helpers.VerifySlotTime` passes. -/
  slotTimeOk : Bool
  /-- `captureArrivalTimeMetric` passes. -/
  arrivalTimeOk : Bool
  /-- `helpers.StartSlot(s.chain.FinalizedCheckpt().Epoch)`; `none` is its error. -/
  finalizedSlot : Option U64
  /-- `s.insertBlockToPendingQueue` succeeds. -/
  insertPendingOk : Bool
  /-- `ctx.Err() == nil` when a block would be marked bad. -/
  ctxLive : Bool
  /-- `s.chain.VerifyBlkDescendant` passes. -/
  descendantOk : Bool
  /-- `s.db.HasStateSummary` for the parent. -/
  hasStateSummaryDB : Bool
  /-- `s.stateSummaryCache.Has` for the parent. -/
  hasStateSummaryCache : Bool
  /-- `s.stateGen.RecoverStateSummary` succeeds. -/
  recoverStateSummaryOk : Bool
  /-- `s.stateGen.StateByRoot` succeeds. -/
  stateByRootOk : Bool
  /-- `blocks.VerifyBlockSignature` passes. -/
  signatureOk : Bool
  /-- `state.ProcessSlots` succeeds. -/
  processSlotsOk : Bool
  /-- `helpers.BeaconProposerIndex`; `none` is its error. -/
  proposerIndex : Option U64

/-- `hasSeenBlockIndexSlot`. -/
def hasSeenBlockIndexSlot (st : GossipState) (slot proposerIdx : U64) : Bool :=
  decide ((slot, proposerIdx) ∈ st.seenBlocks)

/-- `setSeenBlockIndexSlot`. -/
def setSeenBlockIndexSlot (st : GossipState) (slot proposerIdx : U64) : GossipState :=
  { st with seenBlocks := (slot, proposerIdx) :: st.seenBlocks }

/-- `hasBadBlock`. -/
def hasBadBlock (st : GossipState) (root : Root) : Bool := decide (root ∈ st.badBlocks)

/-- `setBadBlock`: nothing is marked when the context is done. -/
def setBadBlock (a : GossipAnswers) (st : GossipState) (root : Root) : GossipState :=
  if a.ctxLive then { st with badBlocks := root :: st.badBlocks } else st

/-- Modelled from the spec: `insertBlockToPendingQueue` parks the block under
its root, which the validator then finds in `seenPendingBlocks`. -/
def insertBlockToPendingQueue (st : GossipState) (root : Root) : GossipState :=
  { st with seenPending := root :: st.seenPending }

/-- `validateBeaconBlock`: the checks against the parent state. The result is
whether the block passed; a failed descendant, signature or proposer check
marks the block bad. -/
def validateBeaconBlock (a : GossipAnswers) (st : GossipState) (blk : SignedBeaconBlock)
    (blockRoot : Root) : GossipState × Bool :=
  if ¬a.descendantOk then (setBadBlock a st blockRoot, false)
  else if ¬a.hasStateSummaryDB ∧ ¬a.hasStateSummaryCache ∧ ¬a.recoverStateSummaryOk then
    (st, false)
  else if ¬a.stateByRootOk then (st, false)
  else if ¬a.signatureOk then (setBadBlock a st blockRoot, false)
  else if ¬a.processSlotsOk then (st, false)
  else
    match a.proposerIndex with
    | none => (st, false)
    | some idx =>
      if blk.block.proposerIndex ≠ idx then (setBadBlock a st blockRoot, false) else (st, true)

/-- The checks of `validateBeaconBlockPubSub` from the clock on, for a block
of another node that is new and whose parent is not known to be bad. -/
def validateTimelyBlock (a : GossipAnswers) (st : GossipState) (blk : SignedBeaconBlock)
    (blockRoot : Root) : GossipState × ValidationResult :=
  if ¬a.slotTimeOk then (st, .ignore)
  else if ¬a.arrivalTimeOk then (st, .ignore)
  else
    match a.finalizedSlot with
    | none => (st, .ignore)
    | some startSlot =>
      if startSlot ≥ blk.block.slot then (st, .ignore)
      else if ¬a.dbHasBlock blk.block.parentRoot then
        if a.insertPendingOk then (insertBlockToPendingQueue st blockRoot, .ignore)
        else (st, .ignore)
      else
        let checked := validateBeaconBlock a st blk blockRoot
        (checked.1, if checked.2 then .accept else .reject)

/-- The checks of `validateBeaconBlockPubSub` on a decoded block of another
node: the seen, database, bad-parent and pending checks, then the rest. -/
def validatePeerBlock (root : BeaconBlock → Root) (a : GossipAnswers) (st : GossipState)
    (blk : SignedBeaconBlock) : GossipState × ValidationResult :=
  let blockRoot := root blk.block
  if hasSeenBlockIndexSlot st blk.block.slot blk.block.proposerIndex then (st, .ignore)
  else if a.dbHasBlock blockRoot then (st, .ignore)
  else if hasBadBlock st blk.block.parentRoot then (setBadBlock a st blockRoot, .reject)
  else if blockRoot ∈ st.seenPending then (st, .ignore)
  else validateTimelyBlock a st blk blockRoot

/-- `validateBeaconBlockPubSub`, under `validateBlockLock`, with the block's
hash-tree root given by `root`. -/
def validateBeaconBlockPubSub (root : BeaconBlock → Root) (a : GossipAnswers)
    (st : GossipState) : GossipState × ValidationResult :=
  if a.fromSelf then (st, .accept)
  else if a.syncing then (st, .ignore)
  else
    match a.decoded with
    | none => (st, .reject)
    | some blk => validatePeerBlock root a st blk

/-- Messages validated one after another: the caches after the last one, and
each message's result in order. -/
def gossipRun (root : BeaconBlock → Root) : GossipState → List GossipAnswers →
    GossipState × List ValidationResult
  | st, [] => (st, [])
  | st, a :: as =>
    let step := validateBeaconBlockPubSub root a st
    let rest := gossipRun root step.1 as
    (rest.1, step.2 :: rest.2)

section Step

variable {root : BeaconBlock → Root} {a : GossipAnswers} {st : GossipState}

theorem setBadBlock_seenBlocks (r : Root) : (setBadBlock a st r).seenBlocks = st.seenBlocks := by
  unfold setBadBlock; split <;> rfl

theorem setBadBlock_badBlocks_subset (r : Root) : st.badBlocks ⊆ (setBadBlock a st r).badBlocks := by
  unfold setBadBlock; split
  · exact List.subset_cons_self _ _
  · exact List.Subset.refl _

/-- The parent-state checks leave the seen cache as it was and only add to the
bad cache. -/
theorem validateBeaconBlock_caches (blk : SignedBeaconBlock) (r : Root) :
    (validateBeaconBlock a st blk r).1.seenBlocks = st.seenBlocks ∧
      st.badBlocks ⊆ (validateBeaconBlock a st blk r).1.badBlocks := by
  unfold validateBeaconBlock
  split_ifs <;> (try split) <;> (try split_ifs) <;>
    first
    | exact ⟨rfl, List.Subset.refl _⟩
    | exact ⟨setBadBlock_seenBlocks _, setBadBlock_badBlocks_subset _⟩

/-- The checks from the clock on leave the seen cache as it was and only add
to the bad cache. -/
theorem validateTimelyBlock_caches (blk : SignedBeaconBlock) (r : Root) :
    (validateTimelyBlock a st blk r).1.seenBlocks = st.seenBlocks ∧
      st.badBlocks ⊆ (validateTimelyBlock a st blk r).1.badBlocks := by
  unfold validateTimelyBlock
  split_ifs <;> (try split) <;> (try split_ifs) <;>
    first
    | exact ⟨rfl, List.Subset.refl _⟩
    | exact validateBeaconBlock_caches _ _

/-- One validation leaves the seen cache as it was and only adds to the bad
cache: no path through it records a `(slot, proposerIndex)` as seen. -/
theorem validateBeaconBlockPubSub_caches :
    (validateBeaconBlockPubSub root a st).1.seenBlocks = st.seenBlocks ∧
      st.badBlocks ⊆ (validateBeaconBlockPubSub root a st).1.badBlocks := by
  unfold validateBeaconBlockPubSub validatePeerBlock
  split_ifs <;> (try split) <;> (try dsimp only) <;> (try split_ifs) <;>
    first
    | exact ⟨rfl, List.Subset.refl _⟩
    | exact ⟨setBadBlock_seenBlocks _, setBadBlock_badBlocks_subset _⟩
    | exact validateTimelyBlock_caches _ _

/-- A block whose parent is in the bad cache is not accepted, unless the
message is the node's own. -/
theorem validateBeaconBlockPubSub_ne_accept_of_bad_parent (hself : a.fromSelf = false)
    {blk : SignedBeaconBlock} (hblk : a.decoded = some blk)
    (hbad : blk.block.parentRoot ∈ st.badBlocks) :
    (validateBeaconBlockPubSub root a st).2 ≠ .accept := by
  have hb : hasBadBlock st blk.block.parentRoot = true := by simp [hasBadBlock, hbad]
  simp only [validateBeaconBlockPubSub, hself, hblk, validatePeerBlock, hb, Bool.false_eq_true,
    if_false, if_true]
  split_ifs <;> simp

end Step

section Run

variable {root : BeaconBlock → Root}

@[simp] theorem gossipRun_nil (st : GossipState) : gossipRun root st [] = (st, []) := rfl

theorem gossipRun_cons (st : GossipState) (a : GossipAnswers) (as : List GossipAnswers) :
    gossipRun root st (a :: as) =
      ((gossipRun root (validateBeaconBlockPubSub root a st).1 as).1,
        (validateBeaconBlockPubSub root a st).2 ::
          (gossipRun root (validateBeaconBlockPubSub root a st).1 as).2) := rfl

/-- A run leaves the seen cache as it was and only adds to the bad cache. -/
theorem gossipRun_caches (msgs : List GossipAnswers) :
    ∀ st, (gossipRun root st msgs).1.seenBlocks = st.seenBlocks ∧
      st.badBlocks ⊆ (gossipRun root st msgs).1.badBlocks := by
  induction msgs with
  | nil => intro st; exact ⟨rfl, List.Subset.refl _⟩
  | cons a as ih =>
    intro st
    obtain ⟨hs, hb⟩ := @validateBeaconBlockPubSub_caches root a st
    obtain ⟨hs', hb'⟩ := ih (validateBeaconBlockPubSub root a st).1
    exact ⟨hs'.trans hs, List.Subset.trans hb hb'⟩

/-- Running over `l₁ ++ l₂` runs `l₂` from where `l₁` left the caches. -/
theorem gossipRun_append (st : GossipState) (l₁ l₂ : List GossipAnswers) :
    gossipRun root st (l₁ ++ l₂) =
      ((gossipRun root (gossipRun root st l₁).1 l₂).1,
        (gossipRun root st l₁).2 ++ (gossipRun root (gossipRun root st l₁).1 l₂).2) := by
  induction l₁ generalizing st with
  | nil => rfl
  | cons a as ih => simp [gossipRun_cons, ih]

/-- The result of message `j` is its validation against the caches the
messages before it left. -/
theorem gossipRun_getElem? (msgs : List GossipAnswers) :
    ∀ (st : GossipState) (j : ℕ) (a : GossipAnswers), msgs[j]? = some a →
      (gossipRun root st msgs).2[j]? =
        some (validateBeaconBlockPubSub root a (gossipRun root st (msgs.take j)).1).2 := by
  induction msgs with
  | nil => intro st j a ha; simp at ha
  | cons m ms ih =>
    intro st j a ha
    cases j with
    | zero =>
      simp only [List.getElem?_cons_zero, Option.some.injEq] at ha
      simp [ha, gossipRun_cons]
    | succ j =>
      simp only [List.getElem?_cons_succ] at ha
      simpa [gossipRun_cons] using ih _ j a ha

/-- The bad cache only grows along a run: what it held after the first `i`
messages it still holds after the first `j ≥ i`. -/
theorem gossipRun_take_badBlocks_mono (st : GossipState) (msgs : List GossipAnswers) {i j : ℕ}
    (hij : i ≤ j) :
    (gossipRun root st (msgs.take i)).1.badBlocks ⊆ (gossipRun root st (msgs.take j)).1.badBlocks := by
  have htake : msgs.take j = msgs.take i ++ (msgs.take j).drop i := by
    conv_lhs => rw [← List.take_append_drop i (msgs.take j)]
    rw [List.take_take, min_eq_left hij]
  rw [htake, gossipRun_append]
  exact (gossipRun_caches _ _).2

/-- Along any run of gossip validation, with live contexts and no eviction, a
block of another node is never accepted once its parent's root is in the
bad-block cache: at its arrival, or at any point of the run before it. -/
theorem gossipRun_never_accepts_child_of_bad (st : GossipState) (msgs : List GossipAnswers)
    {i j : ℕ} (hij : i ≤ j) {a : GossipAnswers} (ha : msgs[j]? = some a)
    (hself : a.fromSelf = false) {blk : SignedBeaconBlock} (hblk : a.decoded = some blk)
    (hbad : blk.block.parentRoot ∈ (gossipRun root st (msgs.take i)).1.badBlocks) :
    (gossipRun root st msgs).2[j]? ≠ some .accept := by
  rw [gossipRun_getElem? msgs st j a ha, Ne, Option.some.injEq]
  exact validateBeaconBlockPubSub_ne_accept_of_bad_parent hself hblk
    (gossipRun_take_badBlocks_mono st msgs hij hbad)

end Run

/-! ## Validation with the block subscriber -/

/-- A message as the node handles it: what the rest of the node answers while it is
validated, and what `ReceiveBlock` answers when the subscriber hands its block on. -/
structure Delivery where
  /-- The answers during validation. -/
  answers : GossipAnswers
  /-- `s.chain.ReceiveBlock` succeeds. -/
  receiveBlockOk : Bool

/-- Modelled from the spec: the block subscriber, `beaconBlockSubscriber`, is not in the
sources. The subscription loop skips the node's own messages and hands it each other
accepted block (`msg.ValidatorData`). It records the block's `(slot, proposerIndex)`
with `setSeenBlockIndexSlot`, hands the block to `ReceiveBlock`, and marks its root bad
when that fails. The spec makes the seen-cache update atomic with the accept, so the
subscriber runs before the next message is validated. -/
def beaconBlockSubscriber (root : BeaconBlock → Root) (d : Delivery) (st : GossipState)
    (blk : SignedBeaconBlock) : GossipState :=
  let seen := setSeenBlockIndexSlot st blk.block.slot blk.block.proposerIndex
  if d.receiveBlockOk then seen else setBadBlock d.answers seen (root blk.block)

/-- Validation of one message, then the subscriber when a peer's block is accepted. -/
def deliverBlock (root : BeaconBlock → Root) (d : Delivery) (st : GossipState) :
    GossipState × ValidationResult :=
  match validateBeaconBlockPubSub root d.answers st, d.answers.fromSelf, d.answers.decoded with
  | (validated, .accept), false, some blk => (beaconBlockSubscriber root d validated blk, .accept)
  | result, _, _ => result

/-- Messages validated and delivered one after another: the caches after the last one,
and each message's result in order. -/
def subscribedRun (root : BeaconBlock → Root) : GossipState → List Delivery →
    GossipState × List ValidationResult
  | st, [] => (st, [])
  | st, d :: ds =>
    let step := deliverBlock root d st
    let rest := subscribedRun root step.1 ds
    (rest.1, step.2 :: rest.2)

section Subscribed

variable {root : BeaconBlock → Root}

/-- A peer's block is ignored once its slot and proposer are in the seen cache, whatever
the node answers. -/
theorem validateBeaconBlockPubSub_ignore_of_seen {a : GossipAnswers} {st : GossipState}
    (hself : a.fromSelf = false) {blk : SignedBeaconBlock} (hblk : a.decoded = some blk)
    (hseen : (blk.block.slot, blk.block.proposerIndex) ∈ st.seenBlocks) :
    validateBeaconBlockPubSub root a st = (st, .ignore) := by
  have hs : hasSeenBlockIndexSlot st blk.block.slot blk.block.proposerIndex = true := by
    simp [hasSeenBlockIndexSlot, hseen]
  simp only [validateBeaconBlockPubSub, hself, hblk, validatePeerBlock, hs, Bool.false_eq_true,
    if_false, if_true]
  split_ifs <;> rfl

/-- The subscriber records the block's slot and proposer and keeps what was seen. -/
theorem seenBlocks_beaconBlockSubscriber (d : Delivery) (st : GossipState) (blk : SignedBeaconBlock) :
    (beaconBlockSubscriber root d st blk).seenBlocks =
      (blk.block.slot, blk.block.proposerIndex) :: st.seenBlocks := by
  unfold beaconBlockSubscriber
  split
  · rfl
  · exact setBadBlock_seenBlocks _

/-- Everything one delivery can do: a peer's accepted block goes to the subscriber;
otherwise the validation's caches and result stand. -/
theorem deliverBlock_cases (d : Delivery) (st : GossipState) :
    (d.answers.fromSelf = false ∧ ∃ blk, d.answers.decoded = some blk ∧
      (validateBeaconBlockPubSub root d.answers st).2 = .accept ∧
      deliverBlock root d st =
        (beaconBlockSubscriber root d (validateBeaconBlockPubSub root d.answers st).1 blk, .accept)) ∨
    ((d.answers.fromSelf = false → ∀ blk, d.answers.decoded = some blk →
        (validateBeaconBlockPubSub root d.answers st).2 ≠ .accept) ∧
      deliverBlock root d st = validateBeaconBlockPubSub root d.answers st) := by
  unfold deliverBlock
  rcases validateBeaconBlockPubSub root d.answers st with ⟨validated, res⟩
  cases hs : d.answers.fromSelf <;> cases hd : d.answers.decoded <;> cases res <;> simp

/-- A delivery only adds to the seen cache. -/
theorem seenBlocks_subset_deliverBlock (d : Delivery) (st : GossipState) :
    st.seenBlocks ⊆ (deliverBlock root d st).1.seenBlocks := by
  have hv := (@validateBeaconBlockPubSub_caches root d.answers st).1
  rcases @deliverBlock_cases root d st with ⟨-, blk, -, -, h⟩ | ⟨-, h⟩ <;> rw [h]
  · rw [seenBlocks_beaconBlockSubscriber, hv]
    exact List.subset_cons_self _ _
  · exact hv ▸ List.Subset.refl _

/-- A peer's block that is accepted has its slot and proposer in the seen cache after. -/
theorem mem_seenBlocks_deliverBlock {d : Delivery} {st : GossipState}
    (hself : d.answers.fromSelf = false) {blk : SignedBeaconBlock} (hblk : d.answers.decoded = some blk)
    (hacc : (deliverBlock root d st).2 = .accept) :
    (blk.block.slot, blk.block.proposerIndex) ∈ (deliverBlock root d st).1.seenBlocks := by
  rcases @deliverBlock_cases root d st with ⟨-, blk', hblk', -, h⟩ | ⟨hne, h⟩
  · rw [hblk] at hblk'
    cases hblk'
    rw [h, seenBlocks_beaconBlockSubscriber]
    exact List.mem_cons_self _ _
  · rw [h] at hacc
    exact absurd hacc (hne hself blk hblk)

@[simp] theorem subscribedRun_nil (st : GossipState) : subscribedRun root st [] = (st, []) := rfl

theorem subscribedRun_cons (st : GossipState) (d : Delivery) (ds : List Delivery) :
    subscribedRun root st (d :: ds) =
      ((subscribedRun root (deliverBlock root d st).1 ds).1,
        (deliverBlock root d st).2 :: (subscribedRun root (deliverBlock root d st).1 ds).2) := rfl

/-- Running over `l₁ ++ l₂` runs `l₂` from where `l₁` left the caches. -/
theorem subscribedRun_append (st : GossipState) (l₁ l₂ : List Delivery) :
    subscribedRun root st (l₁ ++ l₂) =
      ((subscribedRun root (subscribedRun root st l₁).1 l₂).1,
        (subscribedRun root st l₁).2 ++ (subscribedRun root (subscribedRun root st l₁).1 l₂).2) := by
  induction l₁ generalizing st with
  | nil => rfl
  | cons d ds ih => simp [subscribedRun_cons, ih]

/-- The result of message `j` is its delivery against the caches the messages before it
left. -/
theorem subscribedRun_getElem? (msgs : List Delivery) :
    ∀ (st : GossipState) (j : ℕ) (d : Delivery), msgs[j]? = some d →
      (subscribedRun root st msgs).2[j]? =
        some (deliverBlock root d (subscribedRun root st (msgs.take j)).1).2 := by
  induction msgs with
  | nil => intro st j d hd; simp at hd
  | cons m ms ih =>
    intro st j d hd
    cases j with
    | zero =>
      simp only [List.getElem?_cons_zero, Option.some.injEq] at hd
      simp [hd, subscribedRun_cons]
    | succ j =>
      simp only [List.getElem?_cons_succ] at hd
      simpa [subscribedRun_cons] using ih _ j d hd

/-- A run only adds to the seen cache. -/
theorem seenBlocks_subset_subscribedRun (msgs : List Delivery) :
    ∀ st, st.seenBlocks ⊆ (subscribedRun root st msgs).1.seenBlocks := by
  induction msgs with
  | nil => intro st; exact List.Subset.refl _
  | cons d ds ih =>
    intro st
    exact (seenBlocks_subset_deliverBlock d st).trans (ih _)

/-- The caches after the first `i + 1` messages are those the delivery of message `i`
leaves. -/
theorem subscribedRun_take_succ (st : GossipState) {msgs : List Delivery} {i : ℕ} {d : Delivery}
    (hi : msgs[i]? = some d) :
    (subscribedRun root st (msgs.take (i + 1))).1 =
      (deliverBlock root d (subscribedRun root st (msgs.take i)).1).1 := by
  rw [List.take_succ, hi, Option.toList_some, subscribedRun_append]
  rfl

/-- The seen cache only grows along a run. -/
theorem subscribedRun_take_seenBlocks_mono (st : GossipState) (msgs : List Delivery) {i j : ℕ}
    (hij : i ≤ j) :
    (subscribedRun root st (msgs.take i)).1.seenBlocks ⊆
      (subscribedRun root st (msgs.take j)).1.seenBlocks := by
  have htake : msgs.take j = msgs.take i ++ (msgs.take j).drop i := by
    conv_lhs => rw [← List.take_append_drop i (msgs.take j)]
    rw [List.take_take, min_eq_left hij]
  rw [htake, subscribedRun_append]
  exact seenBlocks_subset_subscribedRun _ _

end Subscribed

/-! ## Runs on fixed blocks -/

/-- A block at slot 5 by proposer 3, whose parent has root 1. -/
def gossipBlock : SignedBeaconBlock := ⟨⟨5, 3, 1, 0⟩, 0⟩

/-- Another block at slot 5 by proposer 3, with the same parent. -/
def equivocatingBlock : SignedBeaconBlock := ⟨⟨5, 3, 1, 1⟩, 0⟩

/-- Hash-tree roots that tell the two blocks apart. -/
def gossipRoot (b : BeaconBlock) : Root := BitVec.ofNat 256 (b.body + 100)

/-- Empty caches. -/
def emptyCaches : GossipState := ⟨[], [], []⟩

/-- The answers under which a peer's message of `blk` passes every check but
perhaps the signature: the node is synced, the parent (root 1) is in the
database and the block is not, the slot is timely and after the finalized one,
and the parent state gives proposer 3. -/
def passingAnswers (blk : SignedBeaconBlock) (signatureOk : Bool) : GossipAnswers where
  fromSelf := false
  syncing := false
  decoded := some blk
  dbHasBlock r := decide (r = 1)
  slotTimeOk := true
  arrivalTimeOk := true
  finalizedSlot := some 0
  insertPendingOk := true
  ctxLive := true
  descendantOk := true
  hasStateSummaryDB := true
  hasStateSummaryCache := true
  recoverStateSummaryOk := true
  stateByRootOk := true
  signatureOk := signatureOk
  processSlotsOk := true
  proposerIndex := some 3

/-- Only the parent's root is checked against the bad cache: a block marked
bad for its signature is accepted when it comes again with a signature check
that passes, although its own root is in the bad cache then. -/
theorem gossipRun_accepts_block_marked_bad :
    gossipRoot gossipBlock.block ∈
      (gossipRun gossipRoot emptyCaches [passingAnswers gossipBlock false]).1.badBlocks ∧
    (gossipRun gossipRoot emptyCaches [passingAnswers gossipBlock false,
      passingAnswers gossipBlock true]).2 = [.reject, .accept] := by
  decide

/-- A child of `gossipBlock`, at slot 6. -/
def childBlock : SignedBeaconBlock := ⟨⟨6, 3, gossipRoot gossipBlock.block, 2⟩, 0⟩

/-- `gossipBlock` fails its signature check and is marked bad; then its child
comes. -/
def badParentRun : List GossipAnswers :=
  [passingAnswers gossipBlock false, passingAnswers childBlock true]

theorem gossipRun_never_accepts_child_of_bad_badParentRun :
    1 ≤ 1 ∧ badParentRun[1]? = some (passingAnswers childBlock true) ∧
      (passingAnswers childBlock true).fromSelf = false ∧
      (passingAnswers childBlock true).decoded = some childBlock ∧
      childBlock.block.parentRoot ∈ (gossipRun gossipRoot emptyCaches (badParentRun.take 1)).1.badBlocks ∧
      (gossipRun gossipRoot emptyCaches badParentRun).2[1]? ≠ some .accept :=
  have hbad : childBlock.block.parentRoot ∈
      (gossipRun gossipRoot emptyCaches (badParentRun.take 1)).1.badBlocks := by decide
  ⟨le_rfl, rfl, rfl, rfl, hbad, gossipRun_never_accepts_child_of_bad _ _ le_rfl rfl rfl rfl hbad⟩

/-- `gossipBlock`, then `equivocatingBlock` of the same slot and proposer, both passing
every check and taken by the chain. -/
def equivocationDeliveries : List Delivery :=
  [⟨passingAnswers gossipBlock true, true⟩, ⟨passingAnswers equivocatingBlock true, true⟩]

end Prysm.Sync.GossipBlocks
