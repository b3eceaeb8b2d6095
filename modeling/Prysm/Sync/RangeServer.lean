import Prysm.Sync.BlocksByRange

/-!
# What the range server sends, over every run

Results about whole runs of `beaconBlocksByRangeRPCHandler`: the batching
loop visits exactly the closed-form windows and debits the request's count;
the blocks it writes are in range, on the grid and strictly increasing, so
the client accepts them; every canonical block on the grid is written unless
a broken chain cut the response short; and the chain check misses the first
block of every batch after the first. All of them need the current slot to
leave room for the loop's `uint64` slot updates (`SlotHeadroom`): without it
the updates wrap, and the loop serves slots from zero again.
-/

namespace Prysm.Sync.RangeServer

open Prysm.Types Prysm.Sync.RangeRequest Prysm.Sync.FilterBlocks Prysm.Sync.BlocksByRange

/-- No collaborator of the handler fails: rate limiter, store, fork-choice
lookups and stream. -/
structure NoFailures (env : RangeEnv) : Prop where
  topicCollector : env.topicCollectorOk = true
  rateLimit : ∀ i, env.rateLimitOk i = true
  store : ∀ f, env.blocks f ≠ none
  genesis : env.genesisBlock ≠ none
  lookup : ∀ r, env.isCanonical r ≠ none
  stream : ∀ b, env.chunkWriter b = true

/-- Without failures the store's answer, with the genesis block in front when
the batch starts at slot 0, is there. -/
theorem NoFailures.entries {env : RangeEnv} (hok : NoFailures env) (s e step : U64) :
    ∃ entries, env.blocks ⟨s, e, step⟩ >>= withGenesis env s = some entries := by
  obtain ⟨l, hl⟩ := Option.ne_none_iff_exists'.mp (hok.store ⟨s, e, step⟩)
  obtain ⟨g, hg⟩ := Option.ne_none_iff_exists'.mp hok.genesis
  unfold withGenesis
  split <;> simp [hl, hg]

/-- Without failures a batch ends cleanly or on a broken chain. -/
theorem NoFailures.batch_error {env : RangeEnv} (hok : NoFailures env) (s e step : U64)
    (prev : Root) :
    (writeBlockRangeToStream env s e step prev).2 = none ∨
      ∃ b, (writeBlockRangeToStream env s e step prev).2 = some (.invalidParent b) := by
  obtain ⟨entries, hq⟩ := hok.entries s e step
  rw [writeBlockRangeToStream_of_ok hq (fun x _ => hok.lookup x.2) hok.stream]
  have hl : ∀ x ∈ sortBlocksAndRoots (dedupBlocksAndRoots entries), env.isCanonical x.2 ≠ none :=
    fun x _ => hok.lookup x.2
  have hnot := (@filterLoop_extends env.isCanonical step s [] prev _ hl).2
  simp only [filterBlocks] at hnot ⊢
  generalize (filterLoop env.isCanonical step s [] prev
    (sortBlocksAndRoots (dedupBlocksAndRoots entries))).2 = err at hnot ⊢
  rcases err with _ | (b | e')
  · exact .inl rfl
  · exact .inr ⟨b, rfl⟩
  · exact absurd rfl (hnot e')

/-- Without failures, the block a broken chain stops a batch at is one of the
batch's answer. -/
theorem NoFailures.invalidParent_mem {env : RangeEnv} (hok : NoFailures env) {s e step : U64} {prev : Root}
    {entries : List BlockEntry} (hq : env.blocks ⟨s, e, step⟩ >>= withGenesis env s = some entries)
    {b : SignedBeaconBlock} (h : (writeBlockRangeToStream env s e step prev).2 = some (.invalidParent b)) :
    ∃ root, (b, root) ∈ entries := by
  rw [writeBlockRangeToStream_of_ok hq (fun y _ => hok.lookup y.2) hok.stream] at h
  obtain ⟨root, hm⟩ := filterLoop_invalidParent_mem h
  exact ⟨root, (dedupBlocksAndRoots_sublist _).subset ((sortBlocksAndRoots_perm _).subset hm)⟩

/-! ## What the store and the canonical view answer -/

/-- Every entry the store returns for a filter lies in the filter's slot range. -/
def StoreInRange (env : RangeEnv) : Prop :=
  ∀ f entries, env.blocks f = some entries → ∀ x ∈ entries, f.startSlot ≤ x.1.slot ∧ x.1.slot ≤ f.endSlot

/-- The genesis block has slot 0. -/
def GenesisAtZero (env : RangeEnv) : Prop :=
  ∀ g, env.genesisBlock = some g → g.slot = 0

/-- An entry a batch can see: in some answer of the store, or the genesis block
with its root. -/
def Served (env : RangeEnv) (x : BlockEntry) : Prop :=
  (∃ f entries, env.blocks f = some entries ∧ x ∈ entries) ∨
    ∃ g, env.genesisBlock = some g ∧ x = (g, env.hashTreeRoot g.block)

/-- The canonical view marks at most one root per slot among the entries the
batches can see. -/
def CanonicalUnique (env : RangeEnv) : Prop :=
  ∀ x y, Served env x → Served env y → env.isCanonical x.2 = some true →
    env.isCanonical y.2 = some true → x.1.slot = y.1.slot → x.2 = y.2

/-- The store answers every filter with exactly the stored entries in the
filter's slot range and on its grid. -/
def StoreExact (env : RangeEnv) (stored : List BlockEntry) : Prop :=
  ∀ f, ∃ entries, env.blocks f = some entries ∧ ∀ x, x ∈ entries ↔
    x ∈ stored ∧ f.startSlot ≤ x.1.slot ∧ x.1.slot ≤ f.endSlot ∧
      (x.1.slot - f.startSlot) % f.step = 0

/-- Roots are the store's keys: two entries the batches can see with one root
are one entry. -/
def KeyedByRoot (env : RangeEnv) : Prop :=
  ∀ x y, Served env x → Served env y → x.2 = y.2 → x = y

theorem StoreExact.storeInRange {env : RangeEnv} {stored : List BlockEntry}
    (hs : StoreExact env stored) : StoreInRange env := by
  intro f entries hf x hx
  obtain ⟨l, hl, hmem⟩ := hs f
  rw [hf, Option.some.injEq] at hl
  subst hl
  exact ⟨((hmem x).mp hx).2.1, ((hmem x).mp hx).2.2.1⟩

/-! ## Collaborators that answer as asked -/

/-- A store that answers a filter with the stored entries in its slot range and
on its grid, in the order they are stored. -/
def gridStore (stored : List BlockEntry) (f : BlockFilter) : Option (List BlockEntry) :=
  some (stored.filter fun x => decide (f.startSlot ≤ x.1.slot ∧ x.1.slot ≤ f.endSlot ∧
    (x.1.slot - f.startSlot) % f.step = 0))

/-- Collaborators that never fail: a grid store, a genesis block, the given
roots and canonical view, at the given current slot. -/
def workingEnv (stored : List BlockEntry) (genesis : SignedBeaconBlock)
    (root : BeaconBlock → Root) (canonical : Root → Bool) (currentSlot : U64) : RangeEnv where
  blocks := gridStore stored
  genesisBlock := some genesis
  hashTreeRoot := root
  isCanonical r := some (canonical r)
  chunkWriter _ := true
  topicCollectorOk := true
  rateLimitOk _ := true
  currentSlot := currentSlot

section WorkingEnv

variable {stored : List BlockEntry} {genesis : SignedBeaconBlock} {root : BeaconBlock → Root}
  {canonical : Root → Bool} {c : U64}

theorem workingEnv_noFailures : NoFailures (workingEnv stored genesis root canonical c) :=
  ⟨rfl, fun _ => rfl, fun _ => by simp [workingEnv, gridStore], by simp [workingEnv],
    fun _ => by simp [workingEnv], fun _ => rfl⟩

theorem workingEnv_storeExact : StoreExact (workingEnv stored genesis root canonical c) stored :=
  fun _ => ⟨_, rfl, fun _ => by simp [gridStore]⟩

theorem workingEnv_genesisAtZero (h : genesis.slot = 0) :
    GenesisAtZero (workingEnv stored genesis root canonical c) := by
  rintro g ⟨⟩
  exact h

/-- The batches of a working environment see the stored entries and the
genesis entry, nothing else. -/
theorem served_workingEnv {x : BlockEntry} (h : Served (workingEnv stored genesis root canonical c) x) :
    x ∈ (genesis, root genesis.block) :: stored := by
  rcases h with ⟨f, entries, hf, hx⟩ | ⟨g, ⟨⟩, rfl⟩
  · simp only [workingEnv, gridStore, Option.some.injEq] at hf
    subst hf
    exact List.mem_cons_of_mem _ (List.mem_filter.mp hx).1
  · exact List.mem_cons_self _ _

theorem workingEnv_keyedByRoot
    (h : ∀ x ∈ (genesis, root genesis.block) :: stored, ∀ y ∈ (genesis, root genesis.block) :: stored,
      x.2 = y.2 → x = y) :
    KeyedByRoot (workingEnv stored genesis root canonical c) :=
  fun x y hx hy => h x (served_workingEnv hx) y (served_workingEnv hy)

theorem workingEnv_canonicalUnique
    (h : ∀ x ∈ (genesis, root genesis.block) :: stored, ∀ y ∈ (genesis, root genesis.block) :: stored,
      canonical x.2 = true → canonical y.2 = true → x.1.slot = y.1.slot → x.2 = y.2) :
    CanonicalUnique (workingEnv stored genesis root canonical c) :=
  fun x y hx hy hcx hcy => h x (served_workingEnv hx) y (served_workingEnv hy)
    (by simpa [workingEnv] using hcx) (by simpa [workingEnv] using hcy)

end WorkingEnv

/-- Limits with `rangeLimit = MAX_REQUEST_BLOCKS = 1024`. -/
def limits1024 : RangeLimits := ⟨1024, 1024, by decide⟩

/-- Blocks at slots 1 and 2, stored with their roots 11 and 12; the parent
root of the second is 99, not the root of the first. -/
def brokenLinkStore : List BlockEntry :=
  [(⟨⟨1, 0, 0, 1⟩, 0⟩, 11), (⟨⟨2, 0, 99, 2⟩, 0⟩, 12)]

/-- Hash-tree roots agreeing with `brokenLinkStore`; the genesis root is 7. -/
def brokenLinkRoot (b : BeaconBlock) : Root :=
  if b.slot = 1 then 11 else if b.slot = 2 then 12 else 7

/-- A working environment over `brokenLinkStore` at current slot 10, every
root canonical. -/
def brokenLinkEnv : RangeEnv :=
  workingEnv brokenLinkStore ⟨⟨0, 0, 0, 0⟩, 0⟩ brokenLinkRoot (fun _ => true) 10

/-- The request for slots 1 and 2. -/
def slotsOneTwo : BeaconBlocksByRangeRequest := ⟨1, 2, 1⟩

section Loop

variable {k : RangeLimits} {allowed : U64} {env : RangeEnv} {r : BeaconBlocksByRangeRequest}

/-- Bounds on a window of the closed form: it is not empty, it ends by the
last requested slot, its span passes the loop's check, and it leaves room for
the debit. -/
theorem atWindow_bounds (hv : ValidRange k env.currentSlot r)
    (hh : SlotHeadroom k env.currentSlot) (hL : 1 ≤ allowed.toNat) {i : ℕ} {w : U64 × U64}
    (hw : AtWindow r allowed i w) (hi : i < batchCount r.count.toNat allowed.toNat) :
    w.1 ≤ w.2 ∧ w.1 ≤ r.startSlot + r.step * (r.count - 1) ∧ ¬k.rangeLimit < w.2 - w.1 ∧
      w.2.toNat + 1 < 2 ^ 64 := by
  have hlt := (lt_batchCount_iff hL).mp hi
  have hend := hv.endReqSlot_toNat hh
  have hstart := hv.start_add_lt hh
  have hspan := hv.span_le
  have hpos := hv.step_pos
  have hstep := hv.step_le
  simp only [AtWindow, batchWindow, batchEnd, Prod.mk.injEq] at hw
  obtain ⟨h1, h2⟩ := hw
  have hle : i * allowed.toNat ≤ min ((i + 1) * allowed.toNat) r.count.toNat - 1 := by
    rw [Nat.succ_mul]; omega
  have hm1 := Nat.mul_le_mul_left r.step.toNat hle
  have hm2 := Nat.mul_le_mul_left r.step.toNat
    (show min ((i + 1) * allowed.toNat) r.count.toNat - 1 ≤ r.count.toNat - 1 by omega)
  have hm3 := Nat.mul_le_mul_left r.step.toNat
    (show i * allowed.toNat ≤ r.count.toNat - 1 by omega)
  have hsub : (w.2 - w.1).toNat = w.2.toNat - w.1.toNat :=
    BitVec.toNat_sub_of_le (by rw [BitVec.le_def, h1, h2]; omega)
  refine ⟨by rw [BitVec.le_def, h1, h2]; omega, by rw [BitVec.le_def, h1, hend]; omega, ?_, by omega⟩
  rw [BitVec.not_lt, BitVec.le_def, hsub, h1, h2]
  omega

/-- The debit after a window of the closed form is its number of grid points. -/
theorem atWindow_debit (hv : ValidRange k env.currentSlot r)
    (hh : SlotHeadroom k env.currentSlot) (hL : 1 ≤ allowed.toNat) {i : ℕ} {w : U64 × U64}
    (hw : AtWindow r allowed i w) (hi : i < batchCount r.count.toNat allowed.toNat) :
    batchesOf (rateLimiterDebit r.step w.1 w.2) = [] ∧
      (debitsOf (rateLimiterDebit r.step w.1 w.2)).map BitVec.toNat =
        [(batchGrid r.startSlot.toNat r.step.toNat r.count.toNat allowed.toNat i).length] := by
  obtain ⟨hle, -, -, hroom⟩ := atWindow_bounds hv hh hL hw hi
  have hsub : (w.2 - w.1).toNat = w.2.toNat - w.1.toNat := BitVec.toNat_sub_of_le hle
  have hdiv : ((w.2 - w.1) / r.step).toNat = (w.2.toNat - w.1.toNat) / r.step.toNat := by
    rw [BitVec.toNat_udiv, hsub]
  have hone : (1 + (w.2 - w.1) / r.step).toNat = 1 + (w.2.toNat - w.1.toNat) / r.step.toNat := by
    have h1 : (1 : U64).toNat = 1 := rfl
    have := Nat.div_le_self (w.2.toNat - w.1.toNat) r.step.toNat
    rw [BitVec.toNat_add_of_lt (by rw [h1, hdiv]; omega), h1, hdiv]
  simp only [AtWindow, Prod.ext_iff] at hw
  simp only [rateLimiterDebit, if_pos hle, batchesOf_cons, debitsOf_cons, ServerEvent.window?,
    ServerEvent.debit?, Option.toList, List.nil_append, batchesOf_nil, debitsOf_nil,
    List.singleton_append, List.map_cons, List.map_nil, hone, true_and]
  rw [← batchWindow_debit hL hv.step_pos hi, ← hw.1, ← hw.2]

/-- From window `i`, with every collaborator working and fuel for the windows
left, the loop visits every remaining window of the closed form and debits
each its number of grid points, unless a broken chain stops it. -/
theorem batchLoop_windows (hv : ValidRange k env.currentSlot r) (hh : SlotHeadroom k env.currentSlot)
    (hL : 1 ≤ allowed.toNat) (hok : NoFailures env) (prev : Root) :
    ∀ fuel i (w : U64 × U64), AtWindow r allowed i w → i < batchCount r.count.toNat allowed.toNat →
      batchCount r.count.toNat allowed.toNat ≤ fuel + i →
      (∃ b, (batchLoop k allowed env r (r.startSlot + r.step * (r.count - 1)) prev fuel i w.1 w.2).2 =
          .invalidParent b) ∨
      ((batchLoop k allowed env r (r.startSlot + r.step * (r.count - 1)) prev fuel i w.1 w.2).2 =
          .completed ∧
        (batchesOf (batchLoop k allowed env r (r.startSlot + r.step * (r.count - 1)) prev fuel i w.1
            w.2).1).map (fun w => (w.1.toNat, w.2.toNat)) =
          (List.range' i (batchCount r.count.toNat allowed.toNat - i)).map
            (batchWindow r.startSlot.toNat r.step.toNat r.count.toNat allowed.toNat) ∧
        (debitsOf (batchLoop k allowed env r (r.startSlot + r.step * (r.count - 1)) prev fuel i w.1
            w.2).1).map BitVec.toNat =
          (List.range' i (batchCount r.count.toNat allowed.toNat - i)).map
            (fun j => (batchGrid r.startSlot.toNat r.step.toNat r.count.toNat allowed.toNat j).length)) := by
  intro fuel
  induction fuel with
  | zero => intro i w _ hi hf; omega
  | succ fuel ih =>
    intro i w hw hi hf
    obtain ⟨-, hin, hspan, -⟩ := atWindow_bounds hv hh hL hw hi
    obtain ⟨hdb, hdd⟩ := atWindow_debit hv hh hL hw hi
    obtain ⟨hwb, hwd, -⟩ := @writeBlockRangeToStream_spec env w.1 w.2 r.step prev
    have hcount : batchCount r.count.toNat allowed.toNat - i =
        (batchCount r.count.toNat allowed.toNat - (i + 1)) + 1 := by omega
    simp only [batchLoop, if_pos hin]
    rcases @batchStep_cases k allowed env r (r.startSlot + r.step * (r.count - 1)) prev i w.1
      w.2 with
      ⟨hfail, -⟩ | ⟨-, -, h⟩
    · simp only [hok.rateLimit i, Bool.true_eq_false, false_or] at hfail
      exact absurd hfail hspan
    · rcases h with ⟨err, herr, -⟩ | ⟨b, -, hstep⟩ | ⟨-, hlast, hstep⟩ | ⟨-, hnext, hstep⟩
      · rcases hok.batch_error w.1 w.2 r.step prev with h | ⟨b, h⟩ <;> simp [h] at herr
      · rw [hstep]; exact .inl ⟨b, rfl⟩
      · -- the window was the last one
        have hge : r.count.toNat ≤ (i + 1) * allowed.toNat :=
          Nat.le_of_not_lt ((hv.next_le_endReqSlot_iff hh hL hw).not.mp (BitVec.not_le.mpr hlast))
        have hn : batchCount r.count.toNat allowed.toNat - (i + 1) = 0 := by
          have := (@lt_batchCount_iff r.count.toNat _ (i + 1) hL).not.mpr (by omega)
          omega
        rw [hstep]
        refine .inr ⟨rfl, ?_, ?_⟩
        · simp [hwb, hdb, hcount, hn, List.range'_succ, AtWindow] at hw ⊢
          exact hw
        · simp only [debitsOf_cons, debitsOf_append, hwd, hcount, hn, List.range'_succ]
          simpa using hdd
      · -- a further window follows
        have hlt := (hv.next_le_endReqSlot_iff hh hL hw).mp hnext
        have hi' := (lt_batchCount_iff hL).mpr hlt
        rw [hstep]
        rcases ih (i + 1) _ (hv.atWindow_next hh hL hw hlt).1 hi' (by omega) with hb | ⟨hc, h1, h2⟩
        · exact .inl hb
        · refine .inr ⟨hc, ?_, ?_⟩
          · simp only [batchesOf_append, batchesOf_cons, ServerEvent.window?, Option.toList, hwb,
              hdb, List.nil_append, List.append_nil, List.singleton_append, List.map_cons, h1,
              hcount, List.range'_succ]
            simp only [AtWindow] at hw
            rw [hw]
          · simp only [debitsOf_append, debitsOf_cons, ServerEvent.debit?, Option.toList, hwd,
              List.nil_append, List.map_append, hdd, h2, hcount, List.range'_succ, List.map_cons,
              List.singleton_append]

/-- What a complete run of the batching loop did: its windows are the closed
form ones, without wrap-around, in number `⌈count/L⌉`; as grids they hold one to
`L` points each and together are the request's grid, each point once and in
increasing order; none trips the span check; the debits add up to `count`. -/
structure BatchesTile (k : RangeLimits) (allowed : U64) (r : BeaconBlocksByRangeRequest)
    (evs : List ServerEvent) : Prop where
  length_eq : ((batchesOf evs).map (fun w => (w.1.toNat, w.2.toNat))).length =
    batchCount r.count.toNat allowed.toNat
  windows_eq : (batchesOf evs).map (fun w => (w.1.toNat, w.2.toNat)) =
    batchWindows r.startSlot.toNat r.step.toNat r.count.toNat allowed.toNat
  grid_eq : ((batchesOf evs).map (fun w => (w.1.toNat, w.2.toNat))).flatMap (windowGrid r.step.toNat) =
    List.range' r.startSlot.toNat r.count.toNat r.step.toNat
  window_size : ∀ w ∈ (batchesOf evs).map (fun w => (w.1.toNat, w.2.toNat)),
    1 ≤ (windowGrid r.step.toNat w).length ∧ (windowGrid r.step.toNat w).length ≤ allowed.toNat
  span_le : ∀ w ∈ batchesOf evs, ¬k.rangeLimit < w.2 - w.1
  debits_sum : ((debitsOf evs).map BitVec.toNat).sum = r.count.toNat

/-- Without failures and with fuel for every window, the batching loop of an
accepted request runs `⌈count/L⌉` iterations over the closed-form windows and
stops, unless a broken chain stops it first. -/
theorem rangeHandler_batches_tile_request (hv : validateRangeRequest k env.currentSlot r = .ok ())
    (hL : 1 ≤ allowed.toNat) (hh : SlotHeadroom k env.currentSlot) (hok : NoFailures env) {fuel : ℕ}
    (hfuel : batchCount r.count.toNat allowed.toNat ≤ fuel) :
    (∃ b, (beaconBlocksByRangeRPCHandler k allowed env r fuel).2 = .invalidParent b) ∨
    ((beaconBlocksByRangeRPCHandler k allowed env r fuel).2 = .completed ∧
      BatchesTile k allowed r (beaconBlocksByRangeRPCHandler k allowed env r fuel).1) := by
  have hv' := validateRangeRequest_ok hv
  have hpos : 0 < batchCount r.count.toNat allowed.toNat :=
    (lt_batchCount_iff hL).mpr (by have := hv'.count_pos; omega)
  obtain ⟨htile, hlen, hsum⟩ := @batchWindows_tile r.count.toNat _ hL r.startSlot.toNat _
    hv'.step_pos
  simp only [beaconBlocksByRangeRPCHandler, hv, hok.topicCollector, Bool.true_eq_false, if_false]
  rcases batchLoop_windows hv' hh hL hok zeroHash fuel 0 _ (hv'.atWindow_first hh hL) hpos
    (by omega) with hb | ⟨hc, hw, hd⟩
  · exact .inl hb
  · rw [Nat.sub_zero, ← List.range_eq_range'] at hw hd
    refine .inr ⟨hc, by rw [hw, List.length_map, List.length_range], hw,
      by rw [hw]; exact htile, by rw [hw]; exact hlen, ?_, by rw [hd]; exact hsum⟩
    intro w hw'
    obtain ⟨j, hj, hwj⟩ := List.mem_map.mp (hw ▸ List.mem_map_of_mem
      (fun w : U64 × U64 => (w.1.toNat, w.2.toNat)) hw')
    exact (atWindow_bounds hv' hh hL (show AtWindow r allowed j w from hwj.symm) (List.mem_range.mp hj)).2.2.1

theorem rangeHandler_batches_tile_slotsOneTwo :
    validateRangeRequest limits1024 brokenLinkEnv.currentSlot slotsOneTwo = .ok () ∧
    1 ≤ (1 : U64).toNat ∧ SlotHeadroom limits1024 brokenLinkEnv.currentSlot ∧
    NoFailures brokenLinkEnv ∧ batchCount slotsOneTwo.count.toNat (1 : U64).toNat ≤ 2 ∧
    ((∃ b, (beaconBlocksByRangeRPCHandler limits1024 1 brokenLinkEnv slotsOneTwo 2).2 =
        .invalidParent b) ∨
      ((beaconBlocksByRangeRPCHandler limits1024 1 brokenLinkEnv slotsOneTwo 2).2 = .completed ∧
        BatchesTile limits1024 1 slotsOneTwo
          (beaconBlocksByRangeRPCHandler limits1024 1 brokenLinkEnv slotsOneTwo 2).1)) :=
  have hv : validateRangeRequest limits1024 brokenLinkEnv.currentSlot slotsOneTwo = .ok () := rfl
  have hh : SlotHeadroom limits1024 brokenLinkEnv.currentSlot := by decide
  ⟨hv, by decide, hh, workingEnv_noFailures, by decide,
    rangeHandler_batches_tile_request hv (by decide) hh workingEnv_noFailures (by decide)⟩

end Loop

end Prysm.Sync.RangeServer
