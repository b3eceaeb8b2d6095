import Prysm.Types
import Mathlib.Data.List.Chain

/-!
# Range requests, their validation and their batch windows

`validateRangeRequest` of `rpc_beacon_blocks_by_range.go`, the `uint64` slot
updates of the handler's batching loop, and the closed form of the windows
that loop visits: consecutive runs of `BlockBatchLimit` points of the grid
`start_slot + k*step`, `k < count`. `Conformant` is the response invariant
the client checks chunk by chunk. The loop itself, with its rate limiter and
stream, is in `BlocksByRange`.
-/

namespace Prysm.Sync.RangeRequest

open Prysm.Types

/-- `pb.BeaconBlocksByRangeRequest`. -/
structure BeaconBlocksByRangeRequest where
  /-- `StartSlot`, the first slot of the grid. -/
  startSlot : U64
  /-- `Count`, the number of grid points requested. -/
  count : U64
  /-- `Step`, the distance between grid points. -/
  step : U64
  deriving DecidableEq, Repr

/-- Error values the range server returns or names in an error chunk. -/
inductive RpcError
  /-- `p2ptypes.ErrInvalidRequest`. -/
  | invalidRequest
  /-- `p2ptypes.ErrGeneric`, the reason of every server-error chunk. -/
  | generic
  /-- A rejection by the rate limiter's `validateRequest`. -/
  | rateLimited
  /-- `s.rateLimiter.topicCollector` has no bucket for the stream's protocol. -/
  | noCollector
  /-- A failure of the block store: `Blocks`, `GenesisBlock` or its root. -/
  | store
  /-- A failure of `s.chain.IsCanonical`. -/
  | canonicalLookup
  /-- A failure of `s.chunkWriter` on the stream. -/
  | chunkWrite
  deriving DecidableEq, Repr

/-- The two constants the range code reads from outside src/: `rangeLimit` of
the sync package and `MaxRequestBlocks` of the network configuration. Go
evaluates `step * (count - 1)` in `uint64`; the field says that no accepted
step and count wrap, as Prysm's values (1024 and 1024) ensure. -/
structure RangeLimits where
  /-- `rangeLimit`, the widest slot span of one request or batch. -/
  rangeLimit : U64
  /-- `params.BeaconNetworkConfig().MaxRequestBlocks`. -/
  maxRequestBlocks : U64
  /-- Products of a step and a count never wrap. -/
  product_lt : rangeLimit.toNat * maxRequestBlocks.toNat < 2 ^ 64

/-- `validateRangeRequest`: the bounds on count and step, the start slot
against `CurrentSlot() + 2*rangeLimit`, and the span of the whole request. -/
def validateRangeRequest (k : RangeLimits) (currentSlot : U64)
    (r : BeaconBlocksByRangeRequest) : Except RpcError Unit :=
  let highestExpectedSlot := currentSlot + k.rangeLimit * 2
  if r.count = 0 ∨ r.count > k.maxRequestBlocks then .error .invalidRequest
  else if r.step = 0 ∨ r.step > k.rangeLimit then .error .invalidRequest
  else if r.startSlot > highestExpectedSlot then .error .invalidRequest
  else if r.startSlot + r.step * (r.count - 1) - r.startSlot > k.rangeLimit then
    .error .invalidRequest
  else .ok ()

/-- What an accepted request guarantees, in natural numbers. -/
structure ValidRange (k : RangeLimits) (currentSlot : U64)
    (r : BeaconBlocksByRangeRequest) : Prop where
  count_pos : 1 ≤ r.count.toNat
  count_le : r.count.toNat ≤ k.maxRequestBlocks.toNat
  step_pos : 1 ≤ r.step.toNat
  step_le : r.step.toNat ≤ k.rangeLimit.toNat
  start_le : r.startSlot ≤ currentSlot + k.rangeLimit * 2
  span_le : r.step.toNat * (r.count.toNat - 1) ≤ k.rangeLimit.toNat

/-- The span `step * (count - 1)` of a request whose count and step pass the
first two checks does not wrap. -/
theorem span_toNat {k : RangeLimits} {r : BeaconBlocksByRangeRequest}
    (hc : 1 ≤ r.count.toNat) (hc' : r.count.toNat ≤ k.maxRequestBlocks.toNat)
    (hs : r.step.toNat ≤ k.rangeLimit.toNat) :
    (r.step * (r.count - 1)).toNat = r.step.toNat * (r.count.toNat - 1) := by
  have h1 : (r.count - 1).toNat = r.count.toNat - 1 := by bv_omega
  have h2 : r.step.toNat * (r.count.toNat - 1) < 2 ^ 64 :=
    lt_of_le_of_lt (Nat.mul_le_mul hs (by omega)) k.product_lt
  rw [BitVec.toNat_mul_of_lt (by rwa [h1]), h1]

theorem validateRangeRequest_ok {k : RangeLimits} {currentSlot : U64}
    {r : BeaconBlocksByRangeRequest} (h : validateRangeRequest k currentSlot r = .ok ()) :
    ValidRange k currentSlot r := by
  simp only [validateRangeRequest] at h
  split_ifs at h with h1 h2 h3 h4
  have hc : 1 ≤ r.count.toNat ∧ r.count.toNat ≤ k.maxRequestBlocks.toNat := by
    simp only [not_or, not_lt] at h1; bv_omega
  have hs : 1 ≤ r.step.toNat ∧ r.step.toNat ≤ k.rangeLimit.toNat := by
    simp only [not_or, not_lt] at h2; bv_omega
  have hspan := span_toNat hc.1 hc.2 hs.2
  refine ⟨hc.1, hc.2, hs.1, hs.2, BitVec.not_lt.mp h3, ?_⟩
  rw [BitVec.add_comm, BitVec.add_sub_cancel, BitVec.not_lt, BitVec.le_def, hspan] at h4
  exact h4

/-- Room above the current slot for every slot the batching loop computes:
`CurrentSlot() ≤ 2^64 - 1 - 4*rangeLimit`. -/
def SlotHeadroom (k : RangeLimits) (currentSlot : U64) : Prop :=
  currentSlot.toNat + 4 * k.rangeLimit.toNat < 2 ^ 64

instance (k : RangeLimits) (currentSlot : U64) : Decidable (SlotHeadroom k currentSlot) :=
  inferInstanceAs (Decidable (_ < _))

/-- With headroom, an accepted start slot leaves room for two more spans. -/
theorem ValidRange.start_add_lt {k : RangeLimits} {c : U64} {r : BeaconBlocksByRangeRequest}
    (hv : ValidRange k c r) (hh : SlotHeadroom k c) :
    r.startSlot.toNat + 2 * k.rangeLimit.toNat < 2 ^ 64 := by
  have := hv.start_le
  unfold SlotHeadroom at hh
  bv_omega

/-- With headroom, the end `start + count*step` of an accepted request's range
does not wrap. -/
theorem ValidRange.rangeEnd_lt {k : RangeLimits} {c : U64} {r : BeaconBlocksByRangeRequest}
    (hv : ValidRange k c r) (hh : SlotHeadroom k c) :
    r.startSlot.toNat + r.count.toNat * r.step.toNat < 2 ^ 64 := by
  have h1 := hv.start_add_lt hh
  have h2 : r.count.toNat * r.step.toNat = r.step.toNat * (r.count.toNat - 1) + r.step.toNat := by
    rw [Nat.mul_comm, Nat.mul_sub_one, Nat.sub_add_cancel (Nat.le_mul_of_pos_right _ hv.count_pos)]
  have := hv.span_le
  have := hv.step_le
  omega

/-- The response invariant of the protocol, over the slots of the blocks in
arrival order: no more than `count` and `MAX_REQUEST_BLOCKS` of them, each in
`[start_slot, start_slot + count*step)`, each above the one before it by a
multiple of `step`. -/
def Conformant (k : RangeLimits) (r : BeaconBlocksByRangeRequest) (slots : List ℕ) : Prop :=
  slots.length ≤ r.count.toNat ∧ slots.length ≤ k.maxRequestBlocks.toNat ∧
    (∀ s ∈ slots, r.startSlot.toNat ≤ s ∧ s < r.startSlot.toNat + r.count.toNat * r.step.toNat) ∧
    slots.Chain' (fun a b => a < b ∧ (b - a) % r.step.toNat = 0)

instance (k : RangeLimits) (r : BeaconBlocksByRangeRequest) (slots : List ℕ) :
    Decidable (Conformant k r slots) :=
  inferInstanceAs (Decidable (_ ∧ _ ∧ _ ∧ _))

/-! ## Closed form of the batch windows -/

/-- Number of batches, `⌈count / L⌉`. -/
def batchCount (count L : ℕ) : ℕ := (count + L - 1) / L

/-- One past the last grid index of batch `i`: `min ((i+1)*L) count`. -/
def batchEnd (count L i : ℕ) : ℕ := min ((i + 1) * L) count

/-- First and last slot of batch `i` on the grid `start + step*k`. -/
def batchWindow (start step count L i : ℕ) : ℕ × ℕ :=
  (start + step * (i * L), start + step * (batchEnd count L i - 1))

/-- The windows of all batches, in the order the loop visits them. -/
def batchWindows (start step count L : ℕ) : List (ℕ × ℕ) :=
  (List.range (batchCount count L)).map (batchWindow start step count L)

/-- Grid points of batch `i`. -/
def batchGrid (start step count L i : ℕ) : List ℕ :=
  List.range' (start + step * (i * L)) (batchEnd count L i - i * L) step

theorem lt_batchCount_iff {count L i : ℕ} (hL : 0 < L) :
    i < batchCount count L ↔ i * L < count := by
  rw [batchCount, ← Nat.succ_le, Nat.le_div_iff_mul_le hL, Nat.succ_mul]
  omega

theorem count_le_batchCount_mul {count L : ℕ} (hL : 0 < L) :
    count ≤ batchCount count L * L := by
  by_contra h
  exact lt_irrefl _ ((@lt_batchCount_iff count _ _ hL).mpr (by omega))

/-- The batches tile the grid: concatenated, their points are the request's
grid points, each once and in increasing order. -/
theorem flatMap_batchGrid {count L : ℕ} (hL : 0 < L) (start step : ℕ) :
    (List.range (batchCount count L)).flatMap (batchGrid start step count L) =
      List.range' start count step := by
  have key : ∀ n ≤ batchCount count L, (List.range n).flatMap (batchGrid start step count L) =
      List.range' start (min (n * L) count) step := by
    intro n
    induction n with
    | zero => intro; simp
    | succ n ih =>
      intro hn
      have hlt := (lt_batchCount_iff hL).mp (by omega : n < batchCount count L)
      have hmin : min (n * L) count = n * L := by omega
      rw [List.range_succ, List.flatMap_append, ih (by omega), hmin, List.flatMap_singleton,
        batchGrid, List.range'_append, batchEnd, Nat.succ_mul]
      congr 1
      omega
  rw [key _ le_rfl, min_eq_right (count_le_batchCount_mul hL)]

/-- Each batch holds between one and `L` grid points. -/
theorem batchGrid_length {count L i : ℕ} (hL : 0 < L) (hi : i < batchCount count L)
    (start step : ℕ) :
    1 ≤ (batchGrid start step count L i).length ∧ (batchGrid start step count L i).length ≤ L := by
  have := (lt_batchCount_iff hL).mp hi
  simp only [batchGrid, List.length_range', batchEnd, Nat.succ_mul]
  omega

/-- The rate-limiter debit `1 + (end - start)/step` of a window is its number of
grid points. -/
theorem batchWindow_debit {count L i start step : ℕ} (hL : 0 < L) (hstep : 0 < step)
    (hi : i < batchCount count L) :
    1 + ((batchWindow start step count L i).2 - (batchWindow start step count L i).1) / step =
      (batchGrid start step count L i).length := by
  have := (lt_batchCount_iff hL).mp hi
  have he : i * L + 1 ≤ batchEnd count L i := by simp only [batchEnd, Nat.succ_mul]; omega
  simp only [batchWindow, batchGrid, List.length_range']
  rw [Nat.add_sub_add_left, ← Nat.mul_sub, Nat.mul_div_cancel_left _ hstep]
  omega

/-- A window ends at or before the last requested slot. -/
theorem batchWindow_snd_le (start step count L i : ℕ) :
    (batchWindow start step count L i).2 ≤ start + step * (count - 1) := by
  simp only [batchWindow, batchEnd]
  exact Nat.add_le_add_left (Nat.mul_le_mul_left _ (by omega)) _

/-- Consecutive windows: the next one starts no earlier than this one, and
after this one ends. -/
theorem batchWindow_fst_le_succ (start step count L i : ℕ) :
    (batchWindow start step count L i).1 ≤ (batchWindow start step count L (i + 1)).1 := by
  simp only [batchWindow]
  exact Nat.add_le_add_left (Nat.mul_le_mul_left _ (Nat.mul_le_mul_right _ (Nat.le_succ i))) _

theorem batchWindow_snd_lt_succ {start step count L i : ℕ} (hL : 0 < L) (hstep : 0 < step)
    (hi : (i + 1) * L < count) :
    (batchWindow start step count L i).2 < (batchWindow start step count L (i + 1)).1 := by
  have h : (i + 1) * L - 1 < (i + 1) * L := Nat.sub_lt (Nat.mul_pos i.succ_pos hL) Nat.one_pos
  simp only [batchWindow, batchEnd, min_eq_left hi.le]
  exact Nat.add_lt_add_left (Nat.mul_lt_mul_of_pos_left h hstep) _

/-- Grid points of a window `[first, last]` with step `step`. -/
def windowGrid (step : ℕ) (w : ℕ × ℕ) : List ℕ := List.range' w.1 ((w.2 - w.1) / step + 1) step

theorem windowGrid_batchWindow {count L i start step : ℕ} (hL : 0 < L) (hstep : 0 < step)
    (hi : i < batchCount count L) :
    windowGrid step (batchWindow start step count L i) = batchGrid start step count L i := by
  have h := @batchWindow_debit _ _ _ start _ hL hstep hi
  simp only [batchGrid, List.length_range'] at h
  simp only [windowGrid, batchGrid, Nat.add_comm _ 1, h]
  rfl

/-- The closed-form windows, as grids, tile the request: each holds between
one and `L` points, and together they are the request's grid points, each
once and in increasing order. The debits add up to `count`. -/
theorem batchWindows_tile {count L : ℕ} (hL : 0 < L) (start : ℕ) {step : ℕ} (hstep : 0 < step) :
    (batchWindows start step count L).flatMap (windowGrid step) = List.range' start count step ∧
      (∀ w ∈ batchWindows start step count L,
        1 ≤ (windowGrid step w).length ∧ (windowGrid step w).length ≤ L) ∧
      ((List.range (batchCount count L)).map
        (fun j => (batchGrid start step count L j).length)).sum = count := by
  have hg : ∀ j ∈ List.range (batchCount count L),
      windowGrid step (batchWindow start step count L j) = batchGrid start step count L j :=
    fun j hj => windowGrid_batchWindow hL hstep (List.mem_range.mp hj)
  refine ⟨?_, ?_, ?_⟩
  · rw [batchWindows, List.flatMap_map, ← flatMap_batchGrid hL start step]
    exact List.flatMap_congr hg
  · intro w hw
    obtain ⟨j, hj, rfl⟩ := List.mem_map.mp hw
    rw [hg j hj]
    exact batchGrid_length hL (List.mem_range.mp hj) start step
  · have := congrArg List.length (@flatMap_batchGrid count _ hL start step)
    rw [List.length_range', List.flatMap, List.length_flatten, List.map_map] at this
    exact this

/-! ## The loop's `uint64` slot updates -/

/-- The first batch's count: `m.Count`, capped at `allowedBlocksPerSecond`. -/
def firstBatchCount (count allowed : U64) : U64 := if count > allowed then allowed else count

/-- Lines 106-110: the next batch starts one step after the last one and ends
`allowed - 1` steps later, capped at the final requested slot. -/
def nextBatchSlots (step allowed endReqSlot endSlot : U64) : U64 × U64 :=
  let startSlot := endSlot + step
  let endSlot := startSlot + step * (allowed - 1)
  (startSlot, if endSlot > endReqSlot then endReqSlot else endSlot)

section Loop

variable {k : RangeLimits} {c allowed : U64} {r : BeaconBlocksByRangeRequest}

/-- The loop state `(startSlot, endSlot)` holds the slots of window `i`. -/
def AtWindow (r : BeaconBlocksByRangeRequest) (allowed : U64) (i : ℕ) (s : U64 × U64) : Prop :=
  (s.1.toNat, s.2.toNat) = batchWindow r.startSlot.toNat r.step.toNat r.count.toNat allowed.toNat i

/-- `step * (x - 1)` does not wrap for any `x` up to the request's count. -/
theorem ValidRange.step_mul_toNat (hv : ValidRange k c r) (x : U64) (hx : 1 ≤ x.toNat)
    (hxc : x.toNat ≤ r.count.toNat) :
    (r.step * (x - 1)).toNat = r.step.toNat * (x.toNat - 1) := by
  have h1 : (x - 1).toNat = x.toNat - 1 := by bv_omega
  have h2 : r.step.toNat * (x.toNat - 1) ≤ k.rangeLimit.toNat :=
    le_trans (Nat.mul_le_mul_left _ (by omega)) hv.span_le
  have h3 := k.rangeLimit.isLt
  rw [BitVec.toNat_mul_of_lt (by rw [h1]; omega), h1]

/-- `endReqSlot`, the last requested slot, does not wrap. -/
theorem ValidRange.endReqSlot_toNat (hv : ValidRange k c r) (hh : SlotHeadroom k c) :
    (r.startSlot + r.step * (r.count - 1)).toNat =
      r.startSlot.toNat + r.step.toNat * (r.count.toNat - 1) := by
  have h1 := hv.step_mul_toNat r.count hv.count_pos le_rfl
  have h2 := hv.start_add_lt hh
  have h3 := hv.span_le
  rw [BitVec.toNat_add_of_lt (by omega), h1]

/-- The handler's initial `(startSlot, endSlot)` is window 0. -/
theorem ValidRange.atWindow_first (hv : ValidRange k c r) (hh : SlotHeadroom k c)
    (hL : 1 ≤ allowed.toNat) :
    AtWindow r allowed 0 (r.startSlot, r.startSlot + r.step * (firstBatchCount r.count allowed - 1)) := by
  have hc0 : (firstBatchCount r.count allowed).toNat = min allowed.toNat r.count.toNat := by
    unfold firstBatchCount; split <;> bv_omega
  have hc := hv.count_pos
  have h1 := hv.step_mul_toNat (firstBatchCount r.count allowed) (by omega) (by omega)
  have h2 := hv.start_add_lt hh
  have h3 : r.step.toNat * ((firstBatchCount r.count allowed).toNat - 1) ≤ k.rangeLimit.toNat :=
    le_trans (Nat.mul_le_mul_left _ (by omega)) hv.span_le
  simp only [AtWindow, batchWindow, batchEnd, Nat.zero_mul, Nat.mul_zero, Nat.add_zero,
    Nat.zero_add, Nat.one_mul, Prod.mk.injEq, true_and]
  rw [BitVec.toNat_add_of_lt (by omega), h1, hc0]

/-- From window `i`, when a further window exists, the slot updates give window
`i + 1` and the loop goes on. -/
theorem ValidRange.atWindow_next (hv : ValidRange k c r) (hh : SlotHeadroom k c)
    (hL : 1 ≤ allowed.toNat) {i : ℕ} {s : U64 × U64} (hs : AtWindow r allowed i s)
    (hi : (i + 1) * allowed.toNat < r.count.toNat) :
    AtWindow r allowed (i + 1)
      (nextBatchSlots r.step allowed (r.startSlot + r.step * (r.count - 1)) s.2) ∧
    (nextBatchSlots r.step allowed (r.startSlot + r.step * (r.count - 1)) s.2).1 ≤
      r.startSlot + r.step * (r.count - 1) := by
  have hend := hv.endReqSlot_toNat hh
  have hstart := hv.start_add_lt hh
  have hspan := hv.span_le
  have hstep := hv.step_le
  have hone : 1 ≤ i * allowed.toNat + allowed.toNat := by omega
  simp only [AtWindow, batchWindow, batchEnd, Prod.mk.injEq] at hs
  rw [Nat.succ_mul, min_eq_left (by rw [Nat.succ_mul] at hi; omega)] at hs
  -- the next start is one step past the current end, the next end `allowed - 1` steps later
  have hst : (s.2 + r.step).toNat = r.startSlot.toNat + r.step.toNat * ((i + 1) * allowed.toNat) := by
    have hle : r.step.toNat * (i * allowed.toNat + allowed.toNat - 1) ≤ k.rangeLimit.toNat :=
      le_trans (Nat.mul_le_mul_left _ (by rw [Nat.succ_mul] at hi; omega)) hspan
    rw [BitVec.toNat_add_of_lt (by omega), hs.2, Nat.add_assoc, ← Nat.mul_succ, Nat.succ_mul]
    congr 2
    omega
  have hgrid : r.step.toNat * ((i + 1) * allowed.toNat) ≤ r.step.toNat * (r.count.toNat - 1) :=
    Nat.mul_le_mul_left _ (by omega)
  have hmul := hv.step_mul_toNat allowed hL (by rw [Nat.succ_mul] at hi; omega)
  have hlim : r.step.toNat * (allowed.toNat - 1) ≤ r.step.toNat * (r.count.toNat - 1) :=
    Nat.mul_le_mul_left _ (by rw [Nat.succ_mul] at hi; omega)
  have hen : (s.2 + r.step + r.step * (allowed - 1)).toNat =
      r.startSlot.toNat + r.step.toNat * ((i + 1) * allowed.toNat + allowed.toNat - 1) := by
    rw [BitVec.toNat_add_of_lt (by omega), hst, hmul, Nat.add_assoc, ← Nat.mul_add]
    congr 2
    omega
  refine ⟨?_, by simp only [nextBatchSlots, BitVec.le_def]; omega⟩
  simp only [AtWindow, batchWindow, batchEnd, nextBatchSlots, Prod.mk.injEq, hst, true_and]
  rw [Nat.succ_mul (i + 1)]
  split
  · rename_i hgt
    simp only [gt_iff_lt, BitVec.lt_def, hen, hend, Nat.add_lt_add_iff_left] at hgt
    have := Nat.lt_of_mul_lt_mul_left hgt
    rw [hend, min_eq_right (by omega)]
  · rename_i hle
    simp only [gt_iff_lt, BitVec.lt_def, hen, hend, not_lt, Nat.add_le_add_iff_left] at hle
    have := Nat.le_of_mul_le_mul_left hle hv.step_pos
    rw [hen, min_eq_left (by omega)]

/-- From the last window the next start passes the final requested slot, so
the loop stops. -/
theorem ValidRange.atWindow_last (hv : ValidRange k c r) (hh : SlotHeadroom k c)
    {i : ℕ} {s : U64 × U64} (hs : AtWindow r allowed i s)
    (hi : r.count.toNat ≤ (i + 1) * allowed.toNat) :
    r.startSlot + r.step * (r.count - 1) <
      (nextBatchSlots r.step allowed (r.startSlot + r.step * (r.count - 1)) s.2).1 := by
  have hend := hv.endReqSlot_toNat hh
  have hstart := hv.start_add_lt hh
  have hspan := hv.span_le
  have hstep := hv.step_le
  have hpos := hv.step_pos
  simp only [AtWindow, batchWindow, batchEnd, Prod.mk.injEq] at hs
  rw [min_eq_right hi] at hs
  simp only [nextBatchSlots, BitVec.lt_def]
  rw [hend, BitVec.toNat_add_of_lt (by omega), hs.2]
  omega

/-- After window `i` the loop goes on exactly when a further window of the
closed form is left. -/
theorem ValidRange.next_le_endReqSlot_iff (hv : ValidRange k c r) (hh : SlotHeadroom k c)
    (hL : 1 ≤ allowed.toNat) {i : ℕ} {s : U64 × U64} (hs : AtWindow r allowed i s) :
    (nextBatchSlots r.step allowed (r.startSlot + r.step * (r.count - 1)) s.2).1 ≤
      r.startSlot + r.step * (r.count - 1) ↔ (i + 1) * allowed.toNat < r.count.toNat := by
  refine ⟨fun hnext => ?_, fun hi => (hv.atWindow_next hh hL hs hi).2⟩
  by_contra hc
  exact absurd hnext (BitVec.not_le.mpr (hv.atWindow_last hh hs (by omega)))

end Loop

end Prysm.Sync.RangeRequest
