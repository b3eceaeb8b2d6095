import Prysm.Sync.RangeServer

/-!
# What the range server's response holds

The blocks one run of `beaconBlocksByRangeRPCHandler` writes: in range, on the
request's grid and strictly increasing, so that the requesting side accepts
them; every canonical block on the grid, unless a broken chain cut the response
short; and the parent check, which misses the first block of every batch after
the first. Within the slot headroom, whatever the collaborators answer.
-/

namespace Prysm.Sync.RangeResponse

open Prysm.Types Prysm.Sync.RangeRequest Prysm.Sync.FilterBlocks Prysm.Sync.BlocksByRange
  Prysm.Sync.RangeServer

/-! ## Range, grid and order of the response -/

/-- Slots strictly increasing, between `lo` and `hi`, on the grid `start + step*k`. -/
def GridRun (start step lo hi : ℕ) (ws : List ℕ) : Prop :=
  ws.Pairwise (· < ·) ∧ ∀ x ∈ ws, lo ≤ x ∧ x ≤ hi ∧ (x - start) % step = 0

theorem GridRun.nil {start step lo hi : ℕ} : GridRun start step lo hi [] := by simp [GridRun]

theorem GridRun.mono {start step lo lo' hi hi' : ℕ} {ws : List ℕ} (h : GridRun start step lo hi ws)
    (hlo : lo' ≤ lo) (hhi : hi ≤ hi') : GridRun start step lo' hi' ws :=
  ⟨h.1, fun x hx => by have := h.2 x hx; omega⟩

/-- Two runs, the second above the first, make one run. -/
theorem GridRun.append {start step lo lo₂ hi₁ hi : ℕ} {l₁ l₂ : List ℕ}
    (h₁ : GridRun start step lo hi₁ l₁) (h₂ : GridRun start step lo₂ hi l₂) (hgap : hi₁ < lo₂)
    (hlo : lo ≤ lo₂) (hhi : hi₁ ≤ hi) : GridRun start step lo hi (l₁ ++ l₂) := by
  refine ⟨List.pairwise_append.mpr ⟨h₁.1, h₂.1, fun a ha b hb => ?_⟩, fun x hx => ?_⟩
  · have := (h₁.2 a ha).2.1; have := (h₂.2 b hb).1; omega
  · rcases List.mem_append.mp hx with h | h
    · have := h₁.2 x h; omega
    · have := h₂.2 x h; omega

section Response

variable {env : RangeEnv}

/-- What a batch's entries are: served, and inside the batch's window. -/
theorem mem_batchEntries (hr : StoreInRange env) (hg : GenesisAtZero env) {s e step : U64}
    {entries : List BlockEntry} (hq : env.blocks ⟨s, e, step⟩ >>= withGenesis env s = some entries)
    {x : BlockEntry} (hx : x ∈ entries) : Served env x ∧ s ≤ x.1.slot ∧ x.1.slot ≤ e := by
  cases hb : env.blocks ⟨s, e, step⟩ with
  | none => simp [hb] at hq
  | some l =>
    have hl : ∀ y ∈ l, Served env y ∧ s ≤ y.1.slot ∧ y.1.slot ≤ e :=
      fun y hy => ⟨.inl ⟨_, l, hb, hy⟩, hr _ l hb y hy⟩
    rw [hb] at hq
    change withGenesis env s l = some entries at hq
    unfold withGenesis at hq
    split at hq
    · rename_i hs
      cases hgen : env.genesisBlock with
      | none => simp [hgen] at hq
      | some g =>
        simp only [hgen, Option.map_some', Option.some.injEq] at hq
        subst hq
        rcases List.mem_cons.mp hx with rfl | h
        · refine ⟨.inr ⟨g, hgen, rfl⟩, ?_, ?_⟩ <;> simp only [hs, hg g hgen] <;> bv_omega
        · exact hl x h
    · simp only [Option.some.injEq] at hq
      exact hl x (hq ▸ hx)

/-- A batch writes blocks in strictly increasing slot order, inside its window
and on the step grid from its first slot. -/
theorem batch_written_grid (hr : StoreInRange env) (hg : GenesisAtZero env)
    (hc : CanonicalUnique env) (s e step : U64) (prev : Root) :
    GridRun s.toNat step.toNat s.toNat e.toNat
      ((writtenBlocks (writeBlockRangeToStream env s e step prev).1).map (·.slot.toNat)) := by
  rcases (@writeBlockRangeToStream_spec env s e step prev).2.2 with
    h | ⟨entries, sel, hq, hsub, hkept, -, hpre⟩
  · rw [h]; exact GridRun.nil
  · have hsel : ∀ x ∈ sel, x ∈ entries := fun x hx => (dedupBlocksAndRoots_sublist _).subset
      ((sortBlocksAndRoots_perm _).subset (hsub.subset hx))
    have hmem := fun x hx => mem_batchEntries hr hg hq (hsel x hx)
    have hnd : (sel.map Prod.snd).Nodup :=
      (hsub.map Prod.snd).nodup (((sortBlocksAndRoots_perm _).map Prod.snd).nodup_iff.mpr
        (dedupBlocksAndRoots_nodup entries))
    have hpw := pairwise_slot_lt ((sortBlocksAndRoots_sorted _).sublist hsub) hnd
      (fun x hx y hy hxy => hc x y (hmem x hx).1 (hmem y hy).1 (hkept x hx).2 (hkept y hy).2 hxy)
    refine ⟨hpw.sublist (by simpa [List.map_map] using hpre.sublist.map (·.slot.toNat)), ?_⟩
    intro x hx
    obtain ⟨b, hb, rfl⟩ := List.mem_map.mp hx
    obtain ⟨y, hy, rfl⟩ := List.mem_map.mp (hpre.subset hb)
    obtain ⟨-, hs, he⟩ := hmem y hy
    have hk : ((y.1.slot - s) % step).toNat = 0 := by rw [(hkept y hy).1]; rfl
    rw [BitVec.toNat_umod, BitVec.toNat_sub_of_le hs] at hk
    rw [BitVec.le_def] at hs he
    exact ⟨hs, he, hk⟩

variable {k : RangeLimits} {allowed : U64} {r : BeaconBlocksByRangeRequest}

/-- On window `i` of the closed form, a batch's blocks lie on the request's grid. -/
theorem batch_written_requestGrid {i : ℕ} {w : U64 × U64} (hw : AtWindow r allowed i w)
    (hr : StoreInRange env) (hg : GenesisAtZero env) (hc : CanonicalUnique env) (prev : Root) :
    GridRun r.startSlot.toNat r.step.toNat
      (batchWindow r.startSlot.toNat r.step.toNat r.count.toNat allowed.toNat i).1
      (batchWindow r.startSlot.toNat r.step.toNat r.count.toNat allowed.toNat i).2
      ((writtenBlocks (writeBlockRangeToStream env w.1 w.2 r.step prev).1).map (·.slot.toNat)) := by
  obtain ⟨hpw, hmem⟩ := batch_written_grid hr hg hc w.1 w.2 r.step prev
  simp only [AtWindow, Prod.ext_iff] at hw
  rw [hw.1, hw.2] at hmem
  refine ⟨hpw, fun x hx => ?_⟩
  obtain ⟨h1, h2, h3⟩ := hmem x hx
  refine ⟨h1, h2, ?_⟩
  have hx' : x - r.startSlot.toNat =
      (x - (batchWindow r.startSlot.toNat r.step.toNat r.count.toNat allowed.toNat i).1) +
        r.step.toNat * (i * allowed.toNat) := by simp only [batchWindow] at h1 ⊢; omega
  rw [hx', Nat.add_mul_mod_self_left, h3]

/-- From window `i`, whatever the collaborators answer, the loop writes blocks
in strictly increasing slot order, on the request's grid, from window `i` on. -/
theorem batchLoop_written_grid (hv : ValidRange k env.currentSlot r)
    (hh : SlotHeadroom k env.currentSlot) (hL : 1 ≤ allowed.toNat) (hr : StoreInRange env)
    (hg : GenesisAtZero env) (hc : CanonicalUnique env) (prev : Root) :
    ∀ fuel i (w : U64 × U64), AtWindow r allowed i w → i < batchCount r.count.toNat allowed.toNat →
      GridRun r.startSlot.toNat r.step.toNat
        (batchWindow r.startSlot.toNat r.step.toNat r.count.toNat allowed.toNat i).1
        (r.startSlot.toNat + r.step.toNat * (r.count.toNat - 1))
        ((writtenBlocks (batchLoop k allowed env r (r.startSlot + r.step * (r.count - 1)) prev fuel i
          w.1 w.2).1).map (·.slot.toNat)) := by
  intro fuel
  induction fuel with
  | zero => intros; simpa [batchLoop] using GridRun.nil
  | succ fuel ih =>
    intro i w hw hi
    have hend := batchWindow_snd_le r.startSlot.toNat r.step.toNat r.count.toNat allowed.toNat i
    have hW := batch_written_requestGrid hw hr hg hc prev
    simp only [batchLoop]
    split
    · rcases @batchStep_cases k allowed env r (r.startSlot + r.step * (r.count - 1)) prev i w.1
        w.2 with
        ⟨-, evs, err, hstep, -, hwr, -⟩ | ⟨-, -, h⟩
      · rw [hstep]; simpa [hwr] using GridRun.nil
      · rcases h with ⟨err, -, hstep⟩ | ⟨b, -, hstep⟩ | ⟨-, -, hstep⟩ | ⟨-, hnext, hstep⟩ <;>
          rw [hstep]
        · simpa using hW.mono le_rfl hend
        · simpa using hW.mono le_rfl hend
        · simpa using hW.mono le_rfl hend
        · have hlt := (hv.next_le_endReqSlot_iff hh hL hw).mp hnext
          have hrest := ih (i + 1) _ (hv.atWindow_next hh hL hw hlt).1 ((lt_batchCount_iff hL).mpr hlt)
          simpa using hW.append hrest (batchWindow_snd_lt_succ hL hv.step_pos hlt)
            (batchWindow_fst_le_succ _ _ _ _ i) hend
    · simpa using GridRun.nil

/-- The slots of a response as the request's grid allows them: at most `count`
of them, each `start_slot + j*step` with `j < count`, strictly increasing, and so
passing every per-chunk check of the requesting side. -/
structure OnRequestGrid (k : RangeLimits) (r : BeaconBlocksByRangeRequest) (slots : List ℕ) :
    Prop where
  /-- No more slots than the request's count. -/
  length_le : slots.length ≤ r.count.toNat
  /-- Each slot is a grid point of the request. -/
  on_grid : ∀ s ∈ slots, r.startSlot.toNat ≤ s ∧
    s ≤ r.startSlot.toNat + r.step.toNat * (r.count.toNat - 1) ∧
    (s - r.startSlot.toNat) % r.step.toNat = 0
  /-- Slots strictly increase. -/
  increasing : slots.Pairwise (· < ·)
  /-- The checks of the requesting side pass. -/
  conformant : Conformant k r slots

/-- A grid point up to the last requested slot is one of the `count` points
`start + step*j`. -/
theorem mem_range'_of_onGrid {S D C x : ℕ} (hD : 1 ≤ D) (hC : 1 ≤ C) (h1 : S ≤ x)
    (h2 : x ≤ S + D * (C - 1)) (h3 : (x - S) % D = 0) : x ∈ List.range' S C D := by
  have hdiv : D * ((x - S) / D) = x - S := Nat.mul_div_cancel' (Nat.dvd_of_mod_eq_zero h3)
  have hj : (x - S) / D ≤ C - 1 := Nat.le_of_mul_le_mul_left (by omega) (by omega : 0 < D)
  exact List.mem_range'.mpr ⟨(x - S) / D, by omega, by omega⟩

/-- A run of grid points from the first requested slot to the last one is what
the request's grid allows. -/
theorem GridRun.onRequestGrid {c : U64} {ws : List ℕ} (hv : ValidRange k c r)
    (h : GridRun r.startSlot.toNat r.step.toNat r.startSlot.toNat
      (r.startSlot.toNat + r.step.toNat * (r.count.toNat - 1)) ws) :
    OnRequestGrid k r ws := by
  have hlen : ws.length ≤ r.count.toNat := by
    have hsub := List.subperm_of_subset (h.1.imp ne_of_lt) fun x hx =>
      mem_range'_of_onGrid hv.step_pos hv.count_pos (h.2 x hx).1 (h.2 x hx).2.1 (h.2 x hx).2.2
    simpa using hsub.length_le
  have hlast : r.step.toNat * (r.count.toNat - 1) < r.count.toNat * r.step.toNat := by
    rw [Nat.mul_comm r.count.toNat]
    exact Nat.mul_lt_mul_of_pos_left (by have := hv.count_pos; omega) hv.step_pos
  refine ⟨hlen, h.2, h.1, hlen, hlen.trans hv.count_le, fun x hx => ?_, ?_⟩
  · have := h.2 x hx; omega
  · refine (h.1.imp_of_mem fun {a b} ha hb hab => ⟨hab, ?_⟩).chain'
    have hda := Nat.dvd_of_mod_eq_zero (h.2 a ha).2.2
    have hdb := Nat.dvd_of_mod_eq_zero (h.2 b hb).2.2
    have hba : b - a = (b - r.startSlot.toNat) - (a - r.startSlot.toNat) := by
      have := (h.2 a ha).1; omega
    rw [hba]
    exact Nat.mod_eq_zero_of_dvd (Nat.dvd_sub' hdb hda)

/-- Whatever the collaborators answer, within the slot headroom, the slots of
a stream's blocks run on the request's grid, from its first slot to its last,
strictly increasing. -/
theorem rangeHandler_written_gridRun
    (hv : validateRangeRequest k env.currentSlot r = .ok ()) (hL : 1 ≤ allowed.toNat)
    (hh : SlotHeadroom k env.currentSlot) (hr : StoreInRange env) (hg : GenesisAtZero env)
    (hc : CanonicalUnique env) (fuel : ℕ) :
    GridRun r.startSlot.toNat r.step.toNat r.startSlot.toNat
      (r.startSlot.toNat + r.step.toNat * (r.count.toNat - 1))
      ((writtenBlocks (beaconBlocksByRangeRPCHandler k allowed env r fuel).1).map
        (·.slot.toNat)) := by
  have hv' := validateRangeRequest_ok hv
  simp only [beaconBlocksByRangeRPCHandler, hv]
  split
  · simpa using GridRun.nil
  · simpa [batchWindow] using batchLoop_written_grid hv' hh hL hr hg hc zeroHash fuel 0 _
      (hv'.atWindow_first hh hL) ((lt_batchCount_iff hL).mpr (by have := hv'.count_pos; omega))

/-- Whatever the collaborators answer, within the slot headroom, a stream's
blocks lie on the request's grid, at most `count` of them, in increasing slot
order, and pass the requesting side's per-chunk checks. -/
theorem rangeHandler_response_on_request_grid
    (hv : validateRangeRequest k env.currentSlot r = .ok ()) (hL : 1 ≤ allowed.toNat)
    (hh : SlotHeadroom k env.currentSlot) (hr : StoreInRange env) (hg : GenesisAtZero env)
    (hc : CanonicalUnique env) (fuel : ℕ) :
    OnRequestGrid k r ((writtenBlocks (beaconBlocksByRangeRPCHandler k allowed env r fuel).1).map
      (·.slot.toNat)) :=
  (rangeHandler_written_gridRun hv hL hh hr hg hc fuel).onRequestGrid (validateRangeRequest_ok hv)

theorem rangeHandler_response_on_request_grid_slotsOneTwo :
    validateRangeRequest limits1024 brokenLinkEnv.currentSlot slotsOneTwo = .ok () ∧
    1 ≤ (1 : U64).toNat ∧ SlotHeadroom limits1024 brokenLinkEnv.currentSlot ∧
    StoreInRange brokenLinkEnv ∧ GenesisAtZero brokenLinkEnv ∧ CanonicalUnique brokenLinkEnv ∧
    OnRequestGrid limits1024 slotsOneTwo
      ((writtenBlocks (beaconBlocksByRangeRPCHandler limits1024 1 brokenLinkEnv slotsOneTwo 2).1).map
        (·.slot.toNat)) :=
  have hv : validateRangeRequest limits1024 brokenLinkEnv.currentSlot slotsOneTwo = .ok () := rfl
  have hh : SlotHeadroom limits1024 brokenLinkEnv.currentSlot := by decide
  have hr : StoreInRange brokenLinkEnv := workingEnv_storeExact.storeInRange
  have hg : GenesisAtZero brokenLinkEnv := workingEnv_genesisAtZero rfl
  have hc : CanonicalUnique brokenLinkEnv := workingEnv_canonicalUnique (by decide)
  ⟨hv, by decide, hh, hr, hg, hc, rangeHandler_response_on_request_grid hv (by decide) hh hr hg hc 2⟩

/-- Nothing stored but the genesis block, at the highest current slot that
lets a request start at slot `2^64 - 2`. -/
def genesisOnlyEnv : RangeEnv :=
  workingEnv [] ⟨⟨0, 0, 0, 0⟩, 0⟩ (fun _ => 7) (fun _ => true) 18446744073709549566

/-- Slots `2^64 - 2` and `2^64 - 1`. -/
def lastTwoSlots : BeaconBlocksByRangeRequest := ⟨18446744073709551614, 2, 1⟩

end Response

/-! ## Completeness of the response -/

section Completeness

variable {k : RangeLimits} {allowed : U64} {env : RangeEnv} {r : BeaconBlocksByRangeRequest}
  {stored : List BlockEntry}

/-- A batch's answer holds every stored entry on the batch's grid, and the
genesis entry when the batch starts at slot 0. -/
theorem mem_batchEntries_of_exact (hs : StoreExact env stored) {s e step : U64}
    {entries : List BlockEntry} (hq : env.blocks ⟨s, e, step⟩ >>= withGenesis env s = some entries)
    {x : BlockEntry}
    (hx : (x ∈ stored ∧ s ≤ x.1.slot ∧ x.1.slot ≤ e ∧ (x.1.slot - s) % step = 0) ∨
      (s = 0 ∧ ∃ g, env.genesisBlock = some g ∧ x = (g, env.hashTreeRoot g.block))) :
    x ∈ entries := by
  obtain ⟨l, hl, hmem⟩ := hs ⟨s, e, step⟩
  rw [hl] at hq
  change withGenesis env s l = some entries at hq
  unfold withGenesis at hq
  rcases hx with hx | ⟨hs0, g, hg, rfl⟩
  · have hxl := (hmem x).mpr hx
    split at hq
    · cases hgen : env.genesisBlock <;>
        simp only [hgen, Option.map_some', Option.map_none', Option.some.injEq, reduceCtorEq] at hq
      exact hq ▸ List.mem_cons_of_mem _ hxl
    · exact Option.some.inj hq ▸ hxl
  · simp only [if_pos hs0, hg, Option.map_some', Option.some.injEq] at hq
    exact hq ▸ List.mem_cons_self _ _

/-- Without failures, a kept entry of a batch's answer is written, unless a
broken chain at a block of lower or equal slot cut the batch short: neither
dedup nor sort nor filter loses it. -/
theorem batch_writes_kept (hok : NoFailures env) (hr : StoreInRange env) (hg : GenesisAtZero env)
    (hkey : KeyedByRoot env) {s e step : U64} (prev : Root) {entries : List BlockEntry}
    (hq : env.blocks ⟨s, e, step⟩ >>= withGenesis env s = some entries) {x : BlockEntry}
    (hx : x ∈ entries) (hk : Kept env.isCanonical step s x) :
    x.1 ∈ writtenBlocks (writeBlockRangeToStream env s e step prev).1 ∨
      ∃ b, (writeBlockRangeToStream env s e step prev).2 = some (.invalidParent b) ∧
        b.slot.toNat ≤ x.1.slot.toNat := by
  have hd := mem_dedupBlocksAndRoots hx fun y hy h =>
    hkey y x (mem_batchEntries hr hg hq hy).1 (mem_batchEntries hr hg hq hx).1 h
  rw [writeBlockRangeToStream_of_ok hq (fun y _ => hok.lookup y.2) hok.stream]
  simpa [filterBlocks] using mem_filterLoop [] prev (sortBlocksAndRoots_sorted _)
    (fun y _ => hok.lookup y.2) ((sortBlocksAndRoots_perm _).mem_iff.mpr hd) hk

/-- Grid point `j` of the request, with `i*L ≤ j < (i+1)*L`, lies in window `i`
and on the window's own step grid. -/
theorem atWindow_gridPoint {i j : ℕ} {w : U64 × U64} (hw : AtWindow r allowed i w)
    (hij : i * allowed.toNat ≤ j) (hj : j < (i + 1) * allowed.toNat) (hjc : j < r.count.toNat)
    {x : U64} (hx : x.toNat = r.startSlot.toNat + r.step.toNat * j) :
    w.1 ≤ x ∧ x ≤ w.2 ∧ (x - w.1) % r.step = 0 := by
  simp only [AtWindow, batchWindow, batchEnd, Prod.mk.injEq] at hw
  have h1 := Nat.mul_le_mul_left r.step.toNat hij
  have h2 := Nat.mul_le_mul_left r.step.toNat
    (show j ≤ min ((i + 1) * allowed.toNat) r.count.toNat - 1 by omega)
  have hle : w.1 ≤ x := by rw [BitVec.le_def]; omega
  refine ⟨hle, by rw [BitVec.le_def]; omega, BitVec.eq_of_toNat_eq ?_⟩
  have hdvd := Nat.dvd_sub' (Nat.dvd_mul_right r.step.toNat j)
    (Nat.dvd_mul_right r.step.toNat (i * allowed.toNat))
  rw [BitVec.toNat_umod, BitVec.toNat_sub_of_le hle, hx, hw.1, Nat.add_sub_add_left,
    Nat.mod_eq_zero_of_dvd hdvd]
  rfl

/-- From window `i`, without failures and with fuel for the remaining windows,
the loop writes every canonical stored entry, or the genesis entry, at a grid
point `j ≥ i*L` of the request, unless a broken chain at a block of lower or
equal slot stops it. -/
theorem batchLoop_writes_gridPoint (hv : ValidRange k env.currentSlot r)
    (hh : SlotHeadroom k env.currentSlot) (hL : 1 ≤ allowed.toNat) (hok : NoFailures env)
    (hs : StoreExact env stored) (hg : GenesisAtZero env) (hkey : KeyedByRoot env) (prev : Root)
    {x : BlockEntry}
    (hx : x ∈ stored ∨ ∃ g, env.genesisBlock = some g ∧ x = (g, env.hashTreeRoot g.block))
    (hcan : env.isCanonical x.2 = some true) {j : ℕ} (hjc : j < r.count.toNat)
    (hxs : x.1.slot.toNat = r.startSlot.toNat + r.step.toNat * j) :
    ∀ fuel i (w : U64 × U64), AtWindow r allowed i w → i < batchCount r.count.toNat allowed.toNat →
      batchCount r.count.toNat allowed.toNat ≤ fuel + i → i * allowed.toNat ≤ j →
      x.1 ∈ writtenBlocks
          (batchLoop k allowed env r (r.startSlot + r.step * (r.count - 1)) prev fuel i w.1 w.2).1 ∨
        ∃ b, (batchLoop k allowed env r (r.startSlot + r.step * (r.count - 1)) prev fuel i w.1
          w.2).2 = .invalidParent b ∧ b.slot.toNat ≤ x.1.slot.toNat := by
  have hr := hs.storeInRange
  intro fuel
  induction fuel with
  | zero => intro i w _ hi hf; omega
  | succ fuel ih =>
    intro i w hw hi hf hij
    obtain ⟨-, hin, hspan, -⟩ := atWindow_bounds hv hh hL hw hi
    obtain ⟨entries, hq⟩ := hok.entries w.1 w.2 r.step
    simp only [batchLoop, if_pos hin]
    rcases @batchStep_cases k allowed env r (r.startSlot + r.step * (r.count - 1)) prev i w.1
      w.2 with
      ⟨hfail, -⟩ | ⟨-, -, h⟩
    · simp only [hok.rateLimit i, Bool.true_eq_false, false_or] at hfail
      exact absurd hfail hspan
    by_cases hjw : j < (i + 1) * allowed.toNat
    · -- the grid point is in this window
      obtain ⟨h1, h2, h3⟩ := atWindow_gridPoint hw hij hjw hjc hxs
      have hxe : x ∈ entries := by
        refine mem_batchEntries_of_exact hs hq (hx.imp (fun hx => ⟨hx, h1, h2, h3⟩) ?_)
        rintro ⟨g, hgen, rfl⟩
        have h0 : w.1 ≤ 0 := by simpa [hg g hgen] using h1
        exact ⟨by bv_omega, g, hgen, rfl⟩
      rcases batch_writes_kept hok hr hg hkey prev hq hxe ⟨h3, hcan⟩ with hw' | ⟨b, hb, hle⟩
      · rcases h with ⟨_, _, hstep⟩ | ⟨_, _, hstep⟩ | ⟨_, _, hstep⟩ | ⟨_, _, hstep⟩ <;>
          rw [hstep] <;> simp [hw']
      · rcases h with ⟨_, herr, -⟩ | ⟨b', hb', hstep⟩ | ⟨hn, -⟩ | ⟨hn, -⟩ <;> rw [hb] at *
        · cases herr
        · cases hb'
          rw [hstep]
          exact .inr ⟨b, rfl, hle⟩
        · cases hn
        · cases hn
    · -- the grid point is in a later window
      have hlt : (i + 1) * allowed.toNat < r.count.toNat := by omega
      rcases h with ⟨err, herr, -⟩ | ⟨b, hb, hstep⟩ | ⟨-, hlast, -⟩ | ⟨-, -, hstep⟩
      · rcases hok.batch_error w.1 w.2 r.step prev with h | ⟨b, h⟩ <;> simp [h] at herr
      · obtain ⟨root, hbm⟩ := hok.invalidParent_mem hq hb
        have hbe := BitVec.le_def.mp (mem_batchEntries hr hg hq hbm).2.2
        have hend : w.2.toNat < x.1.slot.toNat := by
          have hj' : (i + 1) * allowed.toNat - 1 < j :=
            Nat.lt_of_lt_of_le (Nat.sub_lt (Nat.mul_pos i.succ_pos hL) Nat.one_pos) (not_lt.mp hjw)
          simp only [AtWindow, batchWindow, batchEnd, Prod.mk.injEq, min_eq_left hlt.le] at hw
          rw [hw.2, hxs]
          exact Nat.add_lt_add_left (Nat.mul_lt_mul_of_pos_left hj' hv.step_pos) _
        rw [hstep]
        exact .inr ⟨b, rfl, by simp only at hbe; omega⟩
      · exact absurd ((hv.next_le_endReqSlot_iff hh hL hw).mpr hlt) (BitVec.not_le.mpr hlast)
      · rw [hstep]
        rcases ih (i + 1) _ (hv.atWindow_next hh hL hw hlt).1 ((lt_batchCount_iff hL).mpr hlt)
          (by omega) (by omega) with h' | h'
        · exact .inl (by simpa using Or.inr h')
        · exact .inr h'

/-- Without failures and with fuel for every window, within the slot headroom,
the handler writes every canonical stored block on the request's grid, and the
genesis block when it is canonical and on the grid (that is, when the request
starts at slot 0), unless a broken chain at a block of lower or equal slot cut
the response short. -/
theorem rangeHandler_writes_every_canonical_grid_block
    (hv : validateRangeRequest k env.currentSlot r = .ok ()) (hL : 1 ≤ allowed.toNat)
    (hh : SlotHeadroom k env.currentSlot) (hs : StoreExact env stored) (hg : GenesisAtZero env)
    (hkey : KeyedByRoot env) (hok : NoFailures env) {fuel : ℕ}
    (hfuel : batchCount r.count.toNat allowed.toNat ≤ fuel) {x : BlockEntry}
    (hx : x ∈ stored ∨ ∃ g, env.genesisBlock = some g ∧ x = (g, env.hashTreeRoot g.block))
    (hcan : env.isCanonical x.2 = some true)
    (hgrid : ∃ j < r.count.toNat, x.1.slot.toNat = r.startSlot.toNat + r.step.toNat * j) :
    x.1 ∈ writtenBlocks (beaconBlocksByRangeRPCHandler k allowed env r fuel).1 ∨
      ∃ b, (beaconBlocksByRangeRPCHandler k allowed env r fuel).2 = .invalidParent b ∧
        b.slot.toNat ≤ x.1.slot.toNat := by
  have hv' := validateRangeRequest_ok hv
  obtain ⟨j, hj, hxs⟩ := hgrid
  simp only [beaconBlocksByRangeRPCHandler, hv, hok.topicCollector, Bool.true_eq_false, if_false]
  exact batchLoop_writes_gridPoint hv' hh hL hok hs hg hkey zeroHash hx hcan hj hxs fuel 0 _
    (hv'.atWindow_first hh hL) ((lt_batchCount_iff hL).mpr (by have := hv'.count_pos; omega))
    (by omega) (by simp)

/-- The stored block at slot 1. -/
def slotOneEntry : BlockEntry := (⟨⟨1, 0, 0, 1⟩, 0⟩, 11)

theorem rangeHandler_writes_slotOneEntry :
    validateRangeRequest limits1024 brokenLinkEnv.currentSlot slotsOneTwo = .ok () ∧
    1 ≤ (1 : U64).toNat ∧ SlotHeadroom limits1024 brokenLinkEnv.currentSlot ∧
    StoreExact brokenLinkEnv brokenLinkStore ∧ GenesisAtZero brokenLinkEnv ∧
    KeyedByRoot brokenLinkEnv ∧ NoFailures brokenLinkEnv ∧
    batchCount slotsOneTwo.count.toNat (1 : U64).toNat ≤ 2 ∧ slotOneEntry ∈ brokenLinkStore ∧
    brokenLinkEnv.isCanonical slotOneEntry.2 = some true ∧
    (∃ j < slotsOneTwo.count.toNat,
      slotOneEntry.1.slot.toNat = slotsOneTwo.startSlot.toNat + slotsOneTwo.step.toNat * j) ∧
    (slotOneEntry.1 ∈ writtenBlocks (beaconBlocksByRangeRPCHandler limits1024 1 brokenLinkEnv
        slotsOneTwo 2).1 ∨
      ∃ b, (beaconBlocksByRangeRPCHandler limits1024 1 brokenLinkEnv slotsOneTwo 2).2 =
        .invalidParent b ∧ b.slot.toNat ≤ slotOneEntry.1.slot.toNat) :=
  have hv : validateRangeRequest limits1024 brokenLinkEnv.currentSlot slotsOneTwo = .ok () := rfl
  have hh : SlotHeadroom limits1024 brokenLinkEnv.currentSlot := by decide
  have hkey : KeyedByRoot brokenLinkEnv := workingEnv_keyedByRoot (by decide)
  have hx : slotOneEntry ∈ brokenLinkStore := by decide
  have hgrid : ∃ j < slotsOneTwo.count.toNat,
      slotOneEntry.1.slot.toNat = slotsOneTwo.startSlot.toNat + slotsOneTwo.step.toNat * j :=
    ⟨0, by decide, rfl⟩
  ⟨hv, by decide, hh, workingEnv_storeExact, workingEnv_genesisAtZero rfl, hkey,
    workingEnv_noFailures, by decide, hx, rfl, hgrid,
    rangeHandler_writes_every_canonical_grid_block hv (by decide) hh workingEnv_storeExact
      (workingEnv_genesisAtZero rfl) hkey workingEnv_noFailures (by decide) (.inl hx) rfl hgrid⟩

/-- A canonical block stored at the last slot, `2^64 - 1`. -/
def topSlotEntry : BlockEntry := (⟨⟨18446744073709551615, 0, 0, 3⟩, 0⟩, 5)

/-- The block at the last slot, at the highest current slot that lets a
request start there. -/
def topSlotEnv : RangeEnv :=
  workingEnv [topSlotEntry] ⟨⟨0, 0, 0, 0⟩, 0⟩ (fun _ => 7) (fun _ => true) 18446744073709549567

/-- Two slots from `2^64 - 1`, step 1. -/
def fromTopSlot : BeaconBlocksByRangeRequest := ⟨18446744073709551615, 2, 1⟩

end Completeness

/-! ## Parent links across batches -/

/-- `filterBlocks` moves its own copy of the `prevRoot` pointer, so every batch
starts from the zero hash and the first block of a batch is never checked
against the last block of the one before. With one block per batch the handler
writes both blocks of `brokenLinkStore`, the second not a child of the
first; one batch of two stops at the second with `ErrInvalidParent`. -/
theorem rangeHandler_misses_link_across_batches :
    writtenBlocks (beaconBlocksByRangeRPCHandler limits1024 1 brokenLinkEnv slotsOneTwo 2).1 =
      brokenLinkStore.map Prod.fst ∧
    ¬(writtenBlocks (beaconBlocksByRangeRPCHandler limits1024 1 brokenLinkEnv slotsOneTwo 2).1).Chain'
      (fun a b => b.block.parentRoot = brokenLinkEnv.hashTreeRoot a.block) ∧
    (beaconBlocksByRangeRPCHandler limits1024 2 brokenLinkEnv slotsOneTwo 1).2 =
      .invalidParent ⟨⟨2, 0, 99, 2⟩, 0⟩ := by
  have hw : writtenBlocks (beaconBlocksByRangeRPCHandler limits1024 1 brokenLinkEnv slotsOneTwo
      2).1 = brokenLinkStore.map Prod.fst := by decide
  refine ⟨hw, ?_, by decide⟩
  rw [hw]
  simp only [brokenLinkStore, List.map, List.chain'_cons, List.chain'_singleton, and_true]
  decide


end Prysm.Sync.RangeResponse
