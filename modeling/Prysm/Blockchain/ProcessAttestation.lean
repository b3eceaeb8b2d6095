import Mathlib.Data.List.Nodup
import Prysm.Types

/-!
# The fork-choice attestation loop

`processAttestation` of `blockchain/receive_attestation.go`. Once the state is
initialised and the genesis time is known, the goroutine waits for each slot tick, takes
the fork-choice attestations of the pool (`ForkchoiceAttestations`, in Go's map order)
and, for each one, skips it until `VerifySlotTime` accepts the slot after its own, skips
it while its block or its block's state summary is missing, deletes it from the pool,
drops it if `VerifyCheckpointEpoch` refuses its target, and hands the rest to
`ReceiveAttestationNoPubsub`. A delete error is logged and the attestation is still handed
on. The pool's fork-choice part is `forkchoiceAtt` of `kv.go`, a map keyed by the
attestation's hash, so a save overwrites the entry of its hash.

Other goroutines save to the pool at any time, also between a tick's snapshot and its
deletes; this loop is the only one that deletes. Over every interleaving, each hash
reaches `ReceiveAttestationNoPubsub` at most as often as it was saved, and every
attestation a tick has yet to reach is still pooled under its hash, so the delete's error
branch is never taken. A tick with no concurrent save keeps exactly the entries that were
not due, and hands on, in the snapshot's order, the due ones whose target passed.
-/

namespace Prysm.Blockchain.ProcessAttestation

open Prysm.Types

/-- The fields of an `ethpb.Attestation` the loop reads. -/
structure Attestation where
  /-- `Data.Slot`. -/
  slot : U64
  /-- `Data.BeaconBlockRoot`. -/
  beaconBlockRoot : Root
  /-- `Data.Target.Epoch`. -/
  targetEpoch : U64
  /-- `Data.Target.Root`. -/
  targetRoot : Root
  /-- The committee index, the source checkpoint, the aggregation bits and the signature,
  which only the pool's hash reads. -/
  other : ℕ
  deriving DecidableEq, Repr

/-- What the loop body asks the rest of the node about an attestation at one moment. -/
structure TickView where
  /-- `helpers.VerifySlotTime(genesis, slot, MaximumGossipClockDisparity) == nil`. -/
  verifySlotTime : U64 → Bool
  /-- `s.stateGen.StateSummaryExists`. -/
  stateSummaryExists : Root → Bool
  /-- `s.hasBlock`. -/
  hasBlock : Root → Bool
  /-- `helpers.VerifyCheckpointEpoch` of the target checkpoint, its epoch and root. -/
  verifyCheckpointEpoch : U64 → Root → Bool

section Pool

variable (hashFn : Attestation → Option Root)

/-- `forkchoiceAtt` of `AttCaches`: the map from `hashFn(att)` to `att`, as the list of its
entries; `hashFn` is `hashutil.HashProto`, `none` for its error. -/
structure ForkchoicePool where
  /-- The map's entries. -/
  entries : List (Root × Attestation)
  /-- Each attestation sits under its own hash. -/
  keyed : ∀ e ∈ entries, hashFn e.2 = some e.1
  /-- A map holds each key once. -/
  nodup : (entries.map Prod.fst).Nodup

variable {hashFn}

/-- The map's keys. -/
def ForkchoicePool.keys (p : ForkchoicePool hashFn) : List Root := p.entries.map Prod.fst

/-- `delete(p.forkchoiceAtt, r)`. -/
def ForkchoicePool.erase (p : ForkchoicePool hashFn) (r : Root) : ForkchoicePool hashFn where
  entries := p.entries.filter fun e => e.1 != r
  keyed e he := p.keyed e (List.mem_filter.mp he).1
  nodup := p.nodup.sublist ((List.filter_sublist _).map _)

theorem ForkchoicePool.mem_keys_erase {p : ForkchoicePool hashFn} {r k : Root} :
    k ∈ (p.erase r).keys ↔ k ∈ p.keys ∧ k ≠ r := by
  simp only [keys, erase, List.mem_map, List.mem_filter, bne_iff_ne, ne_eq]
  constructor
  · rintro ⟨e, ⟨he, hne⟩, rfl⟩
    exact ⟨⟨e, he, rfl⟩, hne⟩
  · rintro ⟨⟨e, he, rfl⟩, hne⟩
    exact ⟨e, ⟨he, hne⟩, rfl⟩

/-- `p.forkchoiceAtt[r] = att`, for `r` the attestation's hash. -/
def ForkchoicePool.put (p : ForkchoicePool hashFn) (att : Attestation) (r : Root)
    (h : hashFn att = some r) : ForkchoicePool hashFn where
  entries := (r, att) :: (p.erase r).entries
  keyed e he := by
    rcases List.mem_cons.mp he with rfl | he
    · exact h
    · exact (p.erase r).keyed e he
  nodup := List.nodup_cons.mpr ⟨fun hr => (mem_keys_erase.mp hr).2 rfl, (p.erase r).nodup⟩

theorem ForkchoicePool.keys_put (p : ForkchoicePool hashFn) (att : Attestation) (r : Root)
    (h : hashFn att = some r) : (p.put att r h).keys = r :: (p.erase r).keys := rfl

/-- A new pool, as `NewAttCaches` makes it. -/
def emptyPool : ForkchoicePool hashFn := ⟨[], nofun, List.nodup_nil⟩

/-- Modelled from the spec: `SaveForkchoiceAttestation` is not in the sources; it stores
the attestation under its hash, and on a hash error leaves the map as it was and answers
the error to its caller. -/
def saveForkchoiceAttestation (p : ForkchoicePool hashFn) (att : Attestation) :
    ForkchoicePool hashFn :=
  match h : hashFn att with
  | none => p
  | some r => p.put att r h

/-- Modelled from the spec: `DeleteForkchoiceAttestation` is not in the sources; it drops
the attestation's hash from the map, or answers `none` for a hash error. -/
def deleteForkchoiceAttestation (p : ForkchoicePool hashFn) (att : Attestation) :
    Option (ForkchoicePool hashFn) :=
  (hashFn att).map p.erase

/-- Modelled from the spec: `ForkchoiceAttestations` is not in the sources; it copies the
map's values, in Go's map order. -/
def forkchoiceAttestations (p : ForkchoicePool hashFn) : List Attestation :=
  p.entries.map Prod.snd

theorem mem_keys_saveForkchoiceAttestation {p : ForkchoicePool hashFn} {att : Attestation}
    {k : Root} : k ∈ (saveForkchoiceAttestation p att).keys ↔ k ∈ p.keys ∨ hashFn att = some k := by
  unfold saveForkchoiceAttestation
  split
  · rename_i h
    simp [h]
  · rename_i r h
    rw [ForkchoicePool.keys_put, List.mem_cons, ForkchoicePool.mem_keys_erase, h,
      Option.some.injEq]
    by_cases hk : k = r
    · simp [hk]
    · simp [hk, Ne.symm hk]

theorem mem_keys_deleteForkchoiceAttestation {p : ForkchoicePool hashFn} {att : Attestation}
    {k : Root} :
    k ∈ ((deleteForkchoiceAttestation p att).getD p).keys ↔ k ∈ p.keys ∧ hashFn att ≠ some k := by
  unfold deleteForkchoiceAttestation
  cases hashFn att with
  | none => simp
  | some r => simp [ForkchoicePool.mem_keys_erase, eq_comm]

/-- Two entries of the map under one key are the same entry. -/
theorem ForkchoicePool.eq_of_mem {p : ForkchoicePool hashFn} {k : Root} {a b : Attestation}
    (ha : (k, a) ∈ p.entries) (hb : (k, b) ∈ p.entries) : a = b :=
  congrArg Prod.snd (List.inj_on_of_nodup_map p.nodup ha hb rfl)

end Pool

section Loop

variable {hashFn : Attestation → Option Root}

/-- The body of `for _, a := range atts` on `a`: the pool, and the attestations handed to
`ReceiveAttestationNoPubsub` so far, whose errors are only logged. `nextSlot := a.Data.Slot
+ 1` is a `uint64` sum. -/
def processOne (v : TickView) (s : ForkchoicePool hashFn × List Attestation) (a : Attestation) :
    ForkchoicePool hashFn × List Attestation :=
  if !v.verifySlotTime (a.slot + 1) then s
  else if !(v.stateSummaryExists a.beaconBlockRoot && v.hasBlock a.beaconBlockRoot) then s
  else
    let pool := (deleteForkchoiceAttestation s.1 a).getD s.1
    if !v.verifyCheckpointEpoch a.targetEpoch a.targetRoot then (pool, s.2)
    else (pool, s.2 ++ [a])

/-- One tick of the loop with the rest of the node's answers fixed. -/
def processAll (v : TickView) (s : ForkchoicePool hashFn × List Attestation)
    (atts : List Attestation) : ForkchoicePool hashFn × List Attestation :=
  atts.foldl (processOne v) s

/-- The body reaches the delete: the slot after the attestation's own is due, and its
block and the block's state summary are present. -/
def due (v : TickView) (a : Attestation) : Bool :=
  v.verifySlotTime (a.slot + 1) &&
    (v.stateSummaryExists a.beaconBlockRoot && v.hasBlock a.beaconBlockRoot)

/-- The body hands the attestation on. -/
def handedOn (v : TickView) (a : Attestation) : Bool :=
  due v a && v.verifyCheckpointEpoch a.targetEpoch a.targetRoot

theorem due_of_handedOn {v : TickView} {a : Attestation} (h : handedOn v a = true) :
    due v a = true := by
  rw [handedOn, Bool.and_eq_true] at h
  exact h.1

theorem processOne_snd (v : TickView) (s : ForkchoicePool hashFn × List Attestation)
    (a : Attestation) : (processOne v s a).2 = s.2 ++ if handedOn v a then [a] else [] := by
  unfold processOne handedOn due
  cases v.verifySlotTime (a.slot + 1) <;>
    cases v.stateSummaryExists a.beaconBlockRoot && v.hasBlock a.beaconBlockRoot <;>
    cases v.verifyCheckpointEpoch a.targetEpoch a.targetRoot <;> simp

theorem mem_keys_processOne (v : TickView) (s : ForkchoicePool hashFn × List Attestation)
    (a : Attestation) {k : Root} :
    k ∈ (processOne v s a).1.keys ↔ k ∈ s.1.keys ∧ ¬(due v a = true ∧ hashFn a = some k) := by
  unfold processOne due
  cases v.verifySlotTime (a.slot + 1) <;>
    cases v.stateSummaryExists a.beaconBlockRoot && v.hasBlock a.beaconBlockRoot <;>
    cases v.verifyCheckpointEpoch a.targetEpoch a.targetRoot <;>
    simp [mem_keys_deleteForkchoiceAttestation]

/-- A tick run alone hands on the snapshot's attestations that were due and whose target
passed, in order, and removes from the pool the hashes of those that were due. -/
theorem processAll_spec (v : TickView) (atts : List Attestation) :
    ∀ s : ForkchoicePool hashFn × List Attestation,
      (processAll v s atts).2 = s.2 ++ atts.filter (handedOn v) ∧
        ∀ k, k ∈ (processAll v s atts).1.keys ↔
          k ∈ s.1.keys ∧ ¬∃ a ∈ atts, due v a = true ∧ hashFn a = some k := by
  induction atts with
  | nil => intro s; simp [processAll]
  | cons a atts ih =>
    intro s
    obtain ⟨hrec, hkeys⟩ := ih (processOne v s a)
    refine ⟨?_, fun k => ?_⟩
    · rw [processAll, List.foldl_cons, ← processAll, hrec, processOne_snd, List.filter_cons]
      split <;> simp
    · rw [processAll, List.foldl_cons, ← processAll, hkeys, mem_keys_processOne]
      simp only [List.mem_cons, exists_eq_or_imp, not_or, and_assoc]

/-- Over a snapshot of the pool, a key is hit by no due attestation exactly when its own
entry is not due. -/
theorem mem_keys_not_due_iff {p : ForkchoicePool hashFn} {snapshot : List Attestation}
    (hperm : snapshot.Perm (forkchoiceAttestations p)) (v : TickView) (k : Root) :
    (k ∈ p.keys ∧ ¬∃ a ∈ snapshot, due v a = true ∧ hashFn a = some k) ↔
      ∃ a, (k, a) ∈ p.entries ∧ due v a = false := by
  constructor
  · rintro ⟨hk, hnone⟩
    obtain ⟨e, he, rfl⟩ := List.mem_map.mp hk
    refine ⟨e.2, he, Bool.eq_false_iff.mpr fun hdue => hnone ⟨e.2, ?_, hdue, p.keyed e he⟩⟩
    exact hperm.symm.subset (List.mem_map_of_mem _ he)
  · rintro ⟨a, ha, hdue⟩
    refine ⟨List.mem_map_of_mem Prod.fst ha, fun ⟨b, hb, hbdue, hbk⟩ => ?_⟩
    obtain ⟨e, he, rfl⟩ := List.mem_map.mp (hperm.subset hb)
    have hek : e.1 = k := Option.some_injective _ ((p.keyed e he).symm.trans hbk)
    have hab : a = e.2 := p.eq_of_mem ha (hek ▸ he)
    subst hab
    exact Bool.false_ne_true (hdue.symm.trans hbdue)

end Loop

section System

variable (hashFn : Attestation → Option Root)

/-- Where the loop's goroutine is. -/
inductive Phase
  /-- Waiting for the state to be initialised and for the genesis time. -/
  | waiting
  /-- In the ticker loop. -/
  | running
  /-- Returned on `s.ctx.Done()`. -/
  | stopped
  deriving DecidableEq, Repr

/-- The loop with the pool it shares. -/
structure Sys where
  /-- The pool's fork-choice map. -/
  pool : ForkchoicePool hashFn
  /-- Where the goroutine is. -/
  phase : Phase
  /-- The current tick's snapshot that the body has yet to reach. -/
  pending : List Attestation
  /-- Every `SaveForkchoiceAttestation` call so far. -/
  saved : List Attestation
  /-- Every `ReceiveAttestationNoPubsub` call so far. -/
  received : List Attestation

/-- The loop as the service starts it, on a new pool. -/
def init : Sys hashFn := ⟨emptyPool, .waiting, [], [], []⟩

/-- One atomic step of the loop or of another goroutine. A save that runs between a
body's delete and its `ReceiveAttestationNoPubsub` commutes with the latter, so the body
is one step. -/
inductive Event
  /-- Another goroutine calls `SaveForkchoiceAttestation`. -/
  | save (att : Attestation)
  /-- The state is initialised and the genesis time is set. -/
  | initialized
  /-- `<-st.C()`: the tick's `ForkchoiceAttestations`, in map order. -/
  | tick (snapshot : List Attestation)
  /-- The body on the snapshot's next attestation. -/
  | process (v : TickView)
  /-- `<-s.ctx.Done()`. -/
  | cancel

/-- The system after an event, or `none` when the event cannot happen: the goroutine
selects the next tick or the context only between ticks. -/
def step (s : Sys hashFn) : Event → Option (Sys hashFn)
  | .save att =>
    some { s with pool := saveForkchoiceAttestation s.pool att, saved := s.saved ++ [att] }
  | .initialized => if s.phase = .waiting then some { s with phase := .running } else none
  | .tick snapshot =>
    if s.phase = .running ∧ s.pending = [] ∧ snapshot.Perm (forkchoiceAttestations s.pool) then
      some { s with pending := snapshot }
    else none
  | .process v =>
    match s.phase, s.pending with
    | .running, a :: rest =>
      some { s with
        pool := (processOne v (s.pool, s.received) a).1
        received := (processOne v (s.pool, s.received) a).2
        pending := rest }
    | _, _ => none
  | .cancel => if s.phase = .running ∧ s.pending = [] then some { s with phase := .stopped } else none

/-- The system after a sequence of events. -/
def run (s : Sys hashFn) : List Event → Option (Sys hashFn)
  | [] => some s
  | e :: es => (step hashFn s e).bind fun s' => run s' es

/-- The states some interleaving reaches. -/
inductive Reachable : Sys hashFn → Prop
  | init : Reachable (init hashFn)
  | step {s s' : Sys hashFn} {e : Event} : Reachable s → step hashFn s e = some s' → Reachable s'

variable {hashFn}

theorem Reachable.run {s s' : Sys hashFn} {es : List Event} (hs : Reachable hashFn s)
    (h : run hashFn s es = some s') : Reachable hashFn s' := by
  induction es generalizing s with
  | nil => cases h; exact hs
  | cons e es ih =>
    simp only [ProcessAttestation.run, Option.bind_eq_some] at h
    obtain ⟨s₁, h₁, h⟩ := h
    exact ih (hs.step h₁) h

/-- What every reachable state satisfies. -/
structure Inv (s : Sys hashFn) : Prop where
  /-- Every attestation the tick has yet to reach is pooled under its hash. -/
  pending_pooled : ∀ a ∈ s.pending, ∃ k, hashFn a = some k ∧ k ∈ s.pool.keys
  /-- The snapshot holds each hash once. -/
  pending_nodup : (s.pending.map hashFn).Nodup
  /-- Every attestation handed on has a hash. -/
  received_hashed : ∀ a ∈ s.received, (hashFn a).isSome
  /-- Per hash: the times it was handed on, and one if it is still pooled, are at most the
  times it was saved. -/
  count_le : ∀ k, s.received.countP (fun a => hashFn a = some k) +
      (if k ∈ s.pool.keys then 1 else 0) ≤ s.saved.countP (fun a => hashFn a = some k)

theorem inv_init : Inv (init hashFn) :=
  ⟨nofun, List.nodup_nil, nofun, fun _ => by simp [init, emptyPool, ForkchoicePool.keys]⟩

/-- A save keeps every key and adds only its own. -/
theorem inv_save {s : Sys hashFn} (hi : Inv s) (att : Attestation) :
    Inv { s with pool := saveForkchoiceAttestation s.pool att, saved := s.saved ++ [att] } := by
  refine ⟨fun a ha => ?_, hi.pending_nodup, hi.received_hashed, fun k => ?_⟩
  · obtain ⟨k, hk, hmem⟩ := hi.pending_pooled a ha
    exact ⟨k, hk, mem_keys_saveForkchoiceAttestation.mpr (.inl hmem)⟩
  · have hk := hi.count_le k
    simp only [List.countP_append, List.countP_singleton, mem_keys_saveForkchoiceAttestation]
    by_cases hatt : hashFn att = some k
    · simp only [hatt, or_true, if_true, decide_True]
      split_ifs at hk <;> omega
    · simpa [hatt] using hk

/-- A tick's snapshot is the pool's values, each under its own hash once. -/
theorem inv_tick {s : Sys hashFn} (hi : Inv s) {snapshot : List Attestation}
    (hperm : snapshot.Perm (forkchoiceAttestations s.pool)) :
    Inv { s with pending := snapshot } := by
  have hkeyed : (forkchoiceAttestations s.pool).map hashFn = s.pool.keys.map some := by
    simp only [forkchoiceAttestations, ForkchoicePool.keys, List.map_map]
    exact List.map_congr_left fun e he => s.pool.keyed e he
  refine ⟨fun a ha => ?_, ?_, hi.received_hashed, hi.count_le⟩
  · obtain ⟨e, he, rfl⟩ := List.mem_map.mp (hperm.subset ha)
    exact ⟨e.1, s.pool.keyed e he, List.mem_map_of_mem _ he⟩
  · rw [(hperm.map hashFn).nodup_iff, hkeyed]
    exact s.pool.nodup.map (Option.some_injective _)

/-- The body deletes its attestation's hash, which only it holds among the pending ones,
and hands the attestation on at most once. -/
theorem inv_process {s : Sys hashFn} (hi : Inv s) (v : TickView) {a : Attestation}
    {rest : List Attestation} (hp : s.pending = a :: rest) :
    Inv { s with
      pool := (processOne v (s.pool, s.received) a).1
      received := (processOne v (s.pool, s.received) a).2
      pending := rest } := by
  obtain ⟨ka, hka, hkmem⟩ := hi.pending_pooled a (hp ▸ List.mem_cons_self _ _)
  have hnd := hi.pending_nodup
  rw [hp, List.map_cons, List.nodup_cons] at hnd
  refine ⟨fun b hb => ?_, hnd.2, fun b hb => ?_, fun k => ?_⟩
  · obtain ⟨kb, hkb, hbmem⟩ := hi.pending_pooled b (hp ▸ List.mem_cons_of_mem _ hb)
    have hne : hashFn a ≠ some kb := fun h => hnd.1 (h ▸ hkb ▸ List.mem_map_of_mem _ hb)
    exact ⟨kb, hkb, (mem_keys_processOne v _ a).mpr ⟨hbmem, fun h => hne h.2⟩⟩
  · rw [processOne_snd] at hb
    rcases List.mem_append.mp hb with hb | hb
    · exact hi.received_hashed b hb
    · split_ifs at hb
      · rw [List.mem_singleton.mp hb, hka]
        rfl
      · cases hb
  · have hk := hi.count_le k
    simp only [processOne_snd, List.countP_append, mem_keys_processOne]
    by_cases hak : due v a = true ∧ hashFn a = some k
    · obtain ⟨hdue, hak⟩ := hak
      have hkk : ka = k := Option.some_injective _ (hka.symm.trans hak)
      subst hkk
      simp only [hkmem, if_true] at hk
      have hgone : ¬(ka ∈ s.pool.keys ∧ ¬(due v a = true ∧ hashFn a = some ka)) :=
        fun h => h.2 ⟨hdue, hak⟩
      simp only [hgone, if_false, Nat.add_zero]
      split_ifs <;> simp [hak] <;> omega
    · have hnh : handedOn v a = true → hashFn a ≠ some k := fun h hk' =>
        hak ⟨due_of_handedOn h, hk'⟩
      by_cases hh : handedOn v a = true
      · simpa [hh, hnh hh, hak] using hk
      · simp only [hh, hak, and_true]
        simpa using hk

theorem inv_setPhase {s : Sys hashFn} (hi : Inv s) (phase : Phase) : Inv { s with phase } :=
  ⟨hi.pending_pooled, hi.pending_nodup, hi.received_hashed, hi.count_le⟩

/-- Every step keeps the invariant. -/
theorem inv_step {s s' : Sys hashFn} {e : Event} (hi : Inv s) (h : step hashFn s e = some s') :
    Inv s' := by
  cases e with
  | save att =>
    cases h
    exact inv_save hi att
  | initialized =>
    simp only [step] at h
    split_ifs at h
    cases h
    exact inv_setPhase hi _
  | tick snapshot =>
    simp only [step] at h
    split_ifs at h with hs
    cases h
    exact inv_tick hi hs.2.2
  | process v =>
    simp only [step] at h
    split at h
    · cases h
      exact inv_process hi v ‹_›
    · cases h
  | cancel =>
    simp only [step] at h
    split_ifs at h
    cases h
    exact inv_setPhase hi _

theorem Reachable.inv {s : Sys hashFn} (h : Reachable hashFn s) : Inv s := by
  induction h with
  | init => exact inv_init
  | step _ hs ih => exact inv_step ih hs

theorem step_process {s : Sys hashFn} (v : TickView) {a : Attestation} {rest : List Attestation}
    (hs : s.phase = .running) (hp : s.pending = a :: rest) :
    step hashFn s (.process v) = some { s with
      pool := (processOne v (s.pool, s.received) a).1
      received := (processOne v (s.pool, s.received) a).2
      pending := rest } := by
  simp only [step, hs, hp]

/-- With no other goroutine in between, the body's steps over the snapshot run the loop. -/
theorem run_process (v : TickView) (atts : List Attestation) :
    ∀ s : Sys hashFn, s.phase = .running → ∀ rest, s.pending = atts ++ rest →
      run hashFn s (atts.map fun _ => .process v) = some { s with
        pool := (processAll v (s.pool, s.received) atts).1
        received := (processAll v (s.pool, s.received) atts).2
        pending := rest } := by
  induction atts with
  | nil =>
    intro s _ rest hp
    cases s
    cases hp
    rfl
  | cons a atts ih =>
    intro s hs rest hp
    rw [List.map_cons, run, step_process v hs hp, Option.some_bind]
    exact ih { s with
      pool := (processOne v (s.pool, s.received) a).1
      received := (processOne v (s.pool, s.received) a).2
      pending := atts ++ rest } hs rest rfl

/-- Every hash reaches `ReceiveAttestationNoPubsub` at most as often as it was saved to the
pool, over every interleaving of the loop with saves; and only attestations with a hash
reach it. -/
theorem received_countP_le_saved {s : Sys hashFn} (h : Reachable hashFn s) :
    (∀ a ∈ s.received, (hashFn a).isSome) ∧
      ∀ k, s.received.countP (fun a => hashFn a = some k) ≤
        s.saved.countP (fun a => hashFn a = some k) :=
  ⟨h.inv.received_hashed, fun k => le_trans (Nat.le_add_right _ _) (h.inv.count_le k)⟩

/-- Every attestation the current tick has yet to reach is still pooled under its own
hash, whatever was saved since the snapshot: the loop's `DeleteForkchoiceAttestation`
never takes its error branch, and removes that hash. -/
theorem pending_delete_succeeds {s : Sys hashFn} (h : Reachable hashFn s) :
    ∀ a ∈ s.pending, ∃ k, k ∈ s.pool.keys ∧
      deleteForkchoiceAttestation s.pool a = some (s.pool.erase k) := by
  intro a ha
  obtain ⟨k, hk, hmem⟩ := h.inv.pending_pooled a ha
  exact ⟨k, hmem, by rw [deleteForkchoiceAttestation, hk, Option.map_some']⟩

/-- A tick with no concurrent save keeps exactly the pool's entries that were not due,
hands on the due ones whose target passed in the snapshot's order, and saves nothing. -/
theorem run_tick_alone {s : Sys hashFn} (hs : s.phase = .running) (hp : s.pending = [])
    {snapshot : List Attestation} (hperm : snapshot.Perm (forkchoiceAttestations s.pool))
    (v : TickView) :
    ∃ s', run hashFn s (.tick snapshot :: snapshot.map fun _ => .process v) = some s' ∧
      s'.phase = .running ∧ s'.pending = [] ∧ s'.saved = s.saved ∧
      s'.received = s.received ++ snapshot.filter (handedOn v) ∧
      ∀ k, k ∈ s'.pool.keys ↔ ∃ a, (k, a) ∈ s.pool.entries ∧ due v a = false := by
  have htick : step hashFn s (.tick snapshot) = some { s with pending := snapshot } := by
    simp only [step, hs, hp, hperm, and_self, if_true]
  obtain ⟨hrec, hkeys⟩ := processAll_spec v snapshot (s.pool, s.received)
  refine ⟨{ s with
      pool := (processAll v (s.pool, s.received) snapshot).1
      received := (processAll v (s.pool, s.received) snapshot).2
      pending := [] }, ?_, hs, rfl, rfl, hrec, fun k => ?_⟩
  · rw [run, htick, Option.some_bind]
    exact run_process v snapshot { s with pending := snapshot } hs [] (List.append_nil _).symm
  rw [hkeys]
  exact mem_keys_not_due_iff hperm v k

end System

/-- A hash that reads only the fields the loop does not. -/
def otherHash (a : Attestation) : Option Root := some (BitVec.ofNat 256 a.other)

/-- An attestation to the block at slot 1. -/
def slotOneAtt : Attestation := ⟨1, 101, 0, 100, 7⟩

/-- Every answer passes. -/
def allPass : TickView := ⟨fun _ => true, fun _ => true, fun _ => true, fun _ _ => true⟩

/-- The attestation is saved twice, then the loop starts. -/
def savedTwice : Sys otherHash :=
  (run otherHash (init otherHash) [.save slotOneAtt, .save slotOneAtt, .initialized]).getD
    (init otherHash)

/-- A tick has taken its snapshot. -/
def snapshotTaken : Sys otherHash :=
  (run otherHash savedTwice [.tick [slotOneAtt]]).getD savedTwice

/-- The tick has handed the attestation on. -/
def handedOnce : Sys otherHash :=
  (run otherHash snapshotTaken [.process allPass]).getD snapshotTaken

theorem savedTwice_reachable : Reachable otherHash savedTwice :=
  (Reachable.init : Reachable otherHash (init otherHash)).run
    (show run otherHash (init otherHash) [.save slotOneAtt, .save slotOneAtt, .initialized] =
      some savedTwice from rfl)

theorem snapshotTaken_reachable : Reachable otherHash snapshotTaken :=
  savedTwice_reachable.run
    (show run otherHash savedTwice [.tick [slotOneAtt]] = some snapshotTaken from rfl)

theorem received_countP_le_saved_handedOnce :
    Reachable otherHash handedOnce ∧ (∀ a ∈ handedOnce.received, (otherHash a).isSome) ∧
      ∀ k, handedOnce.received.countP (fun a => otherHash a = some k) ≤
        handedOnce.saved.countP (fun a => otherHash a = some k) :=
  have h : Reachable otherHash handedOnce := snapshotTaken_reachable.run
    (show run otherHash snapshotTaken [.process allPass] = some handedOnce from rfl)
  ⟨h, received_countP_le_saved h⟩

theorem pending_delete_succeeds_snapshotTaken :
    Reachable otherHash snapshotTaken ∧ ∀ a ∈ snapshotTaken.pending, ∃ k, k ∈ snapshotTaken.pool.keys ∧
      deleteForkchoiceAttestation snapshotTaken.pool a = some (snapshotTaken.pool.erase k) :=
  ⟨snapshotTaken_reachable, pending_delete_succeeds snapshotTaken_reachable⟩

theorem run_tick_alone_savedTwice :
    savedTwice.phase = .running ∧ savedTwice.pending = [] ∧
      [slotOneAtt].Perm (forkchoiceAttestations savedTwice.pool) ∧
      ∃ s', run otherHash savedTwice (.tick [slotOneAtt] :: [slotOneAtt].map fun _ => .process allPass) =
          some s' ∧
        s'.phase = .running ∧ s'.pending = [] ∧ s'.saved = savedTwice.saved ∧
        s'.received = savedTwice.received ++ [slotOneAtt].filter (handedOn allPass) ∧
        ∀ k, k ∈ s'.pool.keys ↔ ∃ a, (k, a) ∈ savedTwice.pool.entries ∧ due allPass a = false :=
  ⟨rfl, rfl, by decide, run_tick_alone rfl rfl (by decide) allPass⟩

end Prysm.Blockchain.ProcessAttestation
