import Prysm.Types

/-!
# The initial-sync service's lifecycle

`Start`, `Resync`, `Status`, `Syncing` and `markSynced` of `initial-sync/service.go`.
The service keeps two atomic flags, `synced` and `chainStarted`. `Start` runs once, in
its own goroutine. It waits for the genesis time, and marks the node synced at once
when sync is disabled, genesis is ahead or the chain is in its first epoch. Otherwise
it sets `chainStarted`, and then, in a later statement, marks the node synced when the
head is in the current epoch, or syncs round-robin and marks the node synced. It returns
without marking when the genesis time is zero or the context is cancelled, and panics on
any other sync error. `Resync` may be called at any time: it unsets `synced`, syncs, and
sets `synced` again on its way out, whatever the sync returned. Every flag access is one
atomic step; `Status` loads `synced` and then `chainStarted`, two steps other goroutines
may run between.

Over every interleaving of `Start` with any number of `Resync` calls, once `Start` has
marked the node synced, `Syncing()` is false whenever no `Resync` is running. `Status()`
reports syncing only if, at its first load, `Start` had not finished or a `Resync` was
running, and, at its second, `Start` had set `chainStarted`. That is all it promises: a
`Status` call that straddles `Start`'s set of `chainStarted` and its `markSynced` reports
syncing on a node that is synced by then, and a `Resync` that ends while `Start` still
syncs leaves `Syncing()` false.
-/

namespace Prysm.Sync.InitialSyncService

open Prysm.Types

/-- The service's two atomic flags. -/
structure Flags where
  /-- `synced`. -/
  synced : Bool
  /-- `chainStarted`. -/
  chainStarted : Bool
  deriving DecidableEq, Repr

/-- `Status`: `s.synced.IsNotSet() && s.chainStarted.IsSet()`, two atomic loads, the
first from the flags `first` and, when `synced` is unset there, the second from the flags
`second`; the error `syncing` when both hold. -/
def status (first second : Flags) : Option String :=
  if !first.synced && second.chainStarted then some "syncing" else none

/-- `Syncing`: one load of `synced`. -/
def syncing (f : Flags) : Bool := !f.synced

/-- `markSynced`: set `synced`; the `Synced` event it sends on the state feed is not
modelled. -/
def markSynced (f : Flags) : Flags := { f with synced := true }

/-- What `Start` reads once the genesis time arrives. -/
structure StartView where
  /-- `genesis.IsZero()`: the wait for state initialisation ended without a time. -/
  genesisIsZero : Bool
  /-- `flags.Get().DisableSync`. -/
  disableSync : Bool
  /-- `genesis.After(timeutils.Now())`. -/
  genesisAfterNow : Bool
  /-- `helpers.SlotToEpoch(currentSlot)`, of `currentSlot := helpers.SlotsSince(genesis)`. -/
  currentEpoch : U64
  deriving DecidableEq, Repr

/-- Where `Start` is. -/
inductive StartPhase
  /-- Blocked on `<-s.genesisChan`. -/
  | waiting
  /-- Past `s.chainStarted.Set()`, before the head check, with the current epoch it
  computed. -/
  | started (currentEpoch : U64)
  /-- In `waitForMinimumPeers` and `roundRobinSync`. -/
  | syncing
  /-- Returned after `markSynced`. -/
  | done
  /-- Returned on a zero genesis time. -/
  | exited
  /-- Returned after `roundRobinSync` failed with the context cancelled. -/
  | cancelled
  /-- `panic(err)`: the process is gone. -/
  | panicked
  deriving DecidableEq, Repr

/-- `Start` has run `s.chainStarted.Set()`. -/
def StartPhase.afterSet : StartPhase → Bool
  | .waiting | .exited => false
  | .started _ | .syncing | .done | .cancelled | .panicked => true

/-- `Start` from `genesis := <-s.genesisChan` up to `s.chainStarted.Set()`. -/
def startOnGenesis (v : StartView) (f : Flags) : Flags × StartPhase :=
  if v.genesisIsZero then (f, .exited)
  else if v.disableSync then (markSynced f, .done)
  else if v.genesisAfterNow then (markSynced f, .done)
  else if v.currentEpoch = 0 then (markSynced f, .done)
  else ({ f with chainStarted := true }, .started v.currentEpoch)

/-- `Start`'s head check, `helpers.SlotToEpoch(s.chain.HeadSlot()) ==
helpers.SlotToEpoch(currentSlot)`, with the head's epoch read now. -/
def startOnHead (currentEpoch headEpoch : U64) (f : Flags) : Flags × StartPhase :=
  if headEpoch = currentEpoch then (markSynced f, .done) else (f, .syncing)

/-- How a `roundRobinSync` returns, with the state of the service's context. -/
inductive SyncResult
  /-- `nil`. -/
  | ok
  /-- An error, with `s.ctx` cancelled. -/
  | errCancelled
  /-- An error, with `s.ctx` live. -/
  | errOther
  deriving DecidableEq, Repr

/-- `Start` after its `roundRobinSync` returns. -/
def startOnSyncResult (r : SyncResult) (f : Flags) : Flags × StartPhase :=
  match r with
  | .ok => (markSynced f, .done)
  | .errCancelled => (f, .cancelled)
  | .errOther => (f, .panicked)

/-- The service with its callers: the flags, where `Start` is, and how many `Resync`
calls are between their `UnSet` and their deferred `Set`. -/
structure Sys where
  /-- The flags. -/
  flags : Flags
  /-- Where `Start` is. -/
  start : StartPhase
  /-- The `Resync` calls in flight. -/
  resyncs : ℕ
  deriving DecidableEq, Repr

/-- The service as `NewService` leaves it. -/
def init : Sys := ⟨⟨false, false⟩, .waiting, 0⟩

/-- One atomic step of `Start` or of a `Resync` call. -/
inductive Event
  /-- `Start` receives the genesis time and reads the view. -/
  | genesis (v : StartView)
  /-- `Start` reads the head's epoch and compares it with the current one. -/
  | headCheck (headEpoch : U64)
  /-- `Start`'s `roundRobinSync` returns. -/
  | syncDone (r : SyncResult)
  /-- A `Resync` call: with a head state it unsets `synced`; without one it returns
  an error and changes nothing. -/
  | resync (hasHeadState : Bool)
  /-- A `Resync` call's `roundRobinSync` returns and its deferred `Set` runs. -/
  | resyncDone
  deriving DecidableEq, Repr

/-- The system after an event, or `none` when the event cannot happen; nothing happens
after a panic. -/
def step (s : Sys) : Event → Option Sys
  | .genesis v =>
    if s.start = .waiting then
      some { s with flags := (startOnGenesis v s.flags).1, start := (startOnGenesis v s.flags).2 }
    else none
  | .headCheck headEpoch =>
    match s.start with
    | .started currentEpoch =>
      some { s with
        flags := (startOnHead currentEpoch headEpoch s.flags).1
        start := (startOnHead currentEpoch headEpoch s.flags).2 }
    | _ => none
  | .syncDone r =>
    if s.start = .syncing then
      some { s with flags := (startOnSyncResult r s.flags).1, start := (startOnSyncResult r s.flags).2 }
    else none
  | .resync hasHeadState =>
    if s.start = .panicked then none
    else if hasHeadState then
      some { s with flags := { s.flags with synced := false }, resyncs := s.resyncs + 1 }
    else some s
  | .resyncDone =>
    if s.start = .panicked ∨ s.resyncs = 0 then none
    else some { s with flags := { s.flags with synced := true }, resyncs := s.resyncs - 1 }

/-- The system after a sequence of events. -/
def run (s : Sys) : List Event → Option Sys
  | [] => some s
  | e :: es => (step s e).bind fun s' => run s' es

/-- The states some interleaving reaches. -/
inductive Reachable : Sys → Prop
  | init : Reachable init
  | step {s s' : Sys} {e : Event} : Reachable s → step s e = some s' → Reachable s'

/-- What every reachable state satisfies. -/
structure Inv (s : Sys) : Prop where
  /-- After `Start` marked the node synced, only a `Resync` in flight unsets `synced`. -/
  synced_of_done : s.start = .done → s.resyncs = 0 → s.flags.synced = true
  /-- Only `Start` sets `chainStarted`, in its `Set` statement. -/
  started : s.flags.chainStarted = true → s.start.afterSet = true

section Steps

/-- `Start` is done after the genesis time only with the node marked synced. -/
theorem startOnGenesis_done (v : StartView) (f : Flags) :
    (startOnGenesis v f).2 = .done → (startOnGenesis v f).1.synced = true := by
  unfold startOnGenesis
  split_ifs <;> simp [markSynced]

/-- After the genesis time, `chainStarted` is set only by `Start`'s `Set`. -/
theorem startOnGenesis_started (v : StartView) (f : Flags) :
    (startOnGenesis v f).1.chainStarted = true →
      f.chainStarted = true ∨ (startOnGenesis v f).2.afterSet = true := by
  unfold startOnGenesis
  split_ifs <;> simp [markSynced, StartPhase.afterSet]

/-- The head check ends `Start` only by marking the node synced, and stays past the
`Set`. -/
theorem startOnHead_spec (currentEpoch headEpoch : U64) (f : Flags) :
    ((startOnHead currentEpoch headEpoch f).2 = .done →
      (startOnHead currentEpoch headEpoch f).1.synced = true) ∧
      (startOnHead currentEpoch headEpoch f).2.afterSet = true := by
  unfold startOnHead
  split_ifs <;> simp [markSynced, StartPhase.afterSet]

/-- After its sync, `Start` is done only with the node marked synced, and stays past
the `Set`. -/
theorem startOnSyncResult_spec (r : SyncResult) (f : Flags) :
    ((startOnSyncResult r f).2 = .done → (startOnSyncResult r f).1.synced = true) ∧
      (startOnSyncResult r f).2.afterSet = true := by
  cases r <;> simp [startOnSyncResult, markSynced, StartPhase.afterSet]

theorem inv_init : Inv init :=
  ⟨fun h => (nomatch h), fun h => (nomatch h)⟩

/-- Before `Start` sets it, and once `Start` has returned on a zero genesis time,
`chainStarted` is unset. -/
theorem Inv.chainStarted_eq_false {s : Sys} (hi : Inv s) (h : s.start.afterSet = false) :
    s.flags.chainStarted = false :=
  Bool.eq_false_iff.mpr fun hc => by simp [hi.started hc] at h

/-- Every step keeps the invariant. -/
theorem inv_step {s s' : Sys} {e : Event} (hi : Inv s) (h : step s e = some s') : Inv s' := by
  cases e with
  | genesis v =>
    simp only [step] at h
    split_ifs at h with hw
    cases h
    have hcs := hi.chainStarted_eq_false (by rw [hw]; rfl)
    exact ⟨fun hd _ => startOnGenesis_done v s.flags hd,
      fun hc => (startOnGenesis_started v s.flags hc).resolve_left (by simp [hcs])⟩
  | headCheck headEpoch =>
    simp only [step] at h
    split at h <;> cases h
    exact ⟨fun hd _ => (startOnHead_spec _ _ _).1 hd, fun _ => (startOnHead_spec _ _ _).2⟩
  | syncDone r =>
    simp only [step] at h
    split_ifs at h
    cases h
    exact ⟨fun hd _ => (startOnSyncResult_spec r _).1 hd, fun _ => (startOnSyncResult_spec r _).2⟩
  | resync hasHeadState =>
    simp only [step] at h
    split_ifs at h
    · cases h
      exact ⟨fun _ h0 => absurd h0 (Nat.succ_ne_zero _), hi.started⟩
    · cases h
      exact hi
  | resyncDone =>
    simp only [step] at h
    split_ifs at h
    cases h
    exact ⟨fun _ _ => rfl, hi.started⟩

theorem Reachable.inv {s : Sys} (h : Reachable s) : Inv s := by
  induction h with
  | init => exact inv_init
  | step _ hs ih => exact inv_step ih hs

theorem Reachable.run {s s' : Sys} {es : List Event} (hs : Reachable s) (h : run s es = some s') :
    Reachable s' := by
  induction es generalizing s with
  | nil => cases h; exact hs
  | cons e es ih =>
    simp only [InitialSyncService.run, Option.bind_eq_some] at h
    obtain ⟨s₁, h₁, h⟩ := h
    exact ih (hs.step h₁) h

/-- Once `Start` has returned on a zero genesis time, no step sets `chainStarted`. -/
theorem step_exited {s s' : Sys} {e : Event} (hx : s.start = .exited) (h : step s e = some s') :
    s'.start = .exited ∧ s'.flags.chainStarted = s.flags.chainStarted := by
  cases e with
  | genesis v => simp [step, hx] at h
  | headCheck headEpoch => simp [step, hx] at h
  | syncDone r => simp [step, hx] at h
  | resync hasHeadState =>
    simp only [step, hx, reduceCtorEq, if_false] at h
    split_ifs at h <;> cases h <;> exact ⟨by simp [hx], rfl⟩
  | resyncDone =>
    simp only [step, hx, reduceCtorEq, false_or, if_false] at h
    split_ifs at h
    cases h
    exact ⟨rfl, rfl⟩

theorem run_exited {s s' : Sys} {es : List Event} (hx : s.start = .exited) (h : run s es = some s') :
    s'.flags.chainStarted = s.flags.chainStarted := by
  induction es generalizing s with
  | nil => cases h; rfl
  | cons e es ih =>
    simp only [InitialSyncService.run, Option.bind_eq_some] at h
    obtain ⟨s₁, h₁, h⟩ := h
    obtain ⟨hx₁, hc₁⟩ := step_exited hx h₁
    exact (ih hx₁ h).trans hc₁

end Steps

/-- Over every interleaving of `Start` with `Resync` calls: once `Start` has marked the
node synced, `Syncing()` is false whenever no `Resync` is in flight. A `Status()` call
whose first load sees the state `s₁` and whose second load sees a state `s₂` that some
run of steps leads to from `s₁` reports syncing only if, at its first load, `Start` had
not returned on a zero genesis time and, if it was done, a `Resync` was in flight; and,
at its second load, `Start` had set `chainStarted`. -/
theorem reachable_syncing_status {s₁ s₂ : Sys} {es : List Event} (h : Reachable s₁)
    (hrun : run s₁ es = some s₂) :
    (s₂.start = .done → s₂.resyncs = 0 → syncing s₂.flags = false) ∧
      (status s₁.flags s₂.flags = some "syncing" →
        (s₁.start = .done → 0 < s₁.resyncs) ∧ s₁.start ≠ .exited ∧ s₂.start.afterSet = true) := by
  have hi₁ := h.inv
  have hi₂ := (h.run hrun).inv
  refine ⟨fun hd h0 => by simp [syncing, hi₂.synced_of_done hd h0], fun hst => ?_⟩
  simp only [status, Bool.and_eq_true, Bool.not_eq_true'] at hst
  split_ifs at hst with hf
  obtain ⟨hns, hc⟩ := hf
  refine ⟨fun hd => Nat.pos_of_ne_zero fun h0 => ?_, fun hx => ?_, hi₂.started hc⟩
  · rw [hi₁.synced_of_done hd h0] at hns
    cases hns
  · rw [run_exited hx hrun, hi₁.chainStarted_eq_false (by rw [hx]; rfl)] at hc
    cases hc

/-- The genesis time arrives with sync enabled, in epoch 10. -/
def behindView : StartView := ⟨false, false, false, 10⟩

/-- `Start` has set `chainStarted` and has yet to check the head. -/
def startedState : Sys := ⟨⟨false, true⟩, .started 10, 0⟩

theorem reachable_syncing_status_startedState :
    Reachable init ∧ run init [.genesis behindView] = some startedState ∧
      (startedState.start = .done → startedState.resyncs = 0 → syncing startedState.flags = false) ∧
      (status init.flags startedState.flags = some "syncing" →
        (init.start = .done → 0 < init.resyncs) ∧ init.start ≠ .exited ∧
          startedState.start.afterSet = true) :=
  ⟨.init, rfl, reachable_syncing_status .init
    (show run init [.genesis behindView] = some startedState from rfl)⟩

/-- A `Status` call whose first load comes before `Start` sets `chainStarted` and whose
second comes after `Start` found the head current and marked the node synced reports
syncing, on a synced node whose `Start` is done with no `Resync` in flight. -/
theorem status_straddling_start_reports_syncing :
    ∃ s₁ es s₂, Reachable s₁ ∧ run s₁ es = some s₂ ∧ status s₁.flags s₂.flags = some "syncing" ∧
      s₂.start = .done ∧ s₂.resyncs = 0 ∧ s₂.flags.synced = true :=
  ⟨init, [.genesis behindView, .headCheck 10], ⟨⟨true, true⟩, .done, 0⟩, .init, rfl, rfl, rfl, rfl, rfl⟩

/-- A `Resync` that ends while `Start` still syncs leaves `Syncing()` false and
`Status()` clear before initial sync is done. -/
theorem resync_during_start_clears_syncing :
    ∃ s, Reachable s ∧ s.start = .syncing ∧ syncing s.flags = false ∧ status s.flags s.flags = none :=
  ⟨⟨⟨true, true⟩, .syncing, 0⟩,
    Reachable.init.run
      (show run init [.genesis behindView, .headCheck 2, .resync true, .resyncDone] =
        some ⟨⟨true, true⟩, .syncing, 0⟩ from rfl),
    rfl, rfl, rfl⟩

end Prysm.Sync.InitialSyncService
