import Prysm.Types
import Mathlib.Data.List.Basic

/-!
# Slashing penalties from precomputed balances

`precompute.New` and `ProcessSlashingsPrecompute` of `src/unnamed/part_004`,
against the consensus spec's `process_slashings`.

`New` walks the registry once and sums the effective balances of the validators
active in the current and the previous epoch. `ProcessSlashingsPrecompute` takes
that sum as the total balance. It first scans the registry read-only for a
validator to penalise, returns at once when there is none, and otherwise walks
the registry again, decreasing the balance of each slashed validator whose
withdrawable epoch is `EPOCHS_PER_SLASHINGS_VECTOR / 2` epochs ahead.

Every sum and product is the code's own `uint64` arithmetic, which wraps. A
division by a precomputed balance of zero is Go's run-time panic, and a missing
balance is `DecreaseBalance`'s error; both are values of `SlashingsError`.

The spec's loop is `processSlashings`. With the spec's total as the
precomputed balance the two agree on every state (`processSlashingsPass_eq`);
the early exit changes nothing (`processSlashingsPrecompute_eq_pass`); and on a
registry with a balance for every validator each penalised balance is cut, down
to 0 at least, by the spec's penalty (`processSlashings_eq_slashedBalances`).
`New`'s total is the spec's once the active balance reaches the increment
(`processSlashingsPrecompute_new`); below it `New` gives less, down to a zero
divisor (`processSlashingsPrecompute_new_of_no_active`).
-/

namespace Prysm.Epoch.Precompute

open Prysm.Types

/-- The fields of `ethpb.Validator` that `New` and `ProcessSlashingsPrecompute`
read. -/
structure Validator where
  /-- `EffectiveBalance`. -/
  effectiveBalance : U64
  /-- `Slashed`. -/
  slashed : Bool
  /-- `ActivationEpoch`. -/
  activationEpoch : U64
  /-- `ExitEpoch`. -/
  exitEpoch : U64
  /-- `WithdrawableEpoch`. -/
  withdrawableEpoch : U64
  deriving DecidableEq, Repr

/-- The fields of the beacon state that these functions read or write. -/
structure BeaconState where
  /-- `Slot()`. -/
  slot : U64
  /-- `Validators`, in registry order. -/
  validators : List Validator
  /-- `Balances`, indexed like the registry. -/
  balances : List U64
  /-- `Slashings()`, the slashings vector. -/
  slashings : List U64
  deriving DecidableEq, Repr

/-- The `params.BeaconConfig()` values these functions read. The two divisors
are nonzero in every configuration, so dividing by them never panics. -/
structure Config where
  /-- `SlotsPerEpoch`. -/
  slotsPerEpoch : U64
  /-- `EpochsPerSlashingsVector`. -/
  epochsPerSlashingsVector : U64
  /-- `ProportionalSlashingMultiplier`. -/
  proportionalSlashingMultiplier : U64
  /-- `EffectiveBalanceIncrement`. -/
  effectiveBalanceIncrement : U64
  /-- `FarFutureEpoch`. -/
  farFutureEpoch : U64
  slotsPerEpoch_ne_zero : slotsPerEpoch ≠ 0
  effectiveBalanceIncrement_ne_zero : effectiveBalanceIncrement ≠ 0

/-- The fields of `precompute.Validator` that `New` sets; the others keep their
zero values. -/
structure PValidator where
  /-- `IsSlashed`. -/
  isSlashed : Bool
  /-- `IsWithdrawableCurrentEpoch`. -/
  isWithdrawableCurrentEpoch : Bool
  /-- `CurrentEpochEffectiveBalance`. -/
  currentEpochEffectiveBalance : U64
  /-- `IsActiveCurrentEpoch`. -/
  isActiveCurrentEpoch : Bool
  /-- `IsActivePrevEpoch`. -/
  isActivePrevEpoch : Bool
  /-- `InclusionSlot`. -/
  inclusionSlot : U64
  /-- `InclusionDistance`. -/
  inclusionDistance : U64
  deriving DecidableEq, Repr

/-- The fields of `precompute.Balance` that `New` sums. -/
structure Balance where
  /-- `ActiveCurrentEpoch`. -/
  activeCurrentEpoch : U64
  /-- `ActivePrevEpoch`. -/
  activePrevEpoch : U64
  deriving DecidableEq, Repr

/-- The failures on the way. -/
inductive SlashingsError
  /-- Go's run-time panic "integer divide by zero". -/
  | integerDivideByZero
  /-- `BalanceAtIndex`: "index of %d does not exist". -/
  | indexDoesNotExist (idx : ℕ)
  deriving DecidableEq, Repr

/-- Go's `/` on `uint64`, which panics on a zero divisor. -/
def checkedDiv (a b : U64) : Except SlashingsError U64 :=
  if b = 0 then .error .integerDivideByZero else .ok (a / b)

/-- Modelled from the spec: `helpers.CurrentEpoch` is the spec's
`get_current_epoch`, the slot divided by `SLOTS_PER_EPOCH`. -/
def currentEpoch (cfg : Config) (state : BeaconState) : U64 := state.slot / cfg.slotsPerEpoch

/-- Modelled from the spec: `helpers.PrevEpoch`, the current epoch less one,
and the genesis epoch at genesis. -/
def prevEpoch (cfg : Config) (state : BeaconState) : U64 :=
  if currentEpoch cfg state = 0 then 0 else currentEpoch cfg state - 1

/-- Modelled from the spec: `helpers.IsActiveValidatorUsingTrie` is the spec's
`is_active_validator`. -/
def isActiveValidatorUsingTrie (v : Validator) (epoch : U64) : Bool :=
  decide (v.activationEpoch ≤ epoch) && decide (epoch < v.exitEpoch)

/-- Modelled from the spec: `mathutil.Min`. -/
def mathutilMin (a b : U64) : U64 := if a < b then a else b

/-- A `uint64` sum from the left, as `for ... { total += x }` and Python's `sum`
compute it. -/
def sumU64 (xs : List U64) : U64 := xs.foldl (· + ·) 0

/-- Modelled from the spec: `helpers.DecreaseBalanceWithVal`, saturating at 0. -/
def decreaseBalanceWithVal (currBalance delta : U64) : U64 :=
  if delta > currBalance then 0 else currBalance - delta

/-- Modelled from the spec: `helpers.DecreaseBalance`, the spec's
`decrease_balance`, failing as `BalanceAtIndex` does past the end of the
balances. The index is a registry position; `uint64(idx)` of it is exact. -/
def decreaseBalance (state : BeaconState) (idx : ℕ) (delta : U64) :
    Except SlashingsError BeaconState :=
  if h : idx < state.balances.length then
    .ok { state with balances := state.balances.set idx (decreaseBalanceWithVal state.balances[idx] delta) }
  else .error (.indexDoesNotExist idx)

/-! ## Updating the positions below an index -/

section Below

variable {α : Type} (l : List α) (g : ℕ → α → α)

theorem mapIdx_below_zero : (l.mapIdx fun j b => if j < 0 then g j b else b) = l := by
  ext1 j
  simp

/-- Setting position `i` to its updated value extends an update of the
positions below `i` to those below `i + 1`. -/
theorem set_mapIdx_below {i : ℕ} (hi : i < l.length) :
    (l.mapIdx fun j b => if j < i then g j b else b).set i (g i l[i]) =
      l.mapIdx fun j b => if j < i + 1 then g j b else b := by
  ext1 j
  rw [List.getElem?_set, List.length_mapIdx, List.getElem?_mapIdx, List.getElem?_mapIdx]
  by_cases hj : i = j
  · subst hj
    simp [hi, List.getElem?_eq_getElem hi]
  · rw [if_neg hj]
    simp only [show (j < i + 1) = (j < i) from propext (by omega)]

/-- A position the update leaves alone can join the updated ones. -/
theorem mapIdx_below_succ {i : ℕ} (h : ∀ b, g i b = b) :
    (l.mapIdx fun j b => if j < i then g j b else b) =
      l.mapIdx fun j b => if j < i + 1 then g j b else b := by
  congr 1
  funext j b
  by_cases hj : j = i
  · subst hj
    simp [h]
  · simp only [show (j < i + 1) = (j < i) from propext (by omega)]

theorem mapIdx_below_of_fixed {n : ℕ} (h : ∀ j, n ≤ j → ∀ b, g j b = b) :
    (l.mapIdx fun j b => if j < n then g j b else b) = l.mapIdx g := by
  congr 1
  funext j b
  split_ifs with hj
  · rfl
  · exact (h j (by omega) b).symm

end Below

/-- A registry walk from position `i` walks `drop i`: its head is validator
`i`, and the walk goes on with `drop (i + 1)`. -/
theorem drop_eq_cons {vs : List Validator} {v : Validator} {i : ℕ} {l : List Validator}
    (h : l.drop i = v :: vs) : ∃ hi : i < l.length, l[i] = v ∧ l.drop (i + 1) = vs := by
  have hi : i < l.length := by
    by_contra hc
    rw [List.drop_eq_nil_of_le (by omega)] at h
    exact List.noConfusion h
  rw [List.drop_eq_getElem_cons hi] at h
  injection h with h1 h2
  exact ⟨hi, h1, h2⟩

/-! ## The registry walks -/

/-- The loop of `ReadFromEveryValidator` from position `i`, with a callback that
never fails; the variables the callback captures are the accumulator. -/
def readLoop {α : Type} (f : α → ℕ → Validator → α) : α → ℕ → List Validator → α
  | acc, _, [] => acc
  | acc, i, v :: vs => readLoop f (f acc i v) (i + 1) vs

/-- Modelled from the spec: `ReadFromEveryValidator`, which calls back with
every validator and its position, in order. -/
def readFromEveryValidator {α : Type} (state : BeaconState) (init : α) (f : α → ℕ → Validator → α) :
    α :=
  readLoop f init 0 state.validators

/-- The loop of `ApplyToEveryValidator` from position `i` over a snapshot of
the registry: the callback threads the state and stops the walk with its first
error. The flag it returns only marks the validator dirty. -/
def applyLoop (f : BeaconState → ℕ → Validator → Except SlashingsError (BeaconState × Bool)) :
    BeaconState → ℕ → List Validator → Except SlashingsError BeaconState
  | s, _, [] => .ok s
  | s, i, v :: vs =>
    match f s i v with
    | .error e => .error e
    | .ok (s', _) => applyLoop f s' (i + 1) vs

/-- Modelled from the spec: `ApplyToEveryValidator`. -/
def applyToEveryValidator (state : BeaconState)
    (f : BeaconState → ℕ → Validator → Except SlashingsError (BeaconState × Bool)) :
    Except SlashingsError BeaconState :=
  applyLoop f state 0 state.validators

/-! ## `New` -/

/-- The `pVal` that `New` builds for one validator. -/
def pValidatorOf (cfg : Config) (currentEpoch prevEpoch : U64) (val : Validator) : PValidator where
  isSlashed := val.slashed
  isWithdrawableCurrentEpoch := decide (prevEpoch + 1 ≥ val.withdrawableEpoch)
  currentEpochEffectiveBalance := val.effectiveBalance
  isActiveCurrentEpoch := isActiveValidatorUsingTrie val currentEpoch
  isActivePrevEpoch := isActiveValidatorUsingTrie val prevEpoch
  inclusionSlot := cfg.farFutureEpoch
  inclusionDistance := cfg.farFutureEpoch

/-- The callback of `New`: store `pVal` at the validator's position and add its
effective balance to the totals of the epochs it is active in. -/
def newStep (cfg : Config) (currentEpoch prevEpoch : U64) (acc : List (Option PValidator) × Balance)
    (idx : ℕ) (val : Validator) : List (Option PValidator) × Balance :=
  let pBal := acc.2
  let pBal := if isActiveValidatorUsingTrie val currentEpoch then
    { pBal with activeCurrentEpoch := pBal.activeCurrentEpoch + val.effectiveBalance } else pBal
  let pBal := if isActiveValidatorUsingTrie val prevEpoch then
    { pBal with activePrevEpoch := pBal.activePrevEpoch + val.effectiveBalance } else pBal
  (acc.1.set idx (some (pValidatorOf cfg currentEpoch prevEpoch val)), pBal)

/-- `precompute.New`: `pValidators` starts as `NumValidators()` nil pointers. -/
def new (cfg : Config) (state : BeaconState) : List (Option PValidator) × Balance :=
  readFromEveryValidator state (List.replicate state.validators.length none, ⟨0, 0⟩)
    (newStep cfg (currentEpoch cfg state) (prevEpoch cfg state))

/-! ## `ProcessSlashingsPrecompute` -/

/-- `epochToWithdraw`: `currentEpoch + exitLength/2`. -/
def epochToWithdraw (cfg : Config) (state : BeaconState) : U64 :=
  currentEpoch cfg state + cfg.epochsPerSlashingsVector / 2

/-- `minSlashing`: the slashings total times the multiplier, capped at the
precomputed balance. -/
def minSlashing (cfg : Config) (state : BeaconState) (pBal : Balance) : U64 :=
  mathutilMin (sumU64 state.slashings * cfg.proportionalSlashingMultiplier) pBal.activeCurrentEpoch

/-- `validatorFunc`, the callback of the penalising walk. -/
def validatorFunc (cfg : Config) (pBal : Balance) (minSlashing epochToWithdraw : U64) (state : BeaconState)
    (idx : ℕ) (val : Validator) : Except SlashingsError (BeaconState × Bool) :=
  let correctEpoch := epochToWithdraw == val.withdrawableEpoch
  if val.slashed && correctEpoch then
    let increment := cfg.effectiveBalanceIncrement
    let penaltyNumerator := val.effectiveBalance / increment * minSlashing
    match checkedDiv penaltyNumerator pBal.activeCurrentEpoch with
    | .error e => .error e
    | .ok q =>
      match decreaseBalance state idx (q * increment) with
      | .error e => .error e
      | .ok state' => .ok (state', true)
  else .ok (state, false)

/-- The read-only scan: whether a slashed validator is withdrawable at
`epochToWithdraw`. -/
def hasSlashing (cfg : Config) (state : BeaconState) : Bool :=
  readFromEveryValidator state false fun hasSlashing _ val =>
    if val.slashed && epochToWithdraw cfg state == val.withdrawableEpoch then true else hasSlashing

/-- `ProcessSlashingsPrecompute`. -/
def processSlashingsPrecompute (cfg : Config) (state : BeaconState) (pBal : Balance) :
    Except SlashingsError BeaconState :=
  if !hasSlashing cfg state then .ok state
  else applyToEveryValidator state
    (validatorFunc cfg pBal (minSlashing cfg state pBal) (epochToWithdraw cfg state))

/-! ## The spec's `process_slashings` -/

/-- The spec's sum of the effective balances of the validators active at
`epoch`, in registry order. -/
def activeBalanceSum (state : BeaconState) (epoch : U64) : U64 :=
  sumU64 ((state.validators.filter fun v => isActiveValidatorUsingTrie v epoch).map (·.effectiveBalance))

/-- The spec's `get_total_active_balance`:
`max(EFFECTIVE_BALANCE_INCREMENT, sum(...))` over the current epoch. -/
def getTotalActiveBalance (cfg : Config) (state : BeaconState) : U64 :=
  let total := activeBalanceSum state (currentEpoch cfg state)
  if total > cfg.effectiveBalanceIncrement then total else cfg.effectiveBalanceIncrement

/-- The spec's `adjusted_total_slashing_balance`:
`min(sum(state.slashings) * PROPORTIONAL_SLASHING_MULTIPLIER, total_balance)`. -/
def adjustedTotalSlashingBalance (cfg : Config) (state : BeaconState) : U64 :=
  let slashed := sumU64 state.slashings * cfg.proportionalSlashingMultiplier
  if getTotalActiveBalance cfg state < slashed then getTotalActiveBalance cfg state else slashed

/-- The spec's condition: `validator.slashed` and
`epoch + EPOCHS_PER_SLASHINGS_VECTOR // 2 == validator.withdrawable_epoch`. -/
def penalised (cfg : Config) (epoch : U64) (v : Validator) : Bool :=
  v.slashed && (epoch + cfg.epochsPerSlashingsVector / 2 == v.withdrawableEpoch)

/-- The spec's penalty:
`effective_balance // increment * adjusted // total_balance * increment`. -/
def slashingPenalty (cfg : Config) (totalBalance adjusted : U64) (v : Validator) : U64 :=
  v.effectiveBalance / cfg.effectiveBalanceIncrement * adjusted / totalBalance * cfg.effectiveBalanceIncrement

/-- The loop of the spec's `process_slashings` over `enumerate(state.validators)`
from position `index`. -/
def processSlashingsLoop (cfg : Config) (epoch totalBalance adjusted : U64) :
    BeaconState → ℕ → List Validator → Except SlashingsError BeaconState
  | s, _, [] => .ok s
  | s, index, v :: vs =>
    if penalised cfg epoch v then
      match decreaseBalance s index (slashingPenalty cfg totalBalance adjusted v) with
      | .error e => .error e
      | .ok s' => processSlashingsLoop cfg epoch totalBalance adjusted s' (index + 1) vs
    else processSlashingsLoop cfg epoch totalBalance adjusted s (index + 1) vs

/-- The spec's `process_slashings`, with the same `uint64` operations as the
code. -/
def processSlashings (cfg : Config) (state : BeaconState) : Except SlashingsError BeaconState :=
  processSlashingsLoop cfg (currentEpoch cfg state) (getTotalActiveBalance cfg state)
    (adjustedTotalSlashingBalance cfg state) state 0 state.validators

/-- The balances `process_slashings` leaves, position by position: balance `j`
is cut by the penalty of validator `j` when that validator is penalised. -/
def slashedBalance (cfg : Config) (state : BeaconState) (j : ℕ) (b : U64) : U64 :=
  match state.validators[j]? with
  | some v =>
    if penalised cfg (currentEpoch cfg state) v then
      decreaseBalanceWithVal b
        (slashingPenalty cfg (getTotalActiveBalance cfg state) (adjustedTotalSlashingBalance cfg state) v)
    else b
  | none => b

/-- All balances after `process_slashings`. -/
def slashedBalances (cfg : Config) (state : BeaconState) : List U64 :=
  state.balances.mapIdx (slashedBalance cfg state)

/-! ## Small facts beside the definitions -/

section Facts

variable {cfg : Config} {state : BeaconState}

theorem checkedDiv_of_ne_zero {a b : U64} (h : b ≠ 0) : checkedDiv a b = .ok (a / b) := by
  rw [checkedDiv, if_neg h]

/-- The spec's total is at least `EFFECTIVE_BALANCE_INCREMENT`, so never 0. -/
theorem getTotalActiveBalance_ne_zero : getTotalActiveBalance cfg state ≠ 0 := by
  have h := cfg.effectiveBalanceIncrement_ne_zero
  dsimp only [getTotalActiveBalance]
  split <;> bv_omega

/-- `mathutil.Min` and Python's `min` pick the same value. -/
theorem minSlashing_eq_adjusted {pBal : Balance}
    (hpBal : pBal.activeCurrentEpoch = getTotalActiveBalance cfg state) :
    minSlashing cfg state pBal = adjustedTotalSlashingBalance cfg state := by
  dsimp only [minSlashing, mathutilMin, adjustedTotalSlashingBalance]
  rw [hpBal]
  split_ifs <;> bv_omega

/-- Past the registry, `process_slashings` leaves a balance alone. -/
theorem slashedBalance_of_length_le {j : ℕ} (hj : state.validators.length ≤ j) (b : U64) :
    slashedBalance cfg state j b = b := by
  simp [slashedBalance, List.getElem?_eq_none hj]

end Facts

/-! ## The walks of `ProcessSlashingsPrecompute` and `process_slashings` -/

section Walks

variable {cfg : Config} {state : BeaconState}

/-- A read-only scan that sets a flag on the first hit computes `any`. -/
theorem readLoop_flag (c : Validator → Bool) (vs : List Validator) :
    ∀ (acc : Bool) i, readLoop (fun acc _ v => if c v then true else acc) acc i vs = (acc || vs.any c) := by
  induction vs with
  | nil => intro acc i; simp [readLoop]
  | cons v vs ih =>
    intro acc i
    rw [readLoop, ih]
    cases h : c v <;> simp [h]

/-- The scan finds whether `process_slashings` penalises any validator. -/
theorem hasSlashing_eq_any :
    hasSlashing cfg state = state.validators.any (penalised cfg (currentEpoch cfg state)) := by
  show readLoop (fun acc _ v => if penalised cfg (currentEpoch cfg state) v then true else acc) false 0
    state.validators = _
  rw [readLoop_flag]
  rfl

theorem validatorFunc_of_not_penalised {v : Validator} (h : penalised cfg (currentEpoch cfg state) v = false)
    (pBal : Balance) (m : U64) (s : BeaconState) (i : ℕ) :
    validatorFunc cfg pBal m (epochToWithdraw cfg state) s i v = .ok (s, false) := by
  have h' : (v.slashed && (epochToWithdraw cfg state == v.withdrawableEpoch)) = false := h
  simp [validatorFunc, h']

/-- With the spec's total as the precomputed balance, the callback penalises as
the spec does. -/
theorem validatorFunc_of_penalised {pBal : Balance}
    (hpBal : pBal.activeCurrentEpoch = getTotalActiveBalance cfg state) {v : Validator}
    (h : penalised cfg (currentEpoch cfg state) v = true) (m : U64) (s : BeaconState) (i : ℕ) :
    validatorFunc cfg pBal m (epochToWithdraw cfg state) s i v =
      match decreaseBalance s i (slashingPenalty cfg (getTotalActiveBalance cfg state) m v) with
      | .error e => .error e
      | .ok s' => .ok (s', true) := by
  have h' : (v.slashed && (epochToWithdraw cfg state == v.withdrawableEpoch)) = true := h
  simp only [validatorFunc, h', if_true, hpBal, checkedDiv_of_ne_zero getTotalActiveBalance_ne_zero]
  rfl

/-- The penalising walk leaves the state alone when no validator is penalised,
whatever the precomputed balance. -/
theorem applyLoop_of_not_penalised (pBal : Balance) (m : U64) (vs : List Validator)
    (hvs : ∀ v ∈ vs, penalised cfg (currentEpoch cfg state) v = false) :
    ∀ s i, applyLoop (validatorFunc cfg pBal m (epochToWithdraw cfg state)) s i vs = .ok s := by
  induction vs with
  | nil => intro s i; rfl
  | cons v vs ih =>
    intro s i
    rw [applyLoop, validatorFunc_of_not_penalised (hvs v (List.mem_cons_self v vs))]
    exact ih (fun w hw => hvs w (List.mem_cons_of_mem v hw)) s (i + 1)

/-- With the spec's total as the precomputed balance, the penalising walk is
the spec's loop. -/
theorem applyLoop_eq_processSlashingsLoop {pBal : Balance}
    (hpBal : pBal.activeCurrentEpoch = getTotalActiveBalance cfg state) (vs : List Validator) :
    ∀ s i, applyLoop (validatorFunc cfg pBal (adjustedTotalSlashingBalance cfg state) (epochToWithdraw cfg state))
        s i vs =
      processSlashingsLoop cfg (currentEpoch cfg state) (getTotalActiveBalance cfg state)
        (adjustedTotalSlashingBalance cfg state) s i vs := by
  induction vs with
  | nil => intro s i; rfl
  | cons v vs ih =>
    intro s i
    cases hp : penalised cfg (currentEpoch cfg state) v
    · rw [applyLoop, validatorFunc_of_not_penalised hp, processSlashingsLoop, if_neg (by simp [hp])]
      exact ih s (i + 1)
    · rw [applyLoop, validatorFunc_of_penalised hpBal hp, processSlashingsLoop, if_pos hp]
      cases decreaseBalance s i _ with
      | error e => rfl
      | ok s' => exact ih s' (i + 1)

/-- The spec's loop from position `i`, with the balances below `i` already
penalised, penalises the balances of the positions it walks. -/
theorem processSlashingsLoop_eq_mapIdx (hlen : state.validators.length ≤ state.balances.length)
    (vs : List Validator) :
    ∀ i, state.validators.drop i = vs →
      processSlashingsLoop cfg (currentEpoch cfg state) (getTotalActiveBalance cfg state)
          (adjustedTotalSlashingBalance cfg state)
          { state with balances := state.balances.mapIdx fun j b => if j < i then slashedBalance cfg state j b else b }
          i vs =
        .ok { state with
          balances := state.balances.mapIdx fun j b => if j < i + vs.length then slashedBalance cfg state j b else b } := by
  induction vs with
  | nil => intro i _; rfl
  | cons v vs ih =>
    intro i hdrop
    obtain ⟨hi, hv, hrest⟩ := drop_eq_cons hdrop
    have hib : i < state.balances.length := by omega
    have hget : state.validators[i]? = some v := by rw [List.getElem?_eq_getElem hi, hv]
    have hnext : i + (vs.length + 1) = i + 1 + vs.length := by omega
    rw [processSlashingsLoop, List.length_cons, hnext]
    split_ifs with hp
    · have hb : decreaseBalanceWithVal state.balances[i]
          (slashingPenalty cfg (getTotalActiveBalance cfg state) (adjustedTotalSlashingBalance cfg state) v) =
          slashedBalance cfg state i state.balances[i] := by
        simp [slashedBalance, hget, hp]
      rw [decreaseBalance, dif_pos (by simpa using hib)]
      simp only [List.getElem_mapIdx, lt_irrefl, if_false, hb, set_mapIdx_below _ _ hib]
      exact ih (i + 1) hrest
    · rw [mapIdx_below_succ _ _ fun b => by simp [slashedBalance, hget, hp]]
      exact ih (i + 1) hrest

end Walks

/-! ## The precompute path against the spec -/

/-- The early exit changes nothing: for every precomputed balance,
`ProcessSlashingsPrecompute` returns what its penalising walk returns without
the scan, since when the scan finds no validator the walk penalises none. -/
theorem processSlashingsPrecompute_eq_pass (cfg : Config) (state : BeaconState) (pBal : Balance) :
    processSlashingsPrecompute cfg state pBal =
      applyToEveryValidator state (validatorFunc cfg pBal (minSlashing cfg state pBal) (epochToWithdraw cfg state)) := by
  unfold processSlashingsPrecompute
  cases h : hasSlashing cfg state
  · rw [hasSlashing_eq_any, List.any_eq_false] at h
    exact (applyLoop_of_not_penalised _ _ _ (fun v hv => by simpa using h v hv) state 0).symm
  · rfl

/-- With the spec's total as the precomputed balance, the penalising walk is
`process_slashings`. -/
theorem processSlashingsPass_eq {cfg : Config} {state : BeaconState} {pBal : Balance}
    (hpBal : pBal.activeCurrentEpoch = getTotalActiveBalance cfg state) :
    applyToEveryValidator state (validatorFunc cfg pBal (minSlashing cfg state pBal) (epochToWithdraw cfg state)) =
      processSlashings cfg state := by
  rw [minSlashing_eq_adjusted hpBal]
  exact applyLoop_eq_processSlashingsLoop hpBal _ state 0

/-- On a registry with a balance for every validator, `process_slashings`
cuts each penalised balance by its penalty and changes nothing else. -/
theorem processSlashings_eq_slashedBalances {cfg : Config} {state : BeaconState}
    (hlen : state.validators.length ≤ state.balances.length) :
    processSlashings cfg state = .ok { state with balances := slashedBalances cfg state } := by
  have h := @processSlashingsLoop_eq_mapIdx cfg state hlen state.validators 0 (List.drop_zero _)
  rwa [mapIdx_below_zero, Nat.zero_add,
    mapIdx_below_of_fixed _ _ fun j hj b => slashedBalance_of_length_le hj b] at h

/-- Take any beacon state and any precomputed balance whose
`ActiveCurrentEpoch` is the spec's total active balance.
`ProcessSlashingsPrecompute` returns what the spec's `process_slashings` returns,
computed with the same `uint64` operations; its early exit returns what its
penalising walk would have returned; and when every validator has a balance,
each penalised validator's balance is cut, down to 0 at least, by
`effective_balance / increment * min(sum(slashings) * multiplier, total) / total * increment`. -/
theorem processSlashingsPrecompute_eq_processSlashings (cfg : Config) (state : BeaconState) (pBal : Balance)
    (hpBal : pBal.activeCurrentEpoch = getTotalActiveBalance cfg state) :
    processSlashingsPrecompute cfg state pBal = processSlashings cfg state ∧
      processSlashingsPrecompute cfg state pBal =
        applyToEveryValidator state (validatorFunc cfg pBal (minSlashing cfg state pBal) (epochToWithdraw cfg state)) ∧
      (state.validators.length ≤ state.balances.length →
        processSlashingsPrecompute cfg state pBal = .ok { state with balances := slashedBalances cfg state }) := by
  have hspec := (processSlashingsPrecompute_eq_pass cfg state pBal).trans (processSlashingsPass_eq hpBal)
  exact ⟨hspec, processSlashingsPrecompute_eq_pass cfg state pBal,
    fun hlen => hspec.trans (processSlashings_eq_slashedBalances hlen)⟩

/-- A configuration with four slots an epoch, an eight-epoch slashings vector,
a multiplier of 3 and an increment of 10. -/
def smallConfig : Config :=
  ⟨4, 8, 3, 10, BitVec.allOnes 64, by decide, by decide⟩

/-- Epoch 2, two validators active; the second, slashed, is withdrawable at
epoch 6, four epochs ahead. -/
def slashedPairState : BeaconState where
  slot := 8
  validators := [⟨32, false, 0, 100, 100⟩, ⟨32, true, 0, 3, 6⟩]
  balances := [32, 30]
  slashings := [5, 7]

/-- The penalty of the slashed validator is `32 / 10 * min(12 * 3, 64) / 64 * 10 = 10`. -/
example : slashedBalances smallConfig slashedPairState = [32, 20] := by decide

theorem processSlashingsPrecompute_eq_processSlashings_slashedPair :
    (⟨64, 64⟩ : Balance).activeCurrentEpoch = getTotalActiveBalance smallConfig slashedPairState ∧
      (processSlashingsPrecompute smallConfig slashedPairState ⟨64, 64⟩ = processSlashings smallConfig slashedPairState ∧
      processSlashingsPrecompute smallConfig slashedPairState ⟨64, 64⟩ =
        applyToEveryValidator slashedPairState (validatorFunc smallConfig ⟨64, 64⟩
          (minSlashing smallConfig slashedPairState ⟨64, 64⟩) (epochToWithdraw smallConfig slashedPairState)) ∧
      (slashedPairState.validators.length ≤ slashedPairState.balances.length →
        processSlashingsPrecompute smallConfig slashedPairState ⟨64, 64⟩ =
          .ok { slashedPairState with balances := slashedBalances smallConfig slashedPairState })) :=
  have h : (⟨64, 64⟩ : Balance).activeCurrentEpoch = getTotalActiveBalance smallConfig slashedPairState := by
    decide
  ⟨h, processSlashingsPrecompute_eq_processSlashings smallConfig slashedPairState ⟨64, 64⟩ h⟩

/-! ## `New` feeds the spec's total -/

section New

variable {cfg : Config} {state : BeaconState}

/-- `New`'s walk from position `i`, with the entries below `i` filled, fills
the entries of the validators it walks and adds their effective balances to the
totals of the epochs they are active in. -/
theorem readLoop_newStep (c p : U64) (vs : List Validator) :
    ∀ i (pBal : Balance), state.validators.drop i = vs →
      readLoop (newStep cfg c p)
          ((List.replicate state.validators.length none).mapIdx
            fun j b => if j < i then state.validators[j]?.map (pValidatorOf cfg c p) else b, pBal) i vs =
        ((List.replicate state.validators.length none).mapIdx
            fun j b => if j < i + vs.length then state.validators[j]?.map (pValidatorOf cfg c p) else b,
          ⟨((vs.filter fun v => isActiveValidatorUsingTrie v c).map (·.effectiveBalance)).foldl (· + ·)
              pBal.activeCurrentEpoch,
            ((vs.filter fun v => isActiveValidatorUsingTrie v p).map (·.effectiveBalance)).foldl (· + ·)
              pBal.activePrevEpoch⟩) := by
  induction vs with
  | nil => intro i pBal _; rfl
  | cons v vs ih =>
    intro i pBal hdrop
    obtain ⟨hi, hv, hrest⟩ := drop_eq_cons hdrop
    have hil : i < (List.replicate state.validators.length (none : Option PValidator)).length := by
      simpa using hi
    have hentry : some (pValidatorOf cfg c p v) =
        (fun j (_ : Option PValidator) => state.validators[j]?.map (pValidatorOf cfg c p)) i
          (List.replicate state.validators.length none)[i] := by
      simp [List.getElem?_eq_getElem hi, hv]
    have hnext : i + (vs.length + 1) = i + 1 + vs.length := by omega
    rw [readLoop, newStep, hentry, set_mapIdx_below _ _ hil, List.length_cons, hnext]
    dsimp only
    rw [ih (i + 1) _ hrest]
    cases hc : isActiveValidatorUsingTrie v c <;> cases hp : isActiveValidatorUsingTrie v p <;>
      simp [List.filter_cons, hc, hp]

/-- `New` returns one `pVal` for each validator, in registry order, and the
effective-balance sums of the validators active in the current and the previous
epoch. -/
theorem new_eq :
    new cfg state =
      (state.validators.map fun v => some (pValidatorOf cfg (currentEpoch cfg state) (prevEpoch cfg state) v),
        ⟨activeBalanceSum state (currentEpoch cfg state), activeBalanceSum state (prevEpoch cfg state)⟩) := by
  have h := @readLoop_newStep cfg state (currentEpoch cfg state) (prevEpoch cfg state) state.validators 0
    ⟨0, 0⟩ (List.drop_zero _)
  rw [mapIdx_below_zero, Nat.zero_add] at h
  rw [new, readFromEveryValidator, h]
  congr 1
  ext1 j
  by_cases hj : j < state.validators.length
  · simp [hj]
  · simp [hj, List.getElem?_replicate, List.getElem?_eq_none (Nat.le_of_not_lt hj)]

/-- When the active validators' effective balances add up to at least the
increment, `New`'s current-epoch total is the spec's total active balance. -/
theorem new_activeCurrentEpoch_eq_total
    (h : cfg.effectiveBalanceIncrement ≤ activeBalanceSum state (currentEpoch cfg state)) :
    (new cfg state).2.activeCurrentEpoch = getTotalActiveBalance cfg state := by
  rw [new_eq]
  dsimp only [getTotalActiveBalance]
  split <;> bv_omega

/-- `New` and then `ProcessSlashingsPrecompute`, as epoch processing calls
them, is `process_slashings` whenever the active balance reaches the
increment. -/
theorem processSlashingsPrecompute_new
    (h : cfg.effectiveBalanceIncrement ≤ activeBalanceSum state (currentEpoch cfg state)) :
    processSlashingsPrecompute cfg state (new cfg state).2 = processSlashings cfg state :=
  (processSlashingsPrecompute_eq_pass cfg state _).trans (processSlashingsPass_eq (new_activeCurrentEpoch_eq_total h))

/-- A walk with a zero precomputed balance panics at the first validator it
penalises. -/
theorem applyLoop_of_zero_balance {pBal : Balance} (hz : pBal.activeCurrentEpoch = 0) (m : U64)
    (vs : List Validator) (hvs : vs.any (penalised cfg (currentEpoch cfg state)) = true) :
    ∀ s i, applyLoop (validatorFunc cfg pBal m (epochToWithdraw cfg state)) s i vs = .error .integerDivideByZero := by
  induction vs with
  | nil => simp at hvs
  | cons v vs ih =>
    intro s i
    cases hp : penalised cfg (currentEpoch cfg state) v
    · rw [applyLoop, validatorFunc_of_not_penalised hp]
      exact ih (by simpa [hp] using hvs) s (i + 1)
    · have h' : (v.slashed && (epochToWithdraw cfg state == v.withdrawableEpoch)) = true := hp
      simp [applyLoop, validatorFunc, h', hz, checkedDiv]

/-- Below the increment the two differ: when the current epoch's active
effective balances sum to 0, `New`'s total is 0 where the spec's is the
increment, and `ProcessSlashingsPrecompute` panics on the first validator it
penalises. -/
theorem processSlashingsPrecompute_new_of_no_active
    (h0 : activeBalanceSum state (currentEpoch cfg state) = 0) (hs : hasSlashing cfg state = true) :
    processSlashingsPrecompute cfg state (new cfg state).2 = .error .integerDivideByZero := by
  rw [processSlashingsPrecompute_eq_pass]
  rw [hasSlashing_eq_any] at hs
  exact applyLoop_of_zero_balance (by rw [new_eq]; exact h0) _ _ hs state 0

end New

theorem processSlashingsPrecompute_new_slashedPair :
    smallConfig.effectiveBalanceIncrement ≤ activeBalanceSum slashedPairState (currentEpoch smallConfig slashedPairState) ∧
      processSlashingsPrecompute smallConfig slashedPairState (new smallConfig slashedPairState).2 =
        processSlashings smallConfig slashedPairState :=
  have h : smallConfig.effectiveBalanceIncrement ≤
      activeBalanceSum slashedPairState (currentEpoch smallConfig slashedPairState) := by decide
  ⟨h, processSlashingsPrecompute_new h⟩

/-- Epoch 2, and the only validator, slashed and withdrawable at epoch 6, exited at
epoch 1: no balance is active. -/
def exitedSlashedState : BeaconState where
  slot := 8
  validators := [⟨32, true, 0, 1, 6⟩]
  balances := [32]
  slashings := [5]

theorem processSlashingsPrecompute_new_of_no_active_exitedSlashed :
    activeBalanceSum exitedSlashedState (currentEpoch smallConfig exitedSlashedState) = 0 ∧
      hasSlashing smallConfig exitedSlashedState = true ∧
      processSlashingsPrecompute smallConfig exitedSlashedState (new smallConfig exitedSlashedState).2 =
        .error .integerDivideByZero :=
  have h0 : activeBalanceSum exitedSlashedState (currentEpoch smallConfig exitedSlashedState) = 0 := by
    decide
  have hs : hasSlashing smallConfig exitedSlashedState = true := by decide
  ⟨h0, hs, processSlashingsPrecompute_new_of_no_active h0 hs⟩

end Prysm.Epoch.Precompute
