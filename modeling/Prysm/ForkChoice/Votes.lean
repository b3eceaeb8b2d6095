import Prysm.Types
import Mathlib.Data.List.Basic

/-!
# The vote table of proto-array fork choice

`ForkChoice.ProcessAttestation` of `forkchoice/protoarray/store.go`, from the
empty table `New` makes. The table grows to every index it is given; an entry
is updated when it looks never used, both roots the zero hash, or when the
target epoch is higher than its own. The fork-choice spec keeps, for each
validator, the first message with the greatest target epoch
(`latestMessage`). The two agree as long as no attestation names the zero
hash as its block root: such a vote leaves its entry looking unused, and a
later vote of a lower epoch then overwrites it.
-/

namespace Prysm.ForkChoice.Votes

open Prysm.Types

/-- `Vote`: the root counted at the last `Head` call, and the latest vote
with its target epoch. -/
structure Vote where
  /-- `currentRoot`, the vote as last counted. -/
  currentRoot : Root
  /-- `nextRoot`, the latest vote. -/
  nextRoot : Root
  /-- `nextEpoch`, its target epoch. -/
  nextEpoch : U64
  deriving DecidableEq, Repr

/-- The entry `append` adds: both roots the zero hash, epoch 0. -/
def freshVote : Vote := ⟨zeroHash, zeroHash, 0⟩

/-- `for index >= uint64(len(f.votes))`: append fresh entries until `index`
is in the table. -/
def growVotes (votes : List Vote) (index : ℕ) : List Vote :=
  votes ++ List.replicate (index + 1 - votes.length) freshVote

/-- The update of one entry: when it looks never used (`newVote`) or the
target epoch is higher than its own. -/
def updateVote (blockRoot : Root) (targetEpoch : U64) (v : Vote) : Vote :=
  if (v.nextRoot = zeroHash ∧ v.currentRoot = zeroHash) ∨ targetEpoch > v.nextEpoch then
    { v with nextEpoch := targetEpoch, nextRoot := blockRoot }
  else v

/-- One pass of the loop over `validatorIndices`. -/
def processIndex (blockRoot : Root) (targetEpoch : U64) (votes : List Vote) (index : U64) :
    List Vote :=
  let votes := growVotes votes index.toNat
  votes.set index.toNat (updateVote blockRoot targetEpoch (votes.getD index.toNat freshVote))

/-- `ForkChoice.ProcessAttestation`. -/
def processAttestation (votes : List Vote) (validatorIndices : List U64) (blockRoot : Root)
    (targetEpoch : U64) : List Vote :=
  validatorIndices.foldl (processIndex blockRoot targetEpoch) votes

/-- The arguments of one `ProcessAttestation` call. -/
structure AttestationCall where
  /-- `validatorIndices`. -/
  validatorIndices : List U64
  /-- `blockRoot`. -/
  blockRoot : Root
  /-- `targetEpoch`. -/
  targetEpoch : U64
  deriving DecidableEq, Repr

/-- The table after a sequence of calls, from the empty table of `New`. -/
def processAttestations (calls : List AttestationCall) : List Vote :=
  calls.foldl (fun votes c => processAttestation votes c.validatorIndices c.blockRoot c.targetEpoch)
    []

/-- Entry `n` of the table, a fresh entry past its end. -/
def voteAt (votes : List Vote) (n : ℕ) : Vote := votes.getD n freshVote

/-- The rule of the spec's `on_attestation` for one validator: keep the first
message with the greatest target epoch. -/
def latestUpdate (targetEpoch : U64) (blockRoot : Root) :
    Option (U64 × Root) → Option (U64 × Root)
  | none => some (targetEpoch, blockRoot)
  | some (e, r) => if e < targetEpoch then some (targetEpoch, blockRoot) else some (e, r)

/-- The spec's `latest_messages[n]` after a sequence of calls: the first of the
calls naming `n` with the greatest target epoch. -/
def latestMessage (calls : List AttestationCall) (n : ℕ) : Option (U64 × Root) :=
  calls.foldl (fun acc c =>
    if n ∈ c.validatorIndices.map BitVec.toNat then latestUpdate c.targetEpoch c.blockRoot acc
    else acc) none

/-- The table entry that stands for a latest message: none yet, or the vote
with its epoch. -/
def voteOf : Option (U64 × Root) → Vote
  | none => freshVote
  | some (e, r) => ⟨zeroHash, r, e⟩

section Step

variable {blockRoot : Root} {targetEpoch : U64}

theorem length_growVotes (votes : List Vote) (n : ℕ) :
    (growVotes votes n).length = max votes.length (n + 1) := by
  simp only [growVotes, List.length_append, List.length_replicate]
  omega

/-- Fresh entries appended past the end change no entry. -/
theorem voteAt_growVotes (votes : List Vote) (n m : ℕ) :
    voteAt (growVotes votes n) m = voteAt votes m := by
  simp only [voteAt, growVotes, List.getD_eq_getElem?_getD, List.getElem?_append]
  split
  · rfl
  · rw [List.getElem?_replicate]
    split <;> simp_all [List.getElem?_eq_none]

theorem length_processIndex (votes : List Vote) (index : U64) :
    (processIndex blockRoot targetEpoch votes index).length = max votes.length (index.toNat + 1) := by
  simp [processIndex, length_growVotes]

/-- One pass updates entry `index` and leaves every other entry. -/
theorem voteAt_processIndex (votes : List Vote) (index : U64) (m : ℕ) :
    voteAt (processIndex blockRoot targetEpoch votes index) m =
      if m = index.toNat then updateVote blockRoot targetEpoch (voteAt votes m)
      else voteAt votes m := by
  have hlen : index.toNat < (growVotes votes index.toNat).length := by
    rw [length_growVotes]; omega
  simp only [processIndex]
  split
  · subst m
    have hg := voteAt_growVotes votes index.toNat index.toNat
    simp only [voteAt, List.getD_eq_getElem?_getD] at hg ⊢
    rw [List.getElem?_set_self hlen, Option.getD_some, hg]
  · have hg := voteAt_growVotes votes index.toNat m
    simp only [voteAt, List.getD_eq_getElem?_getD] at hg ⊢
    rw [List.getElem?_set_ne (Ne.symm ‹_›), hg]

/-- With a root that is not the zero hash, updating twice is updating once. -/
theorem updateVote_idem (hr : blockRoot ≠ zeroHash) (v : Vote) :
    updateVote blockRoot targetEpoch (updateVote blockRoot targetEpoch v) =
      updateVote blockRoot targetEpoch v := by
  unfold updateVote
  split_ifs with h1 h2 <;> simp_all

/-- A call updates once every entry it names, and no other. -/
theorem voteAt_processAttestation (hr : blockRoot ≠ zeroHash) (indices : List U64) :
    ∀ (votes : List Vote) (m : ℕ),
      voteAt (processAttestation votes indices blockRoot targetEpoch) m =
        if m ∈ indices.map BitVec.toNat then updateVote blockRoot targetEpoch (voteAt votes m)
        else voteAt votes m := by
  induction indices with
  | nil => intro votes m; simp [processAttestation]
  | cons i is ih =>
    intro votes m
    simp only [processAttestation, List.foldl_cons] at ih ⊢
    rw [ih, voteAt_processIndex]
    by_cases hm : m = i.toNat <;> by_cases hs : m ∈ is.map BitVec.toNat <;>
      simp [hm, hs, updateVote_idem hr]

/-- A call leaves the table at least as long, and longer than each index it names. -/
theorem length_processAttestation (indices : List U64) :
    ∀ votes : List Vote, votes.length ≤ (processAttestation votes indices blockRoot targetEpoch).length ∧
      ∀ i ∈ indices, i.toNat < (processAttestation votes indices blockRoot targetEpoch).length := by
  induction indices with
  | nil => intro votes; simp [processAttestation]
  | cons i is ih =>
    intro votes
    simp only [processAttestation, List.foldl_cons] at ih ⊢
    obtain ⟨h1, h2⟩ := ih (processIndex blockRoot targetEpoch votes i)
    rw [length_processIndex] at h1
    refine ⟨by omega, fun j hj => ?_⟩
    rcases List.mem_cons.mp hj with rfl | hj
    · omega
    · exact h2 j hj

/-- The code's update of the entry standing for a latest message is the entry
for the spec's update, when the message's root is not the zero hash. -/
theorem updateVote_voteOf {x : Option (U64 × Root)}
    (hx : ∀ e r, x = some (e, r) → r ≠ zeroHash) :
    updateVote blockRoot targetEpoch (voteOf x) = voteOf (latestUpdate targetEpoch blockRoot x) := by
  rcases x with _ | ⟨e, r⟩
  · simp [updateVote, voteOf, latestUpdate, freshVote]
  · have := hx e r rfl
    by_cases he : e < targetEpoch <;> simp [updateVote, voteOf, latestUpdate, this, he]

end Step

/-- `c` is, among the calls `pre ++ c :: post`, the first of those naming
validator `n` with the greatest target epoch. -/
structure FirstGreatest (n : ℕ) (pre : List AttestationCall) (c : AttestationCall)
    (post : List AttestationCall) : Prop where
  /-- `c` names `n`. -/
  names : n ∈ c.validatorIndices.map BitVec.toNat
  /-- Every earlier call naming `n` has a lower target epoch. -/
  pre_lt : ∀ c' ∈ pre, n ∈ c'.validatorIndices.map BitVec.toNat → c'.targetEpoch < c.targetEpoch
  /-- No later call naming `n` has a higher one. -/
  post_le : ∀ c' ∈ post, n ∈ c'.validatorIndices.map BitVec.toNat → c'.targetEpoch ≤ c.targetEpoch

/-- What the vote table after `calls` should be: longer than every index
named, each entry the one standing for the spec's latest message, fresh
exactly for the validators no call names, and otherwise the vote of the first
call with the greatest target epoch. -/
structure MatchesLatestMessages (calls : List AttestationCall) : Prop where
  /-- The table is longer than every index processed. -/
  length_gt : ∀ c ∈ calls, ∀ i ∈ c.validatorIndices, i.toNat < (processAttestations calls).length
  /-- Each entry stands for the spec's latest message. -/
  voteAt_eq : ∀ n, voteAt (processAttestations calls) n = voteOf (latestMessage calls n)
  /-- An entry is fresh exactly when no call names its validator. -/
  fresh_iff : ∀ n, voteAt (processAttestations calls) n = freshVote ↔
    ∀ c ∈ calls, n ∉ c.validatorIndices.map BitVec.toNat
  /-- A named validator's entry holds the first vote of the greatest epoch. -/
  first_greatest : ∀ n, (∃ c ∈ calls, n ∈ c.validatorIndices.map BitVec.toNat) →
    ∃ pre c post, calls = pre ++ c :: post ∧ FirstGreatest n pre c post ∧
      (voteAt (processAttestations calls) n).nextEpoch = c.targetEpoch ∧
      (voteAt (processAttestations calls) n).nextRoot = c.blockRoot

section Run

variable {n : ℕ}

theorem FirstGreatest.epoch_le {pre post : List AttestationCall} {c : AttestationCall}
    (h : FirstGreatest n pre c post) :
    ∀ c' ∈ pre ++ c :: post, n ∈ c'.validatorIndices.map BitVec.toNat →
      c'.targetEpoch ≤ c.targetEpoch := by
  intro c' hc' hn
  rcases List.mem_append.mp hc' with hc' | hc'
  · have := h.pre_lt c' hc' hn
    bv_omega
  · rcases List.mem_cons.mp hc' with rfl | hc'
    · bv_omega
    · exact h.post_le c' hc' hn

/-- A later call that does not beat the epoch keeps the call the message comes from. -/
theorem FirstGreatest.append_singleton {pre post : List AttestationCall} {c₀ : AttestationCall}
    (h : FirstGreatest n pre c₀ post) (c : AttestationCall)
    (hc : n ∈ c.validatorIndices.map BitVec.toNat → c.targetEpoch ≤ c₀.targetEpoch) :
    FirstGreatest n pre c₀ (post ++ [c]) := by
  refine ⟨h.names, h.pre_lt, fun c' hc' hn => ?_⟩
  rcases List.mem_append.mp hc' with hc' | hc'
  · exact h.post_le c' hc' hn
  · rw [List.mem_singleton.mp hc'] at hn ⊢
    exact hc hn

theorem processAttestations_append_singleton (calls : List AttestationCall) (c : AttestationCall) :
    processAttestations (calls ++ [c]) =
      processAttestation (processAttestations calls) c.validatorIndices c.blockRoot c.targetEpoch := by
  simp [processAttestations, List.foldl_append]

theorem latestMessage_append_singleton (calls : List AttestationCall) (c : AttestationCall) :
    latestMessage (calls ++ [c]) n =
      if n ∈ c.validatorIndices.map BitVec.toNat then
        latestUpdate c.targetEpoch c.blockRoot (latestMessage calls n)
      else latestMessage calls n := by
  simp [latestMessage, List.foldl_append]

/-- There is no latest message exactly when no call names the validator. -/
theorem latestMessage_eq_none_iff (calls : List AttestationCall) :
    latestMessage calls n = none ↔ ∀ c ∈ calls, n ∉ c.validatorIndices.map BitVec.toNat := by
  induction calls using List.reverseRecOn with
  | nil => simp [latestMessage]
  | append_singleton calls c ih =>
    rw [latestMessage_append_singleton]
    split
    · rename_i hn
      have : latestUpdate c.targetEpoch c.blockRoot (latestMessage calls n) ≠ none := by
        unfold latestUpdate; split <;> [simp; split <;> simp]
      simp only [this, false_iff, not_forall]
      exact ⟨c, by simp, fun h => h hn⟩
    · rename_i hn
      simp only [ih, List.mem_append, List.mem_singleton]
      exact ⟨fun h c' hc' => hc'.elim (h c') (· ▸ hn), fun h c' hc' => h c' (.inl hc')⟩

/-- A latest message is the vote of the first call naming the validator with
the greatest target epoch. -/
theorem latestMessage_firstGreatest (calls : List AttestationCall) :
    ∀ e r, latestMessage calls n = some (e, r) →
      ∃ pre c post, calls = pre ++ c :: post ∧ FirstGreatest n pre c post ∧
        c.targetEpoch = e ∧ c.blockRoot = r := by
  induction calls using List.reverseRecOn with
  | nil => simp [latestMessage]
  | append_singleton calls c ih =>
    intro e r h
    rw [latestMessage_append_singleton] at h
    split at h
    case isFalse hn =>
      obtain ⟨pre, c₀, post, rfl, hfg, he, hr⟩ := ih e r h
      exact ⟨pre, c₀, post ++ [c], by simp, hfg.append_singleton c (absurd · hn), he, hr⟩
    case isTrue hn =>
      rcases hl : latestMessage calls n with _ | ⟨e', r'⟩ <;> rw [hl] at h
      · -- the first call naming the validator
        simp only [latestUpdate, Option.some.injEq, Prod.mk.injEq] at h
        have hnone := (latestMessage_eq_none_iff calls).mp hl
        exact ⟨calls, c, [], rfl, ⟨hn, fun c' hc' hn' => absurd hn' (hnone c' hc'), by simp⟩, h⟩
      · obtain ⟨pre, c₀, post, rfl, hfg, rfl, rfl⟩ := ih _ _ hl
        simp only [latestUpdate] at h
        split at h
        case isTrue hlt =>
          -- a strictly greater epoch: the new call is the one
          simp only [Option.some.injEq, Prod.mk.injEq] at h
          refine ⟨pre ++ c₀ :: post, c, [], rfl, ⟨hn, fun c' hc' hn' => ?_, by simp⟩, h⟩
          have := hfg.epoch_le c' hc' hn'
          bv_omega
        case isFalse hge =>
          simp only [Option.some.injEq, Prod.mk.injEq] at h
          obtain ⟨rfl, rfl⟩ := h
          exact ⟨pre, c₀, post ++ [c], by simp, hfg.append_singleton c fun _ => by bv_omega, rfl, rfl⟩

theorem latestMessage_root_ne {calls : List AttestationCall}
    (hroots : ∀ c ∈ calls, c.blockRoot ≠ zeroHash) :
    ∀ e r, latestMessage calls n = some (e, r) → r ≠ zeroHash := fun e r h => by
  obtain ⟨pre, c₀, post, hcalls, -, -, rfl⟩ := latestMessage_firstGreatest calls e r h
  exact hroots c₀ (by simp [hcalls])

/-- Run lemma: each entry stands for the spec's latest message, as long as no
call names the zero hash as its root. -/
theorem voteAt_processAttestations (calls : List AttestationCall)
    (hroots : ∀ c ∈ calls, c.blockRoot ≠ zeroHash) (n : ℕ) :
    voteAt (processAttestations calls) n = voteOf (latestMessage calls n) := by
  induction calls using List.reverseRecOn with
  | nil => rfl
  | append_singleton calls c ih =>
    have hr : ∀ c' ∈ calls, c'.blockRoot ≠ zeroHash := fun c' hc' => hroots c' (by simp [hc'])
    rw [processAttestations_append_singleton, latestMessage_append_singleton,
      voteAt_processAttestation (hroots c (by simp)), ih hr]
    split
    · exact updateVote_voteOf (latestMessage_root_ne hr)
    · rfl

/-- Run lemma: the table grows to every index named. -/
theorem length_processAttestations (calls : List AttestationCall) :
    ∀ c ∈ calls, ∀ i ∈ c.validatorIndices, i.toNat < (processAttestations calls).length := by
  induction calls using List.reverseRecOn with
  | nil => simp
  | append_singleton calls c ih =>
    rw [processAttestations_append_singleton]
    have hc := @length_processAttestation c.blockRoot c.targetEpoch c.validatorIndices
      (processAttestations calls)
    intro c' hc' i hi
    rcases List.mem_append.mp hc' with hc' | hc'
    · exact lt_of_lt_of_le (ih c' hc' i hi) hc.1
    · rw [List.mem_singleton.mp hc'] at hi
      exact hc.2 i hi

theorem voteOf_eq_freshVote_iff {x : Option (U64 × Root)} (hx : ∀ e r, x = some (e, r) → r ≠ zeroHash) :
    voteOf x = freshVote ↔ x = none := by
  rcases x with _ | ⟨e, r⟩
  · simp [voteOf]
  · simp [voteOf, freshVote, hx e r rfl]

end Run

/-- For every sequence of calls from the empty table, none of which names the
zero hash as its block root, the vote table is the spec's latest-message map. -/
theorem processAttestations_refines_latestMessages (calls : List AttestationCall)
    (hroots : ∀ c ∈ calls, c.blockRoot ≠ zeroHash) : MatchesLatestMessages calls where
  length_gt := length_processAttestations calls
  voteAt_eq := voteAt_processAttestations calls hroots
  fresh_iff n := by
    rw [voteAt_processAttestations calls hroots, voteOf_eq_freshVote_iff (latestMessage_root_ne hroots),
      latestMessage_eq_none_iff]
  first_greatest n hn := by
    rcases hl : latestMessage calls n with _ | ⟨e, r⟩
    · obtain ⟨c, hc, hnc⟩ := hn
      exact absurd hnc ((latestMessage_eq_none_iff calls).mp hl c hc)
    · obtain ⟨pre, c, post, hcalls, hfg, rfl, rfl⟩ := latestMessage_firstGreatest calls e r hl
      rw [voteAt_processAttestations calls hroots, hl]
      exact ⟨pre, c, post, hcalls, hfg, rfl, rfl⟩

/-- Validators 0 and 2 vote, and validator 2 again at a lower and then a higher epoch. -/
def twoValidatorCalls : List AttestationCall := [⟨[0, 2], 1, 5⟩, ⟨[2], 2, 3⟩, ⟨[2], 3, 7⟩]

theorem processAttestations_refines_latestMessages_twoValidatorCalls :
    (∀ c ∈ twoValidatorCalls, c.blockRoot ≠ zeroHash) ∧ MatchesLatestMessages twoValidatorCalls :=
  have hroots : ∀ c ∈ twoValidatorCalls, c.blockRoot ≠ zeroHash := by decide
  ⟨hroots, processAttestations_refines_latestMessages twoValidatorCalls hroots⟩

/-- Validator 0 votes for the zero hash at epoch 5, then for root 1 at epoch 3. -/
def zeroRootCalls : List AttestationCall := [⟨[0], zeroHash, 5⟩, ⟨[0], 1, 3⟩]

/-- The first vote leaves entry 0 looking never used, both roots the zero hash,
so the second vote, of a lower epoch, overwrites it: the table holds epoch 3
and root 1 where the spec keeps epoch 5 and the zero hash. -/
theorem processAttestations_overwrites_zero_root_vote :
    voteAt (processAttestations (zeroRootCalls.take 1)) 0 = ⟨zeroHash, zeroHash, 5⟩ ∧
    voteAt (processAttestations zeroRootCalls) 0 = ⟨zeroHash, 1, 3⟩ ∧
    latestMessage zeroRootCalls 0 = some (5, zeroHash) ∧
    ¬MatchesLatestMessages zeroRootCalls :=
  ⟨by decide, by decide, by decide, fun h => absurd (h.voteAt_eq 0) (by decide)⟩

end Prysm.ForkChoice.Votes
