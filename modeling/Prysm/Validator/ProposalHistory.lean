import Prysm.Types
import Mathlib.Data.List.Basic
import Mathlib.Tactic.Ring

/-!
# The validator's proposal history

`SaveProposalHistoryForSlot`, `pruneProposalHistoryBySlot`,
`ProposalHistoryForSlot`, `LowestSignedProposal` and `HighestSignedProposal` of
the validator's key-value store (`validator/db/kv`, proposal history v2). Each
public key has a bolt bucket keyed by the 8-byte big-endian slot. A save puts
the signing root under its slot, then deletes keys from the front of the
bucket while their epoch plus the weak-subjectivity period is at most the
epoch of the slot just saved.

Bolt's cursor visits keys in byte order, and big-endian keys are in byte order
exactly when their slots are in numeric order (`uint64ToBytesBigEndian_lt_iff`),
so the keys that can be pruned form a prefix of the bucket and the loop that
stops at the first key it keeps deletes all of them. That holds as long as no
epoch plus the period wraps around `uint64` (`EpochsFit`); a period near
`2^64` wraps and deletes the slot just saved.

Bolt's own failures (a full disk, a closed transaction) are not modelled: each
call is one successful transaction.
-/

namespace Prysm.Validator.ProposalHistory

open Prysm.Types

/-- Go's `[]byte`. -/
abbrev Bytes := List (BitVec 8)

section Encoding

/-- The `n` big-endian bytes of `x`, most significant first; bits above
`8 * n` are dropped. -/
def beBytes : ℕ → ℕ → Bytes
  | 0, _ => []
  | n + 1, x => BitVec.ofNat 8 (x / 256 ^ n) :: beBytes n (x % 256 ^ n)

/-- Modelled from the spec: `bytesutil.Uint64ToBytesBigEndian` is not in the
sources; it is `binary.BigEndian.PutUint64` into 8 bytes. -/
def uint64ToBytesBigEndian (x : U64) : Bytes := beBytes 8 x.toNat

/-- Modelled from the spec: `bytesutil.BytesToUint64BigEndian` is not in the
sources; it is 0 below 8 bytes and otherwise `binary.BigEndian.Uint64` of the
first 8. -/
def bytesToUint64BigEndian (bs : Bytes) : U64 :=
  if bs.length < 8 then 0 else BitVec.ofNat 64 ((bs.take 8).foldl (fun acc b => acc * 256 + b.toNat) 0)

@[simp] theorem length_beBytes (n x : ℕ) : (beBytes n x).length = n := by
  induction n generalizing x with
  | zero => rfl
  | succ n ih => simp [beBytes, ih]

@[simp] theorem length_uint64ToBytesBigEndian (x : U64) : (uint64ToBytesBigEndian x).length = 8 :=
  length_beBytes 8 _

theorem foldl_beBytes (n x a : ℕ) :
    (beBytes n x).foldl (fun acc b => acc * 256 + b.toNat) a = a * 256 ^ n + x % 256 ^ n := by
  induction n generalizing x a with
  | zero => simp [beBytes, Nat.mod_one]
  | succ n ih =>
    have hq : x / 256 ^ n % 2 ^ 8 = x / 256 ^ n % 256 := rfl
    rw [beBytes, List.foldl_cons, ih, BitVec.toNat_ofNat, hq, Nat.mod_mod, pow_succ, Nat.mod_mul]
    ring

/-- Decoding the key of a slot gives the slot back. -/
@[simp] theorem bytesToUint64BigEndian_uint64ToBytesBigEndian (x : U64) :
    bytesToUint64BigEndian (uint64ToBytesBigEndian x) = x := by
  have hx : x.toNat < 256 ^ 8 := x.isLt
  rw [bytesToUint64BigEndian, if_neg (by simp), List.take_of_length_le (by simp),
    uint64ToBytesBigEndian, foldl_beBytes, Nat.mod_eq_of_lt hx]
  exact BitVec.eq_of_toNat_eq (by simp)

theorem uint64ToBytesBigEndian_injective : Function.Injective uint64ToBytesBigEndian := fun x y h => by
  rw [← bytesToUint64BigEndian_uint64ToBytesBigEndian x, h, bytesToUint64BigEndian_uint64ToBytesBigEndian]

/-- Modelled from the spec: bolt keeps a bucket's keys in the order of
`bytes.Compare`, byte by byte, a proper prefix first. -/
def bytesLt (a b : Bytes) : Prop := List.lt a b

instance : DecidableRel bytesLt := fun a b => List.hasDecidableLt a b

theorem cons_bytesLt_cons_iff {a b : BitVec 8} {as bs : Bytes} :
    bytesLt (a :: as) (b :: bs) ↔ a < b ∨ a = b ∧ bytesLt as bs := by
  constructor
  · intro h
    cases h with
    | head _ _ h => exact .inl h
    | tail h₁ h₂ h => exact .inr ⟨by bv_omega, h⟩
  · rintro (h | ⟨rfl, h⟩)
    · exact .head _ _ h
    · exact .tail (by bv_omega) (by bv_omega) h

/-- Splitting a number at a place value orders it by the high part, then the low part. -/
theorem lt_iff_div_lt_or_mod_lt (P x y : ℕ) :
    x < y ↔ x / P < y / P ∨ x / P = y / P ∧ x % P < y % P := by
  have hx := Nat.div_add_mod x P
  have hy := Nat.div_add_mod y P
  constructor
  · intro h
    rcases lt_trichotomy (x / P) (y / P) with h₁ | h₁ | h₁
    · exact .inl h₁
    · rw [h₁] at hx
      exact .inr ⟨h₁, by omega⟩
    · exact absurd (Nat.lt_of_div_lt_div h₁) (Nat.lt_asymm h)
  · rintro (h₁ | ⟨h₁, h₂⟩)
    · exact Nat.lt_of_div_lt_div h₁
    · rw [h₁] at hx
      omega

theorem beBytes_lt_iff (n : ℕ) {x y : ℕ} (hx : x < 256 ^ n) (hy : y < 256 ^ n) :
    bytesLt (beBytes n x) (beBytes n y) ↔ x < y := by
  induction n generalizing x y with
  | zero =>
    simp only [beBytes, pow_zero, Nat.lt_one_iff] at hx hy ⊢
    subst hx hy
    exact ⟨(fun h => nomatch h), fun h => absurd h (Nat.lt_irrefl 0)⟩
  | succ n ih =>
    have hP : 0 < 256 ^ n := pow_pos (by norm_num) n
    have hxq : x / 256 ^ n < 256 := Nat.div_lt_of_lt_mul (by rwa [← pow_succ])
    have hyq : y / 256 ^ n < 256 := Nat.div_lt_of_lt_mul (by rwa [← pow_succ])
    have hlt : BitVec.ofNat 8 (x / 256 ^ n) < BitVec.ofNat 8 (y / 256 ^ n) ↔ x / 256 ^ n < y / 256 ^ n := by
      rw [BitVec.lt_def, BitVec.toNat_ofNat, BitVec.toNat_ofNat, Nat.mod_eq_of_lt hxq, Nat.mod_eq_of_lt hyq]
    have heq : BitVec.ofNat 8 (x / 256 ^ n) = BitVec.ofNat 8 (y / 256 ^ n) ↔ x / 256 ^ n = y / 256 ^ n := by
      rw [BitVec.toNat_eq, BitVec.toNat_ofNat, BitVec.toNat_ofNat, Nat.mod_eq_of_lt hxq, Nat.mod_eq_of_lt hyq]
    rw [beBytes, beBytes, cons_bytesLt_cons_iff, hlt, heq, ih (Nat.mod_lt _ hP) (Nat.mod_lt _ hP),
      lt_iff_div_lt_or_mod_lt (256 ^ n) x y]

/-- Bolt orders big-endian slot keys as it orders the slots. -/
@[simp] theorem uint64ToBytesBigEndian_lt_iff (x y : U64) :
    bytesLt (uint64ToBytesBigEndian x) (uint64ToBytesBigEndian y) ↔ x < y := by
  rw [uint64ToBytesBigEndian, uint64ToBytesBigEndian, beBytes_lt_iff 8 x.isLt y.isLt, BitVec.lt_def]

end Encoding

/-- The beacon-chain constants the pruning reads. -/
structure ProposalConfig where
  /-- `params.BeaconConfig().SlotsPerEpoch`. -/
  slotsPerEpoch : U64
  /-- `params.BeaconConfig().WeakSubjectivityPeriod`, in epochs. -/
  weakSubjectivityPeriod : U64
  /-- `helpers.SlotToEpoch` divides by the slots per epoch, and Go panics on a zero
  divisor; every beacon-chain configuration has slots in an epoch. -/
  slotsPerEpoch_ne_zero : slotsPerEpoch ≠ 0

/-- Modelled from the spec: `helpers.SlotToEpoch` is not in the sources; it is
`compute_epoch_at_slot`, the slot divided by the slots per epoch. -/
def slotToEpoch (cfg : ProposalConfig) (slot : U64) : U64 := slot / cfg.slotsPerEpoch

/-- No slot's epoch plus the weak-subjectivity period wraps around `uint64`. -/
def EpochsFit (cfg : ProposalConfig) : Prop :=
  (2 ^ 64 - 1) / cfg.slotsPerEpoch.toNat + cfg.weakSubjectivityPeriod.toNat < 2 ^ 64

instance (cfg : ProposalConfig) : Decidable (EpochsFit cfg) := inferInstanceAs (Decidable (_ < _))

/-- One validator's bucket of `newHistoricProposalsBucket`: its slots with
their signing roots, keys strictly increasing in bolt's byte order, as its
cursor visits them. -/
structure ProposalBucket where
  /-- The key/value pairs, keyed by slot. -/
  entries : List (U64 × Bytes)
  /-- The big-endian keys are strictly increasing. -/
  sorted : (entries.map fun e => uint64ToBytesBigEndian e.1).Pairwise bytesLt

/-- The empty bucket `CreateBucketIfNotExists` makes. -/
def ProposalBucket.empty : ProposalBucket := ⟨[], List.Pairwise.nil⟩

/-- `Get(key)` on the entries: the value stored under the slot. -/
def lookupSlot (slot : U64) : List (U64 × Bytes) → Option Bytes
  | [] => none
  | (k, v) :: rest => if k = slot then some v else lookupSlot slot rest

/-- `Put(key, value)` on the entries: replace the value of the key, or insert
it before the first greater key. -/
def putEntry (key : U64) (value : Bytes) : List (U64 × Bytes) → List (U64 × Bytes)
  | [] => [(key, value)]
  | (k, v) :: rest =>
    if bytesLt (uint64ToBytesBigEndian key) (uint64ToBytesBigEndian k) then (key, value) :: (k, v) :: rest
    else if key = k then (key, value) :: rest
    else (k, v) :: putEntry key value rest

/-- The loop of `pruneProposalHistoryBySlot`: while the first key's epoch plus
the weak-subjectivity period is at most the newest epoch, delete it; stop at
the first key kept. -/
def pruneLoop (cfg : ProposalConfig) (newestSlot : U64) : List (U64 × Bytes) → List (U64 × Bytes)
  | [] => []
  | (k, v) :: rest =>
    let slot := bytesToUint64BigEndian (uint64ToBytesBigEndian k)
    let epoch := slotToEpoch cfg slot
    let newestEpoch := slotToEpoch cfg newestSlot
    if epoch + cfg.weakSubjectivityPeriod ≤ newestEpoch then pruneLoop cfg newestSlot rest
    else (k, v) :: rest

section Bucket

theorem keysSorted_iff (l : List (U64 × Bytes)) :
    (l.map fun e => uint64ToBytesBigEndian e.1).Pairwise bytesLt ↔ l.Pairwise (·.1 < ·.1) := by
  simp only [List.pairwise_map, uint64ToBytesBigEndian_lt_iff]

theorem mem_putEntry {key : U64} {value : Bytes} {l : List (U64 × Bytes)} {y : U64 × Bytes}
    (h : y ∈ putEntry key value l) : y = (key, value) ∨ y ∈ l := by
  induction l with
  | nil => simpa [putEntry] using h
  | cons e rest ih =>
    obtain ⟨k, v⟩ := e
    simp only [putEntry] at h
    split_ifs at h with h₁ h₂
    · simpa using h
    · simp only [List.mem_cons] at h ⊢
      tauto
    · simp only [List.mem_cons] at h ⊢
      rcases h with h | h
      · exact .inr (.inl h)
      · rcases ih h with h | h <;> simp [h]

theorem pairwise_putEntry (key : U64) (value : Bytes) {l : List (U64 × Bytes)}
    (hl : l.Pairwise (·.1 < ·.1)) : (putEntry key value l).Pairwise (·.1 < ·.1) := by
  induction l with
  | nil => simp [putEntry]
  | cons e rest ih =>
    obtain ⟨k, v⟩ := e
    rw [List.pairwise_cons] at hl
    simp only [putEntry, uint64ToBytesBigEndian_lt_iff]
    split_ifs with h₁ h₂
    · refine List.pairwise_cons.mpr ⟨fun y hy => ?_, List.pairwise_cons.mpr hl⟩
      rcases List.mem_cons.mp hy with rfl | hy
      · exact h₁
      · have := hl.1 y hy
        bv_omega
    · subst h₂
      exact List.pairwise_cons.mpr hl
    · refine List.pairwise_cons.mpr ⟨fun y hy => ?_, ih hl.2⟩
      rcases mem_putEntry hy with rfl | hy
      · show k < key
        bv_omega
      · exact hl.1 y hy

theorem lookupSlot_putEntry (key t : U64) (value : Bytes) (l : List (U64 × Bytes)) :
    lookupSlot t (putEntry key value l) = if key = t then some value else lookupSlot t l := by
  induction l with
  | nil => simp [putEntry, lookupSlot]
  | cons e rest ih =>
    obtain ⟨k, v⟩ := e
    simp only [putEntry]
    by_cases h₁ : bytesLt (uint64ToBytesBigEndian key) (uint64ToBytesBigEndian k)
    · rw [if_pos h₁]
      rfl
    · rw [if_neg h₁]
      by_cases h₂ : key = k
      · subst h₂
        simp only [if_true, lookupSlot]
        split_ifs <;> rfl
      · rw [if_neg h₂]
        simp only [lookupSlot, ih]
        by_cases hk : k = t
        · subst hk
          simp [h₂]
        · simp [hk]

theorem lookupSlot_eq_none {t : U64} {l : List (U64 × Bytes)} (h : ∀ y ∈ l, y.1 ≠ t) :
    lookupSlot t l = none := by
  induction l with
  | nil => rfl
  | cons e rest ih =>
    simp only [lookupSlot, List.mem_cons, forall_eq_or_imp] at h ⊢
    rw [if_neg h.1, ih h.2]

/-- The pruning loop deletes exactly the keys that satisfy its test, provided
the test holds of every key below one that satisfies it. -/
theorem lookupSlot_pruneLoop (cfg : ProposalConfig) (newestSlot t : U64) {l : List (U64 × Bytes)}
    (hl : l.Pairwise (·.1 < ·.1))
    (hdown : ∀ a b : U64, a ≤ b →
      slotToEpoch cfg b + cfg.weakSubjectivityPeriod ≤ slotToEpoch cfg newestSlot →
      slotToEpoch cfg a + cfg.weakSubjectivityPeriod ≤ slotToEpoch cfg newestSlot) :
    lookupSlot t (pruneLoop cfg newestSlot l) =
      if slotToEpoch cfg t + cfg.weakSubjectivityPeriod ≤ slotToEpoch cfg newestSlot then none
      else lookupSlot t l := by
  induction l with
  | nil => simp [pruneLoop, lookupSlot]
  | cons e rest ih =>
    obtain ⟨k, v⟩ := e
    rw [List.pairwise_cons] at hl
    simp only [pruneLoop, bytesToUint64BigEndian_uint64ToBytesBigEndian]
    split_ifs with hk ht ht
    · rw [ih hl.2, if_pos ht]
    · rw [ih hl.2, if_neg ht, lookupSlot, if_neg (fun (hkt : k = t) => ht (hkt ▸ hk))]
    · -- every key of the bucket is at least `k`, which is kept, so `t` is not one of them
      refine lookupSlot_eq_none fun y hy hyt => hk (hdown k t ?_ ht)
      rcases List.mem_cons.mp hy with rfl | hy
      · exact BitVec.le_def.mpr (by rw [← hyt])
      · have := hl.1 y hy
        bv_omega
    · rfl

/-- The pruning loop deletes from the front: what it leaves is part of the bucket. -/
theorem pruneLoop_sublist (cfg : ProposalConfig) (newestSlot : U64) (l : List (U64 × Bytes)) :
    List.Sublist (pruneLoop cfg newestSlot l) l := by
  induction l with
  | nil => exact List.Sublist.slnil
  | cons e rest ih =>
    simp only [pruneLoop]
    split
    · exact ih.cons _
    · exact List.Sublist.refl _

end Bucket

/-- `ProposalBucket.Put`, keeping the keys in order. -/
def ProposalBucket.put (b : ProposalBucket) (key : U64) (value : Bytes) : ProposalBucket :=
  ⟨putEntry key value b.entries,
    (keysSorted_iff _).mpr (pairwise_putEntry key value ((keysSorted_iff _).mp b.sorted))⟩

/-- `ProposalBucket.Get`. -/
def ProposalBucket.get (b : ProposalBucket) (key : U64) : Option Bytes := lookupSlot key b.entries

/-- `pruneProposalHistoryBySlot`. The loop deletes from the front, so what is
left is a suffix and stays in order. -/
def pruneProposalHistoryBySlot (cfg : ProposalConfig) (valBucket : ProposalBucket)
    (newestSlot : U64) : ProposalBucket :=
  ⟨pruneLoop cfg newestSlot valBucket.entries,
    valBucket.sorted.sublist (List.Sublist.map _ (pruneLoop_sublist cfg newestSlot valBucket.entries))⟩

/-- The buckets of the proposal history. -/
structure ProposalDB where
  /-- `newHistoricProposalsBucket`, one nested bucket per public key; a key
  without one reads as the empty bucket `CreateBucketIfNotExists` makes. -/
  history : PubKey → ProposalBucket
  /-- `lowestSignedProposalsBucket`: public key to an 8-byte slot. -/
  lowestSigned : PubKey → Option Bytes
  /-- `highestSignedProposalsBucket`: public key to an 8-byte slot. -/
  highestSigned : PubKey → Option Bytes

/-- A new database. -/
def emptyDB : ProposalDB := ⟨fun _ => .empty, fun _ => none, fun _ => none⟩

/-- `SaveProposalHistoryForSlot`: record the lowest and the highest slot,
put the signing root under the slot, and prune the bucket from that slot. -/
def saveProposalHistoryForSlot (cfg : ProposalConfig) (db : ProposalDB) (pubKey : PubKey)
    (slot : U64) (signingRoot : Bytes) : ProposalDB :=
  let lowestSignedProposalBytes := (db.lowestSigned pubKey).getD []
  let lowestSignedProposalSlot : U64 :=
    if lowestSignedProposalBytes.length ≥ 8 then bytesToUint64BigEndian lowestSignedProposalBytes
    else 0
  let lowestSigned := fun k =>
    if k = pubKey ∧ (lowestSignedProposalBytes.length = 0 ∨ slot < lowestSignedProposalSlot) then
      some (uint64ToBytesBigEndian slot)
    else db.lowestSigned k
  let highestSignedProposalBytes := (db.highestSigned pubKey).getD []
  let highestSignedProposalSlot : U64 :=
    if highestSignedProposalBytes.length ≥ 8 then bytesToUint64BigEndian highestSignedProposalBytes
    else 0
  let highestSigned := fun k =>
    if k = pubKey ∧ (highestSignedProposalBytes.length = 0 ∨ slot > highestSignedProposalSlot) then
      some (uint64ToBytesBigEndian slot)
    else db.highestSigned k
  let history := fun k =>
    if k = pubKey then
      pruneProposalHistoryBySlot cfg ((db.history pubKey).put slot signingRoot) slot
    else db.history k
  ⟨history, lowestSigned, highestSigned⟩

/-- `copy(signingRoot[:], signingRootBytes)` into a zero `[32]byte`: the
value truncated or zero-padded to 32 bytes. -/
def copyRoot (bs : Bytes) : Bytes := bs.take 32 ++ List.replicate (32 - bs.length) 0

/-- `ProposalHistoryForSlot`: the signing root stored at the slot, and whether
there is one. A read leaves the database as it was. -/
def proposalHistoryForSlot (db : ProposalDB) (publicKey : PubKey) (slot : U64) : Bytes × Bool :=
  match (db.history publicKey).get slot with
  | none => (List.replicate 32 0, false)
  | some signingRootBytes => (copyRoot signingRootBytes, true)

/-- `LowestSignedProposal`: 0 when there is no 8-byte value. -/
def lowestSignedProposal (db : ProposalDB) (publicKey : PubKey) : U64 :=
  let lowestSignedProposalBytes := (db.lowestSigned publicKey).getD []
  if lowestSignedProposalBytes.length < 8 then 0 else bytesToUint64BigEndian lowestSignedProposalBytes

/-- `HighestSignedProposal`: 0 when there is no 8-byte value. -/
def highestSignedProposal (db : ProposalDB) (publicKey : PubKey) : U64 :=
  let highestSignedProposalBytes := (db.highestSigned publicKey).getD []
  if highestSignedProposalBytes.length < 8 then 0 else bytesToUint64BigEndian highestSignedProposalBytes

/-- The arguments of one `SaveProposalHistoryForSlot` call. -/
structure ProposalSave where
  /-- `pubKey`. -/
  pubKey : PubKey
  /-- `slot`. -/
  slot : U64
  /-- `signingRoot`. -/
  signingRoot : Bytes
  deriving DecidableEq, Repr

/-- The database after a sequence of saves, from a new database. Reads in
between change nothing. -/
def runSaves (cfg : ProposalConfig) (saves : List ProposalSave) : ProposalDB :=
  saves.foldl (fun db sv => saveProposalHistoryForSlot cfg db sv.pubKey sv.slot sv.signingRoot) emptyDB

/-- The save of slot `t` for `pubKey` with root `r` that the history should
still hold: the last save of `t` for the key, and every later save for the
key of an epoch below `t`'s epoch plus the weak-subjectivity period. -/
def SurvivingSave (cfg : ProposalConfig) (pubKey : PubKey) (t : U64) (r : Bytes)
    (saves : List ProposalSave) : Prop :=
  ∃ pre post, saves = pre ++ ⟨pubKey, t, r⟩ :: post ∧
    ∀ sv ∈ post, sv.pubKey = pubKey → sv.slot ≠ t ∧
      (slotToEpoch cfg sv.slot).toNat < (slotToEpoch cfg t).toNat + cfg.weakSubjectivityPeriod.toNat

section Window

variable {cfg : ProposalConfig}

theorem slotToEpoch_toNat (slot : U64) :
    (slotToEpoch cfg slot).toNat = slot.toNat / cfg.slotsPerEpoch.toNat := BitVec.toNat_udiv

/-- Without wrap-around the pruning test is the test on natural numbers. -/
theorem prune_test_iff (hfit : EpochsFit cfg) (slot newestSlot : U64) :
    slotToEpoch cfg slot + cfg.weakSubjectivityPeriod ≤ slotToEpoch cfg newestSlot ↔
      (slotToEpoch cfg slot).toNat + cfg.weakSubjectivityPeriod.toNat ≤
        (slotToEpoch cfg newestSlot).toNat := by
  have hle : (slotToEpoch cfg slot).toNat ≤ (2 ^ 64 - 1) / cfg.slotsPerEpoch.toNat := by
    rw [slotToEpoch_toNat]
    exact Nat.div_le_div_right (by have := slot.isLt; omega)
  rw [BitVec.le_def, BitVec.toNat_add_of_lt (by unfold EpochsFit at hfit; omega)]

theorem prune_test_down (hfit : EpochsFit cfg) (newestSlot : U64) (a b : U64) (hab : a ≤ b)
    (hb : slotToEpoch cfg b + cfg.weakSubjectivityPeriod ≤ slotToEpoch cfg newestSlot) :
    slotToEpoch cfg a + cfg.weakSubjectivityPeriod ≤ slotToEpoch cfg newestSlot := by
  rw [prune_test_iff hfit] at hb ⊢
  have : (slotToEpoch cfg a).toNat ≤ (slotToEpoch cfg b).toNat := by
    rw [slotToEpoch_toNat, slotToEpoch_toNat]
    exact Nat.div_le_div_right (BitVec.le_def.mp hab)
  omega

/-- Step lemma: a save stores its root under its slot, deletes from the key's
history exactly the slots out of the window of the slot saved, and leaves
every other key's history. -/
theorem get_saveProposalHistoryForSlot (hwsp : 1 ≤ cfg.weakSubjectivityPeriod.toNat)
    (hfit : EpochsFit cfg) (db : ProposalDB) (pubKey pk : PubKey) (slot t : U64) (root : Bytes) :
    ((saveProposalHistoryForSlot cfg db pubKey slot root).history pk).get t =
      if pk = pubKey then
        if slot = t then some root
        else if (slotToEpoch cfg t).toNat + cfg.weakSubjectivityPeriod.toNat ≤
            (slotToEpoch cfg slot).toNat then none
        else (db.history pk).get t
      else (db.history pk).get t := by
  simp only [saveProposalHistoryForSlot]
  split
  · subst pk
    have hsorted := pairwise_putEntry slot root ((keysSorted_iff _).mp (db.history pubKey).sorted)
    simp only [ProposalBucket.get, pruneProposalHistoryBySlot, ProposalBucket.put]
    rw [lookupSlot_pruneLoop cfg slot t hsorted (prune_test_down hfit slot), lookupSlot_putEntry]
    simp only [prune_test_iff hfit]
    split_ifs with h₁ h₂ <;> first | rfl | (subst h₂; omega)
  · rfl

end Window

section Run

variable {cfg : ProposalConfig} {pubKey : PubKey} {t : U64} {r : Bytes}

theorem runSaves_append_singleton (saves : List ProposalSave) (sv : ProposalSave) :
    runSaves cfg (saves ++ [sv]) =
      saveProposalHistoryForSlot cfg (runSaves cfg saves) sv.pubKey sv.slot sv.signingRoot := by
  simp [runSaves, List.foldl_append]

/-- A save that survives the saves and one more: the new one, or an older one
the new one neither overwrites nor pushes out of the window. -/
theorem survivingSave_append_singleton (saves : List ProposalSave) (sv : ProposalSave) :
    SurvivingSave cfg pubKey t r (saves ++ [sv]) ↔
      sv = ⟨pubKey, t, r⟩ ∨
      ((sv.pubKey = pubKey → sv.slot ≠ t ∧
        (slotToEpoch cfg sv.slot).toNat < (slotToEpoch cfg t).toNat + cfg.weakSubjectivityPeriod.toNat) ∧
        SurvivingSave cfg pubKey t r saves) := by
  constructor
  · rintro ⟨pre, post, hs, hpost⟩
    rcases List.eq_nil_or_concat post with rfl | ⟨post', last, rfl⟩
    · have := (List.append_inj' hs rfl).2
      exact .inl (List.singleton_inj.mp this)
    · rw [List.concat_eq_append, ← List.cons_append, ← List.append_assoc] at hs
      rw [List.concat_eq_append] at hpost
      obtain ⟨hpre, hl⟩ := List.append_inj' hs rfl
      obtain rfl := List.singleton_inj.mp hl
      exact .inr ⟨hpost sv (by simp), pre, post', hpre, fun s hs' => hpost s (by simp [hs'])⟩
  · rintro (rfl | ⟨hsv, pre, post, rfl, hpost⟩)
    · exact ⟨saves, [], rfl, by simp⟩
    · refine ⟨pre, post ++ [sv], by simp, fun s hs' => ?_⟩
      rcases List.mem_append.mp hs' with hs' | hs'
      · exact hpost s hs'
      · exact List.mem_singleton.mp hs' ▸ hsv

/-- Run lemma: the history of a key holds `r` at `t` exactly when a save of
`t` with `r` survives. -/
theorem get_runSaves (hwsp : 1 ≤ cfg.weakSubjectivityPeriod.toNat) (hfit : EpochsFit cfg)
    (saves : List ProposalSave) :
    ((runSaves cfg saves).history pubKey).get t = some r ↔ SurvivingSave cfg pubKey t r saves := by
  induction saves using List.reverseRecOn with
  | nil =>
    simp only [runSaves, List.foldl_nil, emptyDB, ProposalBucket.get, ProposalBucket.empty, lookupSlot,
      reduceCtorEq, false_iff]
    rintro ⟨pre, post, h, -⟩
    simp at h
  | append_singleton saves sv ih =>
    obtain ⟨pk, s, root⟩ := sv
    rw [runSaves_append_singleton, get_saveProposalHistoryForSlot hwsp hfit,
      survivingSave_append_singleton, ← ih]
    simp only [ProposalSave.mk.injEq]
    by_cases hpk : pubKey = pk
    · subst hpk
      by_cases hs : s = t
      · subst hs
        simp [eq_comm]
      · by_cases hw : (slotToEpoch cfg t).toNat + cfg.weakSubjectivityPeriod.toNat ≤
            (slotToEpoch cfg s).toNat
        · simp [hs, hw]
        · simp [hs, hw, Nat.lt_of_not_le hw]
    · simp [hpk, Ne.symm hpk]

end Run

/-- For every configuration whose epochs plus the weak-subjectivity period
fit in `uint64`, with a period of at least one epoch, and every sequence of
saves for any keys: `ProposalHistoryForSlot(pubKey, t)` reports the root of a
surviving save of `t`, truncated or zero-padded to 32 bytes, and otherwise no
proposal. -/
theorem proposalHistoryForSlot_runSaves (cfg : ProposalConfig)
    (hwsp : 1 ≤ cfg.weakSubjectivityPeriod.toNat) (hfit : EpochsFit cfg)
    (saves : List ProposalSave) (pubKey : PubKey) (t : U64) :
    (∀ r, SurvivingSave cfg pubKey t r saves →
      proposalHistoryForSlot (runSaves cfg saves) pubKey t = (copyRoot r, true)) ∧
    ((¬∃ r, SurvivingSave cfg pubKey t r saves) →
      proposalHistoryForSlot (runSaves cfg saves) pubKey t = (List.replicate 32 0, false)) := by
  constructor
  · intro r hr
    simp only [proposalHistoryForSlot, (get_runSaves hwsp hfit saves).mpr hr]
  · intro hnone
    cases hget : ((runSaves cfg saves).history pubKey).get t with
    | none => simp only [proposalHistoryForSlot, hget]
    | some r => exact absurd ⟨r, (get_runSaves hwsp hfit saves).mp hget⟩ hnone

/-- Mainnet's 32 slots per epoch and 54000-epoch weak-subjectivity period. -/
def mainnetConfig : ProposalConfig := ⟨32, 54000, by decide⟩

theorem proposalHistoryForSlot_runSaves_mainnet :
    1 ≤ mainnetConfig.weakSubjectivityPeriod.toNat ∧ EpochsFit mainnetConfig ∧
      ((∀ r, SurvivingSave mainnetConfig 0 5 r [⟨0, 5, [1]⟩] →
        proposalHistoryForSlot (runSaves mainnetConfig [⟨0, 5, [1]⟩]) 0 5 = (copyRoot r, true)) ∧
      ((¬∃ r, SurvivingSave mainnetConfig 0 5 r [⟨0, 5, [1]⟩]) →
        proposalHistoryForSlot (runSaves mainnetConfig [⟨0, 5, [1]⟩]) 0 5 = (List.replicate 32 0, false))) :=
  have hwsp : 1 ≤ mainnetConfig.weakSubjectivityPeriod.toNat := by decide
  have hfit : EpochsFit mainnetConfig := by decide
  ⟨hwsp, hfit, proposalHistoryForSlot_runSaves mainnetConfig hwsp hfit [⟨0, 5, [1]⟩] 0 5⟩

/-- A weak-subjectivity period of `2^64 - 1` epochs. -/
def wrappingConfig : ProposalConfig := ⟨32, 18446744073709551615, by decide⟩

/-- With a period of `2^64 - 1`, the save of slot 32 (epoch 1) survives by the
law, but epoch 1 plus the period wraps to 0, at most the newest epoch 1, so
the save prunes its own slot and the read finds nothing. -/
theorem proposalHistoryForSlot_wraps_own_slot :
    1 ≤ wrappingConfig.weakSubjectivityPeriod.toNat ∧
      SurvivingSave wrappingConfig (BitVec.zero 384) 32 [1] [⟨BitVec.zero 384, 32, [1]⟩] ∧
      proposalHistoryForSlot (runSaves wrappingConfig [⟨BitVec.zero 384, 32, [1]⟩]) (BitVec.zero 384) 32 =
        (List.replicate 32 0, false) :=
  ⟨by decide, ⟨[], [], rfl, by simp⟩, rfl⟩

/-! ## The lowest and the highest signed slot -/

/-- `x` is the slot saved for `pubKey` that comes first in the order `before`:
one of the slots saved for the key, with `before x s` for every one of them. -/
structure ExtremeSaved (before : U64 → U64 → Prop) (pubKey : PubKey) (saves : List ProposalSave)
    (x : U64) : Prop where
  /-- `x` was saved for the key. -/
  mem : ∃ sv ∈ saves, sv.pubKey = pubKey ∧ sv.slot = x
  /-- It comes before every slot saved for the key. -/
  before_all : ∀ sv ∈ saves, sv.pubKey = pubKey → before x sv.slot

/-- What a signed-proposal bucket holds for a key after the saves: nothing when
no save was for the key, and otherwise the key of the extreme saved slot. -/
def HoldsExtreme (before : U64 → U64 → Prop) (v : Option Bytes) (pubKey : PubKey)
    (saves : List ProposalSave) : Prop :=
  (v = none ∧ ∀ sv ∈ saves, sv.pubKey ≠ pubKey) ∨
    ∃ x, v = some (uint64ToBytesBigEndian x) ∧ ExtremeSaved before pubKey saves x

section SignedSlots

variable {cfg : ProposalConfig} {db : ProposalDB} {pubKey pk : PubKey} {slot x : U64} {root : Bytes}
  {before : U64 → U64 → Prop}

/-- The first save for a key stores its slot in `lowestSignedProposalsBucket`. -/
theorem lowestSigned_save_of_none (h : db.lowestSigned pubKey = none) :
    (saveProposalHistoryForSlot cfg db pubKey slot root).lowestSigned pk =
      if pk = pubKey then some (uint64ToBytesBigEndian slot) else db.lowestSigned pk := by
  simp [saveProposalHistoryForSlot, h]

/-- A later save stores its slot there when it is lower than the one stored. -/
theorem lowestSigned_save_of_some (h : db.lowestSigned pubKey = some (uint64ToBytesBigEndian x)) :
    (saveProposalHistoryForSlot cfg db pubKey slot root).lowestSigned pk =
      if pk = pubKey ∧ ¬x ≤ slot then some (uint64ToBytesBigEndian slot) else db.lowestSigned pk := by
  simp [saveProposalHistoryForSlot, h, BitVec.not_le]

/-- The first save for a key stores its slot in `highestSignedProposalsBucket`. -/
theorem highestSigned_save_of_none (h : db.highestSigned pubKey = none) :
    (saveProposalHistoryForSlot cfg db pubKey slot root).highestSigned pk =
      if pk = pubKey then some (uint64ToBytesBigEndian slot) else db.highestSigned pk := by
  simp [saveProposalHistoryForSlot, h]

/-- A later save stores its slot there when it is higher than the one stored:
the comparison is the other way round. -/
theorem highestSigned_save_of_some (h : db.highestSigned pubKey = some (uint64ToBytesBigEndian x)) :
    (saveProposalHistoryForSlot cfg db pubKey slot root).highestSigned pk =
      if pk = pubKey ∧ ¬slot ≤ x then some (uint64ToBytesBigEndian slot) else db.highestSigned pk := by
  simp [saveProposalHistoryForSlot, h, BitVec.not_le]

theorem ExtremeSaved.append_singleton {saves : List ProposalSave}
    (h : ExtremeSaved before pk saves x) (sv : ProposalSave)
    (hsv : sv.pubKey = pk → before x sv.slot) : ExtremeSaved before pk (saves ++ [sv]) x := by
  obtain ⟨sv₀, hsv₀, hk, hx⟩ := h.mem
  refine ⟨⟨sv₀, List.mem_append_left _ hsv₀, hk, hx⟩, fun sv' hsv' hk' => ?_⟩
  rcases List.mem_append.mp hsv' with hsv' | hsv'
  · exact h.before_all sv' hsv' hk'
  · rw [List.mem_singleton.mp hsv'] at hk' ⊢
    exact hsv hk'

/-- A save for another key changes nothing of what a key's value stands for. -/
theorem HoldsExtreme.append_other {v : Option Bytes} {saves : List ProposalSave}
    (h : HoldsExtreme before v pk saves) (sv : ProposalSave) (hk : sv.pubKey ≠ pk) :
    HoldsExtreme before v pk (saves ++ [sv]) := by
  rcases h with ⟨hn, hall⟩ | ⟨x, hv, hx⟩
  · refine .inl ⟨hn, fun sv' hsv' => ?_⟩
    rcases List.mem_append.mp hsv' with hsv' | hsv'
    · exact hall sv' hsv'
    · exact List.mem_singleton.mp hsv' ▸ hk
  · exact .inr ⟨x, hv, hx.append_singleton sv fun h => absurd h hk⟩

/-- The slot just saved comes first when it comes before every earlier one. -/
theorem extremeSaved_append_new (hrefl : ∀ a, before a a) {saves : List ProposalSave}
    (hprev : ∀ sv ∈ saves, sv.pubKey = pk → before slot sv.slot) :
    ExtremeSaved before pk (saves ++ [⟨pk, slot, root⟩]) slot := by
  refine ⟨⟨_, List.mem_append_right _ (List.mem_singleton_self _), rfl, rfl⟩, fun sv hsv hk => ?_⟩
  rcases List.mem_append.mp hsv with hsv | hsv
  · exact hprev sv hsv hk
  · rw [List.mem_singleton.mp hsv]
    exact hrefl slot

/-- Run lemma, for either bucket: from a new database, each key's value is
nothing or the key of the slot that comes first among those saved for it. -/
theorem holdsExtreme_runSaves [DecidableRel before] (hrefl : ∀ a, before a a)
    (htrans : ∀ a b c, before a b → before b c → before a c)
    (htotal : ∀ a b, ¬before a b → before b a) (bucket : ProposalDB → PubKey → Option Bytes)
    (hempty : ∀ pk, bucket emptyDB pk = none)
    (hnone : ∀ db pubKey pk slot root, bucket db pubKey = none →
      bucket (saveProposalHistoryForSlot cfg db pubKey slot root) pk =
        if pk = pubKey then some (uint64ToBytesBigEndian slot) else bucket db pk)
    (hsome : ∀ db pubKey pk slot root x, bucket db pubKey = some (uint64ToBytesBigEndian x) →
      bucket (saveProposalHistoryForSlot cfg db pubKey slot root) pk =
        if pk = pubKey ∧ ¬before x slot then some (uint64ToBytesBigEndian slot) else bucket db pk)
    (saves : List ProposalSave) :
    ∀ pk, HoldsExtreme before (bucket (runSaves cfg saves) pk) pk saves := by
  induction saves using List.reverseRecOn with
  | nil => exact fun pk => .inl ⟨hempty pk, by simp⟩
  | append_singleton saves sv ih =>
    intro pk
    obtain ⟨pubKey, slot, root⟩ := sv
    rw [runSaves_append_singleton]
    rcases ih pubKey with ⟨hn, hall⟩ | ⟨x, hx, hex⟩
    · -- the first save for its key
      rw [hnone _ _ _ _ _ hn]
      split_ifs with hk
      · subst hk
        exact .inr ⟨slot, rfl, extremeSaved_append_new hrefl fun sv hsv hk => absurd hk (hall sv hsv)⟩
      · exact (ih pk).append_other _ (Ne.symm hk)
    · rw [hsome _ _ _ _ _ _ hx]
      split_ifs with hup
      · -- the saved slot comes first now
        obtain ⟨rfl, hb⟩ := hup
        exact .inr ⟨slot, rfl, extremeSaved_append_new hrefl fun sv hsv hk =>
          htrans _ _ _ (htotal _ _ hb) (hex.before_all sv hsv hk)⟩
      · by_cases hk : pk = pubKey
        · -- the stored slot still comes first
          subst hk
          exact .inr ⟨x, hx, hex.append_singleton _ fun _ => by_contra fun hb => hup ⟨rfl, hb⟩⟩
        · exact (ih pk).append_other _ (Ne.symm hk)

/-- What `LowestSignedProposal` and `HighestSignedProposal` decode from a
bucket's value: 0 when no save was for the key, and the extreme saved slot
otherwise. -/
theorem HoldsExtreme.decode {v : Option Bytes} {saves : List ProposalSave}
    (h : HoldsExtreme before v pk saves) :
    let read := if (v.getD []).length < 8 then 0 else bytesToUint64BigEndian (v.getD [])
    ((∀ sv ∈ saves, sv.pubKey ≠ pk) → read = 0) ∧
      ((∃ sv ∈ saves, sv.pubKey = pk) → ExtremeSaved before pk saves read) := by
  rcases h with ⟨rfl, hall⟩ | ⟨x, rfl, hx⟩
  · exact ⟨fun _ => rfl, fun ⟨sv, hsv, hk⟩ => absurd hk (hall sv hsv)⟩
  · obtain ⟨sv, hsv, hk, -⟩ := hx.mem
    simp only [Option.getD_some, length_uint64ToBytesBigEndian, bytesToUint64BigEndian_uint64ToBytesBigEndian]
    exact ⟨fun hall => absurd hk (hall sv hsv), fun _ => hx⟩

end SignedSlots

/-- For every key and every sequence of saves for any keys, from a new
database: with no save for the key both reads give 0; otherwise
`LowestSignedProposal` is the least and `HighestSignedProposal` the greatest
slot ever saved for it, whatever pruning removed since. -/
theorem lowest_highest_signedProposal_runSaves (cfg : ProposalConfig) (saves : List ProposalSave)
    (pubKey : PubKey) :
    ((∀ sv ∈ saves, sv.pubKey ≠ pubKey) →
      lowestSignedProposal (runSaves cfg saves) pubKey = 0 ∧
        highestSignedProposal (runSaves cfg saves) pubKey = 0) ∧
    ((∃ sv ∈ saves, sv.pubKey = pubKey) →
      ExtremeSaved (· ≤ ·) pubKey saves (lowestSignedProposal (runSaves cfg saves) pubKey) ∧
        ExtremeSaved (fun a b => b ≤ a) pubKey saves (highestSignedProposal (runSaves cfg saves) pubKey)) := by
  have hlow := @holdsExtreme_runSaves cfg (· ≤ ·) _ (fun a => BitVec.le_refl a)
    (fun _ _ _ => BitVec.le_trans) (fun _ _ h => by bv_omega) (fun db => db.lowestSigned)
    (fun _ => rfl) (fun _ _ _ _ _ h => lowestSigned_save_of_none h)
    (fun _ _ _ _ _ _ h => lowestSigned_save_of_some h) saves pubKey
  have hhigh := @holdsExtreme_runSaves cfg (fun a b => b ≤ a) _ (fun a => BitVec.le_refl a)
    (fun _ _ _ h₁ h₂ => BitVec.le_trans h₂ h₁) (fun _ _ h => by bv_omega) (fun db => db.highestSigned)
    (fun _ => rfl) (fun _ _ _ _ _ h => highestSigned_save_of_none h)
    (fun _ _ _ _ _ _ h => highestSigned_save_of_some h) saves pubKey
  exact ⟨fun h => ⟨hlow.decode.1 h, hhigh.decode.1 h⟩, fun h => ⟨hlow.decode.2 h, hhigh.decode.2 h⟩⟩

end Prysm.Validator.ProposalHistory
