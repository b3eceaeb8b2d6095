import Prysm.Validator.ProposalHistory

/-!
# The public keys of the proposal history

`ProposedPublicKeys` lists the nested buckets of `newHistoricProposalsBucket` in
bolt's key order. `SaveProposalHistoryForSlot` opens the key's bucket with
`CreateBucketIfNotExists`, and so does `ProposalHistoryForSlot`, inside an update
transaction: reading the history of a key that never proposed creates its bucket.
After any sequence of reads and saves on a new database, `ProposedPublicKeys` lists
every key that was read or saved, once each and in increasing order, whether it
proposed or not; what the buckets hold is what the saves alone left
(`ProposalHistory.runSaves`).
-/

namespace Prysm.Validator.ProposedKeys

open Prysm.Types Prysm.Validator.ProposalHistory

/-- `CreateBucketIfNotExists` on the names of the nested buckets, kept in bolt's byte
order; a 48-byte key read big-endian is in byte order exactly when it is in numeric
order. -/
def createBucketIfNotExists (k : PubKey) : List PubKey → List PubKey
  | [] => [k]
  | b :: bs =>
    if k < b then k :: b :: bs
    else if k = b then b :: bs
    else b :: createBucketIfNotExists k bs

theorem mem_createBucketIfNotExists {k x : PubKey} {l : List PubKey} :
    x ∈ createBucketIfNotExists k l ↔ x = k ∨ x ∈ l := by
  induction l with
  | nil => simp [createBucketIfNotExists]
  | cons b bs ih =>
    simp only [createBucketIfNotExists]
    split_ifs with hlt heq
    · exact List.mem_cons
    · subst heq
      simp
    · rw [List.mem_cons, ih, List.mem_cons, or_left_comm]

theorem pairwise_createBucketIfNotExists (k : PubKey) {l : List PubKey} (hl : l.Pairwise (· < ·)) :
    (createBucketIfNotExists k l).Pairwise (· < ·) := by
  induction l with
  | nil => exact List.pairwise_singleton _ _
  | cons b bs ih =>
    obtain ⟨hb, hbs⟩ := List.pairwise_cons.mp hl
    simp only [createBucketIfNotExists]
    split_ifs with hlt heq
    · refine List.pairwise_cons.mpr ⟨fun x hx => ?_, hl⟩
      rcases List.mem_cons.mp hx with rfl | hx
      · exact hlt
      · have := hb x hx
        bv_omega
    · exact hl
    · refine List.pairwise_cons.mpr ⟨fun x hx => ?_, ih hbs⟩
      rcases mem_createBucketIfNotExists.mp hx with rfl | hx
      · bv_omega
      · exact hb x hx

/-- The validator database with the names of the nested buckets of
`newHistoricProposalsBucket`. -/
structure KeyedProposalDB where
  /-- What the buckets hold. -/
  db : ProposalDB
  /-- The nested buckets' names. -/
  buckets : List PubKey
  /-- Bolt holds each name once, in order. -/
  sorted : buckets.Pairwise (· < ·)

/-- A new database. -/
def emptyKeyedDB : KeyedProposalDB := ⟨emptyDB, [], List.Pairwise.nil⟩

/-- The transaction's `CreateBucketIfNotExists(publicKey)`. -/
def KeyedProposalDB.createBucket (s : KeyedProposalDB) (k : PubKey) : KeyedProposalDB :=
  { s with
    buckets := createBucketIfNotExists k s.buckets
    sorted := pairwise_createBucketIfNotExists k s.sorted }

/-- `ProposalHistoryForSlot`: the answer, and the database with the key's bucket
created. -/
def proposalHistoryForSlotTx (s : KeyedProposalDB) (publicKey : PubKey) (slot : U64) :
    (Bytes × Bool) × KeyedProposalDB :=
  (proposalHistoryForSlot s.db publicKey slot, s.createBucket publicKey)

/-- `SaveProposalHistoryForSlot`, with the key's bucket created. -/
def saveProposalHistoryForSlotTx (cfg : ProposalConfig) (s : KeyedProposalDB) (pubKey : PubKey)
    (slot : U64) (signingRoot : Bytes) : KeyedProposalDB :=
  { s.createBucket pubKey with db := saveProposalHistoryForSlot cfg s.db pubKey slot signingRoot }

/-- `ProposedPublicKeys`: the names of the nested buckets, copied into `[48]byte`. -/
def proposedPublicKeys (s : KeyedProposalDB) : List PubKey := s.buckets

/-- A call on the proposal history. -/
inductive ProposalCall
  /-- `ProposalHistoryForSlot(publicKey, slot)`. -/
  | read (publicKey : PubKey) (slot : U64)
  /-- `SaveProposalHistoryForSlot` with these arguments. -/
  | save (sv : ProposalSave)
  deriving DecidableEq, Repr

/-- The key a call names. -/
def ProposalCall.pubKey : ProposalCall → PubKey
  | .read k _ => k
  | .save sv => sv.pubKey

/-- The save a call makes, if it is one. -/
def ProposalCall.save? : ProposalCall → Option ProposalSave
  | .read _ _ => none
  | .save sv => some sv

/-- The database after one call. -/
def ProposalCall.step (cfg : ProposalConfig) (s : KeyedProposalDB) : ProposalCall → KeyedProposalDB
  | .read k slot => (proposalHistoryForSlotTx s k slot).2
  | .save sv => saveProposalHistoryForSlotTx cfg s sv.pubKey sv.slot sv.signingRoot

/-- The database after a sequence of calls. -/
def runCalls (cfg : ProposalConfig) (s : KeyedProposalDB) (calls : List ProposalCall) : KeyedProposalDB :=
  calls.foldl (ProposalCall.step cfg) s

section Runs

variable (cfg : ProposalConfig)

/-- One call creates the bucket of the key it names, and only that one. -/
theorem mem_buckets_step (s : KeyedProposalDB) (c : ProposalCall) {k : PubKey} :
    k ∈ (c.step cfg s).buckets ↔ k = c.pubKey ∨ k ∈ s.buckets := by
  cases c <;> exact mem_createBucketIfNotExists

theorem mem_buckets_runCalls (calls : List ProposalCall) :
    ∀ s k, k ∈ (runCalls cfg s calls).buckets ↔ k ∈ s.buckets ∨ ∃ c ∈ calls, c.pubKey = k := by
  induction calls with
  | nil => intro s k; simp [runCalls]
  | cons c calls ih =>
    intro s k
    rw [runCalls, List.foldl_cons, ← runCalls, ih, mem_buckets_step]
    simp only [List.mem_cons, exists_eq_or_imp]
    rw [eq_comm (a := k)]
    tauto

/-- The keyed database refines the plain one: what its buckets hold is what the saves
alone leave. -/
theorem db_runCalls (calls : List ProposalCall) :
    ∀ s, (runCalls cfg s calls).db =
      (calls.filterMap ProposalCall.save?).foldl
        (fun db sv => saveProposalHistoryForSlot cfg db sv.pubKey sv.slot sv.signingRoot) s.db := by
  induction calls with
  | nil => intro s; rfl
  | cons c calls ih =>
    intro s
    rw [runCalls, List.foldl_cons, ← runCalls, ih]
    cases c <;> rfl

/-- On a new database, the keyed database's data is `runSaves` of the saves. -/
theorem db_runCalls_empty (calls : List ProposalCall) :
    (runCalls cfg emptyKeyedDB calls).db = runSaves cfg (calls.filterMap ProposalCall.save?) :=
  db_runCalls cfg calls emptyKeyedDB

/-- After any sequence of reads and saves on a new database, `ProposedPublicKeys`
lists, in increasing order and once each, exactly the keys the calls named: a key
whose history was only read is listed as a proposer. -/
theorem proposedPublicKeys_runCalls (calls : List ProposalCall) :
    (proposedPublicKeys (runCalls cfg emptyKeyedDB calls)).Pairwise (· < ·) ∧
      ∀ k, k ∈ proposedPublicKeys (runCalls cfg emptyKeyedDB calls) ↔ ∃ c ∈ calls, c.pubKey = k :=
  ⟨(runCalls cfg emptyKeyedDB calls).sorted, fun k => by
    rw [proposedPublicKeys, mem_buckets_runCalls]
    simp [emptyKeyedDB]⟩

end Runs

end Prysm.Validator.ProposedKeys
