import Prysm.Types

/-!
# Block lookup by block id in the beacon API

`GetBlockRoot` and `blockFromBlockID` of `beaconv1/blocks.go`, with the endpoints
built on the latter, `GetBlock` and `GetBlockHeader`. A block
id is raw bytes: `head`, `finalized`, `genesis`, a 32-byte root, or else a slot in
decimal, read by `strconv.ParseUint(id, 10, 64)`. At a slot with several blocks both
lookups take the first canonical one in the database's order, or else the first.

On a node whose chain service and database agree with each other, `GetBlockRoot`
answers the root of the block `GetBlock` answers, and when one fails the other fails
with the same status code, for every id. The exception is `finalized` when the
finalized block is not in the database: `GetBlockRoot` still answers the checkpoint's
root. A slot written in decimal is read as that slot by both lookups.
-/

namespace Prysm.Rpc.Blocks

open Prysm.Types

/-! ## Decimal slots: `strconv` -/

/-- Why `strconv.ParseUint` refuses a text. -/
inductive NumError
  /-- `strconv.ErrSyntax`. -/
  | errSyntax
  /-- `strconv.ErrRange`. -/
  | errRange
  deriving DecidableEq, Repr

/-- An ASCII decimal digit. -/
def isDigit (c : BitVec 8) : Prop := 48 ≤ c.toNat ∧ c.toNat ≤ 57

instance : DecidablePred isDigit := fun c => inferInstanceAs (Decidable (48 ≤ c.toNat ∧ c.toNat ≤ 57))

/-- The digit loop of `strconv.ParseUint(s, 10, 64)` from the value `n` read so far.
A letter gives a digit of at least 10 and so a syntax error, as every other non-digit
does. `cutoff = maxUint64/10 + 1`; `n *= 10` and `n1 := n + d` are `uint64`
operations, and `n1 < n` is the test for a wrap. -/
def parseUintLoop : ℕ → List (BitVec 8) → Except NumError U64
  | n, [] => .ok (BitVec.ofNat 64 n)
  | n, c :: cs =>
    if ¬isDigit c then .error .errSyntax
    else if n ≥ (2 ^ 64 - 1) / 10 + 1 then .error .errRange
    else
      let m := n * 10 % 2 ^ 64
      let n1 := (m + (c.toNat - 48)) % 2 ^ 64
      if n1 < m ∨ n1 > 2 ^ 64 - 1 then .error .errRange else parseUintLoop n1 cs

/-- `strconv.ParseUint(s, 10, 64)`: the empty text is a syntax error. -/
def parseUint (s : List (BitVec 8)) : Except NumError U64 :=
  if s = [] then .error .errSyntax else parseUintLoop 0 s

/-- `strconv.FormatUint(n, 10)`: the decimal digits of `n`, most significant first. -/
def formatUint (n : ℕ) : List (BitVec 8) :=
  if n < 10 then [BitVec.ofNat 8 (n + 48)]
  else formatUint (n / 10) ++ [BitVec.ofNat 8 (n % 10 + 48)]
termination_by n
decreasing_by omega

/-- One step of reading decimal digits. -/
def digitStep (a : ℕ) (c : BitVec 8) : ℕ := a * 10 + (c.toNat - 48)

/-! ## The endpoints -/

/-- The bytes of an ASCII text, as `string(blockId)` is compared with it. -/
def asciiBytes (s : String) : List (BitVec 8) := s.toList.map fun c => BitVec.ofNat 8 c.toNat

/-- `bytesutil.ToBytes32` of an id of exactly 32 bytes, read as one 256-bit word. -/
def toBytes32 (bs : List (BitVec 8)) : Root :=
  BitVec.ofNat 256 (bs.foldl (fun acc b => acc * 256 + b.toNat) 0)

/-- A gRPC status code of the endpoints. -/
inductive Code
  | internal
  | notFound
  deriving DecidableEq, Repr

/-- A Go error as the endpoints build it. Format arguments other than the wrapped
error (the id, the slot) are not kept. -/
inductive ApiError
  /-- A collaborator's error, by its code. -/
  | collaborator (code : ℕ)
  /-- A `strconv.NumError`. -/
  | parse (e : NumError)
  /-- `errors.New(message)`, or a status with no cause. -/
  | new (message : String)
  /-- `errors.Wrap(cause, message)`, or `Errorf("message: %v", cause)`. -/
  | wrap (message : String) (cause : ApiError)
  /-- A gRPC status. -/
  | status (code : Code) (err : ApiError)
  deriving DecidableEq, Repr

/-- The status code an error carries, if it is a status. -/
def ApiError.code : ApiError → Option Code
  | .status c _ => some c
  | _ => none

/-- What the block endpoints read: the chain service and the beacon database. A
collaborator that can fail answers `Except ℕ`; `none` is a nil answer. -/
structure NodeView where
  /-- `ChainInfoFetcher.HeadRoot`. -/
  headRoot : Except ℕ (Option Root)
  /-- `ChainInfoFetcher.HeadBlock`. -/
  headBlock : Except ℕ (Option SignedBeaconBlock)
  /-- `ChainInfoFetcher.FinalizedCheckpt().Root`. -/
  finalizedRoot : Root
  /-- `BeaconDB.GenesisBlock`. -/
  genesisBlock : Except ℕ (Option SignedBeaconBlock)
  /-- `BeaconDB.Block` by root. -/
  block : Root → Except ℕ (Option SignedBeaconBlock)
  /-- `BeaconDB.Blocks` filtered to one slot: the blocks with their roots, in the
  database's order. -/
  blocks : U64 → Except ℕ (List (SignedBeaconBlock × Root))
  /-- `BeaconDB.BlockRoots` filtered to one slot. -/
  blockRoots : U64 → Except ℕ (List Root)
  /-- `ChainInfoFetcher.IsCanonical`. -/
  isCanonical : Root → Except ℕ Bool
  /-- `HashTreeRoot` of a block. -/
  hashTreeRoot : BeaconBlock → Root
  /-- `HashTreeRoot` of the signed v1 header of a block. -/
  signedHeaderRoot : SignedBeaconBlock → Root

/-- The loop `for _, x := range xs { canonical, err := IsCanonical(key x); ... }` of
both lookups: the first element whose root is canonical, or `none`. -/
def firstCanonical {α : Type} (isCanonical : Root → Except ℕ Bool) (key : α → Root) :
    List α → Except ℕ (Option α)
  | [] => .ok none
  | x :: xs =>
    match isCanonical (key x) with
    | .error e => .error e
    | .ok true => .ok (some x)
    | .ok false => firstCanonical isCanonical key xs

/-- `GetBlockRoot` for a slot: the roots at the slot from `BlockRoots`, then the only
one, or the first canonical one, or the first. -/
def rootAtSlot (v : NodeView) (slot : U64) : Except ApiError Root :=
  match v.blockRoots slot with
  | .error e => .error (.status .internal (.wrap "Could not retrieve blocks for slot" (.collaborator e)))
  | .ok [] => .error (.status .notFound (.new "Could not find any blocks with given slot"))
  | .ok [r] => .ok r
  | .ok (r :: r' :: rs) =>
    match firstCanonical v.isCanonical id (r :: r' :: rs) with
    | .error e =>
      .error (.status .internal (.wrap "Could not determine if block root is canonical" (.collaborator e)))
    | .ok c => .ok (c.getD r)

/-- `GetBlockRoot`. For a 32-byte id it answers the id itself once the database
holds a block under it. -/
def getBlockRoot (v : NodeView) (blockId : List (BitVec 8)) : Except ApiError Root :=
  if blockId = asciiBytes "head" then
    match v.headRoot with
    | .error e => .error (.status .internal (.wrap "Could not retrieve head block" (.collaborator e)))
    | .ok none => .error (.status .notFound (.new "No head root was found"))
    | .ok (some r) => .ok r
  else if blockId = asciiBytes "finalized" then .ok v.finalizedRoot
  else if blockId = asciiBytes "genesis" then
    match v.genesisBlock with
    | .error e =>
      .error (.status .internal (.wrap "Could not retrieve blocks for genesis slot" (.collaborator e)))
    | .ok none => .error (.status .notFound (.new "Could not find genesis block"))
    | .ok (some blk) => .ok (v.hashTreeRoot blk.block)
  else if blockId.length = 32 then
    match v.block (toBytes32 blockId) with
    | .error e =>
      .error (.status .internal (.wrap "Could not retrieve block for block root" (.collaborator e)))
    | .ok none => .error (.status .notFound (.new "Could not find any blocks with given root"))
    | .ok (some _) => .ok (toBytes32 blockId)
  else
    match parseUint blockId with
    | .error e => .error (.status .internal (.wrap "could not decode block id" (.parse e)))
    | .ok slot => rootAtSlot v slot

/-- `blockFromBlockID` for a slot: the blocks at the slot from `Blocks`, then the only
one, or the first whose root is canonical, or the first; `nil` when there is none. -/
def blockAtSlot (v : NodeView) (slot : U64) : Except ApiError (Option SignedBeaconBlock) :=
  match v.blocks slot with
  | .error e => .error (.wrap "could not retrieve blocks for slot" (.collaborator e))
  | .ok [] => .ok none
  | .ok [b] => .ok (some b.1)
  | .ok (b :: b' :: bs) =>
    match firstCanonical v.isCanonical Prod.snd (b :: b' :: bs) with
    | .error e =>
      .error (.status .internal (.wrap "Could not determine if block root is canonical" (.collaborator e)))
    | .ok c => .ok (some (c.getD b).1)

/-- `blockFromBlockID`. -/
def blockFromBlockID (v : NodeView) (blockId : List (BitVec 8)) :
    Except ApiError (Option SignedBeaconBlock) :=
  if blockId = asciiBytes "head" then
    match v.headBlock with
    | .error e => .error (.wrap "could not retrieve head block" (.collaborator e))
    | .ok blk => .ok blk
  else if blockId = asciiBytes "finalized" then
    match v.block v.finalizedRoot with
    | .error _ => .error (.new "could not get finalized block from db")
    | .ok blk => .ok blk
  else if blockId = asciiBytes "genesis" then
    match v.genesisBlock with
    | .error e => .error (.wrap "could not retrieve blocks for genesis slot" (.collaborator e))
    | .ok blk => .ok blk
  else if blockId.length = 32 then
    match v.block (toBytes32 blockId) with
    | .error e => .error (.wrap "could not retrieve block" (.collaborator e))
    | .ok blk => .ok blk
  else
    match parseUint blockId with
    | .error e => .error (.wrap "could not decode block id" (.parse e))
    | .ok slot => blockAtSlot v slot

/-- How `GetBlock`, `GetBlockHeader` and `ListBlockAttestations` answer the lookup's
result: `Internal` on an error, `NotFound` with the endpoint's own text on `nil`. -/
def requestedBlock (notFound : String) (found : Except ApiError (Option SignedBeaconBlock)) :
    Except ApiError SignedBeaconBlock :=
  match found with
  | .error e => .error (.status .internal (.wrap "Could not get block from block ID" e))
  | .ok none => .error (.status .notFound (.new notFound))
  | .ok (some blk) => .ok blk

/-- `GetBlock`: the block (its v1 conversion is not modelled). -/
def getBlock (v : NodeView) (blockId : List (BitVec 8)) : Except ApiError SignedBeaconBlock :=
  requestedBlock "Could not find requested block" (blockFromBlockID v blockId)

/-- `GetBlockHeader`: the block, the root of its signed header, and whether the
block's own root is canonical. -/
def getBlockHeader (v : NodeView) (blockId : List (BitVec 8)) :
    Except ApiError (SignedBeaconBlock × Root × Bool) :=
  match requestedBlock "Could not find requested block header" (blockFromBlockID v blockId) with
  | .error e => .error e
  | .ok blk =>
    match v.isCanonical (v.hashTreeRoot blk.block) with
    | .error e =>
      .error (.status .internal (.wrap "Could not determine if block root is canonical" (.collaborator e)))
    | .ok canonical => .ok (blk, v.signedHeaderRoot blk, canonical)

/-! ## A slot in decimal is read back -/

section Digits

theorem isDigit_ofNat {d : ℕ} (h : d < 10) : isDigit (BitVec.ofNat 8 (d + 48)) := by
  simp only [isDigit, BitVec.toNat_ofNat]
  omega

theorem digitStep_ofNat (a : ℕ) {d : ℕ} (h : d < 10) : digitStep a (BitVec.ofNat 8 (d + 48)) = a * 10 + d := by
  simp only [digitStep, BitVec.toNat_ofNat]
  omega

theorem isDigit_formatUint (n : ℕ) : ∀ c ∈ formatUint n, isDigit c := by
  rw [formatUint]
  split
  · simp only [List.mem_singleton]
    rintro c rfl
    exact isDigit_ofNat (by assumption)
  · intro c hc
    simp only [List.mem_append, List.mem_singleton] at hc
    rcases hc with hc | rfl
    · exact isDigit_formatUint (n / 10) c hc
    · exact isDigit_ofNat (Nat.mod_lt _ (by omega))
termination_by n
decreasing_by omega

theorem formatUint_ne_nil (n : ℕ) : formatUint n ≠ [] := by
  rw [formatUint]
  split <;> simp

theorem foldl_digitStep_formatUint (n : ℕ) : (formatUint n).foldl digitStep 0 = n := by
  rw [formatUint]
  split
  · simp only [List.foldl_cons, List.foldl_nil, digitStep_ofNat 0 (by assumption : n < 10)]
    omega
  · rw [List.foldl_append, foldl_digitStep_formatUint (n / 10), List.foldl_cons, List.foldl_nil,
      digitStep_ofNat _ (Nat.mod_lt _ (by omega))]
    omega
termination_by n
decreasing_by omega

theorem length_formatUint_le (k : ℕ) : ∀ n < 10 ^ (k + 1), (formatUint n).length ≤ k + 1 := by
  induction k with
  | zero => intro n hn; rw [formatUint, if_pos (by simpa using hn)]; simp
  | succ k ih =>
    intro n hn
    rw [formatUint]
    split
    · simp
    · rw [List.length_append, List.length_singleton]
      have := ih (n / 10) (by rw [Nat.pow_succ] at hn; omega)
      omega

/-- Reading digits never lowers the value. -/
theorem le_foldl_digitStep (cs : List (BitVec 8)) : ∀ a, a ≤ cs.foldl digitStep a := by
  induction cs with
  | nil => intro a; exact le_refl a
  | cons c cs ih => intro a; exact le_trans (by unfold digitStep; omega) (ih (digitStep a c))

/-- On digits whose value fits in 64 bits, the loop reads that value. -/
theorem parseUintLoop_of_digits (cs : List (BitVec 8)) (hd : ∀ c ∈ cs, isDigit c) :
    ∀ n, cs.foldl digitStep n < 2 ^ 64 →
      parseUintLoop n cs = .ok (BitVec.ofNat 64 (cs.foldl digitStep n)) := by
  induction cs with
  | nil => intro n _; rfl
  | cons c cs ih =>
    intro n hfit
    have hc := hd c (List.mem_cons_self _ _)
    have hstep : digitStep n c < 2 ^ 64 := lt_of_le_of_lt (le_foldl_digitStep cs _) hfit
    unfold digitStep at hstep
    have hm : n * 10 % 2 ^ 64 = n * 10 := Nat.mod_eq_of_lt (by omega)
    have hn1 : (n * 10 + (c.toNat - 48)) % 2 ^ 64 = n * 10 + (c.toNat - 48) := Nat.mod_eq_of_lt hstep
    rw [parseUintLoop, if_neg (not_not.mpr hc), if_neg (by omega)]
    simp only [hm, hn1]
    rw [if_neg (by omega)]
    exact ih (fun x hx => hd x (List.mem_cons_of_mem _ hx)) _ hfit

/-- `strconv.ParseUint` reads back what `strconv.FormatUint` writes of a slot. -/
theorem parseUint_formatUint (s : U64) : parseUint (formatUint s.toNat) = .ok s := by
  rw [parseUint, if_neg (formatUint_ne_nil _),
    parseUintLoop_of_digits _ (isDigit_formatUint _) 0 (by rw [foldl_digitStep_formatUint]; exact s.isLt),
    foldl_digitStep_formatUint, BitVec.ofNat_toNat, BitVec.setWidth_eq]

/-- A decimal text is none of the words `head`, `finalized`, `genesis`: each has a
letter in it. -/
theorem formatUint_ne_of_mem {l : List (BitVec 8)} {c : BitVec 8} (hc : c ∈ l) (hd : ¬isDigit c)
    (n : ℕ) : formatUint n ≠ l := by
  rintro rfl
  exact hd (isDigit_formatUint n c hc)

/-- The decimal text of a slot has at most 20 bytes, never the 32 of a root. -/
theorem length_formatUint_ne_32 (s : U64) : (formatUint s.toNat).length ≠ 32 := by
  have := length_formatUint_le 19 s.toNat (lt_of_lt_of_le s.isLt (by decide))
  omega

end Digits

/-! ## Which ids are slots -/

/-- A slot written in decimal is read as that slot by both lookups: the text is
none of the words, is shorter than a root, and parses back to the slot. -/
theorem blockId_formatUint_eq_atSlot (v : NodeView) (s : U64) :
    blockFromBlockID v (formatUint s.toNat) = blockAtSlot v s ∧
      getBlockRoot v (formatUint s.toNat) = rootAtSlot v s := by
  have hh := formatUint_ne_of_mem (c := 104) (l := asciiBytes "head") (by decide) (by decide) s.toNat
  have hf := formatUint_ne_of_mem (c := 102) (l := asciiBytes "finalized") (by decide) (by decide) s.toNat
  have hg := formatUint_ne_of_mem (c := 103) (l := asciiBytes "genesis") (by decide) (by decide) s.toNat
  constructor
  · rw [blockFromBlockID, if_neg hh, if_neg hf, if_neg hg, if_neg (length_formatUint_ne_32 s),
      parseUint_formatUint]
  · rw [getBlockRoot, if_neg hh, if_neg hf, if_neg hg, if_neg (length_formatUint_ne_32 s),
      parseUint_formatUint]

/-! ## `GetBlockRoot` agrees with `GetBlock` -/

/-- The chain service and the database agree with each other. -/
structure Consistent (v : NodeView) : Prop where
  /-- The head root is the root of the head block, and the two calls fail together. -/
  headRoot_eq : v.headRoot = v.headBlock.map (Option.map fun b => v.hashTreeRoot b.block)
  /-- The database holds each block under its root. -/
  block_keyed : ∀ r b, v.block r = .ok (some b) → v.hashTreeRoot b.block = r
  /-- `BlockRoots` lists the roots of the blocks `Blocks` lists, in the same order. -/
  blockRoots_eq : ∀ s, v.blockRoots s = (v.blocks s).map (List.map Prod.snd)
  /-- `Blocks` pairs each block with its root. -/
  blocks_keyed : ∀ s l, v.blocks s = .ok l → ∀ p ∈ l, v.hashTreeRoot p.1.block = p.2

/-- Two answers agree: the same root, or errors with the same status code. -/
def Agree : Except ApiError Root → Except ApiError Root → Prop
  | .ok a, .ok b => a = b
  | .error e, .error e' => e.code = e'.code
  | _, _ => False

section Agreement

variable (v : NodeView)

/-- The canonical-block loop over roots is the loop over the blocks, read through
their roots. -/
theorem firstCanonical_map {α : Type} (isCanonical : Root → Except ℕ Bool) (key : α → Root)
    (l : List α) :
    firstCanonical isCanonical id (l.map key) =
      (firstCanonical isCanonical key l).map (Option.map key) := by
  induction l with
  | nil => rfl
  | cons x xs ih =>
    simp only [List.map_cons, firstCanonical, id]
    cases isCanonical (key x) with
    | error e => rfl
    | ok c => cases c; exacts [ih, rfl]

/-- The loop picks an element of the list. -/
theorem firstCanonical_mem {α : Type} {isCanonical : Root → Except ℕ Bool} {key : α → Root}
    {l : List α} {x : α} (h : firstCanonical isCanonical key l = .ok (some x)) : x ∈ l := by
  induction l with
  | nil => cases h
  | cons y ys ih =>
    simp only [firstCanonical] at h
    split at h
    · cases h
    · cases h
      exact List.mem_cons_self _ _
    · exact List.mem_cons_of_mem _ (ih h)

variable {v}

/-- At a slot, the root lookup agrees with the block lookup, whatever `NotFound`
text the block endpoint answers with. -/
theorem rootAtSlot_agrees (hc : Consistent v) (notFound : String) (s : U64) :
    Agree (rootAtSlot v s)
      ((requestedBlock notFound (blockAtSlot v s)).map fun b => v.hashTreeRoot b.block) := by
  unfold rootAtSlot blockAtSlot
  rw [hc.blockRoots_eq s]
  cases h : v.blocks s with
  | error e => rfl
  | ok l =>
    match l, h with
    | [], _ => rfl
    | [b], h => exact (hc.blocks_keyed s _ h b (List.mem_singleton_self _)).symm
    | b :: b' :: bs, h =>
      simp only [Except.map, List.map_cons]
      rw [← List.map_cons, ← List.map_cons, firstCanonical_map]
      cases hf : firstCanonical v.isCanonical Prod.snd (b :: b' :: bs) with
      | error e => rfl
      | ok c =>
        cases c with
        | none => exact (hc.blocks_keyed s _ h b (List.mem_cons_self _ _)).symm
        | some x => exact (hc.blocks_keyed s _ h x (firstCanonical_mem hf)).symm

/-- On a consistent node, for every block id, `GetBlockRoot` answers the root of the
block `GetBlock` answers, or both fail with the same status code; for `finalized`
this needs the finalized block in the database. -/
theorem getBlockRoot_agrees_getBlock (hc : Consistent v) (blockId : List (BitVec 8))
    (hfin : blockId = asciiBytes "finalized" → ∃ b, v.block v.finalizedRoot = .ok (some b)) :
    Agree (getBlockRoot v blockId) ((getBlock v blockId).map fun b => v.hashTreeRoot b.block) := by
  unfold getBlockRoot getBlock blockFromBlockID
  split_ifs with hh hf hg h32
  · rw [hc.headRoot_eq]
    cases v.headBlock with
    | error e => rfl
    | ok o => cases o <;> rfl
  · obtain ⟨b, hb⟩ := hfin hf
    rw [hb]
    exact (hc.block_keyed _ _ hb).symm
  · cases v.genesisBlock with
    | error e => rfl
    | ok o => cases o <;> rfl
  · cases h : v.block (toBytes32 blockId) with
    | error e => rfl
    | ok o =>
      cases o with
      | none => rfl
      | some b => exact (hc.block_keyed _ _ h).symm
  · cases parseUint blockId with
    | error e => rfl
    | ok s => exact rootAtSlot_agrees hc _ s

/-- When the finalized block is not in the database, `GetBlockRoot` answers the
checkpoint's root and `GetBlock` answers `NotFound`. -/
theorem getBlockRoot_finalized_of_missing (h : v.block v.finalizedRoot = .ok none) :
    getBlockRoot v (asciiBytes "finalized") = .ok v.finalizedRoot ∧
      getBlock v (asciiBytes "finalized") =
        .error (.status .notFound (.new "Could not find requested block")) := by
  have hne : asciiBytes "finalized" ≠ asciiBytes "head" := by decide
  simp only [getBlockRoot, getBlock, blockFromBlockID, requestedBlock, hne, h, if_true, if_false]
  exact ⟨trivial, trivial⟩

end Agreement

/-- The genesis block at slot 0. -/
def genesisBlk : SignedBeaconBlock := ⟨⟨0, 0, 0, 0⟩, 0⟩

/-- Its child at slot 1. -/
def childBlk : SignedBeaconBlock := ⟨⟨1, 0, 100, 0⟩, 0⟩

/-- A node two blocks long: the genesis block, finalized, and its child, the head;
a block's root is its slot plus 100. -/
def twoBlockView : NodeView where
  headRoot := .ok (some 101)
  headBlock := .ok (some childBlk)
  finalizedRoot := 100
  genesisBlock := .ok (some genesisBlk)
  block r := if r = 100 then .ok (some genesisBlk) else if r = 101 then .ok (some childBlk) else .ok none
  blocks s := if s = 0 then .ok [(genesisBlk, 100)] else if s = 1 then .ok [(childBlk, 101)] else .ok []
  blockRoots s := if s = 0 then .ok [100] else if s = 1 then .ok [101] else .ok []
  isCanonical _ := .ok true
  hashTreeRoot b := BitVec.ofNat 256 (b.slot.toNat + 100)
  signedHeaderRoot _ := 0

theorem twoBlockView_consistent : Consistent twoBlockView where
  headRoot_eq := rfl
  block_keyed r b h := by
    simp only [twoBlockView] at h
    split_ifs at h with h1 h2 <;> cases h <;> subst_vars <;> rfl
  blockRoots_eq s := by
    simp only [twoBlockView]
    split_ifs <;> rfl
  blocks_keyed s l h p hp := by
    simp only [twoBlockView] at h
    split_ifs at h <;> cases h <;> simp only [List.mem_singleton, List.not_mem_nil] at hp <;>
      subst hp <;> rfl

theorem getBlockRoot_agrees_getBlock_twoBlockView :
    Consistent twoBlockView ∧ (∃ b, twoBlockView.block twoBlockView.finalizedRoot = .ok (some b)) ∧
      Agree (getBlockRoot twoBlockView (asciiBytes "finalized"))
        ((getBlock twoBlockView (asciiBytes "finalized")).map fun b => twoBlockView.hashTreeRoot b.block) :=
  ⟨twoBlockView_consistent, ⟨genesisBlk, rfl⟩,
    getBlockRoot_agrees_getBlock twoBlockView_consistent _ fun _ => ⟨genesisBlk, rfl⟩⟩

end Prysm.Rpc.Blocks
