import Mathlib.Data.Nat.Notation
import Mathlib.Algebra.Order.Ring.Nat

/-!
# Beacon-chain values read by the sync, fork-choice and validator code

Go's `uint64` is `BitVec 64`, so every addition, subtraction and product
wraps as it does in the source. A 32-byte root is `BitVec 256` and a 48-byte
public key `BitVec 384`; byte order is big-endian, as `bytes.Compare` orders
them. Blocks keep only the fields the modelled functions read. Hashing is a
collaborator: the hash-tree root of a block is a parameter of the results.
-/

namespace Prysm.Types

/-- Go's `uint64`: slots, epochs, steps, counts and validator indices. -/
abbrev U64 := BitVec 64

/-- A 32-byte block or signing root. -/
abbrev Root := BitVec 256

/-- A 48-byte BLS public key. -/
abbrev PubKey := BitVec 384

/-- `params.BeaconConfig().ZeroHash`, the all-zero root. -/
def zeroHash : Root := 0

/-- The fields of `ethpb.BeaconBlock` that the modelled code reads. -/
structure BeaconBlock where
  /-- `Slot`, the block's time index. -/
  slot : U64
  /-- `ProposerIndex`, the validator that proposed the block. -/
  proposerIndex : U64
  /-- `ParentRoot`, read through `bytesutil.ToBytes32`. -/
  parentRoot : Root
  /-- Everything else the hash-tree root covers (state root and body). -/
  body : ℕ
  deriving DecidableEq, Repr

/-- `ethpb.SignedBeaconBlock` with a non-nil `Block`. -/
structure SignedBeaconBlock where
  /-- `Block`, the message the signature covers. -/
  block : BeaconBlock
  /-- `Signature`, read only by the signature check of the chain service. -/
  signature : ℕ
  deriving DecidableEq, Repr

/-- A signed block's slot, the field the range server and client compare. -/
def SignedBeaconBlock.slot (b : SignedBeaconBlock) : U64 := b.block.slot

@[simp] theorem SignedBeaconBlock.slot_mk (blk : BeaconBlock) (sig : ℕ) :
    (SignedBeaconBlock.mk blk sig).slot = blk.slot := rfl

end Prysm.Types
