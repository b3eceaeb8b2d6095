import Prysm.Types
import Mathlib.Data.List.Basic

/-!
# Ancestors in the proto-array node list

`ForkChoice.AncestorRoot` of `forkchoice/protoarray/store.go`: from the node of
a block root, follow parent indices while the node's slot is above the query
slot, and return the root of the node reached. Each index is checked against
the length of the node list before it is read, and the context before each
step.

The loop has no bound of its own. When every parent is `NonExistentNode` or an
earlier index, the indices it visits fall, so it ends within as many steps as
there are nodes (`ancestorLoop_eq_getAncestor`), and it returns what the
fork-choice spec's recursive `get_ancestor` returns (`getAncestor`). The slots
along the chain need not fall for that.
-/

namespace Prysm.ForkChoice.Nodes

open Prysm.Types

/-- Modelled from the spec: `NonExistentNode` is not in the sources; it is
`^uint64(0)`, the parent index of a node without a parent. -/
def nonExistentNode : U64 := BitVec.allOnes 64

/-- The fields of a proto-array `Node` that `AncestorRoot` reads. -/
structure Node where
  /-- `slot`. -/
  slot : U64
  /-- `root`, the node's block root. -/
  root : Root
  /-- `parent`, the index of the parent node. -/
  parent : U64
  deriving DecidableEq, Repr

/-- The part of the proto-array `Store` that `AncestorRoot` reads. -/
structure Store where
  /-- `nodes`. -/
  nodes : List Node
  /-- `nodesIndices`, the index of each block root's node. -/
  nodesIndices : Root → Option U64
  /-- A Go slice's length is an `int`. -/
  nodes_length_lt : nodes.length < 2 ^ 63

/-- `ctx.Err()` of a done context. -/
inductive ContextError
  /-- `context.Canceled`. -/
  | canceled
  /-- `context.DeadlineExceeded`. -/
  | deadlineExceeded
  deriving DecidableEq, Repr

/-- The errors of `AncestorRoot`. -/
inductive AncestorError
  /-- "node does not exist": the root has no index. -/
  | nodeDoesNotExist
  /-- "node index out of range". -/
  | indexOutOfRange
  /-- The context's error. -/
  | context (e : ContextError)
  deriving DecidableEq, Repr

/-- The check `i >= uint64(len(f.store.nodes))` fails exactly for the indices
in the list: the length does not wrap around. -/
theorem Store.ge_length_iff (s : Store) {i : U64} :
    i ≥ BitVec.ofNat 64 s.nodes.length ↔ ¬i.toNat < s.nodes.length := by
  have hlen := s.nodes_length_lt
  rw [ge_iff_le, BitVec.le_def, BitVec.toNat_ofNat, Nat.mod_eq_of_lt (by omega)]
  omega

theorem Store.toNat_lt_of_not_ge (s : Store) {i : U64}
    (h : ¬i ≥ BitVec.ofNat 64 s.nodes.length) : i.toNat < s.nodes.length := by
  rwa [s.ge_length_iff, not_not] at h

/-- The loop of `AncestorRoot` at index `i` after `n` steps, checking `i`
first: `none` when the fuel runs out before it returns. `ctxErr n` is what
`ctx.Err()` answers at step `n`. -/
def ancestorLoop (s : Store) (ctxErr : ℕ → Option ContextError) (slot : U64) :
    ℕ → ℕ → U64 → Option (Except AncestorError Root)
  | 0, _, _ => none
  | fuel + 1, n, i =>
    if h : i ≥ BitVec.ofNat 64 s.nodes.length then some (.error .indexOutOfRange)
    else
      let node := s.nodes.get ⟨i.toNat, s.toNat_lt_of_not_ge h⟩
      if node.slot > slot then
        match ctxErr n with
        | some e => some (.error (.context e))
        | none => ancestorLoop s ctxErr slot fuel (n + 1) node.parent
      else some (.ok node.root)

/-- `ForkChoice.AncestorRoot`, given fuel for its loop. -/
def ancestorRoot (s : Store) (ctxErr : ℕ → Option ContextError) (fuel : ℕ) (root : Root)
    (slot : U64) : Option (Except AncestorError Root) :=
  match s.nodesIndices root with
  | none => some (.error .nodeDoesNotExist)
  | some i => ancestorLoop s ctxErr slot fuel 0 i

/-- Every node's parent is `NonExistentNode` or an earlier index. -/
def ParentsBelow (s : Store) : Prop :=
  ∀ j (h : j < s.nodes.length), s.nodes[j].parent = nonExistentNode ∨ s.nodes[j].parent.toNat < j

instance (s : Store) : Decidable (ParentsBelow s) :=
  inferInstanceAs (Decidable (∀ j (_h : j < s.nodes.length), _))

/-- One more than the index, for an index in the list; 0 past its end. -/
def ancestorMeasure (s : Store) (i : U64) : ℕ := if i.toNat < s.nodes.length then i.toNat + 1 else 0

/-- Going to the parent lowers the measure. -/
theorem ancestorMeasure_parent_lt {s : Store} (hp : ParentsBelow s) {i : U64}
    (h : i.toNat < s.nodes.length) :
    ancestorMeasure s s.nodes[i.toNat].parent < ancestorMeasure s i := by
  have hlen := s.nodes_length_lt
  unfold ancestorMeasure
  rw [if_pos h]
  rcases hp _ h with hn | hlt
  · have : ¬s.nodes[i.toNat].parent.toNat < s.nodes.length := by
      rw [hn, nonExistentNode, BitVec.toNat_allOnes]; omega
    rw [if_neg this]
    omega
  · split <;> omega

/-- The fork-choice spec's `get_ancestor` on the node list: the node's own
root when its slot is at most `slot`, and otherwise the ancestor of its
parent; an index past the list has no node. -/
def getAncestor (s : Store) (hp : ParentsBelow s) (slot : U64) (i : U64) : Except AncestorError Root :=
  if h : i.toNat < s.nodes.length then
    let node := s.nodes.get ⟨i.toNat, h⟩
    if slot < node.slot then getAncestor s hp slot node.parent
    else .ok node.root
  else .error .indexOutOfRange
termination_by ancestorMeasure s i
decreasing_by exact ancestorMeasure_parent_lt hp h

section Loop

variable {s : Store} (hp : ParentsBelow s) {ctxErr : ℕ → Option ContextError}

/-- With a live context, the loop returns what `get_ancestor` returns, given
more fuel than the measure of its index. -/
theorem ancestorLoop_eq_getAncestor (hlive : ∀ n, ctxErr n = none) (slot : U64) (fuel : ℕ) :
    ∀ n i, ancestorMeasure s i < fuel → ancestorLoop s ctxErr slot fuel n i = some (getAncestor s hp slot i) := by
  induction fuel with
  | zero => intro n i h; omega
  | succ fuel ih =>
    intro n i hm
    rw [ancestorLoop, getAncestor]
    by_cases h : i.toNat < s.nodes.length
    · have hge : ¬i ≥ BitVec.ofNat 64 s.nodes.length := by rwa [s.ge_length_iff, not_not]
      simp only [dif_neg hge, dif_pos h, gt_iff_lt, List.get_eq_getElem]
      split
      · rw [hlive n]
        have := ancestorMeasure_parent_lt hp h
        exact ih (n + 1) _ (by omega)
      · rfl
    · have hge : i ≥ BitVec.ofNat 64 s.nodes.length := s.ge_length_iff.mpr h
      simp only [dif_pos hge, dif_neg h]

end Loop

/-- Take a node list whose every parent is `NonExistentNode` or an earlier
index, a root with an index, any slot, and a live context. `AncestorRoot`
ends within one step more than there are nodes, and returns what the spec's
recursive `get_ancestor` returns from that index: the root of the first node
at or below the slot on the parent chain, or "node index out of range" when
the chain leaves the list first. -/
theorem ancestorRoot_eq_getAncestor (s : Store) (hp : ParentsBelow s)
    (ctxErr : ℕ → Option ContextError) (hlive : ∀ n, ctxErr n = none) (root : Root) (i : U64)
    (hi : s.nodesIndices root = some i) (slot : U64) (fuel : ℕ) (hfuel : s.nodes.length < fuel) :
    ancestorRoot s ctxErr fuel root slot = some (getAncestor s hp slot i) := by
  have hm : ancestorMeasure s i ≤ s.nodes.length := by
    unfold ancestorMeasure; split <;> omega
  rw [ancestorRoot, hi]
  exact ancestorLoop_eq_getAncestor hp hlive slot fuel 0 i (by omega)

/-- Three blocks, at slots 0, 3 and 5, each the parent of the next. -/
def chainStore : Store where
  nodes := [⟨0, 10, nonExistentNode⟩, ⟨3, 11, 0⟩, ⟨5, 12, 1⟩]
  nodesIndices r := if r = 10 then some 0 else if r = 11 then some 1 else if r = 12 then some 2 else none
  nodes_length_lt := by decide

theorem ancestorRoot_eq_getAncestor_chainStore :
    ParentsBelow chainStore ∧ (∀ n : ℕ, (fun _ => none : ℕ → Option ContextError) n = none) ∧
      chainStore.nodesIndices 12 = some 2 ∧ chainStore.nodes.length < 4 ∧
      ∃ hp : ParentsBelow chainStore,
        ancestorRoot chainStore (fun _ => none) 4 12 4 = some (getAncestor chainStore hp 4 2) :=
  have hp : ParentsBelow chainStore := by decide
  ⟨hp, fun _ => rfl, rfl, by decide,
    hp, ancestorRoot_eq_getAncestor chainStore hp (fun _ => none) (fun _ => rfl) 12 2 rfl 4 4 (by decide)⟩

end Prysm.ForkChoice.Nodes
