import Prysm.Sync.RangeRequest
import Mathlib.Data.List.Sort

/-!
# Deduplication, ordering and filtering of one batch

The three passes `writeBlockRangeToStream` runs over the store's answer
before it writes a batch. `dedupBlocksAndRoots` and `sortBlocksAndRoots` are
not under src/ and follow the spec: first occurrence per root, then slot and
root ascending. `filterBlocks` is the source's loop: it keeps canonical
blocks on the step grid of the batch and, for `step = 1`, stops at the first
one whose parent is not the root it last kept. The store's parallel slices
are one list of pairs here, so the length checks of both functions cannot
fail.
-/

namespace Prysm.Sync.FilterBlocks

open Prysm.Types Prysm.Sync.RangeRequest

/-- A block of the store's answer with the root the store keys it by. -/
abbrev BlockEntry := SignedBeaconBlock × Root

/-- Why a batch stopped early. -/
inductive BatchError
  /-- `p2ptypes.ErrInvalidParent`. The model keeps the block that broke the
  chain; the Go error value does not, and no caller reads it. -/
  | invalidParent (blk : SignedBeaconBlock)
  /-- Any other error, returned to the handler as it is. -/
  | rpc (e : RpcError)
  deriving DecidableEq, Repr

/-! ## Deduplication -/

/-- The loop of `dedupBlocksAndRoots`, with the roots already kept. -/
def dedupFrom : List Root → List BlockEntry → List BlockEntry
  | _, [] => []
  | seen, e :: es => if e.2 ∈ seen then dedupFrom seen es else e :: dedupFrom (e.2 :: seen) es

/-- Modelled from the spec: `dedupBlocksAndRoots` (not under src/) drops every
entry whose root was already seen, keeping the first occurrence. -/
def dedupBlocksAndRoots (entries : List BlockEntry) : List BlockEntry := dedupFrom [] entries

theorem dedupFrom_sublist (seen : List Root) (l : List BlockEntry) : List.Sublist (dedupFrom seen l) l := by
  induction l generalizing seen with
  | nil => exact List.Sublist.slnil
  | cons e es ih =>
    unfold dedupFrom
    split
    · exact (ih seen).cons e
    · exact (ih _).cons₂ e

/-- Kept roots are new: distinct from each other and from those seen before. -/
theorem dedupFrom_roots (seen : List Root) (l : List BlockEntry) :
    ((dedupFrom seen l).map Prod.snd).Nodup ∧ ∀ e ∈ dedupFrom seen l, e.2 ∉ seen := by
  induction l generalizing seen with
  | nil => simp [dedupFrom]
  | cons e es ih =>
    unfold dedupFrom
    split
    · exact ih seen
    · rename_i hnew
      obtain ⟨hnd, hfresh⟩ := ih (e.2 :: seen)
      refine ⟨List.nodup_cons.mpr ⟨fun hm => ?_, hnd⟩, ?_⟩
      · obtain ⟨e', he', heq⟩ := List.mem_map.mp hm
        exact hfresh e' he' (heq ▸ List.mem_cons_self _ _)
      · intro e' he'
        rcases List.mem_cons.mp he' with rfl | h
        · exact hnew
        · exact fun hs => hfresh e' h (List.mem_cons_of_mem _ hs)

/-- Every root not seen before keeps one entry. -/
theorem exists_mem_dedupFrom {seen : List Root} {l : List BlockEntry} {e : BlockEntry}
    (he : e ∈ l) (hs : e.2 ∉ seen) : ∃ e' ∈ dedupFrom seen l, e'.2 = e.2 ∧ e' ∈ l := by
  induction l generalizing seen with
  | nil => cases he
  | cons x xs ih =>
    unfold dedupFrom
    split
    · rename_i hx
      rcases List.mem_cons.mp he with rfl | h
      · exact absurd hx hs
      · obtain ⟨e', h1, h2, h3⟩ := ih h hs
        exact ⟨e', h1, h2, List.mem_cons_of_mem _ h3⟩
    · by_cases hx : x.2 = e.2
      · exact ⟨x, List.mem_cons_self _ _, hx, List.mem_cons_self _ _⟩
      · rcases List.mem_cons.mp he with rfl | h
        · exact absurd rfl hx
        · obtain ⟨e', h1, h2, h3⟩ := ih h
            (fun hm => (List.mem_cons.mp hm).elim (fun h' => hx h'.symm) hs)
          exact ⟨e', List.mem_cons_of_mem _ h1, h2, List.mem_cons_of_mem _ h3⟩

theorem dedupBlocksAndRoots_sublist (l : List BlockEntry) : List.Sublist (dedupBlocksAndRoots l) l :=
  dedupFrom_sublist [] l

theorem dedupBlocksAndRoots_nodup (l : List BlockEntry) :
    ((dedupBlocksAndRoots l).map Prod.snd).Nodup :=
  (dedupFrom_roots [] l).1

/-- An entry whose root keys no other entry survives deduplication. -/
theorem mem_dedupBlocksAndRoots {l : List BlockEntry} {e : BlockEntry} (he : e ∈ l)
    (hkey : ∀ e' ∈ l, e'.2 = e.2 → e' = e) : e ∈ dedupBlocksAndRoots l := by
  obtain ⟨e', h1, h2, h3⟩ := exists_mem_dedupFrom he (List.not_mem_nil _)
  rwa [← hkey e' h3 h2]

/-! ## Ordering -/

/-- The order of `sortBlocksAndRoots`: slot ascending, then root ascending. -/
def EntryLe (a b : BlockEntry) : Prop :=
  a.1.slot.toNat < b.1.slot.toNat ∨ (a.1.slot.toNat = b.1.slot.toNat ∧ a.2.toNat ≤ b.2.toNat)

instance : DecidableRel EntryLe := fun _ _ => inferInstanceAs (Decidable (_ ∨ _))

instance : IsTotal BlockEntry EntryLe := ⟨fun a b => by unfold EntryLe; omega⟩

instance : IsTrans BlockEntry EntryLe := ⟨fun a b c => by unfold EntryLe; omega⟩

/-- Modelled from the spec: `sortBlocksAndRoots` (not under src/) orders the
entries by slot, breaking ties by root. -/
def sortBlocksAndRoots (entries : List BlockEntry) : List BlockEntry :=
  entries.insertionSort EntryLe

theorem sortBlocksAndRoots_perm (l : List BlockEntry) : List.Perm (sortBlocksAndRoots l) l :=
  List.perm_insertionSort _ l

theorem sortBlocksAndRoots_sorted (l : List BlockEntry) : (sortBlocksAndRoots l).Sorted EntryLe :=
  List.sorted_insertionSort _ l

/-- Entries in slot-then-root order with distinct roots, at most one root per
slot among them, have strictly increasing slots. -/
theorem pairwise_slot_lt {sel : List BlockEntry} (hs : sel.Pairwise EntryLe)
    (hn : (sel.map Prod.snd).Nodup) (hu : ∀ x ∈ sel, ∀ y ∈ sel, x.1.slot = y.1.slot → x.2 = y.2) :
    (sel.map (·.1.slot.toNat)).Pairwise (· < ·) := by
  rw [List.pairwise_map]
  rw [List.Nodup, List.pairwise_map] at hn
  refine (hs.and hn).imp_of_mem fun hx hy ⟨hle, hne⟩ => ?_
  rcases hle with hlt | ⟨heq, -⟩
  · exact hlt
  · exact absurd (hu _ hx _ hy (BitVec.eq_of_toNat_eq heq)) hne

/-! ## Filtering -/

/-- The loop of `filterBlocks`: `newBlks` is what it kept so far, `prevRoot`
the value its local `prevRoot` pointer points at. -/
def filterLoop (isCanonical : Root → Option Bool) (step startSlot : U64) :
    List SignedBeaconBlock → Root → List BlockEntry → List SignedBeaconBlock × Option BatchError
  | newBlks, _, [] => (newBlks, none)
  | newBlks, prevRoot, (b, root) :: rest =>
    match isCanonical root with
    | none => ([], some (.rpc .canonicalLookup))
    | some canonical =>
      if (b.slot - startSlot) % step = 0 ∧ canonical = true then
        if prevRoot ≠ zeroHash ∧ step = 1 ∧ prevRoot ≠ b.block.parentRoot then
          (newBlks, some (.invalidParent b))
        else filterLoop isCanonical step startSlot (newBlks ++ [b]) root rest
      else filterLoop isCanonical step startSlot newBlks prevRoot rest

/-- `filterBlocks`: canonical blocks on the batch's step grid, cut at the first
break of the parent chain when `step = 1`. Its `prevRoot` pointer is only read:
the loop rebinds its own copy, so nothing flows back to the caller. -/
def filterBlocks (isCanonical : Root → Option Bool) (entries : List BlockEntry)
    (prevRoot : Root) (step startSlot : U64) : List SignedBeaconBlock × Option BatchError :=
  filterLoop isCanonical step startSlot [] prevRoot entries

/-- A kept entry is canonical and on the batch's step grid. -/
def Kept (isCanonical : Root → Option Bool) (step startSlot : U64) (e : BlockEntry) : Prop :=
  (e.1.slot - startSlot) % step = 0 ∧ isCanonical e.2 = some true

/-- Parent links along kept entries: each names the root kept before it,
unless that root is the zero hash, which `filterBlocks` reads as "no parent". -/
def LinkedFrom : Root → List BlockEntry → Prop
  | _, [] => True
  | prev, e :: es => (prev ≠ zeroHash → e.1.block.parentRoot = prev) ∧ LinkedFrom e.2 es

section Filter

variable {isCanonical : Root → Option Bool} {step startSlot : U64}

/-- What the filter loop returns: nothing after a failed lookup; otherwise what
it had, followed by the blocks of kept entries chosen in order from its input,
and no error but a broken chain. -/
theorem filterLoop_spec (acc : List SignedBeaconBlock) (prev : Root) (l : List BlockEntry) :
    (filterLoop isCanonical step startSlot acc prev l = ([], some (.rpc .canonicalLookup))) ∨
      ∃ sel, List.Sublist sel l ∧ (∀ e ∈ sel, Kept isCanonical step startSlot e) ∧
        (filterLoop isCanonical step startSlot acc prev l).1 = acc ++ sel.map Prod.fst ∧
        (∀ e, (filterLoop isCanonical step startSlot acc prev l).2 ≠ some (.rpc e)) ∧
        (step = 1 → LinkedFrom prev sel) := by
  induction l generalizing acc prev with
  | nil => exact .inr ⟨[], List.Sublist.slnil, by simp, by simp [filterLoop], by simp [filterLoop],
      fun _ => trivial⟩
  | cons e rest ih =>
    obtain ⟨b, root⟩ := e
    simp only [filterLoop]
    cases hc : isCanonical root with
    | none => exact .inl rfl
    | some canonical =>
      simp only
      split
      · rename_i hkeep
        split
        · exact .inr ⟨[], List.nil_sublist _, by simp, by simp, by simp, fun _ => trivial⟩
        · rename_i hlink
          rcases ih (acc ++ [b]) root with h | ⟨sel, hsub, hkept, hout, herr, hlinked⟩
          · exact .inl h
          · refine .inr ⟨(b, root) :: sel, hsub.cons₂ _, ?_, by simp [hout], herr, fun h1 => ?_⟩
            · intro e he
              rcases List.mem_cons.mp he with rfl | h
              · exact ⟨hkeep.1, by rw [hc, hkeep.2]⟩
              · exact hkept e h
            · refine ⟨fun hz => ?_, hlinked h1⟩
              simp only [not_and, not_not] at hlink
              exact (hlink hz h1).symm
      · rcases ih acc prev with h | ⟨sel, hsub, hkept, hout, herr, hlinked⟩
        · exact .inl h
        · exact .inr ⟨sel, hsub.cons _, hkept, hout, herr, hlinked⟩

/-- Without lookup failures the loop only appends to what it kept, and its
only error is a broken chain. -/
theorem filterLoop_extends (acc : List SignedBeaconBlock) (prev : Root) {l : List BlockEntry}
    (hlookup : ∀ e ∈ l, isCanonical e.2 ≠ none) :
    (∃ t, (filterLoop isCanonical step startSlot acc prev l).1 = acc ++ t) ∧
      ∀ e, (filterLoop isCanonical step startSlot acc prev l).2 ≠ some (.rpc e) := by
  induction l generalizing acc prev with
  | nil => exact ⟨⟨[], by simp [filterLoop]⟩, by simp [filterLoop]⟩
  | cons x rest ih =>
    obtain ⟨b, root⟩ := x
    have hrest : ∀ e ∈ rest, isCanonical e.2 ≠ none := fun e h => hlookup e (List.mem_cons_of_mem _ h)
    cases hc : isCanonical root with
    | none => exact absurd hc (hlookup _ (List.mem_cons_self _ _))
    | some canonical =>
      simp only [filterLoop, hc]
      split
      · split
        · exact ⟨⟨[], by simp⟩, by simp⟩
        · obtain ⟨⟨t, ht⟩, herr⟩ := ih (acc ++ [b]) root hrest
          exact ⟨⟨b :: t, by simp [ht]⟩, herr⟩
      · exact ih acc prev hrest

/-- The block a broken chain stops at is one of the input's. -/
theorem filterLoop_invalidParent_mem {acc : List SignedBeaconBlock} {prev : Root}
    {l : List BlockEntry} {b : SignedBeaconBlock}
    (h : (filterLoop isCanonical step startSlot acc prev l).2 = some (.invalidParent b)) :
    ∃ root, (b, root) ∈ l := by
  induction l generalizing acc prev with
  | nil => simp [filterLoop] at h
  | cons x rest ih =>
    obtain ⟨b', root⟩ := x
    simp only [filterLoop] at h
    split at h
    · simp at h
    · split at h
      · split at h
        · simp only [Option.some.injEq, BatchError.invalidParent.injEq] at h
          exact ⟨root, h ▸ List.mem_cons_self _ _⟩
        · obtain ⟨r', hr⟩ := ih h
          exact ⟨r', List.mem_cons_of_mem _ hr⟩
      · obtain ⟨r', hr⟩ := ih h
        exact ⟨r', List.mem_cons_of_mem _ hr⟩

/-- Without lookup failures, every kept entry of a sorted input reaches the
output, unless the chain broke at a block of lower or equal slot. -/
theorem mem_filterLoop (acc : List SignedBeaconBlock) (prev : Root) {l : List BlockEntry}
    (hs : l.Sorted EntryLe) (hlookup : ∀ e ∈ l, isCanonical e.2 ≠ none)
    {e : BlockEntry} (he : e ∈ l) (hk : Kept isCanonical step startSlot e) :
    e.1 ∈ (filterLoop isCanonical step startSlot acc prev l).1 ∨
      ∃ b, (filterLoop isCanonical step startSlot acc prev l).2 = some (.invalidParent b) ∧
        b.slot.toNat ≤ e.1.slot.toNat := by
  induction l generalizing acc prev with
  | nil => cases he
  | cons x rest ih =>
    obtain ⟨b, root⟩ := x
    have hrest : ∀ e ∈ rest, isCanonical e.2 ≠ none := fun e h => hlookup e (List.mem_cons_of_mem _ h)
    have hle : ∀ y ∈ (b, root) :: rest, b.slot.toNat ≤ y.1.slot.toNat := by
      intro y hy
      rcases List.mem_cons.mp hy with rfl | hy
      · exact le_rfl
      · have := List.rel_of_sorted_cons hs y hy
        simp only [EntryLe] at this
        omega
    cases hc : isCanonical root with
    | none => exact absurd hc (hlookup _ (List.mem_cons_self _ _))
    | some canonical =>
      simp only [filterLoop, hc]
      split
      · split
        · exact .inr ⟨b, rfl, hle e he⟩
        · rcases List.mem_cons.mp he with h | h
          · subst h
            obtain ⟨⟨t, ht⟩, -⟩ := @filterLoop_extends isCanonical step startSlot (acc ++ [b]) root _
              hrest
            exact .inl (by rw [ht]; simp)
          · exact ih (acc ++ [b]) root hs.of_cons hrest h
      · rename_i hnot
        rcases List.mem_cons.mp he with h | h
        · subst h
          have h2 : isCanonical root = some true := hk.2
          rw [hc, Option.some_inj] at h2
          exact absurd ⟨hk.1, h2⟩ hnot
        · exact ih acc prev hs.of_cons hrest h

end Filter

end Prysm.Sync.FilterBlocks
