import ZClassic.Net.CompactBlocks

/-!
# Requests for missing transactions

The `getblocktxn` message of `lib/net/src/compact_blocks.c` names transactions by their distances
from the ones before.
-/

namespace ZClassic

open List UInt64

def maxGetblocktxnIndices : ℕ := 50000

structure BlockTxnRequest where
  blockHash : UInt256
  indices : List UInt64
deriving DecidableEq

def writeIndices (last : Option UInt64) : List UInt64 → List UInt8
  | [] => []
  | i :: indices =>
    writeCompactSize (prefilledDiff last i).toNat ++ writeIndices (some i) indices

def blockTxnRequestSerialize (req : BlockTxnRequest) : List UInt8 :=
  writeU256 req.blockHash ++ (writeCompactSize req.indices.length ++ writeIndices none req.indices)

def readIndices (last : Option UInt64) : ℕ → Reader (List UInt64)
  | 0 => pure []
  | n + 1 => do
    let diff ← readCompactSize
    let abs := prefilledAbs last (UInt64.ofNat diff)
    let indices ← readIndices (some abs) n
    return abs :: indices

def blockTxnRequestDeserialize : Reader BlockTxnRequest := do
  let blockHash ← readU256
  let count ← readCompactSize
  guard (count ≤ maxGetblocktxnIndices)
  let indices ← readIndices none count
  return { blockHash, indices }

def sentDiffs : Reader (List ℕ) := do
  let _ ← readU256
  readList maxGetblocktxnIndices readCompactSize

theorem reads_indices (last : Option UInt64) (indices : List UInt64) :
    Reads (readIndices last indices.length) (writeIndices last indices) indices := by
  induction indices generalizing last with
  | nil => exact reads_pure []
  | cons i indices ih =>
    apply (reads_compactSize (UInt64.toNat_lt _)).bind
    rw [UInt64.ofNat_toNat, prefilledAbs_diff]
    exact (ih (some i)).bind_pure

theorem BlockTxnRequest.reads {req : BlockTxnRequest}
    (h : req.indices.length ≤ maxGetblocktxnIndices) :
    Reads blockTxnRequestDeserialize (blockTxnRequestSerialize req) req := by
  apply (reads_u256 req.blockHash).bind
  apply (reads_compactSize (h.trans_lt (by decide))).bind
  apply Reads.guard_bind h
  exact (reads_indices none req.indices).bind_pure

/-- The sum is over by at most once the range, so an index that wraps is not above the last. -/
theorem lt_prefilledAbs_iff {last : UInt64} {diff : ℕ} (hdiff : diff < 2 ^ 64) :
    last < prefilledAbs (some last) (ofNat diff) ↔ last.toNat + diff + 1 < 2 ^ 64 := by
  have hlast := last.toNat_lt
  simp only [prefilledAbs, UInt64.lt_iff_toNat_lt, UInt64.toNat_add, UInt64.toNat_ofNat',
    UInt64.toNat_one]
  omega

theorem toNat_prefilledAbs {last : UInt64} {diff : ℕ} (h : last.toNat + diff + 1 < 2 ^ 64) :
    (prefilledAbs (some last) (UInt64.ofNat diff)).toNat = last.toNat + diff + 1 := by
  simp only [prefilledAbs, UInt64.toNat_add, UInt64.toNat_ofNat', UInt64.toNat_one]
  omega

def indicesFrom (last : Option UInt64) : List ℕ → List UInt64
  | [] => []
  | diff :: diffs =>
    let abs := prefilledAbs last (UInt64.ofNat diff)
    abs :: indicesFrom (some abs) diffs

theorem readIndices_eq (last : Option UInt64) (n : ℕ) :
    readIndices last n = indicesFrom last <$> readMany readCompactSize n := by
  induction n generalizing last with
  | zero => rfl
  | succ n ih => simp only [readIndices, readMany, ih, map_eq_pure_bind, bind_assoc, pure_bind,
      indicesFrom]

theorem isChain_indicesFrom {last : UInt64} {diffs : List ℕ} (h : ∀ diff ∈ diffs, diff < 2 ^ 64) :
    IsChain (· < ·) (last :: indicesFrom (some last) diffs) ↔
      last.toNat + diffs.sum + diffs.length < 2 ^ 64 := by
  induction diffs generalizing last with
  | nil => simpa [indicesFrom] using last.toNat_lt
  | cons diff diffs ih =>
    rw [forall_mem_cons] at h
    rw [indicesFrom, isChain_cons_cons, lt_prefilledAbs_iff h.1, ih h.2, sum_cons, length_cons]
    constructor
    · rintro ⟨hlt, hsum⟩
      rw [toNat_prefilledAbs hlt] at hsum
      omega
    · intro hsum
      have hlt : last.toNat + diff + 1 < 2 ^ 64 := by omega
      rw [toNat_prefilledAbs hlt]
      omega

theorem indicesFrom_increasing {diffs : List ℕ} (h : ∀ diff ∈ diffs, diff < 2 ^ 64) :
    (indicesFrom none diffs).Pairwise (· < ·) ↔ diffs.sum + (diffs.length - 1) < 2 ^ 64 := by
  rw [← isChain_iff_pairwise]
  cases diffs with
  | nil => simp [indicesFrom]
  | cons diff diffs =>
    rw [forall_mem_cons] at h
    rw [indicesFrom, prefilledAbs, isChain_indicesFrom h.2, toNat_ofNat_of_lt' h.1, sum_cons,
      length_cons, Nat.add_sub_cancel]

theorem requestDeserialize_eq :
    blockTxnRequestDeserialize = (do
      let blockHash ← readU256
      let diffs ← readList maxGetblocktxnIndices readCompactSize
      return ⟨blockHash, indicesFrom none diffs⟩) := by
  simp only [blockTxnRequestDeserialize, readList, readIndices_eq, map_eq_pure_bind, bind_assoc,
    pure_bind]

theorem length_indicesFrom (last : Option UInt64) (diffs : List ℕ) :
    (indicesFrom last diffs).length = diffs.length := by
  induction diffs generalizing last with
  | nil => rfl
  | cons diff diffs ih => rw [indicesFrom, length_cons, length_cons, ih]

theorem requestDeserialize_diffs {req : BlockTxnRequest} {bs rest : List UInt8}
    (hrun : blockTxnRequestDeserialize.run bs = some (req, rest)) :
    ∃ diffs, sentDiffs.run bs = some (diffs, rest) ∧ req.indices = indicesFrom none diffs ∧
      diffs.length ≤ maxGetblocktxnIndices ∧ ∀ diff ∈ diffs, diff < 2 ^ 64 := by
  rw [requestDeserialize_eq, StateT.run_bind] at hrun
  obtain ⟨⟨blockHash, mid⟩, hhash, hrun⟩ := Option.bind_eq_some_iff.mp hrun
  rw [StateT.run_bind] at hrun
  obtain ⟨⟨diffs, rest'⟩, hdiffs, hrun⟩ := Option.bind_eq_some_iff.mp hrun
  cases hrun
  refine ⟨diffs, ?_, rfl, yields_list yields_compactSize mid diffs _ hdiffs⟩
  rw [sentDiffs, StateT.run_bind, hhash]
  exact hdiffs

/-- A request is read back exactly when it has no more indices than the reader takes, and the
indices that are read off any bytes are in order exactly when none of them is past the range of
`uint64_t`. -/
theorem blockTxnRequest_increasing_iff (sent req : BlockTxnRequest) (bs rest : List UInt8) :
    (Reads blockTxnRequestDeserialize (blockTxnRequestSerialize sent) sent ↔
        sent.indices.length ≤ maxGetblocktxnIndices) ∧
      (blockTxnRequestDeserialize.run bs = some (req, rest) →
        ∃ diffs, sentDiffs.run bs = some (diffs, rest) ∧
          (req.indices.Pairwise (· < ·) ↔ diffs.sum + (diffs.length - 1) < 2 ^ 64)) := by
  refine ⟨⟨fun h => ?_, BlockTxnRequest.reads⟩, fun hrun => ?_⟩
  · obtain ⟨diffs, -, hindices, hlen, -⟩ := requestDeserialize_diffs (h [])
    rwa [hindices, length_indicesFrom]
  · obtain ⟨diffs, hdiffs, hindices, -, hrange⟩ := requestDeserialize_diffs hrun
    rw [hindices]
    exact ⟨diffs, hdiffs, indicesFrom_increasing hrange⟩

theorem twoIndices_increasing :
    (blockTxnRequestDeserialize.run (blockTxnRequestSerialize ⟨0, [1, 4]⟩)).map Prod.fst =
        some ⟨0, [1, 4]⟩ ∧
      ∃ diffs, sentDiffs.run (blockTxnRequestSerialize ⟨0, [1, 4]⟩) = some (diffs, []) ∧
        diffs.sum + (diffs.length - 1) < 2 ^ 64 := by
  obtain ⟨hreads, hincreasing⟩ := blockTxnRequest_increasing_iff ⟨0, [1, 4]⟩ ⟨0, [1, 4]⟩
    (blockTxnRequestSerialize ⟨0, [1, 4]⟩) []
  have hback := hreads.mpr (by decide) []
  rw [append_nil] at hback
  obtain ⟨diffs, hdiffs, hiff⟩ := hincreasing hback
  exact ⟨by rw [hback]; rfl, diffs, hdiffs, hiff.mp (by decide)⟩

/-- The second distance takes the sum around to where it was. -/
theorem wrappedIndex_accepted :
    blockTxnRequestDeserialize.run (replicate 32 0 ++ 2 :: 5 :: replicate 9 255) =
        some (⟨0, [5, 5]⟩, []) ∧
      ¬([5, 5] : List UInt64).Pairwise (· < ·) :=
  ⟨by decide +kernel, by decide⟩

end ZClassic
