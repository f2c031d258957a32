import Mathlib.Algebra.Order.BigOperators.Group.List
import ZClassic.Consensus.CheckBlock
import ZClassic.Primitives.BlockWire

/-!
# The size of an accepted block

`block_serialize` of `lib/primitives/src/block.c` beside `check_block`.
-/

namespace ZClassic

open List

theorem transactionSerializeSize_le {tx : Transaction} (h : checkTransaction tx = .ok ()) :
    transactionSerializeSize tx ≤ maxTxSizeAfterSapling := by
  have hexists := (checkTransaction_eq_ok h).2.1
  rw [checkExistence, rejectIf_bind_eq_ok, rejectIf_bind_eq_ok, rejectIf_eq_ok_iff]
    at hexists
  exact not_lt.mp hexists.2.2

/-- The bytes of the header with its solution, and of the number of transactions. -/
def blockOverhead (b : WireBlock) : ℕ :=
  140 + compactSizeLength b.header.nSolutionSize + b.header.nSolutionSize +
    compactSizeLength b.vtx.length

theorem blockSerialize_length_eq (b : WireBlock) : (blockSerialize b).length =
    blockOverhead b + (b.vtx.map fun tx => (transactionSerialize tx).length).sum := by
  rw [blockSerialize_length, blockOverhead, WireBlock.toBlock, map_map, ← Nat.add_assoc]
  simp only [serialize_length, Function.comp_def]

/-- Each transaction of an accepted block is within the limit that the block should be in. The block
itself is so if its number of transactions times a bound for each fits, and not if this number
times a size that each has is too much. -/
theorem acceptedBlock_size {env : CheckEnv} {b : WireBlock} {checkPow checkMerkleRoot : Bool}
    (h : checkBlock env b.header b.toBlock checkPow checkMerkleRoot true = .ok ()) :
    (∀ tx ∈ b.vtx, (transactionSerialize tx).length ≤ maxBlockSize) ∧
      b.vtx.length ≤ generousBlockTxnLimit ∧
      ∀ size, ((∀ tx ∈ b.vtx, (transactionSerialize tx).length ≤ size) →
          blockOverhead b + b.vtx.length * size ≤ maxBlockSize →
            (blockSerialize b).length ≤ maxBlockSize) ∧
        ((∀ tx ∈ b.vtx, size ≤ (transactionSerialize tx).length) →
          maxBlockSize < blockOverhead b + b.vtx.length * size →
            maxBlockSize < (blockSerialize b).length) := by
  obtain ⟨hsize, htxs, -⟩ := checkBlock_sizeLimits h
  refine ⟨fun tx hmem => ?_, ?_, fun size => ⟨fun hle hfits => ?_, fun hge hlarge => ?_⟩⟩
  · rw [serialize_length]
    exact transactionSerializeSize_le (htxs _ (mem_map_of_mem hmem))
  · rw [checkBlockSizeAndCoinbase, refuseIf_bind_eq_ok, not_or] at hsize
    have hcount := not_lt.mp hsize.1.2
    rwa [WireBlock.toBlock, length_map] at hcount
  · have hsum := sum_le_card_nsmul (b.vtx.map fun tx => (transactionSerialize tx).length) size
      (forall_mem_map.mpr hle)
    rw [length_map] at hsum
    rw [blockSerialize_length_eq]
    exact (Nat.add_le_add_left hsum _).trans hfits
  · have hsum := card_nsmul_le_sum (b.vtx.map fun tx => (transactionSerialize tx).length) size
      (forall_mem_map.mpr hge)
    rw [length_map] at hsum
    rw [blockSerialize_length_eq]
    exact hlarge.trans_le (Nat.add_le_add_left hsum _)

/-- Its script ends inside a push, so that no signature operation is counted in it. -/
def fatOutput : TxOut where
  value := 1
  scriptPubKey :=
    { data := opPushdata4 :: replicate 9999 0xff
      size_le := by rw [length_cons, length_replicate]; decide }

def fatTransaction (hash : UInt256) (outputs : ℕ) : WireTransaction where
  vin := [{ prevout := ⟨hash, 0⟩ }]
  vout := replicate outputs fatOutput
  hash

def fatBlock (outputs : ℕ) : WireBlock where
  header := easyHeader 23 1
  vtx :=
    [{ vin := [{ prevout := ⟨0, 0xffffffff⟩, scriptSig := { data := [0, 0] } }]
       vout := [{ value := 1 }]
       hash := 1 },
     fatTransaction 2 outputs, fatTransaction 3 outputs]

theorem fatBlock_wellFormed {outputs : ℕ} (h : outputs ≤ maxTxOutputs) :
    ∀ tx ∈ (fatBlock outputs).vtx, tx.WellFormed := by
  have hfat : ∀ hash, (fatTransaction hash outputs).WellFormed := by
    intro hash
    refine .of_transparent (show (0 : Int32) ≤ 1 by decide) rfl
      (show 1 ≤ maxTxInputs by decide) ?_ rfl rfl rfl
    rwa [fatTransaction, length_replicate]
  intro tx hmem
  simp only [fatBlock, mem_cons, not_mem_nil, or_false] at hmem
  rcases hmem with rfl | rfl | rfl
  · exact .of_transparent (by decide) rfl (by decide) (by decide) rfl rfl rfl
  · exact hfat 2
  · exact hfat 3

theorem smallBlock_size :
    checkBlock permissiveEnv (fatBlock 1).header (fatBlock 1).toBlock true true true = .ok () ∧
      (blockSerialize (fatBlock 1)).length ≤ maxBlockSize := by
  have h : checkBlock permissiveEnv (fatBlock 1).header (fatBlock 1).toBlock true true true =
    .ok () := by decide +kernel
  exact ⟨h, ((acceptedBlock_size h).2.2 20000).1 (by decide +kernel) (by decide +kernel)⟩

/-- With 101 outputs of 10000 bytes each, two accepted transactions make a block too large. -/
theorem fatBlock_too_large :
    (∀ tx ∈ (fatBlock 101).vtx, tx.WellFormed) ∧
      checkBlock permissiveEnv (fatBlock 101).header (fatBlock 101).toBlock true true true =
        .ok () ∧
      maxBlockSize < (blockSerialize (fatBlock 101)).length := by
  refine ⟨fatBlock_wellFormed (by decide), by decide +kernel, ?_⟩
  rw [blockSerialize_length]
  decide +kernel

end ZClassic
