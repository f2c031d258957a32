import ZClassic.Jobs.DoubleSpend
import ZClassic.Jobs.ProjectionLookup
import ZClassic.Jobs.UtxoApplyDeltaStore

/-!
# Applying a block and taking it back

A disconnect erases the outputs a block created and then adds back every coin it spent.
-/

namespace ZClassic

def applyAndPersist (db : ProgressStore) (height : UInt32) (branchHash : UInt256)
    (s : DeltaSummary) : ProgressStore :=
  utxoApplyDeltaPersist { db with coins := applyCoinsKv db.coins s height } height.toNat
    branchHash s

/-- Undoing an accepted block succeeds, and it gives back the coin set before the block exactly
when the block spends none of the outputs it creates. -/
theorem emitInverseDelta_restores_iff (params : ConsensusParams) (B : Block) (height : UInt32)
    (lookup : UtxoApplyLookupFn) (db : ProgressStore) (branchHash : UInt256)
    (hS : ReportsCoins lookup db.coins)
    (hok : (utxoApplyComputeBlockDelta params (some B) height lookup).ok = true) :
    ∃ db', utxoApplyEmitInverseDelta (applyAndPersist db height branchHash
        (utxoApplyComputeBlockDelta params (some B) height lookup)) height.toNat = some db' ∧
      (db'.coins = db.coins ↔ ∀ op ∈ createdBy B.vtx, op ∉ spentBy B.vtx) := by
  obtain ⟨st, hst, hsum⟩ := computeBlockDelta_ok hok
  obtain ⟨hloop, -⟩ := blockDelta_ok hst
  have hacc := accepted_of_loop hloop
  rw [hsum]
  refine ⟨_, emitInverseDelta_stored (Finmap.lookup_insert _) hacc.script_lt, ?_⟩
  exact undoDelta_applyCoinsKv_iff hacc hS

def chainedSpendBlock : Block where
  vtx := [emptyCoinbase 1, moveCoin ⟨9, 0⟩ 50 2, moveCoin ⟨2, 0⟩ 50 3]

def coinsOnly (S : CoinSet) : ProgressStore := { coins := S }

/-- After the disconnect the coin table still holds the output that existed only inside the
block. -/
theorem chainedSpendBlock_not_restored :
    let S := oneCoin ⟨9, 0⟩ 50
    let s := utxoApplyComputeBlockDelta mainParams (some chainedSpendBlock) 1000
      (projectionLiveLookup S)
    s.ok = true ∧ (s.spent.map DeltaEntry.outpoint).Nodup ∧
      (utxoApplyEmitInverseDelta (applyAndPersist (coinsOnly S) 1000 7 s) 1000).map
        (fun db => (db.coins.lookup ⟨2, 0⟩, S.lookup ⟨2, 0⟩)) =
      some (some { value := 50, height := 1000 }, none) := by
  decide

theorem oneCoin_regular : RegularCoins (oneCoin ⟨9, 0⟩ 50) := by
  refine ⟨?_, ?_, ?_, ?_, ?_⟩
  · intro op op' c c' hc hc' _
    rw [(oneCoin_lookup hc).2, (oneCoin_lookup hc').2]
    exact ⟨rfl, rfl⟩
  all_goals
    intro op c hc
    obtain ⟨rfl, rfl⟩ := oneCoin_lookup hc
    decide

theorem moveCoin_restored :
    let S := oneCoin ⟨9, 0⟩ 50
    let s := utxoApplyComputeBlockDelta mainParams
      (some ⟨[emptyCoinbase 1, moveCoin ⟨9, 0⟩ 50 2]⟩) 1000 (projectionLiveLookup S)
    ∃ db', utxoApplyEmitInverseDelta (applyAndPersist (coinsOnly S) 1000 7 s) 1000 = some db' ∧
      db'.coins = S := by
  intro S s
  obtain ⟨db', hdb', hiff⟩ := emitInverseDelta_restores_iff mainParams
    ⟨[emptyCoinbase 1, moveCoin ⟨9, 0⟩ 50 2]⟩ 1000 (projectionLiveLookup S) (coinsOnly S) 7
    (liveLookup_reportsCoins oneCoin_regular) (by decide)
  exact ⟨db', hdb', hiff.mpr (by decide)⟩

end ZClassic
