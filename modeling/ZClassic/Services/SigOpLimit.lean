import Mathlib.Algebra.Order.BigOperators.Group.List
import ZClassic.Services.IngestVerdict
import ZClassic.Validation.BlockSigOps

/-!
# The sigop limit on the reducer path

The ingest gate counts the legacy operations of a block, and no stage counts the redeem scripts of
the outputs that it spends.
-/

namespace ZClassic

open List

/-- A block that utxo_apply applies keeps the limit when the gate's sum does not wrap and the redeem
scripts leave room: with `n` inputs that spend P2SH outputs and at most `k` operations in the script
of each, `n * k` besides the legacy ones. With at least `k` in each and no room for `n * k` it does
not. The count is what `connect_block` adds up over the same coins. Genesis, which is applied
without being sent, has to pass the gate. -/
theorem appliedBlock_sigOps (w : ReducerWorld) (st : Reducer) (hinit : AtGenesis w st)
    (acts : List ReducerAction) (s : Reducer) (env : UtxoApplyEnv)
    (hs : MovesAt w st acts s (.stage (.utxoApply env))) (b : UInt256)
    (happlies : Applies w s env b) (hgenesis : b = w.genesis → Gated w b)
    (hlegacy : legacySigOps (w.content b).vtx < 2 ^ 32) :
    let txs := (w.content b).vtx
    let inputs := p2shInputs s.node.db.coins [] txs
    (∀ k, (∀ i ∈ inputs, redeemSigOps i ≤ k) →
      (inputs.length * k ≠ 0 → legacySigOps txs + inputs.length * k ≤ maxBlockSigops) →
        blockSigOps s.node.db.coins (w.content b) ≤ maxBlockSigops) ∧
    (∀ k, (∀ i ∈ inputs, k ≤ redeemSigOps i) →
      maxBlockSigops < legacySigOps txs + inputs.length * k →
        maxBlockSigops < blockSigOps s.node.db.coins (w.content b)) ∧
    ∀ (connectEnv : ConnectEnv) (nHeight : Int32) (view : CoinsViewCache) (out : ConnectState),
      (∀ op c, view.coin op = some c → s.node.db.coins.lookup op = some c) →
      connectTxs connectEnv nHeight (w.content b) view = .ok out →
        out.sigOps = UInt32.ofNat (blockSigOps s.node.db.coins (w.content b)) := by
  have hindex : AppliedIndex w (fun _ => True) s :=
    hs.invariant (fun _ _ h hm => h.move (fun _ _ hcall => hcall) hm) (hinit.appliedIndex _)
      (meetsAll_of_forall (fun a _ _ => by cases a <;> trivial) st)
  have hgated : Gated w b := by
    by_cases hb : b = w.genesis
    · exact hgenesis hb
    · exact ((happlies.entered hindex.toLinearIndex hindex.delta).2.2 hb).1
  obtain ⟨adjustedTime, hcheck⟩ := hgated
  have hle := legacySigOps_le hcheck hlegacy
  dsimp only
  rw [blockSigOps, p2shSigOps_eq]
  refine ⟨fun k hk hroom => ?_, fun k hk hlarge => ?_, fun _ _ _ _ hview hrun => ?_⟩
  · have hsum := sum_le_card_nsmul _ k (forall_mem_map.mpr hk)
    rw [length_map] at hsum
    change _ ≤ _ * k at hsum
    by_cases hzero : (p2shInputs s.node.db.coins [] (w.content b).vtx).length * k = 0
    · omega
    · exact (Nat.add_le_add_left hsum _).trans (hroom hzero)
  · have hsum := card_nsmul_le_sum _ k (forall_mem_map.mpr hk)
    rw [length_map] at hsum
    exact hlarge.trans_le (Nat.add_le_add_left hsum _)
  · rw [← p2shSigOps_eq, ← blockSigOps]
    exact connectTxs_sigOps hview hrun

/-- `OP_0 OP_IF`, 199 times `OP_CHECKMULTISIG`, `OP_ENDIF OP_1`: as many operations as a script may
have, none of which is executed. -/
def multisigRedeem : List UInt8 :=
  0x00 :: 0x63 :: (replicate 199 opCheckmultisig ++ [0x68, op1])

def scriptHashOut : TxOut where
  value := 0
  scriptPubKey := { data := opHash160 :: 0x14 :: (replicate 20 0 ++ [opEqual]) }

/-- A JoinSplit that makes `n` P2SH outputs, and a transaction that spends them and makes `out`. -/
def redeemBlock (n : ℕ) (scriptSig : Script) (out : TxOut) : Block where
  vtx := [zeroCoinbase 11,
    { version := 2
      vJoinsplit := [{ nullifiers := twoNullifiers, useGroth := false }]
      vout := replicate n scriptHashOut
      hash := 21 },
    { vin := (range n).map fun i => { prevout := ⟨21, UInt32.ofNat i⟩, scriptSig }
      vout := [out]
      hash := 22 }]

def redeemSix (_ : UInt256) : Block :=
  redeemBlock 6 ⟨opPushdata1 :: 203 :: multisigRedeem, by decide +kernel⟩ { value := 0 }

def blockResolver (blk : Block) : ScriptValidateEnv where
  prevout db _ op := spentOutput db.coins blk.vtx op
  verifyScript _ _ _ _ := 0

/-- The block is applied although `connect_block` counts 23880 operations in it. -/
theorem redeemSix_applied :
    AtGenesis (shortChain redeemSix) (bootState (shortChain redeemSix)) ∧
      MovesAt (shortChain redeemSix) (bootState (shortChain redeemSix))
        [.ingest (drainCall acceptingProofs 1 (blockResolver (redeemSix 1)))]
        (beforeApply redeemSix (blockResolver (redeemSix 1))) (.stage (.utxoApply {})) ∧
      Applies (shortChain redeemSix) (beforeApply redeemSix (blockResolver (redeemSix 1))) {} 1 ∧
      blockSigOps (beforeApply redeemSix (blockResolver (redeemSix 1))).node.db.coins
        (redeemSix 1) = 23880 ∧ maxBlockSigops < 23880 :=
  ⟨bootState_atGenesis _, movesAt_beforeApply (by decide +kernel) (by decide +kernel),
    ⟨by decide +kernel, by decide +kernel⟩, by decide +kernel, by decide⟩

/-- Each redeem script is one `OP_CHECKSIG`, and so is the script of the new output. -/
def redeemTwo (_ : UInt256) : Block :=
  redeemBlock 2 pushedChecksig { value := 0, scriptPubKey := checksigScript }

theorem redeemTwo_sigOps :
    let before := beforeApply redeemTwo (blockResolver (redeemTwo 1))
    Applies (shortChain redeemTwo) before {} 1 ∧
      blockSigOps before.node.db.coins (redeemTwo 1) = 3 ∧
      blockSigOps before.node.db.coins (redeemTwo 1) ≤ maxBlockSigops := by
  have happlies : Applies (shortChain redeemTwo)
      (beforeApply redeemTwo (blockResolver (redeemTwo 1))) {} 1 :=
    ⟨by decide +kernel, by decide +kernel⟩
  exact ⟨happlies, by decide +kernel, (appliedBlock_sigOps (shortChain redeemTwo)
    (bootState (shortChain redeemTwo)) (bootState_atGenesis _)
    [.ingest (drainCall acceptingProofs 1 (blockResolver (redeemTwo 1)))]
    (beforeApply redeemTwo (blockResolver (redeemTwo 1))) {}
    (movesAt_beforeApply (by decide +kernel) (by decide +kernel)) 1 happlies
    (fun h => absurd h (by decide)) (by decide +kernel)).1 1 (by decide +kernel)
    (fun _ => by decide +kernel)⟩

end ZClassic
