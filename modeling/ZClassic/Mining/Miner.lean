import ZClassic.Consensus.Coinbase
import ZClassic.Validation.BlockSigOps
import ZClassic.Validation.BlockSize

/-!
# Block templates

`create_new_block` of `lib/mining/src/miner.c`.
-/

namespace ZClassic

open List Function

structure BlockTemplate where
  header : BlockHeader
  vtx : List WireTransaction
  txFees : List Int64
  txSigOps : List UInt32

/-- The variables of the packing loop; the coinbase is not in the lists. -/
structure Packing where
  vtx : List WireTransaction := []
  txFees : List Int64 := []
  txSigOps : List UInt32 := []
  totalFees : Int64 := 0
  blkSigOps : UInt32 := 100
  blockSize : ℕ := 1000

def packedTxSize : ℕ := 250

def packedSigOps (tx : WireTransaction) : UInt32 :=
  UInt32.ofNat (getLegacySigOpCount tx.toTransaction scriptVerifyP2sh)

def packEntry (view : CoinsViewCache) (p : Packing) (tx : WireTransaction) : Packing :=
  if transactionIsCoinbase tx.toTransaction then p
  else if maxBlockSize ≤ p.blockSize + packedTxSize then p
  else if maxBlockSigops ≤ (p.blkSigOps + packedSigOps tx).toNat then p
  else if view.haveInputs tx.toTransaction = false then p
  else
    let txFee := view.getValueIn tx.toTransaction - transactionGetValueOut tx.toTransaction
    { vtx := p.vtx ++ [transactionCopy tx]
      txFees := p.txFees ++ [txFee]
      txSigOps := p.txSigOps ++ [packedSigOps tx]
      totalFees := p.totalFees + txFee
      blkSigOps := p.blkSigOps + packedSigOps tx
      blockSize := p.blockSize + packedTxSize }

def packMempool (view : CoinsViewCache) (mempool : List WireTransaction) : Packing :=
  mempool.foldl (packEntry view) {}

section Template

variable (env : CheckEnv) (hash256 : List UInt8 → UInt256) (coinbaseScript : Script)
  (index : HeaderIndex) (view : CoinsViewCache) (mempool : List WireTransaction)

def templateInputs (prev : UInt256) : CoinbaseInputs where
  nHeight := index.nHeight prev + 1
  subsidy := getBlockSubsidy (Int32.ofInt (index.nHeight prev + 1)) env.params.consensus
  totalFees := (packMempool view mempool).totalFees
  minerScript := coinbaseScript
  params := env.params.consensus

def templateHeader (prev : UInt256) (vtx : List WireTransaction) : BlockHeader :=
  let header : BlockHeader :=
    { hashPrevBlock := prev, nTime := UInt32.ofNat (env.adjustedTime % 2 ^ 32).toNat }
  { header with
    nBits := getNextWorkRequired env.params index (some prev) header
    hashMerkleRoot := (computeMerkleRootMutated env.hashPair (vtx.map (·.hash))).1 }

def createNewBlock (tip : Option UInt256) : Option BlockTemplate :=
  match tip with
  | none => none
  | some prev =>
    match coinbaseBuild hash256 (templateInputs env coinbaseScript index view mempool prev)
        (transactionAlloc 1 1) with
    | .error _ => none
    | .ok coinbase =>
      let packed := packMempool view mempool
      let vtx := coinbase :: packed.vtx
      some {
        header := templateHeader env index prev vtx
        vtx
        txFees := -packed.totalFees :: packed.txFees
        txSigOps := 0 :: packed.txSigOps }

end Template

def takenEntries (view : CoinsViewCache) :
    ℕ → UInt32 → List WireTransaction → List WireTransaction
  | _, _, [] => []
  | taken, sigOps, tx :: rest =>
    if transactionIsCoinbase tx.toTransaction = false ∧ taken < 7995 ∧
        (sigOps + packedSigOps tx).toNat < maxBlockSigops ∧ view.haveInputs tx.toTransaction then
      tx :: takenEntries view (taken + 1) (sigOps + packedSigOps tx) rest
    else takenEntries view taken sigOps rest

variable {view : CoinsViewCache} {p : Packing} {tx : WireTransaction}

theorem packEntry_skip
    (h : ¬(transactionIsCoinbase tx.toTransaction = false ∧
      p.blockSize + packedTxSize < maxBlockSize ∧
      (p.blkSigOps + packedSigOps tx).toNat < maxBlockSigops ∧ view.haveInputs tx.toTransaction)) :
    packEntry view p tx = p := by
  unfold packEntry
  split_ifs with hcb hsize hsigops hinputs
  · rfl
  · rfl
  · rfl
  · rfl
  · exact absurd ⟨Bool.eq_false_iff.mpr hcb, not_le.mp hsize, not_le.mp hsigops,
      Bool.not_eq_false _ ▸ hinputs⟩ h

theorem packEntry_take (hcb : transactionIsCoinbase tx.toTransaction = false)
    (hsize : p.blockSize + packedTxSize < maxBlockSize)
    (hsigops : (p.blkSigOps + packedSigOps tx).toNat < maxBlockSigops)
    (hinputs : view.haveInputs tx.toTransaction = true) :
    (packEntry view p tx).vtx = p.vtx ++ [transactionCopy tx] ∧
      (packEntry view p tx).blkSigOps = p.blkSigOps + packedSigOps tx ∧
      (packEntry view p tx).blockSize = p.blockSize + packedTxSize := by
  rw [packEntry, if_neg (by simp [hcb]), if_neg (not_le.mpr hsize), if_neg (not_le.mpr hsigops),
    if_neg (by simp [hinputs])]
  exact ⟨rfl, rfl, rfl⟩

theorem packed_vtx (view : CoinsViewCache) (mempool : List WireTransaction) (p : Packing) (n : ℕ)
    (hsize : p.blockSize = 1000 + packedTxSize * n) :
    (mempool.foldl (packEntry view) p).vtx =
      p.vtx ++ (takenEntries view n p.blkSigOps mempool).map transactionCopy := by
  induction mempool generalizing p n with
  | nil => simp [takenEntries]
  | cons tx rest ih =>
    have hroom : p.blockSize + packedTxSize < maxBlockSize ↔ n < 7995 := by
      rw [hsize, packedTxSize, maxBlockSize]
      omega
    rw [foldl_cons, takenEntries]
    split_ifs with htake
    · obtain ⟨hcb, hlt, hsigops, hinputs⟩ := htake
      obtain ⟨hvtx, hops, hnext⟩ := packEntry_take hcb (hroom.mpr hlt) hsigops hinputs
      rw [ih _ (n + 1) (by rw [hnext, hsize, Nat.mul_succ, Nat.add_assoc]), hvtx, hops,
        map_cons, append_assoc, singleton_append]
    · rw [packEntry_skip (by rwa [hroom]), ih p n hsize]

theorem packMempool_vtx (view : CoinsViewCache) (mempool : List WireTransaction) :
    (packMempool view mempool).vtx = (takenEntries view 0 100 mempool).map transactionCopy :=
  packed_vtx view mempool {} 0 rfl

section Taken

variable (view : CoinsViewCache) (mempool : List WireTransaction)

theorem takenEntries_sublist (n : ℕ) (ops : UInt32) :
    takenEntries view n ops mempool <+ mempool := by
  induction mempool generalizing n ops with
  | nil => exact Sublist.slnil
  | cons tx rest ih =>
    rw [takenEntries]
    split_ifs
    · exact (ih _ _).cons_cons tx
    · exact (ih _ _).cons tx

theorem takenEntries_length_le (n : ℕ) (ops : UInt32) :
    (takenEntries view n ops mempool).length ≤ 7995 - n := by
  induction mempool generalizing n ops with
  | nil => exact Nat.zero_le _
  | cons tx rest ih =>
    rw [takenEntries]
    split_ifs with htake
    · have hlt := htake.2.1
      have hrest := ih (n + 1) (ops + packedSigOps tx)
      rw [length_cons]
      omega
    · exact ih n ops

theorem packedSigOps_toNat {tx : WireTransaction}
    (h : getLegacySigOpCount tx.toTransaction connectFlags + maxBlockSigops ≤ 2 ^ 32) :
    (packedSigOps tx).toNat = getLegacySigOpCount tx.toTransaction connectFlags := by
  have hflags : scriptVerifyP2sh &&& scriptVerifyCheckdatasigSigops =
      connectFlags &&& scriptVerifyCheckdatasigSigops := by decide
  rw [packedSigOps, getLegacySigOpCount_congr _ hflags]
  refine UInt32.toNat_ofNat_of_lt' ?_
  unfold maxBlockSigops at h
  change _ < 2 ^ 32
  omega

/-- The running count is that of the entries taken, which no sum wraps. -/
theorem takenEntries_sigOps (n : ℕ) {ops : UInt32} (hops : ops.toNat < maxBlockSigops)
    (hlegacy : ∀ tx ∈ mempool,
      getLegacySigOpCount tx.toTransaction connectFlags + maxBlockSigops ≤ 2 ^ 32) :
    ops.toNat + legacySigOps ((takenEntries view n ops mempool).map WireTransaction.toTransaction) <
      maxBlockSigops := by
  induction mempool generalizing n ops with
  | nil => exact hops
  | cons tx rest ih =>
    obtain ⟨htx, hrest⟩ := forall_mem_cons.mp hlegacy
    rw [takenEntries]
    split_ifs with htake
    · have hadd : (ops + packedSigOps tx).toNat =
          ops.toNat + getLegacySigOpCount tx.toTransaction connectFlags := by
        rw [UInt32.toNat_add, packedSigOps_toNat htx]
        exact Nat.mod_eq_of_lt (by omega)
      have hnext := ih (n + 1) htake.2.2.1 hrest
      rw [hadd] at hnext
      simp only [legacySigOps, map_cons, sum_cons] at hnext ⊢
      omega
    · exact ih n hops hrest

end Taken

/-- The bytes of the coinbase: an Overwinter or Sapling version writes a number of JoinSplits. -/
def coinbaseSize (params : ConsensusParams) (nHeight : ℤ) (minerScript : Script) : ℕ :=
  64 + compactSizeLength minerScript.size + minerScript.size +
    if consensusNetworkUpgradeActive params nHeight .overwinter ||
      consensusNetworkUpgradeActive params nHeight .sapling then 1 else 0

theorem coinbaseBuild_ok {hash256 : List UInt8 → UInt256} {input : CoinbaseInputs}
    {cb : WireTransaction} (h : coinbaseBuild hash256 input (transactionAlloc 1 1) = .ok cb) :
    ∃ n : ℕ, cb = transactionComputeHash hash256
      (coinbaseWith input (coinbaseScriptSig n [op0] (by decide))) := by
  have hbuild := h
  obtain ⟨_, hheight, h⟩ := bind_eq_ok h
  obtain ⟨hfees, h⟩ := refuseIf_bind_eq_ok.mp h
  obtain ⟨hsubsidy, -⟩ := refuseIf_bind_eq_ok.mp h
  rw [checkCoinbaseHeight, refuseIf_bind_eq_ok, refuseIf_eq_ok_iff, dcbHeightMax] at hheight
  refine ⟨input.nHeight.toNat, ?_⟩
  have heq := coinbaseBuild_eq hash256 (Int.toNat_of_nonneg (not_lt.mp hheight.1)).symm
    (by omega) (Int64.not_lt.mp hfees) (Int64.not_lt.mp hsubsidy)
  rw [heq] at hbuild
  exact (Except.ok.inj hbuild).symm

section Coinbase

variable (hash256 : List UInt8 → UInt256) (input : CoinbaseInputs) (n : ℕ)

theorem coinbaseWith_size :
    transactionSerializeSize (transactionComputeHash hash256
        (coinbaseWith input (coinbaseScriptSig n [op0] (by decide)))).toTransaction =
      coinbaseSize input.params input.nHeight input.minerScript := by
  obtain ⟨version, group, hepoch, heq⟩ := coinbaseWith_eq input
    (coinbaseScriptSig n [op0] (by decide))
  rw [heq]
  change 4 + 0 + (1 + ((32 + 4 + 1 + 5 + 4) + 0)) +
    (1 + ((8 + compactSizeLength input.minerScript.size + input.minerScript.size) + 0)) + 4 + 0 +
    0 + (if 2 ≤ version then 1 + 0 + 0 else 0) + 0 = _
  rw [coinbaseSize]
  cases hepoch with
  | sprout hover hsapling =>
    rw [hover, hsapling, if_neg (by decide), if_neg (by decide)]
    omega
  | overwinter hover hsapling =>
    rw [hover, if_pos (by decide), if_pos (by rw [Bool.true_or])]
    omega
  | sapling hsapling =>
    rw [hsapling, if_pos (by decide), if_pos (by rw [Bool.or_true])]
    omega

theorem coinbaseWith_sigOps (flags : UInt32) :
    getLegacySigOpCount (transactionComputeHash hash256
        (coinbaseWith input (coinbaseScriptSig n [op0] (by decide)))).toTransaction flags =
      scriptGetSigOpCount input.minerScript.data flags false := by
  obtain ⟨version, group, -, heq⟩ := coinbaseWith_eq input
    (coinbaseScriptSig n [op0] (by decide))
  rw [heq]
  change (0 + 0) + (scriptGetSigOpCount input.minerScript.data flags false + 0) = _
  omega

theorem coinbaseWith_outputs (s : Script) :
    ∀ o ∈ (transactionComputeHash hash256 (coinbaseWith input s)).toTransaction.vout,
      o.scriptPubKey = input.minerScript := by
  obtain ⟨version, group, -, heq⟩ := coinbaseWith_eq input s
  rw [heq]
  exact forall_mem_singleton.mpr rfl

theorem coinbaseWith_isCoinbase (s : Script) :
    transactionIsCoinbase
      (transactionComputeHash hash256 (coinbaseWith input s)).toTransaction = true := by
  obtain ⟨version, group, -, heq⟩ := coinbaseWith_eq input s
  rw [heq]
  rfl

end Coinbase

def BlockTemplate.toBlock (bt : BlockTemplate) : Block where
  vtx := bt.vtx.map WireTransaction.toTransaction

/-- What a block of the template has to keep: its transactions' bytes, and their operations over
the coins `S` as `connect_block` counts them. -/
structure BlockTemplate.WithinLimits (bt : BlockTemplate) (S : CoinSet) : Prop where
  size : (bt.vtx.map fun tx => (transactionSerialize tx).length).sum < maxBlockSize
  sigOps : blockSigOps S bt.toBlock ≤ maxBlockSigops

section Limits

variable {env : CheckEnv} {hash256 : List UInt8 → UInt256} {coinbaseScript : Script}
  {index : HeaderIndex} {view : CoinsViewCache} {mempool : List WireTransaction}
  {tip : Option UInt256} {bt : BlockTemplate}

theorem createNewBlock_vtx
    (h : createNewBlock env hash256 coinbaseScript index view mempool tip = some bt) :
    ∃ prev coinbase, tip = some prev ∧
      coinbaseBuild hash256 (templateInputs env coinbaseScript index view mempool prev)
        (transactionAlloc 1 1) = .ok coinbase ∧
      bt.vtx = coinbase :: (takenEntries view 0 100 mempool).map transactionCopy := by
  unfold createNewBlock at h
  split at h
  · cases h
  next prev =>
  split at h
  · cases h
  next coinbase hbuild =>
  cases h
  exact ⟨prev, coinbase, rfl, hbuild, by rw [packMempool_vtx]⟩

/-- A template is the coinbase and the entries taken: these are its bytes and its operations. -/
theorem createNewBlock_totals (S : CoinSet)
    (h : createNewBlock env hash256 coinbaseScript index view mempool tip = some bt) :
    let taken := (takenEntries view 0 100 mempool).map transactionCopy
    let txs := taken.map WireTransaction.toTransaction
    ∃ prev coinbase, (∀ o ∈ coinbase.vout, o.scriptPubKey = coinbaseScript) ∧
      (bt.vtx.map fun tx => (transactionSerialize tx).length).sum =
        coinbaseSize env.params.consensus (index.nHeight prev + 1) coinbaseScript +
          (taken.map fun tx => (transactionSerialize tx).length).sum ∧
      blockSigOps S bt.toBlock =
        scriptGetSigOpCount coinbaseScript.data connectFlags false + legacySigOps txs +
          p2shSigOps S [coinbase] txs := by
  intro taken txs
  obtain ⟨prev, coinbase, -, hbuild, hvtx⟩ := createNewBlock_vtx h
  obtain ⟨n, hcb⟩ := coinbaseBuild_ok hbuild
  -- the coinbase's share of either total
  have hsize : (transactionSerialize coinbase).length =
      coinbaseSize env.params.consensus (index.nHeight prev + 1) coinbaseScript := by
    rw [serialize_length, hcb]
    exact coinbaseWith_size hash256 _ n
  have hlegacy : getLegacySigOpCount coinbase.toTransaction connectFlags =
      scriptGetSigOpCount coinbaseScript.data connectFlags false := by
    rw [hcb]
    exact coinbaseWith_sigOps hash256 _ n connectFlags
  have hp2sh : ∀ prevout, getP2shSigOpCount coinbase.toTransaction prevout connectFlags = 0 := by
    intro prevout
    apply getP2shSigOpCount_coinbase
    rw [hcb]
    exact coinbaseWith_isCoinbase hash256 _ _
  refine ⟨prev, coinbase.toTransaction, ?_, ?_, ?_⟩
  · rw [hcb]
    exact coinbaseWith_outputs hash256 _ _
  · rw [hvtx, map_cons, sum_cons, hsize]
  · rw [blockSigOps, BlockTemplate.toBlock, hvtx, map_cons, legacySigOps, map_cons,
      sum_cons, hlegacy, p2shSigOps, hp2sh, Nat.zero_add, nil_append]
    rfl

/-- What an entry may add to a template: at most `size` bytes and `redeem` operations of redeem
scripts. It may spend outputs of other entries unless they are P2SH outputs. -/
structure EntryWithin (S : CoinSet) (mempool : List WireTransaction) (size redeem : ℕ)
    (tx : WireTransaction) : Prop where
  inputs_le : tx.vin.length ≤ maxTxInputs
  outputs_le : tx.vout.length ≤ maxTxOutputs
  bytes : (transactionSerialize tx).length ≤ size
  legacy : getLegacySigOpCount tx.toTransaction connectFlags + maxBlockSigops ≤ 2 ^ 32
  p2sh : getP2shSigOpCount tx.toTransaction (spentOutput S []) connectFlags ≤ redeem
  parents : ∀ parent ∈ mempool, ∀ i ∈ tx.vin, ∀ o,
    namedOutput parent.toTransaction i.prevout = some o →
      scriptIsPayToScriptHash o.scriptPubKey = false

end Limits

def fundedOutput : TxOut where
  value := 1000
  scriptPubKey := { data := [opHash160, 0x14] ++ replicate 20 0 ++ [opEqual] }

def fundedView : CoinsViewCache where
  base txid := if txid = 2 ∨ txid = 3 then some { vout := [fundedOutput] } else none

def fundedCoins : CoinSet :=
  let coin : Coin := { value := fundedOutput.value, script := fundedOutput.scriptPubKey.data }
  ((∅ : CoinSet).insert ⟨2, 0⟩ coin).insert ⟨3, 0⟩ coin

theorem fundedCoins_lookup (op : Outpoint) : fundedCoins.lookup op = fundedView.coin op := by
  obtain ⟨txid, pos⟩ := op
  have hview : fundedView.coin ⟨txid, pos⟩ =
      ((if txid = 2 ∨ txid = 3 then some { vout := [fundedOutput] } else none).getD {} : Coins).coin
        pos.toNat := rfl
  rw [hview, fundedCoins, Table.lookup_put, Table.lookup_put, Finmap.lookup_empty]
  simp only [Outpoint.mk.injEq]
  by_cases htx : txid = 2 ∨ txid = 3
  · rw [if_pos htx]
    by_cases hpos : pos = 0
    · subst hpos
      rcases htx with rfl | rfl <;> rfl
    · have hlen : [fundedOutput].length ≤ pos.toNat :=
        Nat.one_le_iff_ne_zero.mpr fun h => hpos (UInt32.toNat_inj.mp h)
      rw [if_neg fun h => hpos h.2, if_neg fun h => hpos h.2, Option.getD_some, Coins.coin,
        coinsOutput, getElem?_eq_none hlen]
      rfl
  · rw [if_neg fun h => htx (.inr h.1), if_neg fun h => htx (.inl h.1), if_neg htx]
    rfl

/-- A push of 520 times `OP_CHECKMULTISIG`, each of which counts for 20. -/
def multisigPush : Script where
  data := [opPushdata2, 0x08, 0x02] ++ replicate 520 opCheckmultisig
  size_le := by rw [length_append, length_replicate]; decide

def multisigTransaction : WireTransaction where
  vin := [{ prevout := ⟨2, 0⟩, scriptSig := multisigPush },
    { prevout := ⟨3, 0⟩, scriptSig := multisigPush }]
  vout := [{ value := 1 }]
  hash := 4

def flatIndex : HeaderIndex where
  pprev _ := none
  nHeight _ := 0
  nTime _ := 0
  nBits _ := 0

def fundedTemplate (mempool : List WireTransaction) : Option BlockTemplate :=
  createNewBlock permissiveEnv (fun _ => 0) trueScript flatIndex fundedView mempool (some 1)

/-- Its redeem script and its output have an `OP_CHECKSIG` each. -/
def checksigTransaction (spent hash : UInt256) : WireTransaction where
  vin := [{ prevout := ⟨spent, 0⟩, scriptSig := pushedChecksig }]
  vout := [{ value := 1, scriptPubKey := checksigScript }]
  hash

end ZClassic
