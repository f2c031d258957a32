import ZClassic.Consensus.TxStructural
import ZClassic.Jobs.AppliedChain
import ZClassic.Jobs.VerifiedBlocks

/-!
# Nullifiers of the applied blocks

utxo_apply looks every Sprout nullifier of a block up in `node.db` and records them all after the
block was applied.
-/

namespace ZClassic

open List

def blockSaplingNullifiers (blk : Block) : List UInt256 := blk.vtx.flatMap txSaplingNullifiers

def revealedSapling (w : World) (blocks : List UInt256) : List UInt256 :=
  blocks.flatMap fun b => blockSaplingNullifiers (w.content b)

/-- No two JoinSplits of the blocks share a nullifier, and no two spend descriptions do. -/
structure RevealedOnce (w : World) (blocks : List UInt256) : Prop where
  sprout : (blocks.flatMap fun b => (w.content b).vtx.flatMap (·.vJoinsplit)).Pairwise
    fun js js' => List.Disjoint js.nullifiers.toList js'.nullifiers.toList
  sapling : (blocks.flatMap fun b => (w.content b).vtx.flatMap (·.vShieldedSpend)).Pairwise
    fun sd sd' => sd.nullifier ≠ sd'.nullifier

/-- What utxo_apply does not check: the transactions of `bi` reveal different nullifiers, and its
Sapling nullifiers are not those of a block with a stored delta. -/
structure RevealsFresh (w : World) (db : ProgressStore) (bi : UInt256) : Prop where
  sprout : (w.content bi).vtx.Pairwise fun tx tx' =>
    List.Disjoint (txSproutNullifiers tx) (txSproutNullifiers tx')
  sapling : (w.content bi).vtx.Pairwise fun tx tx' =>
    List.Disjoint (txSaplingNullifiers tx) (txSaplingNullifiers tx')
  unused : ∀ h row, db.utxoApplyDelta.lookup h = some row →
    List.Disjoint (blockSaplingNullifiers (w.content row.branchHash))
      (blockSaplingNullifiers (w.content bi))

/-- The node database is open, and the active block above the unwound chain reveals fresh
nullifiers. -/
def OffersFresh (w : World) (node : Node) : ApplyAction → Prop
  | .utxoApply env => env.nodeDbOpen = true ∧
      ∀ db bi, utxoApplyReorgUnwindIfNeeded env.author env.unwindCommits node = some db →
        activeChainAt node.chain (db.cursor .utxoApply) = some bi → RevealsFresh w db bi
  | .elsewhere _ _ _ _ => True

def ChecksPass (w : World) : Prop := ∀ b, ∀ tx ∈ (w.content b).vtx, checkTransaction tx = .ok ()

variable {w : World} {env : UtxoApplyEnv} {node : Node} {blocks : List UInt256}

theorem revealedOnce_of_nodup (hsprout : (revealedSprout w blocks).Nodup)
    (hsapling : (revealedSapling w blocks).Nodup) : RevealedOnce w blocks := by
  constructor
  · have heq : revealedSprout w blocks =
        (blocks.flatMap fun b => (w.content b).vtx.flatMap (·.vJoinsplit)).flatMap
          fun js => js.nullifiers.toList := by
      simp only [revealedSprout, blockSproutNullifiers, flatMap_assoc]
      rfl
    rw [heq] at hsprout
    exact (nodup_flatMap.mp hsprout).2
  · have heq : revealedSapling w blocks =
        (blocks.flatMap fun b => (w.content b).vtx.flatMap (·.vShieldedSpend)).map
          (·.nullifier) := by
      simp only [revealedSapling, blockSaplingNullifiers, map_flatMap]
      rfl
    rw [heq] at hsapling
    exact pairwise_map.mp hsapling

variable {db : ProgressStore} {bi : UInt256}

theorem ChecksPass.block_nodup (hcheck : ChecksPass w) (h : RevealsFresh w db bi) :
    (blockSproutNullifiers (w.content bi)).Nodup ∧
      (blockSaplingNullifiers (w.content bi)).Nodup := by
  have hduplicates := fun tx htx =>
    checkDuplicates_eq_ok_iff.mp (checkTransaction_eq_ok (hcheck bi tx htx)).2.2.2.1
  exact ⟨nodup_flatMap.mpr ⟨fun tx htx => (hduplicates tx htx).2.1, h.sprout⟩,
    nodup_flatMap.mpr ⟨fun tx htx => (hduplicates tx htx).2.2, h.sapling⟩⟩

/-- The invariant of a run: what the applied blocks reveal is different, and `node.db` holds the
Sprout part of it. -/
structure Revealed (w : World) (node : Node) (blocks : List UInt256) : Prop where
  applied : AppliedBlocks node.db blocks
  sprout : (revealedSprout w blocks).Nodup
  sapling : (revealedSapling w blocks).Nodup
  recorded : Recorded w node blocks

theorem Revealed.take (h : Revealed w node blocks) {n : ℕ} {node' : Node}
    (hdb : AppliedBlocks node'.db (blocks.take n))
    (hsub : node.sproutNullifiers ⊆ node'.sproutNullifiers) :
    Revealed w node' (blocks.take n) where
  applied := hdb
  sprout := h.sprout.sublist ((take_sublist n blocks).flatMap _)
  sapling := h.sapling.sublist ((take_sublist n blocks).flatMap _)
  recorded := h.recorded.take hsub

theorem Revealed.append (hcheck : ChecksPass w) (h : Revealed w node blocks) {k : ℕ}
    (haccepts : Accepts w env node k bi) (hk : k = node.db.cursor .utxoApply)
    (hopen : env.nodeDbOpen = true) (hfate : env.fate = .commits)
    (hfresh : RevealsFresh w node.db bi) :
    Revealed w (appliedNode w env k bi node) (blocks ++ [bi]) := by
  have hsapling : revealedSapling w (blocks ++ [bi]) =
      revealedSapling w blocks ++ blockSaplingNullifiers (w.content bi) := by
    simp [revealedSapling]
  refine ⟨h.applied.apply hk bi, ?_, ?_, h.recorded.apply hopen hfate k bi⟩
  · rw [revealedSprout_append]
    refine h.sprout.append (hcheck.block_nodup hfresh).1 ?_
    -- the lookup in `node.db` keeps the new block apart from the applied ones
    intro nf hold hnew
    have hconflict := haccepts.fresh
    rw [hopen] at hconflict
    exact nullifierConflict_eq_none_iff.mp hconflict nf hnew (h.recorded nf hold)
  · rw [hsapling]
    refine h.sapling.append (hcheck.block_nodup hfresh).2 ?_
    intro nf hold hnew
    obtain ⟨b, hb, hnf⟩ := mem_flatMap.mp hold
    obtain ⟨i, hi, rfl⟩ := getElem_of_mem hb
    obtain ⟨row, hrow, hhash⟩ := h.applied.exists_row (getElem?_eq_getElem hi)
    rw [← hhash] at hnf
    exact hfresh.unused i row hrow hnf hnew

theorem Revealed.utxoApply (hcheck : ChecksPass w) (h : Revealed w node blocks)
    (hok : OffersFresh w node (.utxoApply env)) :
    ∃ blocks', Revealed w (utxoApplyStageStepOnce w env node).node blocks' := by
  obtain ⟨hopen, hoffers⟩ := hok
  rcases utxoApply_cases w env node with ⟨-, hnode⟩ | ⟨db, hunwind, hcases⟩
  · rw [hnode]
    exact ⟨blocks, h⟩
  obtain ⟨n, hn, hdb, -⟩ := h.applied.unwind hunwind
  rcases hcases with ⟨-, hnode⟩ | ⟨k, bi, haccepts, ⟨-, -, hnode⟩ | ⟨-, hfate, -, hnode⟩⟩
  · rw [hnode]
    exact ⟨_, h.take hdb (Finset.Subset.refl _)⟩
  · rw [hnode]
    exact ⟨_, h.take hdb (subset_recordNullifiers _ _ _)⟩
  · rw [hnode]
    have hk := haccepts.eq_cursor (unwind_cursor_lt hunwind)
    have hactive := readActiveBlock_some haccepts.active
    rw [hk] at hactive
    have hunwound : Revealed w { node with db } (blocks.take n) :=
      h.take hdb (Finset.Subset.refl _)
    exact ⟨_, hunwound.append hcheck haccepts hk hopen hfate (hoffers db bi hunwind hactive)⟩

/-- If every block that is offered to utxo_apply reveals fresh nullifiers, then at every point of
a run no nullifier is revealed twice by the blocks that are applied. -/
theorem appliedBlocks_revealedOnce (w : World) (hcheck : ChecksPass w) (acts : List ApplyAction)
    (hok : MeetsAll (applyStep w) (OffersFresh w) {} acts) :
    ∃ blocks, AppliedBlocks (run (applyStep w) {} acts).db blocks ∧ RevealedOnce w blocks := by
  have hinit : ∃ blocks, Revealed w {} blocks :=
    ⟨[], ⟨rfl, fun _ => rfl⟩, nodup_nil, nodup_nil, nofun⟩
  have hstep : ∀ node a, (∃ blocks, Revealed w node blocks) → OffersFresh w node a →
      ∃ blocks, Revealed w (applyStep w node a) blocks := by
    rintro node a ⟨blocks, h⟩ ha
    cases a with
    | utxoApply env => exact h.utxoApply hcheck ha
    | elsewhere chain nStatus proofCursor proofLog =>
      exact ⟨blocks, h.applied.elsewhere _ _ _ _, h.sprout, h.sapling, h.recorded⟩
  obtain ⟨blocks, h⟩ := run_invariant (fun node => ∃ blocks, Revealed w node blocks) hstep hinit hok
  exact ⟨blocks, h.applied, revealedOnce_of_nodup h.sprout h.sapling⟩

def revealTx (hash nf nf' spend : UInt256) : Transaction where
  version := 2
  vJoinsplit := [{ nullifiers := #v[nf, nf'] }]
  vShieldedSpend := [{ nullifier := spend }]
  hash

/-- Every hash is a block at height 0 with a coinbase and the given transactions. -/
def revealWorld (txs : List Transaction) : World :=
  { soloWorld with content := fun _ => ⟨zeroCoinbase 1 :: txs⟩ }

def offer (b : UInt256) : ApplyAction :=
  .elsewhere (soloChain b) (fun _ => blockHaveData) 1
    (Finmap.singleton 0 { status := .verified, ok := true })

def reuseTxs : List Transaction := [revealTx 2 5 6 8, revealTx 3 5 7 8]

theorem offer_applied {txs : List Transaction}
    (hadvanced : (utxoApplyStageStepOnce (revealWorld txs) {}
      (run (applyStep (revealWorld txs)) {} [offer 1])).result = .advanced)
    (hblock : (utxoApplyStageStepOnce (revealWorld txs) {}
      (run (applyStep (revealWorld txs)) {} [offer 1])).block = some 1) :
    AppliedBlocks (run (applyStep (revealWorld txs)) {} [offer 1, .utxoApply {}]).db [1] := by
  have hstart : AppliedBlocks (run (applyStep (revealWorld txs)) {} [offer 1]).db [] :=
    AppliedBlocks.elsewhere (w := revealWorld txs) ⟨rfl, fun _ => rfl⟩ _ _ _ _
  exact hstart.first hadvanced hblock

/-- Both transactions pass, and the block that holds them is applied, with Sprout nullifier 5 and
Sapling nullifier 8 revealed twice. -/
theorem reusedNullifier_applied :
    ChecksPass (revealWorld reuseTxs) ∧
      AppliedBlocks (run (applyStep (revealWorld reuseTxs)) {} [offer 1, .utxoApply {}]).db [1] ∧
      (revealedSprout (revealWorld reuseTxs) [1]).count 5 = 2 ∧
      (revealedSapling (revealWorld reuseTxs) [1]).count 8 = 2 ∧
      ¬RevealedOnce (revealWorld reuseTxs) [1] := by
  refine ⟨?_, offer_applied (by decide) (by decide), by decide, by decide, ?_⟩
  · have hcheck : ∀ tx ∈ zeroCoinbase 1 :: reuseTxs, checkTransaction tx = .ok () := by decide
    exact fun _ => hcheck
  · intro h
    exact absurd h.sapling (by decide)

theorem freshNullifiers_revealedOnce :
    let acts := [offer 1, .utxoApply {}]
    let w := revealWorld [revealTx 2 5 6 8]
    (run (applyStep w) {} acts).db.cursor .utxoApply = 1 ∧
      ∃ blocks, AppliedBlocks (run (applyStep w) {} acts).db blocks ∧ RevealedOnce w blocks := by
  have hcheck : ∀ tx ∈ zeroCoinbase 1 :: [revealTx 2 5 6 8], checkTransaction tx = .ok () := by
    decide
  refine ⟨by decide, appliedBlocks_revealedOnce (revealWorld [revealTx 2 5 6 8]) (fun _ => hcheck)
    [offer 1, .utxoApply {}] ⟨trivial, ⟨rfl, ?_⟩, trivial⟩⟩
  intro db bi hdb hbi
  -- nothing is applied yet, so there is nothing to unwind
  cases (show _ = some _ from hdb.symm).trans rfl
  refine ⟨?_, ?_, ?_⟩
  · simp [revealWorld, zeroCoinbase, txSproutNullifiers]
  · simp [revealWorld, zeroCoinbase, txSaplingNullifiers]
  · intro h row hrow
    cases hrow

end ZClassic
