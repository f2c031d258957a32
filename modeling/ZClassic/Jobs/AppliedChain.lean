import ZClassic.Jobs.UtxoApplyStage

/-!
# The applied chain

What utxo_apply is for, seen from outside: a list of blocks, of which a step drops some from the end
and to which it may append the active block of the next height.
-/

namespace ZClassic

open List

/-- The stored deltas are those of `blocks`, from height 0 up to the cursor. -/
structure AppliedBlocks (db : ProgressStore) (blocks : List UInt256) : Prop where
  cursor : db.cursor .utxoApply = blocks.length
  delta : ∀ h, (db.utxoApplyDelta.lookup h).map UtxoApplyDeltaRow.branchHash = blocks[h]?

/-- The active chain shows the last of the blocks, or nothing, at its height. -/
def TopActive (chain : ActiveChain) (blocks : List UInt256) : Prop :=
  ∀ h bi, blocks.length = h + 1 → activeChainAt chain h = some bi → blocks[h]? = some bi

variable {w : World} {env : UtxoApplyEnv} {node : Node} {blocks : List UInt256}

variable {db : ProgressStore} {h : ℕ} {b : UInt256}

section

variable (ha : AppliedBlocks db blocks)

include ha

theorem AppliedBlocks.of_lookup {row : UtxoApplyDeltaRow}
    (hrow : db.utxoApplyDelta.lookup h = some row) : blocks[h]? = some row.branchHash := by
  rw [← ha.delta h, hrow, Option.map_some]

theorem AppliedBlocks.exists_row (hb : blocks[h]? = some b) :
    ∃ row, db.utxoApplyDelta.lookup h = some row ∧ row.branchHash = b := by
  rw [← ha.delta h] at hb
  exact Option.map_eq_some_iff.mp hb

theorem AppliedBlocks.rewind (S : CoinSet) {lo : ℕ}
    (hlo : lo ≤ blocks.length) :
    AppliedBlocks (rewindUtxoApply { db with coins := S } lo (db.cursor .utxoApply))
      (blocks.take lo) where
  cursor := by simp [hlo]
  delta h := by
    rw [rewindUtxoApply_delta, ha.cursor, getElem?_take]
    change (if lo ≤ h ∧ h < blocks.length then none else db.utxoApplyDelta.lookup h).map _ = _
    by_cases hlt : h < lo
    · rw [if_neg (by omega), if_pos hlt, ha.delta h]
    · rw [if_neg hlt]
      by_cases hh : h < blocks.length
      · rw [if_pos ⟨by omega, hh⟩, Option.map_none]
      · rw [if_neg (by omega), ha.delta h]
        exact getElem?_eq_none (by omega)

end

theorem forkPlus1_matches {n h : ℕ} (hfork : forkPlus1 node n = h + 1) :
    deltaMatches node h = true := by
  induction n with
  | zero => cases hfork
  | succ n ih =>
    rw [forkPlus1] at hfork
    split_ifs at hfork with hmatch
    · cases hfork
      exact hmatch
    · exact ih hfork

section

variable (ha : AppliedBlocks node.db blocks)

include ha

theorem deltaMatches_eq {bi : UInt256}
    (hmatch : deltaMatches node h = true) (hbi : activeChainAt node.chain h = some bi) :
    blocks[h]? = some bi := by
  unfold deltaMatches at hmatch
  cases hrow : node.db.utxoApplyDelta.lookup h with
  | none => rw [hrow] at hmatch; cases hmatch
  | some row =>
    rw [hrow, hbi] at hmatch
    rw [ha.of_lookup hrow, eq_of_beq hmatch]

theorem AppliedBlocks.unwind {author : UtxoAuthor} {commits : Bool}
    (hdb : utxoApplyReorgUnwindIfNeeded author commits node = some db) :
    ∃ n ≤ blocks.length, AppliedBlocks db (blocks.take n) ∧
      TopActive node.chain (blocks.take n) := by
  rcases unwindIfNeeded_some hdb with ⟨rfl, hclean⟩ | ⟨hpos, -, hunwind⟩
  · refine ⟨blocks.length, le_rfl, ?_, ?_⟩
    · rwa [take_length]
    · rw [take_length]
      intro h bi hlen hbi
      rcases hclean with hzero | ⟨-, hclean⟩
      · rw [ha.cursor] at hzero
        omega
      · obtain ⟨row, hrow, hhash⟩ :=
          ha.exists_row (getElem?_eq_getElem (show h < blocks.length by omega))
        rw [ha.of_lookup hrow]
        rw [ha.cursor, hlen, Nat.add_sub_cancel] at hclean
        rw [hclean row bi hrow hbi]
  · obtain ⟨S, rfl⟩ := unwindTransaction_some hunwind
    have hle := forkPlus1_le node (node.db.cursor .utxoApply - 1)
    have hlen := ha.cursor
    refine ⟨_, by omega, ha.rewind S (by omega), ?_⟩
    intro h bi htake hbi
    rw [length_take, Nat.min_eq_left (by omega)] at htake
    rw [getElem?_take, if_pos (by omega)]
    exact deltaMatches_eq ha (forkPlus1_matches htake) hbi

theorem AppliedBlocks.apply (hh : h = node.db.cursor .utxoApply)
    (bi : UInt256) :
    AppliedBlocks (appliedNode w env h bi node).db (blocks ++ [bi]) where
  cursor := by
    rw [appliedNode, ProgressStore.cursor_setCursor, if_pos rfl, ha.cursor, length_append,
      length_singleton]
  delta k := by
    refine (congrArg (Option.map UtxoApplyDeltaRow.branchHash)
      (lookup_applyToStore_delta w env.author (node.db.cursor .utxoApply) h bi node.db k)).trans ?_
    rw [hh, ha.cursor]
    by_cases hk : k = blocks.length
    · subst hk
      simp
    · rw [if_neg hk, ha.delta k, getElem?_append]
      split_ifs with hlt
      · rfl
      · rw [getElem?_eq_none (by omega), getElem?_eq_none (by simp; omega)]

end

/-- One step on the list of blocks: some are dropped from the end until the active chain shows the
last one, and at most one is appended, the active block of its height. -/
theorem utxoApply_applied (w : World) (env : UtxoApplyEnv) (ha : AppliedBlocks node.db blocks) :
    let out := utxoApplyStageStepOnce w env node
    ∃ n ≤ blocks.length, out.result ≠ .advanced ∧ AppliedBlocks out.node.db (blocks.take n) ∨
      ∃ bi, out.result = .advanced ∧ out.block = some bi ∧ TopActive node.chain (blocks.take n) ∧
        activeChainAt node.chain n = some bi ∧
        AppliedBlocks out.node.db (blocks.take n ++ [bi]) := by
  intro out
  rcases utxoApply_cases w env node with ⟨hne, hnode⟩ | ⟨db, hunwind, hcases⟩
  · rw [hnode]
    exact ⟨blocks.length, le_rfl, .inl ⟨hne, by rwa [take_length]⟩⟩
  obtain ⟨n, hn, hdb, htop⟩ := ha.unwind hunwind
  refine ⟨n, hn, ?_⟩
  rcases hcases with ⟨hne, hnode⟩ | ⟨h, bi, haccepts, ⟨hne, -, hnode⟩ | ⟨hadv, -, hblock, hnode⟩⟩
  · rw [hnode]
    exact .inl ⟨hne, hdb⟩
  · rw [hnode]
    exact .inl ⟨hne, hdb⟩
  · rw [hnode]
    have hcursor : h = db.cursor .utxoApply := haccepts.eq_cursor (unwind_cursor_lt hunwind)
    have hlen : db.cursor .utxoApply = n := by
      rw [hdb.cursor, length_take, Nat.min_eq_left hn]
    have hactive := readActiveBlock_some haccepts.active
    rw [hcursor, hlen] at hactive
    exact .inr ⟨bi, hadv, hblock, htop, hactive, hdb.apply hcursor bi⟩

theorem AppliedBlocks.first (ha : AppliedBlocks node.db [])
    (hadvanced : (utxoApplyStageStepOnce w env node).result = .advanced)
    (hblock : (utxoApplyStageStepOnce w env node).block = some b) :
    AppliedBlocks (utxoApplyStageStepOnce w env node).node.db [b] := by
  obtain ⟨n, -, ⟨hne, -⟩ | ⟨bi, -, hbi, -, -, hdb⟩⟩ := utxoApply_applied w env ha
  · exact absurd hadvanced hne
  · rw [hblock, Option.some.injEq] at hbi
    rwa [take_nil, ← hbi] at hdb

def revealedSprout (w : World) (blocks : List UInt256) : List UInt256 :=
  blocks.flatMap fun b => blockSproutNullifiers (w.content b)

theorem revealedSprout_append (w : World) (blocks : List UInt256) (bi : UInt256) :
    revealedSprout w (blocks ++ [bi]) =
      revealedSprout w blocks ++ blockSproutNullifiers (w.content bi) := by
  simp [revealedSprout]

/-- `node.db` holds every Sprout nullifier that the blocks reveal. -/
def Recorded (w : World) (node : Node) (blocks : List UInt256) : Prop :=
  ∀ nf ∈ revealedSprout w blocks, nf ∈ node.sproutNullifiers

theorem Recorded.take (h : Recorded w node blocks) {n : ℕ} {node' : Node}
    (hsub : node.sproutNullifiers ⊆ node'.sproutNullifiers) : Recorded w node' (blocks.take n) := by
  intro nf hnf
  apply hsub
  apply h nf
  exact ((take_sublist n blocks).flatMap _).subset hnf

theorem Recorded.apply (h : Recorded w node blocks) (hopen : env.nodeDbOpen = true)
    (hfate : env.fate = .commits) (k : ℕ) (bi : UInt256) :
    Recorded w (appliedNode w env k bi node) (blocks ++ [bi]) := by
  intro nf hnf
  rw [revealedSprout_append, mem_append] at hnf
  rcases hnf with hold | hnew
  · exact subset_recordNullifiers env _ _ (h nf hold)
  · exact mem_recordNullifiers hopen hfate _ hnew

inductive ApplyAction where
  | utxoApply (env : UtxoApplyEnv)
  /-- anything that the chain and the stages before utxo_apply do -/
  | elsewhere (chain : ActiveChain) (nStatus : UInt256 → UInt32) (proofCursor : ℕ)
      (proofLog : Table ℕ ProofValidateRow)

def applyStep (w : World) (node : Node) : ApplyAction → Node
  | .utxoApply env => (utxoApplyStageStepOnce w env node).node
  | .elsewhere chain nStatus proofCursor proofLog =>
    { node with
      chain
      nStatus
      db := { node.db with proofValidateLog := proofLog }.setCursor .proofValidate proofCursor }

theorem AppliedBlocks.elsewhere (ha : AppliedBlocks node.db blocks) (chain : ActiveChain)
    (nStatus : UInt256 → UInt32) (proofCursor : ℕ) (proofLog : Table ℕ ProofValidateRow) :
    AppliedBlocks (applyStep w node (.elsewhere chain nStatus proofCursor proofLog)).db blocks where
  cursor := by
    refine (ProgressStore.cursor_setCursor _ _ _ _).trans ?_
    rw [if_neg nofun]
    exact ha.cursor
  delta := ha.delta

end ZClassic
