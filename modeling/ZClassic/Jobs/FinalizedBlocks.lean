import ZClassic.Jobs.AppliedChain
import ZClassic.Jobs.DoubleSpend
import ZClassic.Jobs.TipFinalizeStage

/-!
# Finalized blocks and applied blocks

utxo_apply and tip_finalize notice a reorganisation independently of each other.
-/

namespace ZClassic

open List

inductive FinalizeAction where
  | utxoApply (env : UtxoApplyEnv)
  | tipFinalize (env : TipFinalizeEnv)
  | moveTip (bi : Option UInt256)
  | extendWindow (bi : Option UInt256)
  /-- anything that happens before utxo_apply -/
  | upstream (proofCursor : ℕ) (proofLog : Table ℕ ProofValidateRow)
      (scriptLog : Table ℕ ScriptValidateRow) (nStatus : UInt256 → UInt32)

def finalizeStep (w : World) (node : Node) : FinalizeAction → Node
  | .utxoApply env => (utxoApplyStageStepOnce w env node).node
  | .tipFinalize env => (tipFinalizeStageStepOnce w env node).node
  | .moveTip bi => { node with chain := activeChainMoveWindowTip w.index node.chain bi }
  | .extendWindow bi => { node with chain := activeChainExtendWindow w.index node.chain bi }
  | .upstream proofCursor proofLog scriptLog nStatus =>
    { node with
      db := { node.db with
        proofValidateLog := proofLog
        scriptValidateLog := scriptLog }.setCursor .proofValidate proofCursor
      nStatus := nStatus }

structure Unapplied (node : Node) : Prop where
  cursor : node.db.cursor .utxoApply = 0
  delta : node.db.utxoApplyDelta = ∅
  chain : node.chain.height = -1

/-- At the highest height that both the applied range and the active chain cover, the stored delta
is the one of the active block. -/
def TopAgrees (node : Node) : Prop :=
  ∀ h row bi, node.db.utxoApplyDelta.lookup h = some row → activeChainAt node.chain h = some bi →
    (node.db.cursor .utxoApply = h + 1 ∨ activeChainAt node.chain (h + 1) = none) →
    row.branchHash = bi

/-- tip_finalize runs only while the top of the common range agrees. -/
def FinalizesInStep (node : Node) : FinalizeAction → Prop
  | .tipFinalize _ => TopAgrees node
  | _ => True

def BlockIndex.Path (index : BlockIndex) (blocks : List UInt256) : Prop :=
  ∀ i b, blocks[i + 1]? = some b → blocks[i]? = index.pprev b

/-- Both chains are paths of the block index. -/
structure PathsAgree (w : World) (node : Node) (blocks : List UInt256) : Prop where
  window : w.index.Window node.chain
  applied : AppliedBlocks node.db blocks
  path : w.index.Path blocks

variable {w : World} {node : Node} {blocks : List UInt256}

theorem Unapplied.pathsAgree (h : Unapplied node) : PathsAgree w node [] where
  window := .inl h.chain
  applied := by
    refine ⟨h.cursor, fun k => ?_⟩
    rw [h.delta]
    rfl
  path i b hb := by cases hb

variable {index : BlockIndex}

theorem BlockIndex.Path.take (h : index.Path blocks) (n : ℕ) : index.Path (blocks.take n) := by
  intro i b hb
  rw [getElem?_take] at hb ⊢
  split_ifs at hb with hi
  rw [if_pos (by omega)]
  exact h i b hb

theorem BlockIndex.Path.append {chain : ActiveChain} (h : index.Path blocks)
    (hidx : index.Gapless) (hwindow : index.Window chain) (htop : TopActive chain blocks)
    {bi : UInt256} (hbi : activeChainAt chain blocks.length = some bi) :
    index.Path (blocks ++ [bi]) := by
  intro i b hb
  rw [getElem?_append] at hb
  split_ifs at hb with hi
  · rw [getElem?_append_left (by omega)]
    exact h i b hb
  · have hlen : i + 1 = blocks.length := by
      by_contra hne
      rw [getElem?_eq_none (by simp; omega)] at hb
      cases hb
    have hb' : b = bi := by
      rw [hlen, Nat.sub_self] at hb
      exact (Option.some.inj hb).symm
    subst hb'
    obtain ⟨p, hp, -⟩ :=
      hidx.exists_pprev (show index.nHeight b = i + 1 from hlen ▸ hwindow.nHeight_at hidx hbi)
    have hat : activeChainAt chain i = some p := by
      rw [hwindow.at_below hbi (by omega), show blocks.length - i = 1 by omega,
        BlockIndex.ancestor, hp]
      rfl
    rw [getElem?_append_left (by omega), hp]
    exact htop i p hlen.symm hat

section

variable (hidx : w.index.Gapless) (h : PathsAgree w node blocks)

include hidx h

theorem PathsAgree.utxoApply
    (env : UtxoApplyEnv) :
    ∃ n ≤ blocks.length,
      PathsAgree w (finalizeStep w node (.utxoApply env)) (blocks.take n) ∨
        ∃ bi, activeChainAt node.chain n = some bi ∧
          PathsAgree w (finalizeStep w node (.utxoApply env)) (blocks.take n ++ [bi]) := by
  have hchain := (utxoApply_elsewhere w env node).2
  obtain ⟨n, hn, ⟨-, hdb⟩ | ⟨bi, -, -, htop, hactive, hdb⟩⟩ :=
    utxoApply_applied w env h.applied
  · exact ⟨n, hn, .inl ⟨hchain ▸ h.window, hdb, h.path.take n⟩⟩
  · refine ⟨n, hn, .inr ⟨bi, hactive, hchain ▸ h.window, hdb, ?_⟩⟩
    apply (h.path.take n).append hidx h.window htop
    rwa [length_take, Nat.min_eq_left hn]

theorem PathsAgree.elsewhere
    {a : FinalizeAction} (ha : ∀ env, a ≠ .utxoApply env) :
    PathsAgree w (finalizeStep w node a) blocks := by
  cases a with
  | utxoApply env => exact absurd rfl (ha env)
  | tipFinalize env =>
    obtain ⟨hwrites, hchain, -⟩ := tipFinalize_cases w env node
    have hsame := hwrites.same
    refine ⟨?_, ⟨hsame.cursor.trans h.applied.cursor, ?_⟩, h.path⟩
    · rcases hchain with hchain | ⟨k, newTip, -, hchain⟩
      · exact hchain ▸ h.window
      · exact hchain ▸ moveWindowTip_window hidx h.window _
    · intro k
      exact hsame.utxoApplyDelta ▸ h.applied.delta k
  | moveTip bi => exact ⟨moveWindowTip_window hidx h.window bi, h.applied, h.path⟩
  | extendWindow bi => exact ⟨extendWindow_window hidx h.window bi, h.applied, h.path⟩
  | upstream proofCursor proofLog scriptLog nStatus =>
    refine ⟨h.window, ⟨?_, h.applied.delta⟩, h.path⟩
    exact (ProgressStore.cursor_setCursor _ _ _ _).trans h.applied.cursor

theorem PathsAgree.step
    (a : FinalizeAction) : ∃ blocks', PathsAgree w (finalizeStep w node a) blocks' := by
  by_cases ha : ∃ env, a = .utxoApply env
  · obtain ⟨env, rfl⟩ := ha
    obtain ⟨n, -, hcut | ⟨bi, -, happended⟩⟩ := h.utxoApply hidx env
    · exact ⟨_, hcut⟩
    · exact ⟨_, happended⟩
  · exact ⟨blocks, h.elsewhere hidx (not_exists.mp ha)⟩

end

theorem PathsAgree.agree (h : PathsAgree w node blocks) (htop : TopAgrees node) {k : ℕ}
    {b bi : UInt256} (hb : blocks[k]? = some b) (hbi : activeChainAt node.chain k = some bi) :
    b = bi := by
  have hk : k < blocks.length := (List.getElem?_eq_some_iff.mp hb).1
  induction hd : blocks.length - k generalizing k b bi with
  | zero => omega
  | succ d ih =>
    obtain ⟨row, hrow, rfl⟩ := h.applied.exists_row hb
    by_cases hlast : blocks.length = k + 1
    · exact htop k row bi hrow hbi (.inl (h.applied.cursor.trans hlast))
    · cases hnext : activeChainAt node.chain (k + 1) with
      | none => exact htop k row bi hrow hbi (.inr hnext)
      | some bi' =>
        have hk' : k + 1 < blocks.length := by omega
        have hb' := getElem?_eq_getElem hk'
        have heq := ih hb' hnext hk' (by omega)
        have hpath := h.path k _ hb'
        rw [hb, heq] at hpath
        have hat := h.window.at_below hnext (Nat.le_succ k)
        rw [show k + 1 - k = 1 by omega, BlockIndex.ancestor, ← hpath, Option.bind_some,
          BlockIndex.ancestor, hbi, Option.some.injEq] at hat
        exact hat.symm

/-- On a block index without gaps, if tip_finalize runs only while the top of the common range
agrees, then a block that it finalizes is the one that is applied at that height. -/
theorem tipFinalize_finalizes_applied (w : World) (hidx : w.index.Gapless) (node₀ : Node)
    (hstart : Unapplied node₀) (acts : List FinalizeAction) (env : TipFinalizeEnv)
    (hok : MeetsAll (finalizeStep w) FinalizesInStep node₀ (acts ++ [.tipFinalize env])) :
    let node := run (finalizeStep w) node₀ acts
    let out := tipFinalizeStageStepOnce w env node
    ∀ H row B, out.result = .advanced → out.node.db.cursor .tipFinalize = H + 1 →
      out.node.db.tipFinalizeLog.lookup H = some row → row.ok = true →
      activeChainAt node.chain H = some B →
      ∃ drow, out.node.db.utxoApplyDelta.lookup H = some drow ∧ drow.branchHash = B := by
  intro node out H row B hadv hcursor _ _ hB
  obtain ⟨hacts, htop, -⟩ := meetsAll_append.mp hok
  obtain ⟨blocks, hpaths⟩ : ∃ blocks, PathsAgree w node blocks :=
    run_invariant (fun node => ∃ blocks, PathsAgree w node blocks)
      (fun _ a h _ => h.elim fun _ h => h.step hidx a) ⟨[], hstart.pathsAgree⟩ hacts
  obtain ⟨hwrites, -, hbelow⟩ := tipFinalize_cases w env node
  obtain ⟨h, hlt, hcursor'⟩ := hbelow hadv
  have hH : H = h := by
    have := hcursor.symm.trans hcursor'
    omega
  rw [hpaths.applied.cursor, ← hH] at hlt
  have hb := getElem?_eq_getElem hlt
  obtain ⟨drow, hdrow, hhash⟩ := hpaths.applied.exists_row hb
  refine ⟨drow, hwrites.same.utxoApplyDelta ▸ hdrow, ?_⟩
  rw [hhash]
  exact hpaths.agree htop hb hB

def forkWorld : World where
  params := mainParams
  index := forkIndex
  content := fun b => ⟨[zeroCoinbase b]⟩

/-- Heights 0 and 1 have passed proof_validate, and every block has its data and is script-valid. -/
def forkUpstream : FinalizeAction :=
  .upstream 2 ((Finmap.singleton 0 { status := .verified, ok := true }).insert 1
    { status := .verified, ok := true }) ∅ fun _ => blockHaveData ||| blockValidScripts

/-- Blocks 1 and 2 are applied, the chain switches to 1, 3, 4 and tip_finalize runs before
utxo_apply unwinds: it finalizes block 3 at height 1, where block 2 is applied. -/
theorem forkedBlock_finalized :
    let node := run (finalizeStep forkWorld) {} [forkUpstream, .moveTip (some 2), .utxoApply {},
      .utxoApply {}, .moveTip (some 4), .tipFinalize {}, .extendWindow (some 4)]
    let out := tipFinalizeStageStepOnce forkWorld {} node
    out.result = .advanced ∧ out.node.db.cursor .tipFinalize = 2 ∧
      (out.node.db.tipFinalizeLog.lookup 1).map TipFinalizeRow.ok = some true ∧
      activeChainAt node.chain 1 = some 3 ∧
      (out.node.db.utxoApplyDelta.lookup 1).map UtxoApplyDeltaRow.branchHash = some 2 := by
  decide

/-- The delta rows fill the heights below the cursor and follow an index path. -/
theorem appliedRows_linked (w : World) (hidx : w.index.Gapless) (node₀ : Node)
    (hstart : Unapplied node₀) (acts : List FinalizeAction) (h : ℕ) :
    let db := (run (finalizeStep w) node₀ acts).db
    ((db.utxoApplyDelta.lookup h).isSome = true ↔ h < db.cursor .utxoApply) ∧
      ∀ row, db.utxoApplyDelta.lookup (h + 1) = some row →
        (db.utxoApplyDelta.lookup h).map UtxoApplyDeltaRow.branchHash =
          w.index.pprev row.branchHash := by
  obtain ⟨blocks, -, happlied, hpath⟩ : ∃ bs, PathsAgree w (run (finalizeStep w) node₀ acts) bs :=
    foldlRecOn (motive := fun node => ∃ bs, PathsAgree w node bs) acts (finalizeStep w)
      ⟨[], hstart.pathsAgree⟩ fun _ h a _ => h.elim fun _ h => h.step hidx a
  refine ⟨?_, fun row hrow => ?_⟩
  · rw [← Option.isSome_map, happlied.delta, happlied.cursor, isSome_getElem?]
  · rw [happlied.delta]
    exact hpath h _ (happlied.of_lookup hrow)

theorem appliedRows_linked_fork :
    ((run (finalizeStep forkWorld) {} [forkUpstream, .moveTip (some 2), .utxoApply {},
      .utxoApply {}]).db.utxoApplyDelta.lookup 1).isSome = true :=
  (appliedRows_linked forkWorld forkIndex_gapless {} ⟨rfl, rfl, rfl⟩ _ 1).1.mpr (by decide)

def inStepRun : List FinalizeAction := [forkUpstream, .moveTip (some 3), .utxoApply {}]

theorem inStepRun_applied : AppliedBlocks (run (finalizeStep forkWorld) {} inStepRun).db [1] := by
  have hstart : AppliedBlocks (run (finalizeStep forkWorld) {} [forkUpstream, .moveTip (some 3)]).db
      [] := ⟨by decide, fun _ => rfl⟩
  exact hstart.first (by decide) (by decide)

theorem inStepRun_topAgrees : TopAgrees (run (finalizeStep forkWorld) {} inStepRun) := by
  intro h row bi hrow hbi _
  have hhash := inStepRun_applied.of_lookup hrow
  have hzero : h = 0 := by
    have := (List.getElem?_eq_some_iff.mp hhash).1
    simpa using this
  subst hzero
  have hone : activeChainAt (run (finalizeStep forkWorld) {} inStepRun).chain 0 = some 1 := by
    decide
  rw [hone] at hbi
  exact Option.some.inj (hhash.symm.trans hbi)

theorem appliedBlock_finalized :
    let node := run (finalizeStep forkWorld) {} inStepRun
    let out := tipFinalizeStageStepOnce forkWorld {} node
    ∃ drow, out.node.db.utxoApplyDelta.lookup 0 = some drow ∧ drow.branchHash = 1 :=
  tipFinalize_finalizes_applied forkWorld forkIndex_gapless {} ⟨rfl, rfl, rfl⟩ inStepRun {}
    (meetsAll_append.mpr ⟨⟨trivial, trivial, trivial, trivial⟩, inStepRun_topAgrees, trivial⟩)
    0 { status := .finalized, ok := true, workDelta := 1, tipHash := some 3 } 1
    (by decide) (by decide) (by decide) rfl (by decide)

end ZClassic
