import Mathlib.Data.BitVec
import ZClassic.Consensus.TxStructural
import ZClassic.Jobs.FinalizedBlocks
import ZClassic.Jobs.VerifiedBlocks

/-!
# Anchors of the applied blocks

A shielded spend names the root of a note-commitment tree and proves that its note is below it.
-/

namespace ZClassic

open List

/-- The roots of the two trees over the commitments in the order of the chain. -/
structure NoteTrees where
  saplingRoot : List UInt256 → UInt256
  sproutRoot : List UInt256 → UInt256

def saplingCommitments (w : World) (blocks : List UInt256) : List UInt256 :=
  blocks.flatMap fun b => (w.content b).vtx.flatMap fun tx => tx.vShieldedOutput.map (·.cm)

def sproutCommitments (w : World) (blocks : List UInt256) : List UInt256 :=
  blocks.flatMap fun b => (w.content b).vtx.flatMap fun tx =>
    tx.vJoinsplit.flatMap fun js => js.commitments.toList

/-- Every JoinSplit is anchored in one of the trees, or in the tree that an earlier one has made by
appending its commitments to its own. -/
def JoinsplitsAnchored (root : List UInt256 → UInt256) :
    List (List UInt256) → List JsDescription → Prop
  | _, [] => True
  | trees, js :: rest => ∃ leaves ∈ trees, root leaves = js.anchor ∧
      JoinsplitsAnchored root ((leaves ++ js.commitments.toList) :: trees) rest

section

variable (trees : NoteTrees) (w : World)

/-- Every anchor of the block is the root of a tree after some of the blocks `earlier`. -/
structure AnchorsKnown (earlier : List UInt256) (b : UInt256) : Prop where
  sapling : ∀ tx ∈ (w.content b).vtx, ∀ sd ∈ tx.vShieldedSpend,
    ∃ pre ∈ earlier.inits, trees.saplingRoot (saplingCommitments w pre) = sd.anchor
  sprout : ∀ tx ∈ (w.content b).vtx,
    JoinsplitsAnchored trees.sproutRoot (earlier.inits.map (sproutCommitments w)) tx.vJoinsplit

/-- The last `n` ancestors, in the order of the chain. -/
def BlockIndex.chainBelow (index : BlockIndex) : ℕ → UInt256 → List UInt256
  | 0, _ => []
  | n + 1, b => (index.pprev b).elim [] fun p => index.chainBelow n p ++ [p]

def BlockIndex.ancestors (index : BlockIndex) (b : UInt256) : List UInt256 :=
  index.chainBelow (index.nHeight b) b

theorem BlockIndex.Path.chainBelow_eq {index : BlockIndex} {blocks : List UInt256}
    (h : index.Path blocks) {k : ℕ} {b : UInt256} (hb : blocks[k]? = some b) :
    index.chainBelow k b = blocks.take k := by
  induction k generalizing b with
  | zero => rfl
  | succ k ih =>
    have hlt := (List.getElem?_eq_some_iff.mp hb).1
    have hget := List.getElem?_eq_getElem (show k < blocks.length by omega)
    have hparent := h k b hb
    rw [hget] at hparent
    rw [BlockIndex.chainBelow, ← hparent, Option.elim_some, ih hget, take_add_one, hget]
    rfl

inductive ShieldedAction where
  /-- anything that happens before script_validate -/
  | bodies (cursor : ℕ) (log : Table ℕ BodyPersistRow) (nStatus : UInt256 → UInt32)
  | scriptValidate (env : ScriptValidateEnv)
  | proofValidate (env : ProofValidateEnv)
  | finalize (a : FinalizeAction)

def shieldedStep (w : World) (node : Node) : ShieldedAction → Node
  | .bodies cursor log nStatus =>
    { node with
      db := { node.db with bodyPersistLog := log }.setCursor .bodyPersist cursor
      nStatus := nStatus }
  | .scriptValidate env => (scriptValidateStageStepOnce w env node).node
  | .proofValidate env => (proofValidateStageStepOnce w env node).node
  | .finalize a => finalizeStep w node a

/-- When utxo_apply steps, the blocks of the active chain up to its cursor have anchors in the trees
of their own ancestors. -/
def OffersAnchored (node : Node) : ShieldedAction → Prop
  | .finalize (.utxoApply _) => ∀ h ≤ node.db.cursor .utxoApply, ∀ bi,
      activeChainAt node.chain h = some bi → AnchorsKnown trees w (w.index.ancestors bi) bi
  | _ => True

/-- The applied blocks are a path from height 0, with anchors in the trees before them. -/
structure AnchoredBlocks (node : Node) (blocks : List UInt256) :
    Prop extends PathsAgree w node blocks where
  known : ∀ k b, blocks[k]? = some b → AnchorsKnown trees w (blocks.take k) b

end

variable {trees : NoteTrees} {w : World} {node node' : Node} {blocks : List UInt256}

theorem PathsAgree.congr (h : PathsAgree w node blocks) (hchain : node'.chain = node.chain)
    (hcursor : node'.db.cursor .utxoApply = node.db.cursor .utxoApply)
    (hdelta : node'.db.utxoApplyDelta = node.db.utxoApplyDelta) : PathsAgree w node' blocks where
  window := hchain ▸ h.window
  applied := ⟨hcursor.trans h.applied.cursor, hdelta ▸ h.applied.delta⟩
  path := h.path

theorem AnchoredBlocks.take {n : ℕ} (h : AnchoredBlocks trees w node blocks)
    (hpaths : PathsAgree w node' (blocks.take n)) :
    AnchoredBlocks trees w node' (blocks.take n) where
  toPathsAgree := hpaths
  known k b hb := by
    rw [getElem?_take] at hb
    split_ifs at hb with hk
    rw [take_take, Nat.min_eq_left hk.le]
    exact h.known k b hb

theorem AnchoredBlocks.append {n : ℕ} {bi : UInt256} (h : AnchoredBlocks trees w node blocks)
    (hidx : w.index.Gapless) (hn : n ≤ blocks.length) (hbi : activeChainAt node.chain n = some bi)
    (hpaths : PathsAgree w node' (blocks.take n ++ [bi]))
    (hknown : AnchorsKnown trees w (w.index.ancestors bi) bi) :
    AnchoredBlocks trees w node' (blocks.take n ++ [bi]) where
  toPathsAgree := hpaths
  known k b hb := by
    have hlen : (blocks.take n).length = n := length_take_of_le hn
    rw [getElem?_append] at hb
    split_ifs at hb with hk
    · rw [getElem?_take, if_pos (hlen ▸ hk)] at hb
      rw [take_append_of_le_length hk.le, take_take, Nat.min_eq_left (hlen ▸ hk.le)]
      exact h.known k b hb
    · -- the new block: its ancestors are the applied blocks below it
      have hk' : k = n := by
        by_contra hne
        rw [getElem?_eq_none (by simp only [length_singleton]; omega)] at hb
        cases hb
      have hb' : b = bi := by
        rw [hk', hlen, Nat.sub_self] at hb
        exact (Option.some.inj hb).symm
      have htop : (blocks.take n ++ [bi])[n]? = some bi := by
        rw [getElem?_append_right hlen.le, hlen, Nat.sub_self]
        rfl
      rw [hk', hb', ← hpaths.path.chainBelow_eq htop, ← h.window.nHeight_at hidx hbi]
      exact hknown

theorem AnchoredBlocks.step (hidx : w.index.Gapless) (h : AnchoredBlocks trees w node blocks)
    (a : ShieldedAction) (ha : OffersAnchored trees w node a) :
    ∃ blocks', AnchoredBlocks trees w (shieldedStep w node a) blocks' := by
  cases a with
  | bodies cursor log nStatus =>
    refine ⟨blocks, h.toPathsAgree.congr rfl ?_ rfl, h.known⟩
    exact (ProgressStore.cursor_setCursor _ _ _ _).trans (if_neg nofun)
  | scriptValidate env =>
    obtain ⟨hchain, ⟨-, hdb⟩ | ⟨-, k, row, -, hdb, -⟩⟩ := scriptValidate_cases w env node
    · exact ⟨blocks, h.toPathsAgree.congr hchain (by rw [shieldedStep, hdb])
        (by rw [shieldedStep, hdb]), h.known⟩
    · refine ⟨blocks, h.toPathsAgree.congr hchain ?_ ?_, h.known⟩
      · rw [shieldedStep, hdb, cursor_scriptLogged, if_neg nofun]
      · rw [shieldedStep, hdb]
        rfl
  | proofValidate env =>
    obtain ⟨hchain, ⟨-, hdb⟩ | ⟨-, k, row, -, -, hdb, -⟩⟩ :=
      proofValidate_cases w env node
    · exact ⟨blocks, h.toPathsAgree.congr hchain (by rw [shieldedStep, hdb])
        (by rw [shieldedStep, hdb]), h.known⟩
    · refine ⟨blocks, h.toPathsAgree.congr hchain ?_ ?_, h.known⟩
      · rw [shieldedStep, hdb, cursor_proofLogged, if_neg nofun]
      · rw [shieldedStep, hdb]
        rfl
  | finalize a =>
    by_cases happly : ∃ env, a = .utxoApply env
    · obtain ⟨env, rfl⟩ := happly
      obtain ⟨n, hn, hcut | ⟨bi, hbi, happended⟩⟩ := h.toPathsAgree.utxoApply hidx env
      · exact ⟨_, h.take hcut⟩
      · have hcursor : n ≤ node.db.cursor .utxoApply := h.applied.cursor ▸ hn
        exact ⟨_, h.append hidx hn hbi happended (ha n hcursor bi hbi)⟩
    · exact ⟨blocks, h.toPathsAgree.elsewhere hidx (not_exists.mp happly), h.known⟩

/-- In every run from an empty database in which utxo_apply is only offered blocks with anchors in
the trees of their own ancestors, every anchor of an applied block is the root of a tree after
earlier applied blocks, whatever was reorganised in between. -/
theorem appliedBlocks_anchored (trees : NoteTrees) (w : World) (hidx : w.index.Gapless)
    (node : Node) (hstart : Unapplied node) (acts : List ShieldedAction)
    (hok : MeetsAll (shieldedStep w) (OffersAnchored trees w) node acts) :
    ∃ blocks, AppliedBlocks (run (shieldedStep w) node acts).db blocks ∧
      ∀ k b, blocks[k]? = some b → AnchorsKnown trees w (blocks.take k) b := by
  have hinit : ∃ blocks, AnchoredBlocks trees w node blocks :=
    ⟨[], hstart.pathsAgree, fun k b hb => by cases hb⟩
  obtain ⟨blocks, h⟩ := run_invariant (fun node => ∃ blocks, AnchoredBlocks trees w node blocks)
    (fun _ a h ha => h.elim fun _ h => h.step hidx a ha) hinit hok
  exact ⟨blocks, h.applied, h.known⟩

def anchoredTx (saplingAnchor sproutAnchor : UInt256) : Transaction where
  overwintered := true
  version := 4
  versionGroupId := saplingVersionGroupId
  vShieldedSpend := [{ anchor := saplingAnchor, nullifier := 8 }]
  vJoinsplit := [{ anchor := sproutAnchor, nullifiers := twoNullifiers }]
  hash := 22

def fabricatedWorld : World :=
  { soloWorld with content := fun b => ⟨[zeroCoinbase b, anchoredTx 7 9]⟩ }

def storedBodies : ShieldedAction :=
  .bodies 2 ((Finmap.singleton 0 { source := "disk", ok := true }).insert 1
    { source := "disk", ok := true }) fun _ => blockHaveData

def proofsPass : ProofValidateEnv where
  verifyTx := fun _ _ => some {}

def validateFirst : List ShieldedAction :=
  [storedBodies, .finalize (.moveTip (some 1)), .scriptValidate scriptsPass,
    .proofValidate proofsPass]

/-- Nothing comes before block 1, but it is applied with anchors that need not be the roots of the
empty trees. -/
theorem fabricatedAnchor_applied :
    fabricatedWorld.index.Gapless ∧ Unapplied {} ∧
      AppliedBlocks (run (shieldedStep fabricatedWorld) {}
        (validateFirst ++ [.finalize (.utxoApply {})])).db [1] ∧
      ∀ trees : NoteTrees, trees.saplingRoot [] ≠ 7 ∨ trees.sproutRoot [] ≠ 9 →
        ¬AnchorsKnown trees fabricatedWorld [] 1 := by
  refine ⟨fun _ _ => rfl, ⟨rfl, rfl, rfl⟩, ?_, ?_⟩
  · have hstart : AppliedBlocks (run (shieldedStep fabricatedWorld) {} validateFirst).db [] :=
      ⟨by decide, fun _ => rfl⟩
    rw [run_append]
    exact hstart.first (by decide) (by decide)
  · rintro trees hne ⟨hsapling, hsprout⟩
    rcases hne with hne | hne
    · obtain ⟨pre, hpre, hroot⟩ := hsapling (anchoredTx 7 9) (by simp [fabricatedWorld])
        { anchor := 7, nullifier := 8 } (by simp [anchoredTx])
      rw [inits, mem_singleton] at hpre
      rw [hpre] at hroot
      exact hne hroot
    · obtain ⟨leaves, hleaves, hroot, -⟩ := hsprout (anchoredTx 7 9) (by simp [fabricatedWorld])
      rw [inits, map_singleton, mem_singleton] at hleaves
      rw [hleaves] at hroot
      exact hne hroot

def sumTrees : NoteTrees := ⟨List.sum, List.sum⟩

/-- Block 1 makes a note, and block 2 spends it and chains two JoinSplits. -/
def anchoredContent (b : UInt256) : Block :=
  if b = 1 then ⟨[zeroCoinbase 1, { vShieldedOutput := [{ cm := 5 }], hash := 21 }]⟩
  else if b = 2 then ⟨[zeroCoinbase 2, { anchoredTx 5 0 with
    vJoinsplit := [{ anchor := 0, nullifiers := twoNullifiers, commitments := #v[6, 7] },
      { anchor := 13, nullifiers := #v[7, 8] }] }]⟩
  else ⟨[zeroCoinbase b]⟩

def anchoredWorld : World := { forkWorld with content := anchoredContent }

theorem anchoredWorld_known (b : UInt256) :
    AnchorsKnown sumTrees anchoredWorld (anchoredWorld.index.ancestors b) b := by
  by_cases h₁ : b = 1
  · subst h₁
    exact ⟨by decide, by simp [anchoredWorld, anchoredContent, zeroCoinbase, JoinsplitsAnchored]⟩
  by_cases h₂ : b = 2
  · subst h₂
    refine ⟨by decide, ?_⟩
    intro tx htx
    change tx ∈ [_, _] at htx
    rw [mem_pair] at htx
    rcases htx with rfl | rfl
    · trivial
    · exact ⟨[], by decide, rfl, [6, 7], by decide, by decide, trivial⟩
  · have hcontent : (anchoredWorld.content b).vtx = [zeroCoinbase b] := by
      change (anchoredContent b).vtx = _
      rw [anchoredContent, if_neg h₁, if_neg h₂]
    constructor
    · rw [hcontent]
      simp [zeroCoinbase]
    · rw [hcontent]
      simp [zeroCoinbase, JoinsplitsAnchored]

def applyTwo : List ShieldedAction :=
  [storedBodies, .finalize (.moveTip (some 2)), .scriptValidate scriptsPass,
    .scriptValidate scriptsPass, .proofValidate proofsPass, .proofValidate proofsPass,
    .finalize (.utxoApply {}), .finalize (.utxoApply {})]

theorem applyTwo_anchored :
    (run (shieldedStep anchoredWorld) {} applyTwo).db.cursor .utxoApply = 2 ∧
      ∃ blocks, AppliedBlocks (run (shieldedStep anchoredWorld) {} applyTwo).db blocks ∧
        ∀ k b, blocks[k]? = some b → AnchorsKnown sumTrees anchoredWorld (blocks.take k) b :=
  ⟨by decide, appliedBlocks_anchored sumTrees anchoredWorld forkIndex_gapless {} ⟨rfl, rfl, rfl⟩
    applyTwo ⟨trivial, trivial, trivial, trivial, trivial, trivial,
      fun _ _ bi _ => anchoredWorld_known bi, fun _ _ bi _ => anchoredWorld_known bi, trivial⟩⟩

end ZClassic
