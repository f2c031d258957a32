import ZClassic.Jobs.StageRepairReplay
import ZClassic.Jobs.StageRepairRewind
import ZClassic.Jobs.VerifiedBlocks

/-!
# Do repairs only rewind?

The poison rewind forces cursors to a height above the public tip, and the stale-script replay
forces tip_finalize to the height it replays from.
-/

namespace ZClassic

structure NotRaised (db db' : ProgressStore) : Prop where
  cursor : ∀ name, db'.cursor name ≤ db.cursor name
  applied : ∀ a a', db.appliedHeight = some a → db'.appliedHeight = some a' → a' ≤ a

/-- Every stage that a poison rewind to `height` forces has reached `height`, and so have the
applied coins. -/
structure PoisonBelow (db : ProgressStore) (height : Int32) : Prop where
  cursor : ∀ name ∈ forcedStages (poisonMode db height.toInt.toNat),
    height.toInt.toNat ≤ db.cursor name
  applied : ∀ a, db.appliedHeight = some a → height ≤ a

/-- tip_finalize has reached the height that the replay of the first stale row starts from, and a
negative frontier meets no rewind of coins. -/
structure ReplayBelow (db : ProgressStore) : Prop where
  tip : ∀ frontier height, db.appliedHeight = some frontier → staleScriptHole db = some height →
    replayFirst frontier height ≤ db.cursor .tipFinalize
  applied : ∀ frontier height, db.appliedHeight = some frontier →
    staleScriptHole db = some height →
    0 ≤ frontier ∨ (replayCursors db).utxo ≤ replayFirst frontier height

theorem notRaised_poisonRewind_iff (db : ProgressStore) (height : Int32) :
    NotRaised db (poisonRewindStore db (poisonMode db height.toInt.toNat) height) ↔
      PoisonBelow db height := by
  constructor
  · intro h
    refine ⟨?_, ?_⟩
    · intro name hname
      have hle := h.cursor name
      rw [cursor_poisonRewindStore, if_pos hname] at hle
      exact hle
    · intro a ha
      exact h.applied a height ha (appliedHeight_poisonRewind _ _ _)
  · intro h
    refine ⟨?_, ?_⟩
    · intro name
      rw [cursor_poisonRewindStore]
      split_ifs with hname
      · exact h.cursor name hname
      · exact le_rfl
    · intro a a' ha ha'
      rw [appliedHeight_poisonRewind, Option.some.injEq] at ha'
      exact ha' ▸ h.applied a ha

theorem replayFirst_le (frontier : Int32) (height : ℕ) : replayFirst frontier height ≤ height := by
  unfold replayFirst
  split
  · omega
  · exact le_rfl

theorem replayFirst_le_frontier_iff (frontier : Int32) (height : ℕ)
    (hlt : replayFirst frontier height < 2 ^ 31) :
    Int32.ofNat (replayFirst frontier height) ≤ frontier ↔ 0 ≤ frontier := by
  rw [Int32.le_iff_toInt_le, Int32.toInt_ofNat_of_lt hlt]
  simp only [replayFirst, Int32.le_iff_toInt_le, Int32.toInt_zero]
  split_ifs <;> omega

theorem notRaised_replay_iff {db : ProgressStore} {frontier : Int32} {height : ℕ}
    (happlied : db.appliedHeight = some frontier) (hhole : staleScriptHole db = some height)
    (hproof : height < (replayCursors db).proof) (T : Table Outpoint CreatedOutput) (S : CoinSet)
    {key : MetaKey} (hkey : key ≠ .coinsAppliedHeight) :
    NotRaised db (recordMarker (replayRewind { db with createdOutputs := T, coins := S }
      (replayFirst frontier height) (replayCursors db)) key) ↔ ReplayBelow db := by
  have hle := replayFirst_le frontier height
  have hscript := staleScriptHole_lt hhole
  have hutxo := stageRepairCursorAt_le db .utxoApply
  have hlt : replayFirst frontier height < 2 ^ 31 :=
    (hle.trans_lt hscript).trans (stageRepairCursorAt_lt db .scriptValidate)
  constructor
  · intro h
    refine ⟨?_, ?_⟩
    · intro f k hf hk
      cases happlied.symm.trans hf
      cases hhole.symm.trans hk
      have htip := h.cursor .tipFinalize
      rw [cursor_recordMarker, cursor_replayRewind, if_pos (by simp)] at htip
      exact htip
    · intro f k hf hk
      cases happlied.symm.trans hf
      cases hhole.symm.trans hk
      by_cases hrewind : replayFirst frontier height < (replayCursors db).utxo
      · left
        rw [← replayFirst_le_frontier_iff frontier height hlt]
        apply h.applied frontier _ happlied
        rw [appliedHeight_recordMarker _ hkey, appliedHeight_replayRewind, if_pos hrewind]
      · exact .inr (not_lt.mp hrewind)
  · intro h
    refine ⟨?_, ?_⟩
    · intro name
      rw [cursor_recordMarker, cursor_replayRewind]
      split_ifs with hname
      · rcases hname with rfl | rfl | rfl | ⟨rfl, hrewind⟩
        · exact (hle.trans hscript.le).trans (stageRepairCursorAt_le db .scriptValidate)
        · exact (hle.trans hproof.le).trans (stageRepairCursorAt_le db .proofValidate)
        · exact h.tip frontier height happlied hhole
        · exact hrewind.le.trans hutxo
      · exact le_rfl
    · intro a a' ha ha'
      cases happlied.symm.trans ha
      rw [appliedHeight_recordMarker _ hkey, appliedHeight_replayRewind] at ha'
      split_ifs at ha' with hrewind
      · cases ha'
        rw [replayFirst_le_frontier_iff frontier height hlt]
        exact (h.applied frontier height happlied hhole).resolve_right (not_le.mpr hrewind)
      · cases happlied.symm.trans ha'
        exact Int32.le_refl _

/-- A poison rewind that reports a repair, and a stale-script replay that commits, raise nothing
exactly when the stages they move have reached the height they are moved to. -/
theorem repairs_notRaised_iff (w : World) (env : RepairEnv) (node : Node) (commits : Bool)
    (height activeTipHeight : Int32) :
    ((stageRepairHeaderSolutionPoisonRewind commits node.db height activeTipHeight).2.2.repaired =
        true →
      (NotRaised node.db
          (stageRepairHeaderSolutionPoisonRewind commits node.db height activeTipHeight).2.1 ↔
        PoisonBelow node.db height)) ∧
    ((maybeRepairStaleScript w env node).1 = .repaired →
      (NotRaised node.db (maybeRepairStaleScript w env node).2 ↔ ReplayBelow node.db)) := by
  constructor
  · intro hrepaired
    rcases poisonRewind_cases commits node.db height activeTipHeight with ⟨hnot, -⟩ | ⟨-, hdb⟩
    · rw [hnot] at hrepaired
      cases hrepaired
    · rw [hdb]
      exact notRaised_poisonRewind_iff node.db height
  · intro hrepaired
    rcases maybeRepairStaleScript_cases w env node with
      ⟨hnot, -⟩ | ⟨frontier, stale, T, S, hash, happlied, hhole, hproof, hdb⟩
    · exact absurd hrepaired hnot
    · rw [hdb]
      exact notRaised_replay_iff happlied hhole hproof T S nofun

/-- The header at height 2 has no solution, and the stages up to proof_validate have passed it. -/
def poisonedStore (utxoCursor tipCursor : ℕ) : ProgressStore where
  stageCursor := [.headerAdmit, .validateHeaders, .bodyFetch, .bodyPersist, .scriptValidate,
    .proofValidate].foldl (fun t name => t.insert name 3)
      ((Finmap.singleton .utxoApply utxoCursor).insert .tipFinalize tipCursor)
  validateHeadersLog :=
    Finmap.singleton 2 { hash := 2, ok := false, failReason := stageRepairSolutionlessReason }

/-- tip_finalize has published block 1 as the tip, one block ahead of utxo_apply. The repair of
height 2 moves utxo_apply from 1 to 2, so block 1 is never applied. -/
theorem laggingStage_raised :
    let out := stageRepairHeaderSolutionPoisonRewind true (poisonedStore 1 1) 2 1
    out.2.2.repaired = true ∧ (poisonedStore 1 1).cursor .utxoApply = 1 ∧
      out.2.1.cursor .utxoApply = 2 ∧ ¬NotRaised (poisonedStore 1 1) out.2.1 := by
  refine ⟨by decide, by decide, by decide, ?_⟩
  intro h
  exact absurd (h.cursor .utxoApply) (by decide)

theorem poisonedStore_below : PoisonBelow (poisonedStore 2 2) 2 := by
  refine ⟨by decide, ?_⟩
  intro a ha
  cases ha

def staleNode : Node where
  db := ProgressStore.setAppliedHeight
    { stageCursor := ((Finmap.singleton .scriptValidate 1).insert .proofValidate 1).insert
        .bodyPersist 1
      scriptValidateLog := Finmap.singleton 0 { status := .internalError, ok := false } } 0
  chain := soloChain 1
  nStatus := fun _ => blockHaveData

theorem staleNode_below : ReplayBelow staleNode.db := by
  have happlied : staleNode.db.appliedHeight = some 0 :=
    ProgressStore.appliedHeight_setAppliedHeight _ _
  have hhole : staleScriptHole staleNode.db = some 0 := by decide
  constructor
  · intro frontier height hf hh
    cases happlied.symm.trans hf
    cases hhole.symm.trans hh
    decide
  · intro frontier height hf hh
    cases happlied.symm.trans hf
    exact .inl (by decide)

theorem reachedStages_notRaised :
    NotRaised (poisonedStore 2 2)
        (stageRepairHeaderSolutionPoisonRewind true (poisonedStore 2 2) 2 1).2.1 ∧
      NotRaised staleNode.db (maybeRepairStaleScript soloWorld {} staleNode).2 := by
  constructor
  · have hrepaired : (stageRepairHeaderSolutionPoisonRewind true (poisonedStore 2 2) 2
        1).2.2.repaired = true := by decide
    exact ((repairs_notRaised_iff soloWorld {} { db := poisonedStore 2 2 } true 2 1).1
      hrepaired).mpr poisonedStore_below
  · have hrepaired : (maybeRepairStaleScript soloWorld {} staleNode).1 = .repaired := by decide
    exact ((repairs_notRaised_iff soloWorld {} staleNode true 0 (-1)).2 hrepaired).mpr
      staleNode_below

end ZClassic
