import ZClassic.Jobs.StageAnchor
import ZClassic.Jobs.StageRepairReplay
import ZClassic.Jobs.StageRepairRewind
import ZClassic.Jobs.UtxoApplyStage

/-!
# The applied height and the utxo_apply cursor

Six writers move the cursor of utxo_apply, and `coins_applied_height` has to follow each of them.
-/

namespace ZClassic

open List ProgressStore

/-- A transaction or a group of transactions on the store. `rest` is the node it runs in, apart
from the store itself. -/
inductive FrontierAction where
  /-- the unwind check and a forward apply -/
  | utxoApply (w : World) (env : UtxoApplyEnv) (rest : Node)
  | repairValueOverflow (w : World) (env : RepairEnv) (rest : Node)
  | repairStaleScript (w : World) (env : RepairEnv) (rest : Node)
  | poisonRewind (commits : Bool) (height activeTipHeight : Int32)
  | seedAnchor (height : Int32) (hash : UInt256) (completed : ℕ)
  | backfill (commits : Bool)
  /-- writes of other stages, which touch neither the cursor of utxo_apply nor the frontier -/
  | otherStages (db : ProgressStore)

def keepRow {κ α : Type} [DecidableEq κ] (old new : Table κ α) (key : κ) : Table κ α :=
  match old.lookup key with
  | none => new.erase key
  | some value => new.insert key value

def frontierStep (db : ProgressStore) : FrontierAction → ProgressStore
  | .utxoApply w env rest => (utxoApplyStageStepOnce w env { rest with db }).node.db
  | .repairValueOverflow w env rest => (maybeRepairValueOverflow w env { rest with db }).2
  | .repairStaleScript w env rest => (maybeRepairStaleScript w env { rest with db }).2
  | .poisonRewind commits height activeTipHeight =>
    (stageRepairHeaderSolutionPoisonRewind commits db height activeTipHeight).2.1
  | .seedAnchor height hash completed => tipFinalizeStageSeedAnchor height hash completed db
  | .backfill commits => coinsKvBackfillAppliedHeightIfAbsent commits db
  | .otherStages db' =>
    { db' with
      stageCursor := keepRow db.stageCursor db'.stageCursor .utxoApply
      progressMeta := keepRow db.progressMeta db'.progressMeta .coinsAppliedHeight }

/-- The next cursor value fits an `int32_t`. -/
def FitsInt32 (db : ProgressStore) : FrontierAction → Prop
  | .utxoApply _ _ _ => db.cursor .utxoApply + 1 < 2 ^ 31
  | .seedAnchor height _ _ => height.toInt + 1 < 2 ^ 31
  | _ => True

structure FrontierAgrees (db : ProgressStore) : Prop where
  cursor_lt : db.cursor .utxoApply < 2 ^ 31
  applied : ∀ a, db.appliedHeight = some a → a.toInt = db.cursor .utxoApply

variable {db : ProgressStore}

theorem frontierAgrees_of_written {n : ℕ} (hn : n < 2 ^ 31) (hcursor : db.cursor .utxoApply = n)
    (happlied : db.appliedHeight = some (Int32.ofNat n)) : FrontierAgrees db := by
  refine ⟨hcursor ▸ hn, ?_⟩
  intro a ha
  rw [happlied, Option.some.injEq] at ha
  rw [← ha, hcursor, Int32.toInt_ofNat_of_lt hn]

theorem FrontierAgrees.congr {db' : ProgressStore} (h : FrontierAgrees db)
    (hcursor : db'.cursor .utxoApply = db.cursor .utxoApply)
    (happlied : db'.appliedHeight = db.appliedHeight) : FrontierAgrees db' := by
  refine ⟨hcursor ▸ h.cursor_lt, ?_⟩
  rw [hcursor, happlied]
  exact h.applied

theorem frontierAgrees_rewind (db : ProgressStore) {lo : ℕ} (hlo : lo < 2 ^ 31) (hi : ℕ) :
    FrontierAgrees (rewindUtxoApply db lo hi) := by
  apply frontierAgrees_of_written hlo
  · simp
  · simp

theorem FrontierAgrees.unwind {author : UtxoAuthor} {commits : Bool} {node : Node}
    (h : FrontierAgrees node.db)
    (hdb : utxoApplyReorgUnwindIfNeeded author commits node = some db) :
    FrontierAgrees db ∧ db.cursor .utxoApply ≤ node.db.cursor .utxoApply := by
  rcases unwindIfNeeded_some hdb with ⟨rfl, -⟩ | ⟨-, hlt, hunwind⟩
  · exact ⟨h, le_rfl⟩
  · obtain ⟨S, rfl⟩ := unwindTransaction_some hunwind
    have hle := forkPlus1_le node (node.db.cursor .utxoApply - 1)
    refine ⟨frontierAgrees_rewind _ (by omega) _, ?_⟩
    rw [cursor_rewindUtxoApply, if_pos rfl]
    omega

variable (w : World) (node : Node)

section

variable (h : FrontierAgrees node.db)

include h

theorem FrontierAgrees.utxoApply
    (env : UtxoApplyEnv) (hfits : node.db.cursor .utxoApply + 1 < 2 ^ 31) :
    FrontierAgrees (utxoApplyStageStepOnce w env node).node.db := by
  rcases utxoApply_cases w env node with
    ⟨-, hnode⟩ | ⟨db, hdb, ⟨-, hnode⟩ | ⟨k, bi, -, ⟨-, -, hnode⟩ | ⟨-, -, -, hnode⟩⟩⟩
  · rw [hnode]
    exact h
  · rw [hnode]
    exact (h.unwind hdb).1
  · rw [hnode]
    exact (h.unwind hdb).1
  · rw [hnode]
    have hle := (h.unwind hdb).2
    refine frontierAgrees_of_written (n := db.cursor .utxoApply + 1) (by omega) ?_ ?_
    · rw [appliedNode, cursor_setCursor, if_pos rfl]
    · exact appliedHeight_setAppliedHeight _ _

theorem FrontierAgrees.repairValueOverflow
    (env : RepairEnv) : FrontierAgrees (maybeRepairValueOverflow w env node).2 := by
  rcases maybeRepairValueOverflow_cases w env node with hdb | ⟨k, S, hash, hlt, hdb⟩
  · rw [hdb]
    exact h
  · rw [hdb]
    have hk := stageRepairCursorAt_lt node.db .utxoApply
    apply (frontierAgrees_rewind _ (hlt.trans hk) _).congr (cursor_recordMarker _ _ _)
    apply appliedHeight_recordMarker
    nofun

theorem FrontierAgrees.repairStaleScript
    (env : RepairEnv) : FrontierAgrees (maybeRepairStaleScript w env node).2 := by
  rcases maybeRepairStaleScript_cases w env node with
    ⟨-, hdb⟩ | ⟨frontier, height, T, S, hash, -, -, -, hdb⟩
  · rw [hdb]
    exact h
  rw [hdb]
  have hmarked : ∀ db, FrontierAgrees db →
      FrontierAgrees (recordMarker db (.scriptReplayRepair height hash)) := by
    intro db hdb
    apply hdb.congr (cursor_recordMarker _ _ _)
    apply appliedHeight_recordMarker
    nofun
  apply hmarked
  -- the replay moves cursor and frontier together, or neither of them
  by_cases hlt : replayFirst frontier height < (replayCursors node.db).utxo
  · apply frontierAgrees_of_written (hlt.trans (stageRepairCursorAt_lt node.db .utxoApply))
    · rw [cursor_replayRewind, if_pos (by simp [hlt])]
    · rw [appliedHeight_replayRewind, if_pos hlt]
  · apply h.congr
    · rw [cursor_replayRewind, if_neg (by simp [hlt])]
      rfl
    · rw [appliedHeight_replayRewind, if_neg hlt]
      rfl

end

theorem FrontierAgrees.poisonRewind (h : FrontierAgrees db) (commits : Bool)
    (height activeTipHeight : Int32) :
    FrontierAgrees
      (stageRepairHeaderSolutionPoisonRewind commits db height activeTipHeight).2.1 := by
  rcases poisonRewind_cases commits db height activeTipHeight with ⟨-, hdb⟩ | ⟨hpos, hdb⟩
  · rw [hdb]
    exact h
  · rw [hdb]
    rw [Int32.le_iff_toInt_le, Int32.toInt_zero] at hpos
    have hlt := height.toInt_lt
    have hforced : ∀ mode, StageName.utxoApply ∈ forcedStages mode := by
      intro mode
      cases mode <;> decide
    have hcursor : (poisonRewindStore db (poisonMode db height.toInt.toNat) height).cursor
        .utxoApply = height.toInt.toNat := by
      rw [cursor_poisonRewindStore, if_pos (hforced _)]
    refine ⟨by omega, ?_⟩
    intro a ha
    rw [appliedHeight_poisonRewind, Option.some.injEq] at ha
    rw [hcursor, ← ha]
    omega

theorem appliedHeight_eq_some_iff {a : Int32} :
    db.appliedHeight = some a ↔ db.getAppliedHeight = some (some a) :=
  Option.join_eq_some_iff

section

variable (h : FrontierAgrees db)

include h

/-- The anchor is capped by the applied coins, so it moves the cursor only while no frontier is
written. -/
theorem FrontierAgrees.anchorStage {target : ℕ} (ht : target < 2 ^ 31)
    (name : StageName) : FrontierAgrees (final (ZClassic.anchorStage target name db)) := by
  unfold ZClassic.anchorStage
  split
  · exact h
  next stageTarget htarget =>
  change FrontierAgrees (db.setCursorIfBehind name stageTarget)
  unfold setCursorIfBehind
  by_cases hbehind : db.cursor name < stageTarget
  swap
  · rw [if_neg hbehind]
    exact h
  rw [if_pos hbehind]
  by_cases hname : name = .utxoApply
  · subst hname
    rw [anchorTargetForStage, if_pos rfl] at htarget
    split at htarget
    · cases htarget
    · next hnone =>
      cases htarget
      refine ⟨by simpa using ht, ?_⟩
      intro a ha
      rw [appliedHeight_setCursor, appliedHeight_eq_some_iff, hnone] at ha
      cases ha
    · next applied hsome =>
      have heq := h.applied applied (appliedHeight_eq_some_iff.mpr hsome)
      split at htarget
      · cases htarget
      · cases htarget
        omega
  · apply h.congr
    · rw [cursor_setCursor, if_neg (Ne.symm hname)]
    · rfl

theorem FrontierAgrees.seedAnchor {height : Int32}
    (hfits : height.toInt + 1 < 2 ^ 31) (hash : UInt256) (completed : ℕ) :
    FrontierAgrees (tipFinalizeStageSeedAnchor height hash completed db) := by
  unfold tipFinalizeStageSeedAnchor
  split
  · exact h
  apply final_foldlM_invariant FrontierAgrees _ h
  intro tx htx t ht
  have htx := mem_of_mem_take htx
  simp only [seedAnchorTxs, cons_append, mem_cons, mem_append, mem_map,
    not_mem_nil, or_false] at htx
  rcases htx with rfl | ⟨name, -, rfl⟩ | rfl
  · exact ht.congr rfl rfl
  · exact ht.anchorStage (by omega) name
  · apply ht.congr
    · exact (cursor_setCursor _ _ _ _).trans (if_neg nofun)
    · rfl

theorem FrontierAgrees.backfill (commits : Bool) :
    FrontierAgrees (coinsKvBackfillAppliedHeightIfAbsent commits db) := by
  unfold coinsKvBackfillAppliedHeightIfAbsent
  split
  swap
  · exact h
  split
  · exact h
  next cursor hcursor =>
  split
  swap
  · exact h
  have heq : db.cursor .utxoApply = cursor := by
    rw [ProgressStore.cursor, hcursor, Option.getD_some]
  apply frontierAgrees_of_written (heq ▸ h.cursor_lt)
  · exact heq
  · exact appliedHeight_setAppliedHeight _ _

end

theorem lookup_keepRow {κ α : Type} [DecidableEq κ] (old new : Table κ α) (key : κ) :
    (keepRow old new key).lookup key = old.lookup key := by
  unfold keepRow
  split
  · next hnone => rw [Finmap.lookup_erase, hnone]
  · next hsome => rw [Finmap.lookup_insert, hsome]

theorem FrontierAgrees.step {a : FrontierAction} (h : FrontierAgrees db) (hfits : FitsInt32 db a) :
    FrontierAgrees (frontierStep db a) := by
  cases a with
  | utxoApply w env rest =>
    exact FrontierAgrees.utxoApply w { rest with db } h env hfits
  | repairValueOverflow w env rest =>
    exact FrontierAgrees.repairValueOverflow w { rest with db } h env
  | repairStaleScript w env rest =>
    exact FrontierAgrees.repairStaleScript w { rest with db } h env
  | poisonRewind commits height activeTipHeight => exact h.poisonRewind commits _ _
  | seedAnchor height hash completed => exact h.seedAnchor hfits hash completed
  | backfill commits => exact h.backfill commits
  | otherStages db' =>
    apply h.congr
    · exact congrArg (Option.getD · 0) (lookup_keepRow db.stageCursor db'.stageCursor .utxoApply)
    · simp only [appliedHeight, getAppliedHeight, frontierStep, lookup_keepRow]

/-- In every state that a run from an empty store reaches, a written frontier is the cursor of
utxo_apply, as long as the heights of the run fit an `int32_t`. -/
theorem appliedHeight_eq_cursor (acts : List FrontierAction)
    (hfits : MeetsAll frontierStep FitsInt32 {} acts) (a : Int32)
    (ha : (run frontierStep {} acts).appliedHeight = some a) :
    a.toInt = (run frontierStep {} acts).cursor .utxoApply := by
  have hinit : FrontierAgrees {} := ⟨by decide, nofun⟩
  have hrun : FrontierAgrees (run frontierStep {} acts) :=
    run_invariant FrontierAgrees (fun _ _ h hok => h.step hok) hinit hfits
  exact hrun.applied a ha

/-- An anchor at the highest `int` height moves the cursor to 2^31, and the backfill then stores
that as an `int32_t`. -/
theorem topAnchor_wraps :
    let db := run frontierStep {} [.seedAnchor (2 ^ 31 - 1) 7 9, .backfill true]
    db.appliedHeight = some (-2 ^ 31) ∧ db.cursor .utxoApply = 2 ^ 31 ∧
      (-2 ^ 31 : Int32).toInt ≠ db.cursor .utxoApply := by
  decide

theorem lowAnchor_agrees :
    let acts := [FrontierAction.seedAnchor 4 7 9, .backfill true]
    MeetsAll frontierStep FitsInt32 {} acts ∧
      (run frontierStep {} acts).appliedHeight = some 5 ∧
      (5 : Int32).toInt = (run frontierStep {} acts).cursor .utxoApply := by
  have hfits : MeetsAll frontierStep FitsInt32 {}
      [FrontierAction.seedAnchor 4 7 9, .backfill true] := by
    refine ⟨?_, trivial, trivial⟩
    change (4 : Int32).toInt + 1 < 2 ^ 31
    decide
  have happlied : (run frontierStep {}
      [FrontierAction.seedAnchor 4 7 9, .backfill true]).appliedHeight = some 5 := by decide
  exact ⟨hfits, happlied, appliedHeight_eq_cursor _ hfits 5 happlied⟩

end ZClassic
