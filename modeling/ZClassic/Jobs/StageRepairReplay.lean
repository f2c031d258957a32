import ZClassic.Jobs.ProjectionLookup
import ZClassic.Jobs.ScriptValidateStage
import ZClassic.Jobs.UtxoApplyReorg

/-!
# Replay repairs

The two repairs of `stage_repair_reducer_frontier_coin.c` that rewind the stages to a stored failure
once a dry run shows that the block would pass now: value-overflow rows of utxo_apply and stale rows
of script_validate.
-/

namespace ZClassic

open List

structure RepairEnv where
  readable : UInt256 → Bool := fun _ => true
  author : UtxoAuthor := .stage
  /-- the operator's acknowledgement in the process environment -/
  ownerAck : Bool := false
  commits : Bool := true
  verifyScript : ℕ → Transaction → ℕ → TxOut → ℕ := fun _ _ _ _ => 0

inductive RepairOutcome where
  | nothing
  | unreadable
  | authorRefused
  | ownerRefused
  | genuinelyInvalid
  | markerSeen
  | failed
  | repaired
  deriving DecidableEq

section

variable (w : World) (env : RepairEnv) (node : Node) (db : ProgressStore)

/-- `stage_repair_cursor_at_unlocked`: read as an `int`, −1 for a missing row. -/
def stageRepairCursorAt (name : StageName) : ℤ :=
  match db.stageCursor.lookup name with
  | none => -1
  | some cursor => (Int32.ofNat cursor).toInt

def recordMarker (key : MetaKey) : ProgressStore :=
  { db with progressMeta := db.progressMeta.insert key [1] }

def markerSeen (key : MetaKey) : Bool := (db.progressMeta.lookup key).isSome

def isValueOverflowRow (h : ℕ) : Bool :=
  match db.utxoApplyLog.lookup h with
  | none => false
  | some row => !row.ok && row.status == .valueOverflow

def utxoApplyRepairValueOverflowHole
    (h cursor : ℕ) (hash : UInt256) : RepairOutcome × ProgressStore :=
  if env.author ≠ .stage then (.authorRefused, db)
  else if !env.ownerAck then (.ownerRefused, db)
  else if !isValueOverflowRow db h then (.nothing, db)
  else match emitInverseDeltas (fun _ _ => true) h cursor db with
    | none => (.failed, db)
    | some dry =>
      if !(utxoApplyComputeBlockDelta w.params (some (w.content hash)) (UInt32.ofNat h)
          (projectionLiveLookup dry.coins)).ok then (.genuinelyInvalid, db)
      else if markerSeen db (.valueOverflowRepair h hash) then (.markerSeen, db)
      else match unwindTransaction .stage db h cursor with
        | none => (.failed, db)
        | some db' =>
          if env.commits then (.repaired, recordMarker db' (.valueOverflowRepair h hash))
          else (.failed, db)

def maybeRepairValueOverflow : RepairOutcome × ProgressStore :=
  let cursor := stageRepairCursorAt node.db .utxoApply
  match (range cursor.toNat).find? (isValueOverflowRow node.db) with
  | none => (.nothing, node.db)
  | some h =>
    match readActiveBlock env.readable node h with
    | none => (.unreadable, node.db)
    | some hash => utxoApplyRepairValueOverflowHole w env node.db h cursor.toNat hash

/-- The row at `h` failed for a reason that later blocks may have removed. -/
def isStaleScriptRow (h : ℕ) : Bool :=
  match db.scriptValidateLog.lookup h with
  | none => false
  | some row => !row.ok && (row.status == .internalError || row.status == .prevoutUnresolved ||
      row.status == .blockDecodeFailed)

/-- `rewindable_utxo_row`: a row is there, and it has an inverse delta exactly if it is ok. -/
def rewindableUtxoRow (h : ℕ) : Bool :=
  match db.utxoApplyLog.lookup h with
  | none => false
  | some row => row.ok == (db.utxoApplyDelta.lookup h).isSome

/-- One pass of the backfill loop: heights that are indexed already are skipped. -/
def backfillHeight (h : ℕ) : Option ProgressStore :=
  if db.createdOutputs.anyRow fun _ row => row.height == h then some db
  else (readActiveBlock env.readable node h).map fun hash =>
    createdOutputsIndexPutBlock db (w.content hash) h

def backfillCreatedOutputsRange (lo hi : ℕ) (db : ProgressStore) : Option ProgressStore :=
  (range' lo (hi - lo)).foldlM (backfillHeight w env node) db

/-- `repair_prevout_resolver`: outputs created from `first` on, then coins from before it. -/
def repairPrevoutResolver (first last : ℕ) (op : Outpoint) : Option TxOut :=
  match (db.createdOutputs.lookup op).filter fun row =>
      decide (first ≤ row.height ∧ row.height ≤ last) with
  | some row =>
    if maxScriptSize < row.script.length then none
    else some { value := row.value, scriptPubKey := Script.truncate row.script }
  | none =>
    match coinsKvGetCoins db.coins op.hash with
    | none => none
    | some c =>
      if c.height.toInt < first ∧ c.height.toInt ≤ last then coinsOutput c op.n.toNat else none

def deleteLogRanges (lo scriptCursor proofCursor : ℕ) : ProgressStore :=
  { db with
    scriptValidateLog := db.scriptValidateLog.delWhere fun h => lo ≤ h ∧ h < scriptCursor
    proofValidateLog := db.proofValidateLog.delWhere fun h => lo ≤ h ∧ h < proofCursor }

structure ReplayCursors where
  script : ℕ
  proof : ℕ
  utxo : ℕ
  body : ℕ

/-- Created outputs backfilled and, when utxo_apply is past `lo`, its blocks taken back. -/
def replayCoins (lo : ℕ) (cur : ReplayCursors) : Option ProgressStore :=
  (backfillCreatedOutputsRange w env node lo cur.body node.db).bind fun db =>
    if lo < cur.utxo then emitInverseDeltas rewindableUtxoRow lo cur.utxo db else some db

def replayRewind (lo : ℕ) (cur : ReplayCursors) : ProgressStore :=
  let db := deleteLogRanges db lo cur.script cur.proof
  let db := if lo < cur.utxo then rewindUtxoApply db lo cur.utxo else db
  ((db.setCursor .scriptValidate lo).setCursor .proofValidate lo).setCursor .tipFinalize lo

def staleScriptReplayTx (lo : ℕ) (cur : ReplayCursors) (marker : MetaKey) : Option ProgressStore :=
  (replayCoins w env node lo cur).bind fun db =>
    if env.commits then some (recordMarker (replayRewind db lo cur) marker) else none

/-- The repair from the height of the stale row on, when all its conditions hold. -/
def replayStaleScript (height lo : ℕ) (cur : ReplayCursors) : RepairOutcome × ProgressStore :=
  match readActiveBlock env.readable node height with
  | none => (.unreadable, node.db)
  | some hash =>
    if env.author ≠ .stage then (.authorRefused, node.db)
    else match replayCoins w env node lo cur with
      | none => (.failed, node.db)
      | some dry =>
        if !(validateBlockScripts (repairPrevoutResolver dry lo height) (env.verifyScript height)
            (some (w.content hash))).ok then (.genuinelyInvalid, node.db)
        else if markerSeen node.db (.scriptReplayRepair height hash) then (.markerSeen, node.db)
        else match staleScriptReplayTx w env node lo cur (.scriptReplayRepair height hash) with
          | none => (.failed, node.db)
          | some db => (.repaired, db)

def replayFirst (frontier : Int32) (height : ℕ) : ℕ :=
  if 0 ≤ frontier ∧ frontier.toInt < height then frontier.toInt.toNat else height

def replayCursors : ReplayCursors where
  script := (stageRepairCursorAt db .scriptValidate).toNat
  proof := (stageRepairCursorAt db .proofValidate).toNat
  utxo := (stageRepairCursorAt db .utxoApply).toNat
  body := (stageRepairCursorAt db .bodyPersist).toNat

/-- `stale_script_hole_unlocked`: the lowest stale row below the cursor of script_validate. -/
def staleScriptHole : Option ℕ :=
  (range (replayCursors db).script).find? (isStaleScriptRow db)

def maybeRepairStaleScript : RepairOutcome × ProgressStore :=
  let cur := replayCursors node.db
  match node.db.getAppliedHeight with
  | none => (.failed, node.db)
  | some none => (.nothing, node.db)
  | some (some frontier) =>
    match staleScriptHole node.db with
    | none => (.nothing, node.db)
    | some height =>
      if cur.proof ≤ height ∨ cur.body ≤ height then (.nothing, node.db)
      else replayStaleScript w env node height (replayFirst frontier height) cur

end

section

variable (db : ProgressStore)

include db

theorem appliedHeight_recordMarker {key : MetaKey}
    (hkey : key ≠ .coinsAppliedHeight) :
    (recordMarker db key).appliedHeight = db.appliedHeight := by
  simp only [ProgressStore.appliedHeight, ProgressStore.getAppliedHeight, recordMarker]
  rw [Finmap.lookup_insert_of_ne _ hkey.symm]

theorem cursor_recordMarker (key : MetaKey) (name : StageName) :
    (recordMarker db key).cursor name = db.cursor name := rfl

theorem stageRepairCursorAt_lt (name : StageName) :
    (stageRepairCursorAt db name).toNat < 2 ^ 31 := by
  unfold stageRepairCursorAt
  split
  · decide
  · next cursor _ =>
    have := (Int32.ofNat cursor).toInt_lt
    omega

theorem stageRepairCursorAt_le (name : StageName) :
    (stageRepairCursorAt db name).toNat ≤ db.cursor name := by
  unfold stageRepairCursorAt ProgressStore.cursor
  cases db.stageCursor.lookup name with
  | none => exact Nat.zero_le _
  | some cursor =>
    dsimp only [Option.getD_some]
    rw [Int32.toInt_ofNat']
    unfold Int.bmod Int32.size
    dsimp only
    split <;> omega

end

variable {db : ProgressStore}

theorem staleScriptHole_lt {height : ℕ}
    (h : staleScriptHole db = some height) : height < (replayCursors db).script :=
  mem_range.mp (mem_of_find?_eq_some h)

variable {db db' : ProgressStore} {env : RepairEnv} {node : Node} {w : World}

theorem backfillHeight_some {h : ℕ} (hdb : backfillHeight w env node db h = some db') :
    ∃ T, db' = { db with createdOutputs := T } := by
  unfold backfillHeight at hdb
  split_ifs at hdb
  · cases hdb
    exact ⟨_, rfl⟩
  · obtain ⟨hash, -, rfl⟩ := Option.map_eq_some_iff.mp hdb
    exact ⟨_, rfl⟩

theorem backfillRange_some {lo hi : ℕ}
    (hdb : backfillCreatedOutputsRange w env node lo hi db = some db') :
    ∃ T, db' = { db with createdOutputs := T } := by
  unfold backfillCreatedOutputsRange at hdb
  generalize range' lo (hi - lo) = heights at hdb
  induction heights generalizing db with
  | nil =>
    cases hdb
    exact ⟨_, rfl⟩
  | cons h hs ih =>
    rw [foldlM_cons] at hdb
    obtain ⟨db₁, h₁, hrest⟩ := Option.bind_eq_some_iff.mp hdb
    obtain ⟨T₁, rfl⟩ := backfillHeight_some h₁
    obtain ⟨T, rfl⟩ := ih hrest
    exact ⟨T, rfl⟩

theorem replayCoins_some {lo : ℕ} {cur : ReplayCursors}
    (hdb : replayCoins w env node lo cur = some db) :
    ∃ T S, db = { node.db with createdOutputs := T, coins := S } := by
  obtain ⟨db₁, h₁, hrest⟩ := Option.bind_eq_some_iff.mp hdb
  obtain ⟨T, rfl⟩ := backfillRange_some h₁
  split_ifs at hrest
  · obtain ⟨S, rfl⟩ := emitInverseDeltas_some hrest
    exact ⟨T, S, rfl⟩
  · cases hrest
    exact ⟨T, _, rfl⟩

@[simp]
theorem cursor_replayRewind (db : ProgressStore) (lo : ℕ) (cur : ReplayCursors) (name : StageName) :
    (replayRewind db lo cur).cursor name =
      if name = .scriptValidate ∨ name = .proofValidate ∨ name = .tipFinalize ∨
          name = .utxoApply ∧ lo < cur.utxo then lo
      else db.cursor name := by
  have hutxo : (if lo < cur.utxo then
        rewindUtxoApply (deleteLogRanges db lo cur.script cur.proof) lo cur.utxo
      else deleteLogRanges db lo cur.script cur.proof).cursor name =
      if name = .utxoApply ∧ lo < cur.utxo then lo else db.cursor name := by
    by_cases hlt : lo < cur.utxo
    · rw [if_pos hlt, cursor_rewindUtxoApply]
      simp only [hlt, and_true]
      rfl
    · rw [if_neg hlt, if_neg (fun h => hlt h.2)]
      rfl
  simp only [replayRewind, ProgressStore.cursor_setCursor, hutxo]
  split_ifs <;> simp_all

theorem appliedHeight_replayRewind (db : ProgressStore) (lo : ℕ) (cur : ReplayCursors) :
    (replayRewind db lo cur).appliedHeight =
      if lo < cur.utxo then some (Int32.ofNat lo) else db.appliedHeight := by
  simp only [replayRewind, ProgressStore.appliedHeight_setCursor]
  split_ifs
  · exact appliedHeight_rewindUtxoApply _ _ _
  · rfl

theorem maybeRepairValueOverflow_cases (w : World) (env : RepairEnv) (node : Node) :
    (maybeRepairValueOverflow w env node).2 = node.db ∨
      ∃ h S hash, h < (stageRepairCursorAt node.db .utxoApply).toNat ∧
        (maybeRepairValueOverflow w env node).2 =
          recordMarker (rewindUtxoApply { node.db with coins := S } h
            (stageRepairCursorAt node.db .utxoApply).toNat) (.valueOverflowRepair h hash) := by
  unfold maybeRepairValueOverflow
  dsimp only
  split
  · exact .inl rfl
  next h hhole =>
  have hlt : h < (stageRepairCursorAt node.db .utxoApply).toNat :=
    mem_range.mp (mem_of_find?_eq_some hhole)
  split
  · exact .inl rfl
  next hash _ =>
  unfold utxoApplyRepairValueOverflowHole
  split
  · exact .inl rfl
  split
  · exact .inl rfl
  split
  · exact .inl rfl
  split
  · exact .inl rfl
  split
  · exact .inl rfl
  split
  · exact .inl rfl
  split
  · exact .inl rfl
  next db' hdb =>
  split
  · obtain ⟨S, rfl⟩ := unwindTransaction_some hdb
    exact .inr ⟨h, S, hash, hlt, rfl⟩
  · exact .inl rfl

/-- The stale-script repair leaves the store alone or commits its transaction, for the first stale
row, which proof_validate has passed. -/
theorem maybeRepairStaleScript_cases (w : World) (env : RepairEnv) (node : Node) :
    let out := maybeRepairStaleScript w env node
    out.1 ≠ .repaired ∧ out.2 = node.db ∨
      ∃ frontier height T S hash, node.db.appliedHeight = some frontier ∧
        staleScriptHole node.db = some height ∧ height < (replayCursors node.db).proof ∧
        out.2 = recordMarker (replayRewind { node.db with createdOutputs := T, coins := S }
            (replayFirst frontier height) (replayCursors node.db))
            (.scriptReplayRepair height hash) := by
  unfold maybeRepairStaleScript
  dsimp only
  split
  · exact .inl ⟨nofun, rfl⟩
  · exact .inl ⟨nofun, rfl⟩
  next frontier happlied =>
  split
  · exact .inl ⟨nofun, rfl⟩
  next height hhole =>
  split
  · exact .inl ⟨nofun, rfl⟩
  next hbehind =>
  rw [not_or, not_le, not_le] at hbehind
  unfold replayStaleScript
  split
  · exact .inl ⟨nofun, rfl⟩
  next hash _ =>
  split
  · exact .inl ⟨nofun, rfl⟩
  split
  · exact .inl ⟨nofun, rfl⟩
  split
  · exact .inl ⟨nofun, rfl⟩
  split
  · exact .inl ⟨nofun, rfl⟩
  split
  · exact .inl ⟨nofun, rfl⟩
  next db hdb =>
  obtain ⟨db₁, hcoins, hrest⟩ := Option.bind_eq_some_iff.mp hdb
  obtain ⟨T, S, rfl⟩ := replayCoins_some hcoins
  split_ifs at hrest
  cases hrest
  refine .inr ⟨frontier, height, T, S, hash, ?_, hhole, hbehind.1, rfl⟩
  rw [ProgressStore.appliedHeight, happlied]
  rfl

end ZClassic
