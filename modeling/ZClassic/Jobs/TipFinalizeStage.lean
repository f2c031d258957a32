import ZClassic.Jobs.Stage

/-!
# tip_finalize

`step_finalize` of `app/jobs/src/tip_finalize_stage.c`.
-/

namespace ZClassic

structure TipFinalizeEnv where
  rewindCommits : Bool := true
  commits : Bool := true
  /-- the live count of coins, `none` when the counter fails and negative when there is none -/
  utxoCounter : ℕ → Option ℤ := fun _ => some (-1)

/-- `finalized_row_active_match`: `none` unless the row is known to be comparable. -/
def finalizedRowActiveMatch (node : Node) (h : ℕ) : Option Bool :=
  match node.db.tipFinalizeLog.lookup h with
  | none => none
  | some row =>
    match row.tipHash, activeChainAt node.chain (h + 1) with
    | some tipHash, some active =>
      if row.ok && row.status != .anchor then some (tipHash == active) else none
    | _, _ => none

/-- One above the highest comparable row below the argument that matches the active chain. -/
def rewindTo (node : Node) : ℕ → ℕ
  | 0 => 0
  | h + 1 => if finalizedRowActiveMatch node h = some true then h + 1 else rewindTo node h

def rewindCursorIfActiveChainReorged (commits : Bool) (node : Node) : Option ProgressStore :=
  let cursor := node.db.cursor .tipFinalize
  if cursor = 0 then some node.db
  else if 2 ^ 31 ≤ cursor then none
  else if finalizedRowActiveMatch node (cursor - 1) = some false then
    if commits then some (node.db.setCursor .tipFinalize (rewindTo node (cursor - 1))) else none
  else some node.db

section Depth

variable (index : BlockIndex)

/-- The first loop of `reorg_depth_from`, down to height `h`. Heights fall with every parent, so
the height of the start bounds the passes. -/
def descendTo (h : ℕ) : ℕ → Option UInt256 → ℕ → Option UInt256 × ℕ
  | 0, p, depth => (p, depth)
  | _ + 1, none, depth => (none, depth)
  | fuel + 1, some p, depth =>
    if h < index.nHeight p then descendTo h fuel (index.pprev p) (depth + 1) else (some p, depth)

/-- The second loop, which follows both branches to where they meet. -/
def descendBoth : ℕ → Option UInt256 → Option UInt256 → ℕ → ℕ
  | 0, _, _, depth => depth
  | fuel + 1, some p, some q, depth =>
    if p = q then depth else descendBoth fuel (index.pprev p) (index.pprev q) (depth + 1)
  | _ + 1, _, _, depth => depth

def reorgDepthFrom (oldTip newTip : UInt256) : ℕ :=
  let (p, depth) :=
    descendTo index (index.nHeight oldTip) (index.nHeight newTip + 1) (some newTip) 0
  max 1 (descendBoth index (index.nHeight oldTip + 1) p (some oldTip) depth)

end Depth

inductive PreconditionReason where
  | haveDataMissing
  | notScriptValid
  | notHeaderValid
  deriving DecidableEq

def preconditionBlockReason (nStatus : UInt32) : Option PreconditionReason :=
  if nStatus &&& blockHaveData = 0 then some .haveDataMissing
  else if nStatus &&& blockValidMask < blockValidScripts then some .notScriptValid
  else if nStatus &&& blockValidMask < blockValidHeader then some .notHeaderValid
  else none

def finalizeScriptLogOk (db : ProgressStore) (h : ℕ) (hash : UInt256) : Bool :=
  match db.scriptValidateLog.lookup h with
  | none => false
  | some row => row.ok && row.blockHash == some hash

/-- `utxo_apply_sums_through`: outputs added minus outputs spent up to height `h`. -/
def utxoApplySumsThrough (db : ProgressStore) (h : ℕ) : ℤ :=
  Table.total (fun row => if row.ok then (row.addedCount : ℤ) - row.spentCount else 0)
    (db.utxoApplyLog.delWhere fun k => h < k)

def tipFinalizeLogInsert (node : Node) (h : ℕ) (row : TipFinalizeRow) : Node :=
  { node with db := { node.db with tipFinalizeLog := node.db.tipFinalizeLog.insert h row } }

/-- The script verdict of the log stands in for a cleared flag of the block index. -/
def selfHeals (w : World) (node : Node) (newTip : UInt256) : Bool :=
  preconditionBlockReason (node.nStatus newTip) == some .notScriptValid &&
    node.nStatus newTip &&& blockFailedMask == 0 &&
    finalizeScriptLogOk node.db (w.index.nHeight newTip) newTip

/-- The end of the step, once the successor is known to extend the chain and to be valid. -/
def finalizeTip (w : World) (env : TipFinalizeEnv) (cursorIn h : ℕ) (oldTip newTip : UInt256)
    (node : Node) : StepResult :=
  let advance (row : TipFinalizeRow) : StepResult :=
    { result := .advanced, node := tipFinalizeLogInsert node h row, cursorOut := cursorIn + 1 }
  if w.index.nChainWork newTip ≤ w.index.nChainWork oldTip then
    advance { status := .preconditionFailed, ok := false }
  else
    let workDelta := (w.index.nChainWork newTip - w.index.nChainWork oldTip) % 2 ^ 128
    match env.utxoCounter (h + 1) with
    | none => { result := .fatal, node }
    | some count =>
      if 0 ≤ count ∧ count ≠ utxoApplySumsThrough node.db h then
        advance { status := .utxoCountDiverged, ok := false
                  workDelta := workDelta, utxoSizeAfter := count }
      else
        { result := .advanced
          node := { tipFinalizeLogInsert node h
              { status := .finalized, ok := true, workDelta := workDelta
                utxoSizeAfter := count, tipHash := some newTip } with
            chain := activeChainMoveWindowTip w.index node.chain (some newTip) }
          cursorOut := cursorIn + 1
          block := some oldTip }

def stepFinalize (w : World) (env : TipFinalizeEnv) (cursorIn : ℕ) (node : Node) : StepResult :=
  match upstreamGate cursorIn (node.db.cursor .utxoApply) node.db.utxoApplyLog with
  | .fatal => { result := .fatal, node }
  | .idle => { result := .idle, node }
  | .row h upstream =>
    if !upstream.ok then
      { result := .advanced
        node := tipFinalizeLogInsert node h { status := .upstreamFailed, ok := false }
        cursorOut := cursorIn + 1 }
    else match activeChainAt node.chain h, activeChainAt node.chain (h + 1) with
      | some oldTip, some newTip =>
        if w.index.pprev newTip ≠ some oldTip then
          { result := .advanced
            node := tipFinalizeLogInsert node h
              { status := .reorgDetected, ok := false
                reorgDepth := reorgDepthFrom w.index oldTip newTip }
            cursorOut := cursorIn + 1 }
        else if selfHeals w node newTip then
          finalizeTip w env cursorIn h oldTip newTip
            { node with nStatus := raiseValidity node.nStatus newTip }
        else if (preconditionBlockReason (node.nStatus newTip)).isSome then
          -- the successor is not ready: no row, no cursor move
          { result := .idle, node }
        else finalizeTip w env cursorIn h oldTip newTip node
      | _, _ => { result := .idle, node }

def tipFinalizeStageStepOnce (w : World) (env : TipFinalizeEnv) (node : Node) : StepResult :=
  match rewindCursorIfActiveChainReorged env.rewindCommits node with
  | none => { result := .fatal, node }
  | some db => stageRunOnce .tipFinalize (stepFinalize w env) env.commits { node with db }

variable (w : World) (env : TipFinalizeEnv) (cursorIn : ℕ) (node : Node)

theorem rewindTo_le (n : ℕ) : rewindTo node n ≤ n := by
  induction n with
  | zero => exact le_rfl
  | succ n ih =>
    rw [rewindTo]
    split_ifs
    · exact le_rfl
    · omega

theorem rewindCursor_some {commits : Bool} {node : Node} {db : ProgressStore}
    (hdb : rewindCursorIfActiveChainReorged commits node = some db) :
    db.cursor .tipFinalize < 2 ^ 31 ∧
      (db = node.db ∨ ∃ value, db = node.db.setCursor .tipFinalize value) := by
  unfold rewindCursorIfActiveChainReorged at hdb
  dsimp only at hdb
  split_ifs at hdb with hzero hlarge hreorged
  · cases hdb
    exact ⟨by omega, .inl rfl⟩
  · cases hdb
    have := rewindTo_le node (node.db.cursor .tipFinalize - 1)
    rw [ProgressStore.cursor_setCursor, if_pos rfl]
    exact ⟨by omega, .inr ⟨_, rfl⟩⟩
  · cases hdb
    exact ⟨by omega, .inl rfl⟩

/-- The window moves exactly when a block is finalized, to the block after it. -/
def FinalizeMoves (w : World) (chain chain' : ActiveChain) (h : ℕ) (ok : Bool) : Prop :=
  if ok then ∃ newTip, activeChainAt chain (h + 1) = some newTip ∧
    chain' = activeChainMoveWindowTip w.index chain (some newTip)
  else chain' = chain

/-- An advance of the step: one row at the cursor height, and the window. -/
structure FinalizeAdvance (w : World) (node : Node) (cursorIn h : ℕ) (row : TipFinalizeRow)
    (out : StepResult) : Prop where
  result : out.result = .advanced
  cursorOut : out.cursorOut = cursorIn + 1
  db : out.node.db = { node.db with tipFinalizeLog := node.db.tipFinalizeLog.insert h row }
  moves : FinalizeMoves w node.chain out.node.chain h row.ok
  tip : row.ok = true → row.tipHash = activeChainAt node.chain (h + 1) ∧
    (activeChainAt node.chain (h + 1)).isSome = true

theorem finalizeTip_cases (h : ℕ) (oldTip newTip : UInt256) (node : Node)
    (hnew : activeChainAt node.chain (h + 1) = some newTip) :
    let out := finalizeTip w env cursorIn h oldTip newTip node
    out.result ≠ .advanced ∧ out.node = node ∨
      ∃ row, FinalizeAdvance w node cursorIn h row out := by
  unfold finalizeTip
  split_ifs
  · exact .inr ⟨_, rfl, rfl, rfl, rfl, nofun⟩
  · cases env.utxoCounter (h + 1) with
    | none => exact .inl ⟨nofun, rfl⟩
    | some count =>
      dsimp only
      split_ifs
      · exact .inr ⟨_, rfl, rfl, rfl, rfl, nofun⟩
      · exact .inr ⟨_, rfl, rfl, rfl, ⟨newTip, hnew, rfl⟩, fun _ => by rw [hnew]; exact ⟨rfl, rfl⟩⟩

theorem stepFinalize_cases :
    let out := stepFinalize w env cursorIn node
    out.result ≠ .advanced ∧ out.node.chain = node.chain ∨
      ∃ h row, nextHeight cursorIn = some h ∧ h < node.db.cursor .utxoApply ∧
        FinalizeAdvance w node cursorIn h row out := by
  unfold stepFinalize
  cases hgate : upstreamGate cursorIn (node.db.cursor .utxoApply) node.db.utxoApplyLog with
  | fatal => exact .inl ⟨nofun, rfl⟩
  | idle => exact .inl ⟨nofun, rfl⟩
  | row h upstream =>
    obtain ⟨hnext, hlt, -⟩ := upstreamGate_row hgate
    dsimp only
    cases upstream.ok with
    | false => exact .inr ⟨h, _, hnext, hlt, rfl, rfl, rfl, rfl, nofun⟩
    | true =>
      rw [Bool.not_true, if_neg Bool.false_ne_true]
      cases hold : activeChainAt node.chain h with
      | none => exact .inl ⟨nofun, rfl⟩
      | some oldTip =>
        cases hnew : activeChainAt node.chain (h + 1) with
        | none => exact .inl ⟨nofun, rfl⟩
        | some newTip =>
          dsimp only
          split_ifs
          · exact .inr ⟨h, _, hnext, hlt, rfl, rfl, rfl, rfl, nofun⟩
          · rcases finalizeTip_cases w env cursorIn h oldTip newTip
              { node with nStatus := raiseValidity node.nStatus newTip } hnew with
              ⟨hne, hnode⟩ | ⟨row, hadv⟩
            · exact .inl ⟨hne, by rw [hnode]⟩
            · exact .inr ⟨h, row, hnext, hlt, hadv.result, hadv.cursorOut, hadv.db, hadv.moves,
                hadv.tip⟩
          · exact .inl ⟨nofun, rfl⟩
          · rcases finalizeTip_cases w env cursorIn h oldTip newTip node hnew with
              ⟨hne, hnode⟩ | ⟨row, hadv⟩
            · exact .inl ⟨hne, by rw [hnode]⟩
            · exact .inr ⟨h, row, hnext, hlt, hadv⟩

/-- The part of the store that utxo_apply owns. -/
structure SameApplied (db db' : ProgressStore) : Prop where
  cursor : db'.cursor .utxoApply = db.cursor .utxoApply
  utxoApplyLog : db'.utxoApplyLog = db.utxoApplyLog
  utxoApplyDelta : db'.utxoApplyDelta = db.utxoApplyDelta

theorem FinalizeMoves.cases {w : World} {chain chain' : ActiveChain} {h : ℕ} {ok : Bool}
    (hmoves : FinalizeMoves w chain chain' h ok) :
    chain' = chain ∨ ∃ k newTip, activeChainAt chain k = some newTip ∧
      chain' = activeChainMoveWindowTip w.index chain (some newTip) := by
  unfold FinalizeMoves at hmoves
  split_ifs at hmoves
  · obtain ⟨newTip, hnew, hchain⟩ := hmoves
    exact .inr ⟨h + 1, newTip, hnew, hchain⟩
  · exact .inl hmoves

/-- What one step writes: its cursor, and a row that names the successor of its height if it
finalizes it. -/
def FinalizeWrites (node : Node) (db : ProgressStore) : Prop :=
  db = node.db ∨ ∃ log value,
    db = { node.db with tipFinalizeLog := log }.setCursor .tipFinalize value ∧
    ∀ h row, log.lookup h = some row → node.db.tipFinalizeLog.lookup h = some row ∨
      (row.ok = true → row.tipHash = activeChainAt node.chain (h + 1) ∧
        (activeChainAt node.chain (h + 1)).isSome = true)

section Writes

variable {node : Node} {db : ProgressStore}

theorem FinalizeWrites.same (h : FinalizeWrites node db) : SameApplied node.db db := by
  rcases h with rfl | ⟨log, value, rfl, -⟩
  · exact ⟨rfl, rfl, rfl⟩
  · exact ⟨(ProgressStore.cursor_setCursor _ _ _ _).trans (if_neg nofun), rfl, rfl⟩

theorem FinalizeWrites.insert {h : ℕ} {row : TipFinalizeRow}
    (hdb : db = node.db ∨ ∃ value, db = node.db.setCursor .tipFinalize value)
    (htip : row.ok = true → row.tipHash = activeChainAt node.chain (h + 1) ∧
      (activeChainAt node.chain (h + 1)).isSome = true) (value : ℕ) :
    FinalizeWrites node
      ({ db with tipFinalizeLog := db.tipFinalizeLog.insert h row }.setCursor .tipFinalize
        value) := by
  refine .inr ⟨node.db.tipFinalizeLog.insert h row, value, ?_, fun k row' hrow => ?_⟩
  · rcases hdb with rfl | ⟨_, rfl⟩
    · rfl
    · simp only [ProgressStore.setCursor, Finmap.insert_insert]
  · rw [Table.lookup_put] at hrow
    split_ifs at hrow with hk
    · cases hrow
      exact .inr (hk ▸ htip)
    · exact .inl hrow

end Writes

/-- One step of the stage: the window stays or moves to a visible block, and an advance is made
below the utxo_apply cursor. -/
theorem tipFinalize_cases :
    let out := tipFinalizeStageStepOnce w env node
    FinalizeWrites node out.node.db ∧
      (out.node.chain = node.chain ∨ ∃ h newTip, activeChainAt node.chain h = some newTip ∧
        out.node.chain = activeChainMoveWindowTip w.index node.chain (some newTip)) ∧
      (out.result = .advanced →
        ∃ h < node.db.cursor .utxoApply, out.node.db.cursor .tipFinalize = h + 1) := by
  unfold tipFinalizeStageStepOnce
  cases hrewind : rewindCursorIfActiveChainReorged env.rewindCommits node with
  | none => exact ⟨.inl rfl, .inl rfl, nofun⟩
  | some db =>
    obtain ⟨hcursor, hdb⟩ := rewindCursor_some hrewind
    have hwrites : FinalizeWrites node db :=
      hdb.imp_right fun ⟨value, hvalue⟩ => ⟨_, value, hvalue, fun _ _ => .inl⟩
    set node₁ : Node := { node with db }
    set out := stepFinalize w env (node₁.db.cursor .tipFinalize) node₁ with hout
    have hstep := stepFinalize_cases w env (node₁.db.cursor .tipFinalize) node₁
    rw [← hout] at hstep
    dsimp only
    rcases stageFinish_cases .tipFinalize env.commits node₁ out with ⟨hne, hnode⟩ | ⟨hadv, -, hres⟩
    · unfold stageRunOnce
      rw [hnode]
      refine ⟨hwrites, ?_, fun hadv => absurd hadv hne⟩
      rcases hstep with ⟨-, hchain⟩ | ⟨h, row, -, -, hadvance⟩
      · exact .inl hchain
      · exact hadvance.moves.cases
    · unfold stageRunOnce
      rw [hres]
      rcases hstep with ⟨hne, -⟩ | ⟨h, row, hnext, hlt, hadvance⟩
      · exact absurd hadv hne
      · refine ⟨?_, hadvance.moves.cases, fun _ => ⟨h, hwrites.same.cursor ▸ hlt, ?_⟩⟩
        · rw [hadvance.db]
          exact .insert hdb hadvance.tip _
        · rw [ProgressStore.cursor_setCursor, if_pos rfl, hadvance.cursorOut,
            (nextHeight_some hcursor.le hnext).1]

end ZClassic
