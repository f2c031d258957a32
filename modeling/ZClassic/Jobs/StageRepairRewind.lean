import ZClassic.Storage.ProgressStore

/-!
# The header-solution poison rewind

`stage_repair_header_solution_poison_rewind` of `app/jobs/src/stage_repair_rewind.c`: when a header
failure has poisoned the frontier, the rows at and above it are deleted and the cursors of the
stages after it are forced to it, in one transaction.
-/

namespace ZClassic

inductive HeaderSolutionPoison where
  | none
  | validateSolutionless
  | downstreamStale
  deriving DecidableEq

def stageRepairSolutionlessReason : String := "no-header-solution-backfill-required"

variable (db : ProgressStore)

def bodyFetchSkippedInvalid (h : ℕ) : Bool :=
  match db.bodyFetchLog.lookup h with
  | none => false
  | some row =>
    !row.ok && row.source == "skipped_invalid" && row.failReason == "header_validation_failed"

def poisonMode (h : ℕ) : HeaderSolutionPoison :=
  match db.validateHeadersLog.lookup h with
  | none => .none
  | some vh =>
    if !vh.ok && vh.failReason == stageRepairSolutionlessReason then .validateSolutionless
    else if bodyFetchSkippedInvalid db h && vh.ok then .downstreamStale
    else .none

def hasSuccessAtOrAbove (h : ℕ) : Bool :=
  db.bodyFetchLog.anyRow (fun k row => decide (h ≤ k) && row.ok) ||
    db.bodyPersistLog.anyRow (fun k row => decide (h ≤ k) && row.ok) ||
    db.scriptValidateLog.anyRow (fun k row => decide (h ≤ k) && row.ok) ||
    db.proofValidateLog.anyRow (fun k row => decide (h ≤ k) && row.ok) ||
    db.utxoApplyLog.anyRow (fun k row => decide (h ≤ k) && row.ok) ||
    db.tipFinalizeLog.anyRow (fun k row => decide (h ≤ k) && row.ok)

/-- `delete_from_table` on the logs after header validation; tip_finalize_log is kept. -/
def deleteDownstreamLogs (h : ℕ) : ProgressStore :=
  { db with
    bodyFetchLog := db.bodyFetchLog.delWhere fun k => h ≤ k
    bodyPersistLog := db.bodyPersistLog.delWhere fun k => h ≤ k
    scriptValidateLog := db.scriptValidateLog.delWhere fun k => h ≤ k
    proofValidateLog := db.proofValidateLog.delWhere fun k => h ≤ k
    utxoApplyLog := db.utxoApplyLog.delWhere fun k => h ≤ k
    utxoApplyDelta := db.utxoApplyDelta.delWhere fun k => h ≤ k }

def poisonedRows (mode : HeaderSolutionPoison) (h : ℕ) : ℕ :=
  (if mode = .validateSolutionless then db.validateHeadersLog.countWhere (h ≤ ·) else 0) +
    db.bodyFetchLog.countWhere (h ≤ ·) + db.bodyPersistLog.countWhere (h ≤ ·) +
    db.scriptValidateLog.countWhere (h ≤ ·) + db.proofValidateLog.countWhere (h ≤ ·) +
    db.utxoApplyLog.countWhere (h ≤ ·) + db.utxoApplyDelta.countWhere (h ≤ ·)

def downstreamStages : List StageName :=
  [.bodyFetch, .bodyPersist, .scriptValidate, .proofValidate, .utxoApply, .tipFinalize]

def forcedStages (mode : HeaderSolutionPoison) : List StageName :=
  if mode = .validateSolutionless then .validateHeaders :: downstreamStages else downstreamStages

def forceStageCursors (names : List StageName) (h : ℕ) : ProgressStore :=
  names.foldl (fun db name => db.setCursor name h) db

structure HeaderSolutionResult where
  targetHeight : ℕ := 0
  mode : HeaderSolutionPoison := .none
  repaired : Bool := false
  deletedRows : ℕ := 0
  rewoundCursors : ℕ := 0
  deriving DecidableEq

def poisonRewindStore (mode : HeaderSolutionPoison) (height : Int32) : ProgressStore :=
  let h := height.toInt.toNat
  let db := if mode = .validateSolutionless then
      { db with validateHeadersLog := db.validateHeadersLog.delWhere fun k => h ≤ k }
    else db
  (forceStageCursors (deleteDownstreamLogs db h) (forcedStages mode) h).setAppliedHeight height

/-- What the function returns, the store it leaves and what it reports. -/
def stageRepairHeaderSolutionPoisonRewind (commits : Bool) (db : ProgressStore)
    (height activeTipHeight : Int32) : Bool × ProgressStore × HeaderSolutionResult :=
  if height < 0 ∨ activeTipHeight < -1 then (false, db, {})
  else if height.toInt ≠ activeTipHeight.toInt + 1 then (false, db, {})
  else
    let h := height.toInt.toNat
    let mode := poisonMode db h
    let found : HeaderSolutionResult := { targetHeight := h, mode }
    if mode = .none then (true, db, found)
    else if hasSuccessAtOrAbove db h then (false, db, found)
    else if !commits then (false, db, found)
    else (true, poisonRewindStore db mode height,
      { found with
        repaired := true
        deletedRows := poisonedRows db mode h
        rewoundCursors := (forcedStages mode).length })

variable (mode : HeaderSolutionPoison) (height : Int32)

theorem cursor_forceStageCursors (names : List StageName) (h : ℕ) (name : StageName) :
    (forceStageCursors db names h).cursor name = if name ∈ names then h else db.cursor name := by
  induction names generalizing db with
  | nil => simp [forceStageCursors]
  | cons n names ih =>
    change (forceStageCursors (db.setCursor n h) names h).cursor name = _
    rw [ih, ProgressStore.cursor_setCursor]
    by_cases hmem : name ∈ names
    · rw [if_pos hmem, if_pos (List.mem_cons_of_mem n hmem)]
    · by_cases heq : name = n
      · rw [if_neg hmem, if_pos heq, if_pos (heq ▸ List.mem_cons_self)]
      · rw [if_neg hmem, if_neg heq, if_neg (by simp [hmem, heq])]

@[simp]
theorem cursor_poisonRewindStore (name : StageName) :
    (poisonRewindStore db mode height).cursor name =
      if name ∈ forcedStages mode then height.toInt.toNat else db.cursor name := by
  rw [poisonRewindStore, ProgressStore.cursor_setAppliedHeight, cursor_forceStageCursors]
  split_ifs <;> rfl

@[simp]
theorem appliedHeight_poisonRewind :
    (poisonRewindStore db mode height).appliedHeight = some height :=
  ProgressStore.appliedHeight_setAppliedHeight _ _

theorem poisonRewind_cases (commits : Bool) (db : ProgressStore) (height activeTipHeight : Int32) :
    let out := (stageRepairHeaderSolutionPoisonRewind commits db height activeTipHeight).2
    out.2.repaired = false ∧ out.1 = db ∨
      0 ≤ height ∧ out.1 = poisonRewindStore db (poisonMode db height.toInt.toNat) height := by
  unfold stageRepairHeaderSolutionPoisonRewind
  dsimp only
  split_ifs with hargs
  · exact .inl ⟨rfl, rfl⟩
  · exact .inl ⟨rfl, rfl⟩
  · exact .inl ⟨rfl, rfl⟩
  · exact .inl ⟨rfl, rfl⟩
  · exact .inl ⟨rfl, rfl⟩
  · refine .inr ⟨?_, rfl⟩
    rw [not_or, Int32.not_lt] at hargs
    exact hargs.1

end ZClassic
