import ZClassic.Jobs.ReducerState

/-!
# validate_headers

`step_validate` and `recheck_failed_rows` of `app/jobs/src/validate_headers_stage.c`.
-/

namespace ZClassic

structure ValidateHeadersEnv where
  commits : Bool := true
  recheckCommits : Bool := true
  /-- the verdict on the block at a height, with the reason of a failure -/
  validator : ProgressStore → ℕ → UInt256 → Bool × String

def vhBatchSize : ℕ := 8

structure VhJob where
  height : ℕ
  block : UInt256
  ok : Bool
  reason : String

/-- The block at `h`: on the active chain, or above it on the way to the best header. -/
def vhResolveBi (w : ReducerWorld) (st : Reducer) (h : ℕ) : Option UInt256 :=
  match activeChainAt st.node.chain h with
  | some bi => some bi
  | none =>
    if h ≤ w.index.nHeight st.bestHeader then
      w.index.ancestor (w.index.nHeight st.bestHeader - h) st.bestHeader
    else none

def poolRun (env : ValidateHeadersEnv) (db : ProgressStore) (job : ℕ × UInt256) : VhJob :=
  let verdict := env.validator db job.1 job.2
  { height := job.1, block := job.2, ok := verdict.1, reason := verdict.2 }

def vhFailureIsRepairable (reason : String) : Bool :=
  reason == "no-header-solution-backfill-required" || reason == "header-source-hash-mismatch"

/-- The lowest height that failed but may still pass. -/
def lowestRepairable (jobs : List VhJob) : Option ℕ :=
  (jobs.find? fun job => !job.ok && vhFailureIsRepairable job.reason).map (·.height)

def markValidHeader (nStatus : UInt256 → UInt32) (bi : UInt256) : Option (UInt256 → UInt32) :=
  if nStatus bi &&& blockFailedMask ≠ 0 then none
  else if nStatus bi &&& blockValidMask < blockValidHeader then
    some (Function.update nStatus bi ((nStatus bi &&& ~~~blockValidMask) ||| blockValidHeader))
  else some nStatus

/-- One pass of the write loop. The status bits are not part of the transaction. -/
def vhWriteRow (node : Node) (job : VhJob) : Except Node Node :=
  let write (node : Node) : Node := { node with
    db := { node.db with
      validateHeadersLog := node.db.validateHeadersLog.insert job.height
        { hash := job.block, ok := job.ok, failReason := job.reason } } }
  if job.ok then
    match markValidHeader node.nStatus job.block with
    | none => .error node
    | some nStatus => .ok (write { node with nStatus })
  else .ok (write node)

/-- The heights of the next batch: admitted, not yet validated. -/
def vhBatch (db : ProgressStore) (h : ℕ) : List ℕ :=
  List.range' h (min (db.cursor .headerAdmit - h) vhBatchSize)

/-- The floor stays below the lowest failure that may still pass. -/
def nextRecheckFloor (floor cursorOut : ℕ) (jobs : List VhJob) : ℕ :=
  match lowestRepairable jobs with
  | some lowest => min floor lowest
  | none => max floor cursorOut

def stepValidateHeaders (w : ReducerWorld) (env : ValidateHeadersEnv) (st : Reducer) :
    StepResult × ℕ :=
  let floor := st.failureRecheckCursor
  let cursorIn := st.node.db.cursor .validateHeaders
  match nextHeight cursorIn with
  | none => ({ result := .fatal, node := st.node }, floor)
  | some h =>
    if st.node.db.cursor .headerAdmit ≤ h then ({ result := .idle, node := st.node }, floor)
    else match (vhBatch st.node.db h).mapM fun h => (vhResolveBi w st h).map (h, ·) with
      | none => ({ result := .idle, node := st.node }, floor)
      | some batch =>
        let jobs := batch.map (poolRun env st.node.db)
        match jobs.foldlM vhWriteRow st.node with
        | .error node => ({ result := .fatal, node }, floor)
        | .ok node =>
          let cursorOut := cursorIn + batch.length
          ({ result := .advanced, node, cursorOut },
            nextRecheckFloor floor cursorOut jobs)

/-- The lower of the finalize and fetch cursors, where they are set. -/
def recheckFrontier (db : ProgressStore) : ℕ :=
  let fin := db.cursor .tipFinalize
  let bf := db.cursor .bodyFetch
  if 0 < bf ∧ (fin = 0 ∨ bf < fin) then bf else fin

def allFailedRows (db : ProgressStore) (start : ℕ) : List ℕ :=
  (List.range' start (db.cursor .validateHeaders - start)).filter fun h =>
    (db.validateHeadersLog.lookup h).any fun row => !row.ok

def failedRows (db : ProgressStore) (start : ℕ) : List ℕ :=
  (allFailedRows db start).take vhBatchSize

def recheckFailedRows (w : ReducerWorld) (env : ValidateHeadersEnv) (st : Reducer) :
    JobResult × Reducer :=
  let validated := st.node.db.cursor .validateHeaders
  let start := max st.failureRecheckCursor (recheckFrontier st.node.db)
  if validated = 0 ∨ validated ≤ start then (.idle, st)
  else
    let rows := failedRows st.node.db start
    let firstUnresolved := rows.find? fun h => (vhResolveBi w st h).isNone
    let batch := rows.filterMap fun h => (vhResolveBi w st h).map (h, ·)
    if batch = [] then
      (.idle, { st with failureRecheckCursor := firstUnresolved.getD validated })
    else
      let jobs := batch.map (poolRun env st.node.db)
      match jobs.foldlM vhWriteRow st.node with
      | .error node => (.fatal, { st with node := { node with db := st.node.db } })
      | .ok node =>
        if !env.recheckCommits then (.fatal, { st with node := { node with db := st.node.db } })
        else
          let floor := (lowestRepairable jobs).getD (rows.getLastD start + 1)
          let floor := min floor (firstUnresolved.getD floor)
          (if start < floor then .advanced else .idle,
            { st with node, failureRecheckCursor := floor })

def validateHeadersStageStepOnce (w : ReducerWorld) (env : ValidateHeadersEnv) (st : Reducer) :
    JobResult × Reducer :=
  let st := reducerExtendWindowToCandidate w st
  let (step, floor) := stepValidateHeaders w env st
  let out := stageFinish .validateHeaders env.commits st.node step
  let st := { st with node := out.node, failureRecheckCursor := floor }
  if out.result = .idle then recheckFailedRows w env st else (out.result, st)

theorem vhWriteRow_writes {node node' : Node} (h : UpstreamWrites node node') (job : VhJob) :
    UpstreamWrites node (final (vhWriteRow node' job)) := by
  have hdb : ∀ n : Node, n.db = node'.db → SameDownstream node'.db { n.db with
      validateHeadersLog := n.db.validateHeadersLog.insert job.height
        { hash := job.block, ok := job.ok, failReason := job.reason } } := by
    intro n hn
    rw [hn]
    exact ⟨⟨⟨rfl, rfl⟩, ⟨rfl, rfl⟩, ⟨rfl, rfl, rfl⟩, rfl⟩, rfl, rfl⟩
  unfold vhWriteRow
  dsimp only
  split_ifs
  · cases markValidHeader node'.nStatus job.block with
    | none => exact h
    | some nStatus => exact ⟨h.same.trans (hdb { node' with nStatus } rfl), h.chain⟩
  · exact ⟨h.same.trans (hdb node' rfl), h.chain⟩

theorem vhWriteRows_writes (node : Node) (jobs : List VhJob) :
    UpstreamWrites node (final (jobs.foldlM vhWriteRow node)) :=
  final_foldlM_invariant (UpstreamWrites node) (fun job _ _ ht => vhWriteRow_writes ht job)
    ⟨.refl _, rfl⟩

variable (w : ReducerWorld) (env : ValidateHeadersEnv) (st : Reducer)

theorem stepValidateHeaders_writes :
    UpstreamWrites st.node (stepValidateHeaders w env st).1.node := by
  have hself : UpstreamWrites st.node st.node := ⟨.refl _, rfl⟩
  unfold stepValidateHeaders
  dsimp only
  cases nextHeight (st.node.db.cursor .validateHeaders) with
  | none => exact hself
  | some h =>
    dsimp only
    split_ifs
    · exact hself
    · cases (vhBatch st.node.db h).mapM fun h => (vhResolveBi w st h).map (h, ·) with
      | none => exact hself
      | some batch =>
        have hwrites := vhWriteRows_writes st.node (batch.map (poolRun env st.node.db))
        dsimp only
        cases hrun : (batch.map (poolRun env st.node.db)).foldlM vhWriteRow st.node with
        | error node =>
          rw [hrun] at hwrites
          exact hwrites
        | ok node =>
          rw [hrun] at hwrites
          exact hwrites

theorem recheckFailedRows_writes :
    SameIndex st (recheckFailedRows w env st).2 ∧
      SameDownstream st.node.db (recheckFailedRows w env st).2.node.db := by
  have hself : SameIndex st st := sameIndex_of_chain rfl
  unfold recheckFailedRows
  dsimp only
  split_ifs
  · exact ⟨hself, .refl _⟩
  · exact ⟨⟨rfl, rfl, rfl, rfl, rfl, rfl, rfl⟩, .refl _⟩
  all_goals
    generalize hjobs : List.map (poolRun env st.node.db) _ = jobs
    have hwrites := vhWriteRows_writes st.node jobs
    cases hrun : jobs.foldlM vhWriteRow st.node with
    | error node =>
      rw [hrun] at hwrites
      exact ⟨sameIndex_of_chain hwrites.chain, .refl _⟩
    | ok node =>
      rw [hrun] at hwrites
      first
        | exact ⟨sameIndex_of_chain hwrites.chain, .refl _⟩
        | exact ⟨⟨rfl, rfl, rfl, rfl, hwrites.chain, rfl, rfl⟩, hwrites.same⟩

theorem validateHeaders_writes :
    SameIndex (reducerExtendWindowToCandidate w st) (validateHeadersStageStepOnce w env st).2 ∧
      SameDownstream st.node.db (validateHeadersStageStepOnce w env st).2.node.db := by
  set ext := reducerExtendWindowToCandidate w st
  have hstep := stepValidateHeaders_writes w env ext
  set step := stepValidateHeaders w env ext with hstepdef
  set out := stageFinish .validateHeaders env.commits ext.node step.1 with hout
  have hwrites : UpstreamWrites ext.node out.node := hstep.stageFinish _ _ rfl
  have hindex : SameIndex ext { ext with node := out.node, failureRecheckCursor := step.2 } :=
    ⟨rfl, rfl, rfl, rfl, hwrites.chain, rfl, rfl⟩
  have hcall : validateHeadersStageStepOnce w env st =
      if out.result = .idle then
        recheckFailedRows w env { ext with node := out.node, failureRecheckCursor := step.2 }
      else (out.result, { ext with node := out.node, failureRecheckCursor := step.2 }) := rfl
  rw [hcall]
  split_ifs
  · obtain ⟨hri, hrd⟩ := recheckFailedRows_writes w env
      { ext with node := out.node, failureRecheckCursor := step.2 }
    exact ⟨hindex.trans hri, hwrites.same.trans hrd⟩
  · exact ⟨hindex, hwrites.same⟩

end ZClassic
