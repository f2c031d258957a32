import ZClassic.Jobs.ReducerState

/-!
# body_fetch and body_persist

`step_body_fetch` of `app/jobs/src/body_fetch_stage.c` notes which bodies are on disk, and
`step_persist` of `app/jobs/src/body_persist_stage.c` reads them back, checks them against their
headers and indexes the outputs they create.
-/

namespace ZClassic

def bodyFetchLogInsert (node : Node) (h : ℕ) (row : BodyFetchRow) : Node :=
  { node with db := { node.db with bodyFetchLog := node.db.bodyFetchLog.insert h row } }

def stepBodyFetch (cursorIn : ℕ) (node : Node) : StepResult :=
  match upstreamGate cursorIn (node.db.cursor .validateHeaders) node.db.validateHeadersLog with
  | .fatal => { result := .fatal, node }
  | .idle => { result := .idle, node }
  | .row h upstream =>
    match activeChainAt node.chain h with
    | none => { result := .idle, node }
    | some bi =>
      if !upstream.ok then
        if upstream.failReason = "no-header-solution-backfill-required" then
          -- the header may still pass: wait for its solution
          { result := .blocked { height := h, status := "body_fetch.header_solution_missing"
                                 kind := "body_fetch" }
            node := node }
        else
          { result := .advanced
            node := bodyFetchLogInsert node h
              { source := "skipped_invalid", ok := false, failReason := "header_validation_failed" }
            cursorOut := cursorIn + 1 }
      else if node.nStatus bi &&& blockHaveData = 0 then { result := .idle, node }
      else
        { result := .advanced
          node := bodyFetchLogInsert node h { source := "disk", ok := true }
          cursorOut := cursorIn + 1
          block := some bi }

def bodyFetchStageStepOnce (w : ReducerWorld) (commits : Bool) (st : Reducer) :
    JobResult × Reducer :=
  let st := reducerExtendWindowToCandidate w st
  let out := stageRunOnce .bodyFetch stepBodyFetch commits st.node
  (out.result, { st with node := out.node })

structure BodyPersistEnv where
  commits : Bool := true
  /-- the hash of the block that the reader finds for an entry -/
  reader : UInt256 → Option UInt256 := some

def bodyPersistLogInsert (node : Node) (h : ℕ) (row : BodyPersistRow) : Node :=
  { node with db := { node.db with bodyPersistLog := node.db.bodyPersistLog.insert h row } }

def verifyMerkleRoot (w : ReducerWorld) (b : UInt256) : Bool :=
  (w.header b).hashMerkleRoot ==
    (computeMerkleRootMutated w.check.hashPair ((w.content b).vtx.map (·.hash))).1

def stepPersist (w : ReducerWorld) (env : BodyPersistEnv) (cursorIn : ℕ) (node : Node) :
    StepResult :=
  let advance (node : Node) (h : ℕ) (source : String) (ok : Bool) : StepResult :=
    { result := .advanced
      node := bodyPersistLogInsert node h { source, ok }
      cursorOut := cursorIn + 1 }
  match upstreamGate cursorIn (node.db.cursor .bodyFetch) node.db.bodyFetchLog with
  | .fatal => { result := .fatal, node }
  | .idle => { result := .idle, node }
  | .row h upstream =>
    if !upstream.ok then advance node h "upstream_failed" false
    else match activeChainAt node.chain h with
      | none => { result := .idle, node }
      | some bi =>
        if node.nStatus bi &&& blockHaveData = 0 then { result := .idle, node }
        else match env.reader bi with
          | none => advance node h "read_failed" false
          | some found =>
            if found ≠ bi then advance node h "header_mismatch" false
            else if !verifyMerkleRoot w bi then advance node h "merkle_mismatch" false
            else
              advance { node with
                nStatus := Function.update node.nStatus bi (node.nStatus bi ||| blockHaveData)
                db := createdOutputsIndexPutBlock node.db (w.content bi) h }
                h "verified" true

def bodyPersistStageStepOnce (w : ReducerWorld) (env : BodyPersistEnv) (st : Reducer) :
    JobResult × Reducer :=
  let st := reducerExtendWindowToCandidate w st
  let out := stageRunOnce .bodyPersist (stepPersist w env) env.commits st.node
  (out.result, { st with node := out.node })

theorem stepBodyFetch_writes (cursorIn : ℕ) (node : Node) :
    UpstreamWrites node (stepBodyFetch cursorIn node).node := by
  have hself : UpstreamWrites node node := ⟨.refl _, rfl⟩
  have hinsert : ∀ h row, UpstreamWrites node (bodyFetchLogInsert node h row) :=
    fun h row => ⟨⟨⟨⟨rfl, rfl⟩, ⟨rfl, rfl⟩, ⟨rfl, rfl, rfl⟩, rfl⟩, rfl, rfl⟩, rfl⟩
  unfold stepBodyFetch
  cases upstreamGate cursorIn (node.db.cursor .validateHeaders) node.db.validateHeadersLog with
  | fatal => exact hself
  | idle => exact hself
  | row h upstream =>
    dsimp only
    cases activeChainAt node.chain h with
    | none => exact hself
    | some bi =>
      dsimp only
      split_ifs
      · exact hself
      · exact hinsert _ _
      · exact hself
      · exact hinsert _ _

variable (w : ReducerWorld) (env : BodyPersistEnv)

theorem stepPersist_writes (cursorIn : ℕ) (node : Node) :
    UpstreamWrites node (stepPersist w env cursorIn node).node := by
  have hself : UpstreamWrites node node := ⟨.refl _, rfl⟩
  have hinsert : ∀ h row, UpstreamWrites node (bodyPersistLogInsert node h row) :=
    fun h row => ⟨⟨⟨⟨rfl, rfl⟩, ⟨rfl, rfl⟩, ⟨rfl, rfl, rfl⟩, rfl⟩, rfl, rfl⟩, rfl⟩
  unfold stepPersist
  cases upstreamGate cursorIn (node.db.cursor .bodyFetch) node.db.bodyFetchLog with
  | fatal => exact hself
  | idle => exact hself
  | row h upstream =>
    dsimp only
    cases upstream.ok with
    | false => exact hinsert _ _
    | true =>
      rw [Bool.not_true, if_neg Bool.false_ne_true]
      cases activeChainAt node.chain h with
      | none => exact hself
      | some bi =>
        dsimp only
        cases env.reader bi with
        | none =>
          dsimp only
          split_ifs
          · exact hself
          · exact hinsert _ _
        | some found =>
          dsimp only
          split_ifs
          · exact hself
          · exact hinsert _ _
          · exact hinsert _ _
          · exact ⟨⟨⟨⟨rfl, rfl⟩, ⟨rfl, rfl⟩, ⟨rfl, rfl, rfl⟩, rfl⟩, rfl, rfl⟩, rfl⟩

theorem bodyFetch_writes (commits : Bool) (st : Reducer) :
    SameIndex (reducerExtendWindowToCandidate w st) (bodyFetchStageStepOnce w commits st).2 ∧
      SameDownstream st.node.db (bodyFetchStageStepOnce w commits st).2.node.db := by
  have hwrites := UpstreamWrites.stageFinish .bodyFetch commits rfl
    (stepBodyFetch_writes (st.node.db.cursor .bodyFetch) (reducerExtendWindowToCandidate w st).node)
  exact ⟨sameIndex_of_chain hwrites.chain, hwrites.same⟩

theorem bodyPersist_writes (st : Reducer) :
    SameIndex (reducerExtendWindowToCandidate w st) (bodyPersistStageStepOnce w env st).2 ∧
      SameDownstream st.node.db (bodyPersistStageStepOnce w env st).2.node.db := by
  have hwrites := UpstreamWrites.stageFinish .bodyPersist env.commits rfl
    (stepPersist_writes w env (st.node.db.cursor .bodyPersist)
      (reducerExtendWindowToCandidate w st).node)
  exact ⟨sameIndex_of_chain hwrites.chain, hwrites.same⟩

end ZClassic
