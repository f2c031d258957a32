import ZClassic.Jobs.Stage

/-!
# proof_validate

`step_validate` of `app/jobs/src/proof_validate_stage.c`: verifies the shielded proofs of the active
block at the cursor.
-/

namespace ZClassic

structure ProofTxReport where
  ok : Bool := true
  internalError : Bool := false
  saplingSpendsTotal : ℕ := 0
  saplingOutputsTotal : ℕ := 0
  sproutJoinsplitsTotal : ℕ := 0
  firstFailureProofType : Option String := none
  deriving DecidableEq

structure ProofValidateEnv where
  readable : UInt256 → Bool := fun _ => true
  commits : Bool := true
  /-- an injected verifier takes the place of the default one and needs no parameters -/
  injectedVerifier : Bool := false
  saplingParamsLoaded : Bool := true
  /-- the transaction verifier; `none` when it returns false -/
  verifyTx : ℕ → Transaction → Option ProofTxReport

structure ProofSummary where
  status : ProofValidateStatus := .verified
  saplingSpendsTotal : ℕ := 0
  saplingOutputsTotal : ℕ := 0
  sproutJoinsplitsTotal : ℕ := 0
  firstFailureTxid : Option UInt256 := none
  firstFailureProofType : Option String := none
  deriving DecidableEq

def ProofSummary.ok (s : ProofSummary) : Bool := s.status == .verified

def txHasShieldedProofs (tx : Transaction) : Bool :=
  !tx.vJoinsplit.isEmpty || !tx.vShieldedSpend.isEmpty || !tx.vShieldedOutput.isEmpty

def blockHasShieldedProofs (blk : Block) : Bool := blk.vtx.any txHasShieldedProofs

def validateTxProofs (verifyTx : Transaction → Option ProofTxReport) (s : ProofSummary)
    (tx : Transaction) : Except ProofSummary ProofSummary :=
  match verifyTx tx with
  | none => .error { s with
      status := .internalError
      firstFailureTxid := some tx.hash
      firstFailureProofType := some "internal" }
  | some r =>
    let s := { s with
      saplingSpendsTotal := s.saplingSpendsTotal + r.saplingSpendsTotal
      saplingOutputsTotal := s.saplingOutputsTotal + r.saplingOutputsTotal
      sproutJoinsplitsTotal := s.sproutJoinsplitsTotal + r.sproutJoinsplitsTotal }
    if r.ok then .ok s
    else .error { s with
      status := if r.internalError then .internalError else .proofInvalid
      firstFailureTxid := some tx.hash
      firstFailureProofType := some (r.firstFailureProofType.getD "internal") }

def validateBlockProofs (verifyTx : Transaction → Option ProofTxReport) (blk : Option Block) :
    ProofSummary :=
  match blk with
  | none => { status := .internalError }
  | some blk =>
    match blk.vtx.foldlM (validateTxProofs verifyTx) {} with
    | .ok s => s
    | .error s => s

def ProofSummary.row (s : ProofSummary) : ProofValidateRow where
  status := s.status
  ok := s.ok
  saplingSpendsTotal := s.saplingSpendsTotal
  saplingOutputsTotal := s.saplingOutputsTotal
  sproutJoinsplitsTotal := s.sproutJoinsplitsTotal
  firstFailureTxid := s.firstFailureTxid
  firstFailureProofType := s.firstFailureProofType

def proofValidateLogInsert (node : Node) (h : ℕ) (row : ProofValidateRow) : Node :=
  { node with db := { node.db with proofValidateLog := node.db.proofValidateLog.insert h row } }

def proofValidateStep (w : World) (env : ProofValidateEnv) (cursorIn : ℕ) (node : Node) :
    StepResult :=
  match upstreamGate cursorIn (node.db.cursor .scriptValidate) node.db.scriptValidateLog with
  | .fatal => { result := .fatal, node }
  | .idle => { result := .idle, node }
  | .row h upstream =>
    if !upstream.ok then
      { result := .advanced
        node := proofValidateLogInsert node h { status := .upstreamFailed, ok := false }
        cursorOut := cursorIn + 1 }
    else match readActiveBlock env.readable node h with
      | none => { result := .idle, node }
      | some bi =>
        if !env.injectedVerifier && blockHasShieldedProofs (w.content bi) &&
            !env.saplingParamsLoaded then
          { result := .idle, node }
        else
          { result := .advanced
            node := proofValidateLogInsert node h
              (validateBlockProofs (env.verifyTx h) (some (w.content bi))).row
            cursorOut := cursorIn + 1
            block := some bi }

def proofValidateStageStepOnce (w : World) (env : ProofValidateEnv) (node : Node) : StepResult :=
  stageRunOnce .proofValidate (proofValidateStep w env) env.commits node

def proofLogged (db : ProgressStore) (h : ℕ) (row : ProofValidateRow) : ProgressStore :=
  { db with proofValidateLog := db.proofValidateLog.insert h row }.setCursor .proofValidate
    (db.cursor .proofValidate + 1)

variable (db : ProgressStore) (w : World) (h : ℕ) (env : ProofValidateEnv) (node : Node)

theorem lookup_proofLogged (k : ℕ) (row : ProofValidateRow) :
    (proofLogged db h row).proofValidateLog.lookup k =
      if k = h then some row else db.proofValidateLog.lookup k :=
  Table.lookup_put _ _ _ _

@[simp]
theorem cursor_proofLogged (row : ProofValidateRow) (name : StageName) :
    (proofLogged db h row).cursor name =
      if name = .proofValidate then db.cursor .proofValidate + 1 else db.cursor name :=
  ProgressStore.cursor_setCursor _ _ _ _

/-- A row with `ok = 1` is written for the active block, over a script row with `ok = 1`. -/
def ProofRowFor (node : Node) (h : ℕ) (row : ProofValidateRow) (block : Option UInt256) : Prop :=
  row.ok = true →
    (∃ srow, node.db.scriptValidateLog.lookup h = some srow ∧ srow.ok = true) ∧
      ∃ bi, activeChainAt node.chain h = some bi ∧ block = some bi

/-- What an advance writes: one row at the height of the cursor, below that of script_validate. -/
def ProofWrites (node : Node) (db : ProgressStore) (block : Option UInt256) : Prop :=
  ∃ h row, nextHeight (node.db.cursor .proofValidate) = some h ∧
    h < node.db.cursor .scriptValidate ∧ db = proofLogged node.db h row ∧
    ProofRowFor node h row block

theorem proofValidateStep_writes : StepWrites .proofValidate node (ProofWrites node)
    (proofValidateStep w env (node.db.cursor .proofValidate) node) := by
  unfold proofValidateStep
  cases hgate : upstreamGate (node.db.cursor .proofValidate) (node.db.cursor .scriptValidate)
      node.db.scriptValidateLog with
  | fatal => exact ⟨rfl, nofun⟩
  | idle => exact ⟨rfl, nofun⟩
  | row h upstream =>
    obtain ⟨hnext, hlt, hrow⟩ := upstreamGate_row hgate
    dsimp only
    cases hok : upstream.ok with
    | false => exact ⟨rfl, fun _ => ⟨h, _, hnext, hlt, rfl, nofun⟩⟩
    | true =>
      rw [Bool.not_true, if_neg Bool.false_ne_true]
      cases hactive : readActiveBlock env.readable node h with
      | none => exact ⟨rfl, nofun⟩
      | some bi =>
        dsimp only
        split_ifs
        · exact ⟨rfl, nofun⟩
        · exact ⟨rfl, fun _ => ⟨h, _, hnext, hlt, rfl, fun _ =>
            ⟨⟨upstream, hrow, hok⟩, bi, readActiveBlock_some hactive, rfl⟩⟩⟩

theorem proofValidate_cases :
    StageWrites node (ProofWrites node) (proofValidateStageStepOnce w env node) :=
  (proofValidateStep_writes w env node).finish env.commits

end ZClassic
