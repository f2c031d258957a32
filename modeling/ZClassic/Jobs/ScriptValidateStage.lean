import ZClassic.Jobs.Stage

/-!
# script_validate

`step_validate` of `app/jobs/src/script_validate_stage.c`: verifies every input script of the active
block at the cursor and logs the verdict under its height.
-/

namespace ZClassic

structure ScriptValidateEnv where
  readable : UInt256 → Bool := fun _ => true
  commits : Bool := true
  /-- the resolver, which reads the store as it is at this height -/
  prevout : ProgressStore → ℕ → Outpoint → Option TxOut
  /-- `verify_script` on one input at this height; 0 is `SCRIPT_ERR_OK` -/
  verifyScript : ℕ → Transaction → ℕ → TxOut → ℕ

structure ScriptSummary where
  status : ScriptValidateStatus := .verified
  txCount : ℕ := 0
  inputCount : ℕ := 0
  firstFailure : Option (UInt256 × ℕ) := none
  firstFailureSerror : ℕ := 0
  deriving DecidableEq

def ScriptSummary.ok (s : ScriptSummary) : Bool := s.status == .verified

section Block

variable (prevout : Outpoint → Option TxOut) (verifyScript : Transaction → ℕ → TxOut → ℕ)

def validateInputScript (tx : Transaction) (s : ScriptSummary) (i : TxIn × ℕ) :
    Except ScriptSummary ScriptSummary :=
  match prevout i.1.prevout with
  | none => .error { s with status := .prevoutUnresolved, firstFailure := some (tx.hash, i.2) }
  | some prev =>
    let s := { s with inputCount := s.inputCount + 1 }
    let serror := verifyScript tx i.2 prev
    if serror = 0 then .ok s
    else .error { s with
      status := .scriptInvalid, firstFailure := some (tx.hash, i.2), firstFailureSerror := serror }

def validateTxScripts (s : ScriptSummary) (tx : Transaction) :
    Except ScriptSummary ScriptSummary :=
  let s := { s with txCount := s.txCount + 1 }
  if transactionIsCoinbase tx then .ok s
  else tx.vin.zipIdx.foldlM (validateInputScript prevout verifyScript tx) s

def validateBlockScripts (blk : Option Block) : ScriptSummary :=
  match blk with
  | none => { status := .blockDecodeFailed }
  | some blk =>
    match blk.vtx.foldlM (validateTxScripts prevout verifyScript) {} with
    | .ok s => s
    | .error s => s

end Block

def ScriptSummary.row (s : ScriptSummary) (hash : UInt256) : ScriptValidateRow where
  status := s.status
  ok := s.ok
  txCount := s.txCount
  inputCount := s.inputCount
  firstFailure := s.firstFailure
  firstFailureSerror := s.firstFailureSerror
  blockHash := some hash

def scriptValidateLogInsert (node : Node) (h : ℕ) (row : ScriptValidateRow) : Node :=
  { node with db := { node.db with scriptValidateLog := node.db.scriptValidateLog.insert h row } }

def scriptValidateStep (w : World) (env : ScriptValidateEnv) (cursorIn : ℕ) (node : Node) :
    StepResult :=
  match upstreamGate cursorIn (node.db.cursor .bodyPersist) node.db.bodyPersistLog with
  | .fatal => { result := .fatal, node }
  | .idle => { result := .idle, node }
  | .row h upstream =>
    if !upstream.ok then
      { result := .advanced
        node := scriptValidateLogInsert node h { status := .upstreamFailed, ok := false }
        cursorOut := cursorIn + 1 }
    else match readActiveBlock env.readable node h with
      | none => { result := .idle, node }
      | some bi =>
        let summary :=
          validateBlockScripts (env.prevout node.db h) (env.verifyScript h) (some (w.content bi))
        let node :=
          if summary.ok then { node with nStatus := raiseValidity node.nStatus bi } else node
        { result := .advanced
          node := scriptValidateLogInsert node h (summary.row bi)
          cursorOut := cursorIn + 1
          block := some bi }

def scriptValidateStageStepOnce (w : World) (env : ScriptValidateEnv) (node : Node) : StepResult :=
  stageRunOnce .scriptValidate (scriptValidateStep w env) env.commits node

def scriptLogged (db : ProgressStore) (h : ℕ) (row : ScriptValidateRow) : ProgressStore :=
  { db with scriptValidateLog := db.scriptValidateLog.insert h row }.setCursor .scriptValidate
    (db.cursor .scriptValidate + 1)

variable (db : ProgressStore) (w : World) (h : ℕ) (env : ScriptValidateEnv) (node : Node)

theorem lookup_scriptLogged (k : ℕ) (row : ScriptValidateRow) :
    (scriptLogged db h row).scriptValidateLog.lookup k =
      if k = h then some row else db.scriptValidateLog.lookup k :=
  Table.lookup_put _ _ _ _

@[simp]
theorem cursor_scriptLogged (row : ScriptValidateRow) (name : StageName) :
    (scriptLogged db h row).cursor name =
      if name = .scriptValidate then db.cursor .scriptValidate + 1 else db.cursor name :=
  ProgressStore.cursor_setCursor _ _ _ _

/-- A row with `ok = 1` is written for the active block, under its hash. -/
def ScriptRowFor (chain : ActiveChain) (h : ℕ) (row : ScriptValidateRow) (block : Option UInt256) :
    Prop :=
  row.ok = true → ∃ bi, activeChainAt chain h = some bi ∧ row.blockHash = some bi ∧ block = some bi

/-- What an advance writes: one row at the height of the cursor. -/
def ScriptWrites (node : Node) (db : ProgressStore) (block : Option UInt256) : Prop :=
  ∃ h row, nextHeight (node.db.cursor .scriptValidate) = some h ∧ db = scriptLogged node.db h row ∧
    ScriptRowFor node.chain h row block

theorem scriptValidateStep_writes : StepWrites .scriptValidate node (ScriptWrites node)
    (scriptValidateStep w env (node.db.cursor .scriptValidate) node) := by
  unfold scriptValidateStep
  cases hgate : upstreamGate (node.db.cursor .scriptValidate) (node.db.cursor .bodyPersist)
      node.db.bodyPersistLog with
  | fatal => exact ⟨rfl, nofun⟩
  | idle => exact ⟨rfl, nofun⟩
  | row h upstream =>
    obtain ⟨hnext, -, -⟩ := upstreamGate_row hgate
    dsimp only
    cases upstream.ok with
    | false => exact ⟨rfl, fun _ => ⟨h, _, hnext, rfl, nofun⟩⟩
    | true =>
      rw [Bool.not_true, if_neg Bool.false_ne_true]
      cases hactive : readActiveBlock env.readable node h with
      | none => exact ⟨rfl, nofun⟩
      | some bi =>
        dsimp only
        generalize validateBlockScripts (env.prevout node.db h) (env.verifyScript h)
          (some (w.content bi)) = summary
        refine ⟨?_, fun _ => ⟨h, summary.row bi, hnext, ?_, ?_⟩⟩
        · split_ifs <;> rfl
        · split_ifs <;> rfl
        · intro _
          exact ⟨bi, readActiveBlock_some hactive, rfl, rfl⟩

theorem scriptValidate_cases :
    StageWrites node (ScriptWrites node) (scriptValidateStageStepOnce w env node) :=
  (scriptValidateStep_writes w env node).finish env.commits

end ZClassic
