import ZClassic.Jobs.BodyStages
import ZClassic.Jobs.HeaderAdmitStage
import ZClassic.Jobs.ProofValidateStage
import ZClassic.Jobs.ScriptValidateStage
import ZClassic.Jobs.StageAnchor
import ZClassic.Jobs.UtxoApplyStage
import ZClassic.Jobs.ValidateHeadersStage

/-!
# Block ingestion

`reducer_ingest_block` of `app/services/src/reducer_ingest_service.c`: a block passes the stateless
checks and the header gate, its header goes to header_admit, the stages are drained around the
storing of its body, and the verdict is read back from the logs.
-/

namespace ZClassic

open List

inductive HeaderStage where
  | headerAdmit (env : HeaderAdmitEnv)
  | validateHeaders (env : ValidateHeadersEnv)

inductive StageStep where
  | header (s : HeaderStage)
  | bodyFetch (commits : Bool)
  | bodyPersist (env : BodyPersistEnv)
  | scriptValidate (env : ScriptValidateEnv)
  | proofValidate (env : ProofValidateEnv)
  | utxoApply (env : UtxoApplyEnv)
  | tipFinalize (env : TipFinalizeEnv)

/-- A call with what it meets on its way: the clock, the steps that its two drains come to (the
second one has a time budget), how far the anchor transactions get and if the body is stored. -/
structure IngestCall where
  block : UInt256
  adjustedTime : ℤ := 0
  checkpointsEnabled : Bool := true
  anchorTxs : ℕ := 9
  headerSteps : List HeaderStage
  /-- the reason for which the body was not stored -/
  bodyError : Option String := none
  steps : List StageStep

section

variable (w : ReducerWorld) (call : IngestCall) (st : Reducer)

def runHeaderStage : HeaderStage → Reducer
  | .headerAdmit env => (headerAdmitStageStepOnce w env st).2
  | .validateHeaders env => (validateHeadersStageStepOnce w env st).2

/-- The height that a tip_finalize step finalizes, and the successor that its row names. -/
def finalizes (w : World) (env : TipFinalizeEnv) (node : Node) : Option (ℕ × UInt256) :=
  match rewindCursorIfActiveChainReorged env.rewindCommits node with
  | none => none
  | some db =>
    match (stepFinalize w env (db.cursor .tipFinalize) { node with db }).block,
        nextHeight (db.cursor .tipFinalize) with
    | some _, some h => (activeChainAt node.chain (h + 1)).map (h, ·)
    | _, _ => none

/-- The step publishes the successor under the height of the row; the published tip is not part of
the stage transaction. -/
def publishFinalized : Option (ℕ × UInt256) → Reducer
  | none => st
  | some (h, newTip) =>
    if st.lastAdvanceHeight < 0 ∨ st.lastAdvanceHeight ≤ w.index.nHeight newTip then
      st.publish h newTip
    else st

def runTipFinalize (env : TipFinalizeEnv) (st : Reducer) : Reducer :=
  let st := reducerExtendWindowToCandidate w st
  publishFinalized w { st with node := (tipFinalizeStageStepOnce w.toWorld env st.node).node }
    (finalizes w.toWorld env st.node)

/-- utxo_apply widens the window only where it is the author of the coins. -/
def extendForAuthor (author : UtxoAuthor) (st : Reducer) : Reducer :=
  match author with
  | .stage => reducerExtendWindowToCandidate w st
  | .legacy => st

def runStageStep : StageStep → Reducer
  | .header s => runHeaderStage w st s
  | .bodyFetch commits => (bodyFetchStageStepOnce w commits st).2
  | .bodyPersist env => (bodyPersistStageStepOnce w env st).2
  | .scriptValidate env =>
    let st := reducerExtendWindowToCandidate w st
    { st with node := (scriptValidateStageStepOnce w.toWorld env st.node).node }
  | .proofValidate env =>
    let st := reducerExtendWindowToCandidate w st
    { st with node := (proofValidateStageStepOnce w.toWorld env st.node).node }
  | .utxoApply env =>
    let st := extendForAuthor w env.author st
    { st with node := (utxoApplyStageStepOnce w.toWorld env st.node).node }
  | .tipFinalize env => runTipFinalize w env st

/-- The stateless checks, and the contextual header check if the parent is known. -/
def ingestGate : Except Reject Unit := do
  let check := { w.check with adjustedTime := call.adjustedTime }
  let header := w.header call.block
  checkBlock check header (w.content call.block) true true true
  contextualHeaderGate check w.headers st.lastAdvanceHeight call.checkpointsEnabled header
    (if header.hashPrevBlock ∈ st.known then some header.hashPrevBlock else none)

def headerAdmitInboxCapacity : ℕ := 1024

def seedAnchorSucceeds (height : Int32) (hash : UInt256) (completed : ℕ) (db : ProgressStore) :
    Bool :=
  decide (0 ≤ height) &&
    decide ((seedAnchorTxs height.toInt.toNat hash).length ≤ completed) &&
    ((seedAnchorTxs height.toInt.toNat hash).foldlM (fun db (tx : StoreTx) => tx db) db).isOk

/-- The active tip is anchored when tip_finalize is not yet past it. -/
def seedsAnchor : Option UInt256 :=
  st.activeChainTip.filter fun tip =>
    decide (st.node.db.cursor .tipFinalize < w.index.nHeight tip + 1)

def seedActiveTip (completed : ℕ) (st : Reducer) : Reducer :=
  match seedsAnchor w st with
  | none => st
  | some tip =>
    let height := Int32.ofNat (w.index.nHeight tip)
    let seeded := st.setDb (tipFinalizeStageSeedAnchor height tip completed st.node.db)
    if seedAnchorSucceeds height tip completed st.node.db then
      seeded.publish (w.index.nHeight tip) tip
    else seeded

def headerRejectedAt (db : ProgressStore) (h : ℕ) : Option Reject :=
  match db.validateHeadersLog.lookup h with
  | none => none
  | some row =>
    if row.ok then none
    else some ⟨if row.failReason = "" then "header-validation-failed" else row.failReason, 100,
      false, false⟩

def persistIngestedBody : Except Reject Unit × Reducer :=
  if call.block ∉ st.known ∨ st.node.nStatus call.block &&& blockHaveData ≠ 0 then (.ok (), st)
  else match headerRejectedAt st.node.db (w.index.nHeight call.block), call.bodyError with
    | some reject, _ => (.error reject, st)
    | none, some reason => (.error ⟨reason, 0, false, true⟩, st)
    | none, none =>
      (.ok (),
        { st with
          node := { st.node with
            nStatus := Function.update st.node.nStatus call.block
              (st.node.nStatus call.block ||| blockHaveData) } })

def utxoApplyStageSucceededAt (db : ProgressStore) (h : ℕ) : Bool :=
  (db.utxoApplyLog.lookup h).any (·.ok)

/-- The body is there, the block has not failed, and utxo_apply has a good row for its height. -/
def bodyApplied (b : UInt256) : Bool :=
  st.node.nStatus b &&& blockHaveData != 0 && st.node.nStatus b &&& blockFailedMask == 0 &&
    utxoApplyStageSucceededAt st.node.db (w.index.nHeight b)

def finalizedTipAt (db : ProgressStore) (h : ℕ) : Option UInt256 :=
  ((db.tipFinalizeLog.lookup h).filter (·.ok)).bind (·.tipHash)

def anchorCursorToAuthority (h : ℕ) (hash : UInt256) (db : ProgressStore) : ProgressStore :=
  let db := if finalizedTipAt db h = some hash then db else final (anchorRow h hash db)
  db.setCursorIfBehind .tipFinalize (h + 1)

def tipFinalizeStageSetAuthoritativeTip (h : ℕ) (hash : UInt256) (st : Reducer) : Reducer :=
  (st.publish h hash).setDb (anchorCursorToAuthority h hash st.node.db)

/-- A block that was mined on demand has no successor, so it is published at once. -/
def publishOnDemand (b : UInt256) (st : Reducer) : Reducer :=
  if w.check.params.fMineBlocksOnDemand = true ∧ b ∈ st.known ∧ bodyApplied w st b = true then
    tipFinalizeStageSetAuthoritativeTip (w.index.nHeight b) b st
  else st

def readBackVerdict (db : ProgressStore) (h : ℕ) (hash : UInt256) : Except Reject Unit :=
  match headerRejectedAt db h with
  | some reject => .error reject
  | none =>
    if finalizedTipAt db h = some hash then .ok ()
    else .error ⟨"block-not-finalized-by-reducer", 0, false, false⟩

/-- The verdict of the call; the live tip is also accepted on the word of utxo_apply. -/
def ingestVerdict (b : UInt256) (st : Reducer) : Except Reject Unit :=
  let target := if b ∈ st.known then w.index.nHeight b
    else (st.activeChainTip.map w.index.nHeight).getD 0
  match readBackVerdict st.node.db target b with
  | .ok () => .ok ()
  | .error reject =>
    if b ∈ st.known ∧ st.activeChainTip = some b ∧
        headerRejectedAt st.node.db (w.index.nHeight b) = none ∧ bodyApplied w st b = true then
      .ok ()
    else .error reject

def reducerIngestBlock : Except Reject Unit × Reducer :=
  match ingestGate w call st with
  | .error reject => (.error reject, st)
  | .ok () =>
    if headerAdmitInboxCapacity ≤ st.inbox.length then
      (.error ⟨"header-admit-inbox-full", 0, false, true⟩, st)
    else
      let st := { st with inbox := st.inbox ++ [call.block] }
      let st := seedActiveTip w call.anchorTxs st
      let st := call.headerSteps.foldl (runHeaderStage w) st
      match persistIngestedBody w call st with
      | (.error reject, st) => (.error reject, st)
      | (.ok (), st) =>
        let st := call.steps.foldl (runStageStep w) st
        let st := publishOnDemand w call.block st
        (ingestVerdict w call.block st, st)

inductive ReducerAction where
  | ingest (call : IngestCall)
  | stage (s : StageStep)

def reducerStep : ReducerAction → Reducer
  | .ingest call => (reducerIngestBlock w call st).2
  | .stage s => runStageStep w st s

/-- An empty progress store, and only genesis in the index and on the active chain. -/
structure AtGenesis : Prop where
  db : st.node.db = {}
  known : st.known = {w.genesis}
  bestHeader : st.bestHeader = w.genesis
  window : w.index.ShowsPath st.node.chain w.genesis
  inbox : st.inbox = []
  pending : st.pending = {}
  lastAdvance : st.lastAdvanceHeight = 0 ∧ st.lastAdvanceHash = w.genesis

def bootState : Reducer where
  node :=
    { chain := { chain := fun h => if h = 0 then some w.genesis else none, height := 0 }
      nStatus := fun b => if b = w.genesis then blockHaveData ||| blockValidScripts else 0 }
  known := {w.genesis}
  bestHeader := w.genesis
  lastAdvanceHeight := 0
  lastAdvanceHash := w.genesis

theorem bootState_atGenesis : AtGenesis w (bootState w) where
  db := rfl
  known := rfl
  bestHeader := rfl
  window := by
    have hzero : w.index.nHeight w.genesis = 0 := w.gapless _ w.pprev_genesis
    refine ⟨?_, ?_⟩
    · rw [hzero]
      rfl
    · intro h hh
      rw [hzero] at hh ⊢
      cases Nat.le_zero.mp hh
      rfl
  inbox := rfl
  pending := rfl
  lastAdvance := ⟨rfl, rfl⟩

/-- A call comes down to these, in this order; a stage step is one of its own. -/
inductive ReducerMove where
  /-- the gate, the inbox and the anchor -/
  | receive (call : IngestCall)
  | stage (s : StageStep)
  | storeBody (call : IngestCall)
  | publishOnDemand (b : UInt256)

def receives : Bool :=
  (ingestGate w call st).isOk && decide (st.inbox.length < headerAdmitInboxCapacity)

def moveStep : ReducerMove → Reducer
  | .receive call =>
    if receives w call st then
      seedActiveTip w call.anchorTxs { st with inbox := st.inbox ++ [call.block] }
    else st
  | .stage s => runStageStep w st s
  | .storeBody call => (persistIngestedBody w call st).2
  | .publishOnDemand b => publishOnDemand w b st

def drainMoves : List ReducerMove :=
  call.headerSteps.map fun s => .stage (.header s)

def callState : Reducer :=
  run (moveStep w) st (.receive call :: drainMoves call)

def actionMoves : ReducerAction → List ReducerMove
  | .stage s => [.stage s]
  | .ingest call =>
    if receives w call st then
      .receive call :: drainMoves call ++ .storeBody call ::
        if (persistIngestedBody w call (callState w call st)).1.isOk then
          call.steps.map .stage ++ [.publishOnDemand call.block]
        else []
    else []

end

variable {call : IngestCall} {st : Reducer} {w : ReducerWorld} {ok : Reducer → IngestCall → Prop}
  {acts : List ReducerAction}

theorem actionMoves_ingest (hreceives : receives w call st = true)
    (hpersist : (persistIngestedBody w call (callState w call st)).1.isOk = true) :
    actionMoves w st (.ingest call) = .receive call :: drainMoves call ++ .storeBody call ::
      (call.steps.map .stage ++ [.publishOnDemand call.block]) := by
  rw [actionMoves, if_pos hreceives, if_pos hpersist]

def runMoves (w : ReducerWorld) : Reducer → List ReducerAction → List ReducerMove
  | _, [] => []
  | st, a :: acts => actionMoves w st a ++ runMoves w (reducerStep w st a) acts

theorem run_drainMoves (w : ReducerWorld) (call : IngestCall) (st : Reducer) :
    run (moveStep w) st (drainMoves call) = call.headerSteps.foldl (runHeaderStage w) st := by
  rw [run, drainMoves, foldl_map]
  rfl

theorem receives_iff :
    receives w call st = true ↔
      ingestGate w call st = .ok () ∧ st.inbox.length < headerAdmitInboxCapacity := by
  unfold receives
  rw [Bool.and_eq_true, decide_eq_true_eq]
  apply and_congr_left'
  cases ingestGate w call st with
  | error reject => simp [Except.isOk, Except.toBool]
  | ok u => simp [Except.isOk, Except.toBool]

theorem ingestBlock_of_not_receives (h : receives w call st = false) :
    (reducerIngestBlock w call st).1.isOk = false ∧ (reducerIngestBlock w call st).2 = st := by
  rw [← Bool.not_eq_true, receives_iff] at h
  unfold reducerIngestBlock
  cases hgate : ingestGate w call st with
  | error reject => exact ⟨rfl, rfl⟩
  | ok u =>
    rw [if_pos (by by_contra hlt; exact h ⟨hgate, by omega⟩)]
    exact ⟨rfl, rfl⟩

theorem ingestBlock_of_receives (h : receives w call st = true) :
    reducerIngestBlock w call st =
      match persistIngestedBody w call (callState w call st) with
      | (.error reject, st) => (.error reject, st)
      | (.ok (), st) =>
        let st := publishOnDemand w call.block (call.steps.foldl (runStageStep w) st)
        (ingestVerdict w call.block st, st) := by
  have hstate : callState w call st = call.headerSteps.foldl (runHeaderStage w)
      (seedActiveTip w call.anchorTxs { st with inbox := st.inbox ++ [call.block] }) := by
    rw [callState, run_cons, run_drainMoves, moveStep, if_pos h]
  obtain ⟨hgate, hroom⟩ := receives_iff.mp h
  unfold reducerIngestBlock
  rw [hgate, hstate]
  rw [if_neg (by omega)]

theorem reducerStep_eq_run (w : ReducerWorld) (st : Reducer) (a : ReducerAction) :
    reducerStep w st a = run (moveStep w) st (actionMoves w st a) := by
  cases a with
  | stage s => rfl
  | ingest call =>
    unfold reducerStep actionMoves
    dsimp only
    by_cases h : receives w call st = true
    · rw [if_pos h, ingestBlock_of_receives h, run_append]
      change _ = run (moveStep w) (callState w call st) _
      rw [run_cons]
      cases hstore : persistIngestedBody w call (callState w call st) with
      | mk verdict st' =>
        have hmove : moveStep w (callState w call st) (.storeBody call) = st' := by
          rw [moveStep, hstore]
        rw [hmove]
        cases verdict with
        | error reject => rfl
        | ok u =>
          change _ = run (moveStep w) st' (call.steps.map .stage ++ [.publishOnDemand call.block])
          have hsteps : run (moveStep w) st' (call.steps.map .stage) =
              call.steps.foldl (runStageStep w) st' := foldl_map
          rw [run_append, hsteps]
          rfl
    · rw [if_neg h, (ingestBlock_of_not_receives (Bool.not_eq_true _ ▸ h)).2]
      rfl

/-- A condition on the calls of a run, in the state that each one meets. -/
def OnIngest (ok : Reducer → IngestCall → Prop) (st : Reducer) : ReducerAction → Prop
  | .ingest call => ok st call
  | .stage _ => True

instance {ok : Reducer → IngestCall → Prop} [∀ st call, Decidable (ok st call)] (st : Reducer) :
    (a : ReducerAction) → Decidable (OnIngest ok st a)
  | .ingest call => inferInstanceAs (Decidable (ok st call))
  | .stage _ => .isTrue trivial

def OnReceive (ok : Reducer → IngestCall → Prop) (st : Reducer) : ReducerMove → Prop
  | .receive call => ok st call
  | _ => True

theorem meetsAll_actionMoves {a : ReducerAction} (h : OnIngest ok st a) :
    MeetsAll (moveStep w) (OnReceive ok) st (actionMoves w st a) := by
  cases a with
  | stage s => exact ⟨trivial, trivial⟩
  | ingest call =>
    unfold actionMoves
    dsimp only
    split_ifs
    · rw [cons_append]
      refine ⟨h, meetsAll_of_forall ?_ _⟩
      intro m hm st'
      -- only the first move receives
      simp only [drainMoves, mem_append, mem_map, mem_cons, not_mem_nil, or_false] at hm
      rcases hm with ⟨s, -, rfl⟩ | rfl | ⟨s, -, rfl⟩ | rfl <;> trivial
    · rw [cons_append]
      refine ⟨h, meetsAll_of_forall ?_ _⟩
      intro m hm st'
      simp only [drainMoves, mem_append, mem_map, mem_singleton] at hm
      rcases hm with ⟨s, -, rfl⟩ | rfl <;> trivial
    · trivial

theorem meetsAll_runMoves (h : MeetsAll (reducerStep w) (OnIngest ok) st acts) :
    MeetsAll (moveStep w) (OnReceive ok) st (runMoves w st acts) := by
  induction acts generalizing st with
  | nil => trivial
  | cons a acts ih =>
    rw [runMoves, meetsAll_append, ← reducerStep_eq_run]
    exact ⟨meetsAll_actionMoves h.1, ih h.2⟩

theorem run_runMoves (w : ReducerWorld) (st : Reducer) (acts : List ReducerAction) :
    run (moveStep w) st (runMoves w st acts) = run (reducerStep w) st acts := by
  induction acts generalizing st with
  | nil => rfl
  | cons a acts ih => rw [runMoves, run_append, ← reducerStep_eq_run, ih, run_cons]

/-- The rule for runs of the reducer: an invariant of all moves holds after every beginning of the
run, also inside a call. -/
theorem moves_invariant (P : Reducer → Prop)
    (hmove : ∀ st m, P st → OnReceive ok st m → P (moveStep w st m)) (hinit : P st)
    (hok : MeetsAll (reducerStep w) (OnIngest ok) st acts) {pre : List ReducerMove}
    (hpre : pre <+: runMoves w st acts) : P (run (moveStep w) st pre) := by
  obtain ⟨post, hpost⟩ := hpre
  have hall := meetsAll_runMoves hok
  rw [← hpost, meetsAll_append] at hall
  exact run_invariant P hmove hinit hall.1

def MovesAt (w : ReducerWorld) (st : Reducer) (acts : List ReducerAction) (s : Reducer)
    (m : ReducerMove) : Prop :=
  ∃ pre, pre ++ [m] <+: runMoves w st acts ∧ run (moveStep w) st pre = s

theorem MovesAt.invariant {P : Reducer → Prop} {st s : Reducer} {m : ReducerMove}
    (h : MovesAt w st acts s m) (hmove : ∀ st m, P st → OnReceive ok st m → P (moveStep w st m))
    (hinit : P st) (hok : MeetsAll (reducerStep w) (OnIngest ok) st acts) : P s := by
  obtain ⟨pre, hpre, rfl⟩ := h
  exact moves_invariant P hmove hinit hok ((prefix_append _ _).trans hpre)

/-- Blocks 1, 2 and 3 in a row on top of genesis; no other block is linked. -/
def shortParent (b : UInt256) : Option UInt256 :=
  if b = 1 then some testParams.hashGenesisBlock
  else if b = 2 then some 1
  else if b = 3 then some 2
  else none

def shortHeight (b : UInt256) : ℕ :=
  if b = 1 then 1 else if b = 2 then 2 else if b = 3 then 3 else 0

theorem shortHeight_shortParent (b p : UInt256) (hp : shortParent b = some p) :
    shortHeight b = shortHeight p + 1 := by
  unfold shortParent at hp
  split_ifs at hp with h₁ h₂ h₃ <;> cases hp
  · rw [h₁]
    decide
  · rw [h₂]
    decide
  · rw [h₃]
    decide

def shortIndex : BlockIndex where
  pprev := shortParent
  nHeight := shortHeight
  nChainWork b := (shortHeight b + 1) * (getBlockProof 0x2007ffff).toNat
  nHeight_pprev := shortHeight_shortParent

theorem shortIndex_gapless : shortIndex.Gapless := by
  intro b hb
  change shortParent b = none at hb
  change shortHeight b = 0
  unfold shortParent at hb
  unfold shortHeight
  split_ifs at hb ⊢
  rfl

/-- The test network with three blocks of the least work, whose hashes are their nonces. -/
def shortChain (content : UInt256 → Block) : ReducerWorld where
  check := { permissiveEnv with params := testParams }
  index := shortIndex
  header b :=
    { hashPrevBlock := (shortParent b).getD 0
      hashMerkleRoot := (computeMerkleRootMutated permissiveEnv.hashPair
        ((content b).vtx.map (·.hash))).1
      nBits := 0x2007ffff
      nNonce := b
      nSolution := List.replicate 36 0 }
  content
  gapless := shortIndex_gapless
  pprev_genesis := by decide
  pprev_eq b p hp := by
    change shortParent b = some p at hp
    change p = (shortParent b).getD 0
    rw [hp, Option.getD_some]
  pprev_linked b hb hlinked := by
    change shortParent b = some ((shortParent b).getD 0)
    cases hp : shortParent b with
    | some p => rfl
    | none =>
      dsimp only at hlinked
      rw [hp] at hlinked
      exact absurd hlinked (by decide)
  nChainWork_pprev b p hp := by
    change (shortHeight b + 1) * _ = (shortHeight p + 1) * _ + _
    rw [shortHeight_shortParent b p hp, Nat.succ_mul]

def acceptingProofs : ProofValidateEnv where
  verifyTx := fun _ _ => some {}

def emptyResolver : ScriptValidateEnv where
  prevout := fun _ _ _ => none
  verifyScript := fun _ _ _ _ => 0

def drainCall (proofs : ProofValidateEnv) (b : UInt256)
    (scripts : ScriptValidateEnv := emptyResolver) : IngestCall where
  block := b
  headerSteps := [.headerAdmit {}, .validateHeaders { validator := fun _ _ _ => (true, "") }]
  steps := [.bodyFetch true, .bodyPersist {},
    .scriptValidate scripts, .proofValidate proofs, .utxoApply {}, .tipFinalize {}]

def beforeApply (content : UInt256 → Block) (scripts : ScriptValidateEnv := emptyResolver) :
    Reducer :=
  run (moveStep (shortChain content)) (bootState (shortChain content))
    (.receive (drainCall acceptingProofs 1 scripts) ::
      drainMoves (drainCall acceptingProofs 1 scripts) ++
        .storeBody (drainCall acceptingProofs 1 scripts) ::
          ((drainCall acceptingProofs 1 scripts).steps.take 4).map .stage)

theorem movesAt_beforeApply {content : UInt256 → Block} {scripts : ScriptValidateEnv}
    (hreceives : receives (shortChain content) (drainCall acceptingProofs 1 scripts)
      (bootState (shortChain content)) = true)
    (hpersist : (persistIngestedBody (shortChain content) (drainCall acceptingProofs 1 scripts)
      (callState (shortChain content) (drainCall acceptingProofs 1 scripts)
        (bootState (shortChain content)))).1.isOk = true) :
    MovesAt (shortChain content) (bootState (shortChain content))
      [.ingest (drainCall acceptingProofs 1 scripts)] (beforeApply content scripts)
      (.stage (.utxoApply {})) := by
  refine ⟨_, ?_, rfl⟩
  rw [runMoves, actionMoves_ingest hreceives hpersist]
  exact ⟨[.stage (.tipFinalize {}), .publishOnDemand 1], rfl⟩

end ZClassic
