import ZClassic.Jobs.DoubleSpend
import ZClassic.Jobs.ProofValidateStage
import ZClassic.Jobs.ScriptValidateStage
import ZClassic.Jobs.UtxoApplyStage

/-!
# Applied blocks and their verdicts

Runs of script_validate, proof_validate and utxo_apply over a changing active chain.
-/

namespace ZClassic

inductive VerifyAction where
  | scriptValidate (env : ScriptValidateEnv)
  | proofValidate (env : ProofValidateEnv)
  | utxoApply (env : UtxoApplyEnv)
  | setChain (chain : ActiveChain)
  /-- anything that happens before script_validate -/
  | upstream (cursor : ℕ) (log : Table ℕ BodyPersistRow) (nStatus : UInt256 → UInt32)

/-- A node, and for each row of the two logs the block that the step which wrote it verified. -/
structure VerifyState where
  node : Node
  scriptWriter : ℕ → Option UInt256 := fun _ => none
  proofWriter : ℕ → Option UInt256 := fun _ => none

def noteWriter (writer : ℕ → Option UInt256) (cursor : ℕ) (out : StepResult) :
    ℕ → Option UInt256 :=
  if out.result = .advanced then Function.update writer cursor out.block else writer

def verifyStep (w : World) (s : VerifyState) : VerifyAction → VerifyState
  | .scriptValidate env =>
    let out := scriptValidateStageStepOnce w env s.node
    { s with
      node := out.node
      scriptWriter := noteWriter s.scriptWriter (s.node.db.cursor .scriptValidate) out }
  | .proofValidate env =>
    let out := proofValidateStageStepOnce w env s.node
    { s with
      node := out.node
      proofWriter := noteWriter s.proofWriter (s.node.db.cursor .proofValidate) out }
  | .utxoApply env => { s with node := (utxoApplyStageStepOnce w env s.node).node }
  | .setChain chain => { s with node := { s.node with chain } }
  | .upstream cursor log nStatus =>
    { s with
      node := { s.node with
        db := { s.node.db with bodyPersistLog := log }.setCursor .bodyPersist cursor
        nStatus := nStatus } }

/-- No block has been through the two validation stages. -/
structure Unverified (node : Node) : Prop where
  scriptCursor : node.db.cursor .scriptValidate = 0
  proofCursor : node.db.cursor .proofValidate = 0
  scriptLog : node.db.scriptValidateLog = ∅
  proofLog : node.db.proofValidateLog = ∅

/-- A change of the chain shows, where script_validate has passed a block, that block or none. -/
def ShowsVerified (s : VerifyState) : VerifyAction → Prop
  | .setChain chain => ∀ h row bi, s.node.db.scriptValidateLog.lookup h = some row →
      row.ok = true → activeChainAt chain h = some bi → row.blockHash = some bi
  | _ => True

/-- The blocks behind the verdicts are those of the active chain. -/
structure VerdictsAgree (s : VerifyState) : Prop where
  cursor_le : s.node.db.cursor .scriptValidate ≤ 2 ^ 31
  proof_le : s.node.db.cursor .proofValidate ≤ s.node.db.cursor .scriptValidate
  below : ∀ h row, s.node.db.scriptValidateLog.lookup h = some row →
    h < s.node.db.cursor .scriptValidate
  writer : ∀ h row, s.node.db.scriptValidateLog.lookup h = some row → row.ok = true →
    row.blockHash = s.scriptWriter h
  active : ∀ h row bi, s.node.db.scriptValidateLog.lookup h = some row → row.ok = true →
    activeChainAt s.node.chain h = some bi → row.blockHash = some bi
  proof : ∀ h row, s.node.db.proofValidateLog.lookup h = some row → row.ok = true →
    ∃ srow bi, s.node.db.scriptValidateLog.lookup h = some srow ∧ srow.ok = true ∧
      srow.blockHash = some bi ∧ s.proofWriter h = some bi

theorem Unverified.agree {node : Node} (h : Unverified node) : VerdictsAgree { node } := by
  have hscript : ∀ k row, node.db.scriptValidateLog.lookup k = some row → False := by
    intro k row hrow
    rw [h.scriptLog] at hrow
    cases hrow
  refine ⟨?_, ?_, ?_, ?_, ?_, ?_⟩
  · change node.db.cursor .scriptValidate ≤ _
    rw [h.scriptCursor]
    omega
  · change node.db.cursor .proofValidate ≤ node.db.cursor .scriptValidate
    rw [h.scriptCursor, h.proofCursor]
  · intro k row hrow
    exact absurd hrow (hscript k row)
  · intro k row hrow
    exact absurd hrow (hscript k row)
  · intro k row bi hrow
    exact absurd hrow (hscript k row)
  · intro k row hrow
    rw [h.proofLog] at hrow
    cases hrow

variable {w : World} {s s' : VerifyState}

/-- The parts of the state that the invariant reads. -/
structure SameVerdicts (s s' : VerifyState) : Prop where
  scriptCursor : s'.node.db.cursor .scriptValidate = s.node.db.cursor .scriptValidate
  proofCursor : s'.node.db.cursor .proofValidate = s.node.db.cursor .proofValidate
  scriptLog : s'.node.db.scriptValidateLog = s.node.db.scriptValidateLog
  proofLog : s'.node.db.proofValidateLog = s.node.db.proofValidateLog
  scriptWriter : s'.scriptWriter = s.scriptWriter
  proofWriter : s'.proofWriter = s.proofWriter

theorem VerdictsAgree.transfer (h : VerdictsAgree s) (hsame : SameVerdicts s s')
    (hactive : ∀ k row bi, s.node.db.scriptValidateLog.lookup k = some row → row.ok = true →
      activeChainAt s'.node.chain k = some bi → row.blockHash = some bi) : VerdictsAgree s' := by
  obtain ⟨hsc, hpc, hsl, hpl, hsw, hpw⟩ := hsame
  refine ⟨?_, ?_, ?_, ?_, ?_, ?_⟩
  · rw [hsc]
    exact h.cursor_le
  · rw [hsc, hpc]
    exact h.proof_le
  · rw [hsc, hsl]
    exact h.below
  · rw [hsl, hsw]
    exact h.writer
  · rw [hsl]
    exact hactive
  · rw [hsl, hpl, hpw]
    exact h.proof

theorem VerdictsAgree.scriptValidate (h : VerdictsAgree s) (env : ScriptValidateEnv) :
    VerdictsAgree (verifyStep w s (.scriptValidate env)) := by
  obtain ⟨hchain, ⟨hne, hdb⟩ | ⟨hadv, k, row, hnext, hdb, hrow⟩⟩ :=
    scriptValidate_cases w env s.node
  · refine h.transfer ⟨?_, ?_, ?_, ?_, if_neg hne, rfl⟩ ?_
    all_goals simp only [verifyStep, hdb, hchain]
    exact h.active
  · obtain ⟨rfl, hlt⟩ := nextHeight_some h.cursor_le hnext
    set C := s.node.db.cursor .scriptValidate with hC
    have hnone : ∀ k, s.node.db.scriptValidateLog.lookup k ≠ none → k ≠ C := by
      intro k hk
      obtain ⟨r, hr⟩ := Option.ne_none_iff_exists'.mp hk
      exact (h.below k r hr).ne
    refine ⟨?_, ?_, ?_, ?_, ?_, ?_⟩
    all_goals simp only [verifyStep, noteWriter, hadv, hdb, hchain, lookup_scriptLogged,
      cursor_scriptLogged, ← hC, reduceCtorEq, if_true, if_false]
    · omega
    · have := h.proof_le
      omega
    · intro k r hr
      split_ifs at hr with hk
      · omega
      · have := h.below k r hr
        omega
    · intro k r hr hok
      split_ifs at hr with hk
      · cases hr
        obtain ⟨bi, -, hhash, hblock⟩ := hrow hok
        rw [hk, Function.update_self, hblock, hhash]
      · rw [Function.update_of_ne hk]
        exact h.writer k r hr hok
    · intro k r bi hr hok hbi
      split_ifs at hr with hk
      · cases hr
        obtain ⟨bi', hbi', hhash, -⟩ := hrow hok
        rw [hk, hbi'] at hbi
        cases hbi
        exact hhash
      · exact h.active k r bi hr hok hbi
    · intro k r hr hok
      obtain ⟨srow, bi, hsrow, hrest⟩ := h.proof k r hr hok
      exact ⟨srow, bi, by rw [if_neg (hnone k (by rw [hsrow]; nofun)), hsrow], hrest⟩

theorem VerdictsAgree.proofValidate (h : VerdictsAgree s) (env : ProofValidateEnv) :
    VerdictsAgree (verifyStep w s (.proofValidate env)) := by
  obtain ⟨hchain, ⟨hne, hdb⟩ | ⟨hadv, k, row, hnext, hlt, hdb, hrow⟩⟩ :=
    proofValidate_cases w env s.node
  · refine h.transfer ⟨?_, ?_, ?_, ?_, rfl, if_neg hne⟩ ?_
    all_goals simp only [verifyStep, hdb, hchain]
    exact h.active
  · obtain ⟨rfl, -⟩ := nextHeight_some (h.proof_le.trans h.cursor_le) hnext
    set C := s.node.db.cursor .proofValidate with hC
    refine ⟨?_, ?_, ?_, ?_, ?_, ?_⟩
    all_goals simp only [verifyStep, noteWriter, hadv, hdb, hchain, lookup_proofLogged,
      cursor_proofLogged, ← hC, reduceCtorEq, if_true, if_false]
    · exact h.cursor_le
    · omega
    · exact h.below
    · exact h.writer
    · exact h.active
    · intro k r hr hok
      split_ifs at hr with hk
      · -- the new row: the chain still shows the block behind the script verdict
        cases hr
        obtain ⟨⟨srow, hsrow, hsok⟩, bi, hbi, hblock⟩ := hrow hok
        rw [hk, Function.update_self, hblock]
        exact ⟨srow, bi, hsrow, hsok, h.active C srow bi hsrow hsok hbi, rfl⟩
      · rw [Function.update_of_ne hk]
        exact h.proof k r hr hok

theorem VerdictsAgree.step (a : VerifyAction) (h : VerdictsAgree s) (ha : ShowsVerified s a) :
    VerdictsAgree (verifyStep w s a) := by
  cases a with
  | scriptValidate env => exact h.scriptValidate env
  | proofValidate env => exact h.proofValidate env
  | utxoApply env =>
    obtain ⟨helse, hchain⟩ := utxoApply_elsewhere w env s.node
    refine h.transfer ⟨helse.cursor _ nofun, helse.cursor _ nofun, helse.scriptValidateLog,
      helse.proofValidateLog, rfl, rfl⟩ ?_
    simp only [verifyStep, hchain]
    exact h.active
  | setChain chain => exact h.transfer ⟨rfl, rfl, rfl, rfl, rfl, rfl⟩ ha
  | upstream cursor log nStatus =>
    have hcursor : ∀ name, name ≠ .bodyPersist →
        (verifyStep w s (.upstream cursor log nStatus)).node.db.cursor name =
          s.node.db.cursor name :=
      fun name hname => (ProgressStore.cursor_setCursor _ _ _ _).trans (if_neg hname)
    exact h.transfer ⟨hcursor _ nofun, hcursor _ nofun, rfl, rfl, rfl, rfl⟩ h.active

/-- If every change of the chain keeps showing the blocks that script_validate has passed, then a
block that utxo_apply applies is the one that both validation steps of its height verified. -/
theorem utxoApply_applies_verified (w : World) (node : Node) (acts : List VerifyAction)
    (env : UtxoApplyEnv) (hstart : Unverified node)
    (hok : MeetsAll (verifyStep w) ShowsVerified { node } acts) :
    let s := run (verifyStep w) { node } acts
    let out := utxoApplyStageStepOnce w env s.node
    out.result = .advanced →
      ∃ h B srow prow, out.block = some B ∧ out.node.db.cursor .utxoApply = h + 1 ∧
        s.node.db.scriptValidateLog.lookup h = some srow ∧ srow.ok = true ∧
        s.node.db.proofValidateLog.lookup h = some prow ∧ prow.ok = true ∧
        s.scriptWriter h = some B ∧ s.proofWriter h = some B := by
  intro s out hadv
  have hagree : VerdictsAgree s :=
    run_invariant VerdictsAgree (fun _ a h ha => h.step a ha) hstart.agree hok
  rcases utxoApply_cases w env s.node with
    ⟨hne, -⟩ | ⟨db, hunwind, ⟨hne, -⟩ | ⟨h, B, haccepts, ⟨hne, -⟩ | ⟨-, -, hblock, hnode⟩⟩⟩
  · exact absurd hadv hne
  · exact absurd hadv hne
  · exact absurd hadv hne
  have helse := sameElsewhere_unwind hunwind
  have hcursor : h = db.cursor .utxoApply := haccepts.eq_cursor (unwind_cursor_lt hunwind)
  obtain ⟨prow, hprow, hpok⟩ := haccepts.proof
  rw [helse.proofValidateLog] at hprow
  obtain ⟨srow, bi, hsrow, hsok, hhash, hwriter⟩ := hagree.proof h prow hprow hpok
  -- the chain shows the block behind the verdicts
  have hB := hagree.active h srow B hsrow hsok (readActiveBlock_some haccepts.active)
  rw [hhash, Option.some.injEq] at hB
  subst hB
  refine ⟨h, bi, srow, prow, hblock, ?_, hsrow, hsok, hprow, hpok, ?_, hwriter⟩
  · change (utxoApplyStageStepOnce w env s.node).node.db.cursor .utxoApply = _
    rw [hnode, appliedNode, ProgressStore.cursor_setCursor, if_pos rfl, hcursor]
  · rw [← hagree.writer h srow hsrow hsok, hhash]

/-- Every hash is a block at height 0, and its coinbase has the same hash. -/
def soloWorld : World where
  params := mainParams
  index := ⟨fun _ => none, fun _ => 0, fun _ => 1, nofun⟩
  content := fun b => ⟨[zeroCoinbase b]⟩

def soloChain (b : UInt256) : ActiveChain := { chain := fun _ => some b, height := 0 }

def scriptsPass : ScriptValidateEnv where
  prevout := fun _ _ _ => none
  verifyScript := fun _ _ _ _ => 0

def rejectsTwo : ProofValidateEnv := { verifyTx := fun _ tx => some { ok := tx.hash != 2 } }

def verifyOne : List VerifyAction :=
  [.upstream 1 (Finmap.singleton 0 { source := "disk", ok := true }) fun _ => blockHaveData,
    .setChain (soloChain 1), .scriptValidate scriptsPass, .proofValidate rejectsTwo]

/-- Block 1 is verified, the chain switches to block 2, and block 2 is applied on the verdicts of
block 1, although the proof verifier rejects it. -/
theorem switchedBlock_applied :
    let s := run (verifyStep soloWorld) { node := {} } (verifyOne ++ [.setChain (soloChain 2)])
    let out := utxoApplyStageStepOnce soloWorld {} s.node
    out.result = .advanced ∧ out.block = some 2 ∧ out.node.db.cursor .utxoApply = 1 ∧
      s.scriptWriter 0 = some 1 ∧ s.proofWriter 0 = some 1 ∧
      (validateBlockProofs (rejectsTwo.verifyTx 0) (some (soloWorld.content 2))).ok = false := by
  decide

theorem verifyOne_showsVerified :
    MeetsAll (verifyStep soloWorld) ShowsVerified { node := {} } verifyOne := by
  refine ⟨trivial, ?_, trivial, trivial, trivial⟩
  intro h row bi hrow
  cases hrow

theorem verifiedBlock_applied :
    let s := run (verifyStep soloWorld) { node := {} } verifyOne
    let out := utxoApplyStageStepOnce soloWorld {} s.node
    ∃ h B srow prow, out.block = some B ∧ out.node.db.cursor .utxoApply = h + 1 ∧
      s.node.db.scriptValidateLog.lookup h = some srow ∧ srow.ok = true ∧
      s.node.db.proofValidateLog.lookup h = some prow ∧ prow.ok = true ∧
      s.scriptWriter h = some B ∧ s.proofWriter h = some B :=
  utxoApply_applies_verified soloWorld {} verifyOne {} ⟨rfl, rfl, rfl, rfl⟩ verifyOne_showsVerified
    (by decide)

end ZClassic
