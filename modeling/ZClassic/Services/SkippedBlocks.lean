import ZClassic.Services.IngestVerdict

/-!
# Blocks that a stage did not see

Every stage logs the heights that its cursor passes.
-/

namespace ZClassic

open List ProgressStore

def ProgressStore.logged (db : ProgressStore) (h : ℕ) : StageName → Bool
  | .headerAdmit => (db.headerAdmitLog.lookup h).isSome
  | .validateHeaders => (db.validateHeadersLog.lookup h).isSome
  | .bodyFetch => (db.bodyFetchLog.lookup h).isSome
  | .bodyPersist => (db.bodyPersistLog.lookup h).isSome
  | .scriptValidate => (db.scriptValidateLog.lookup h).isSome
  | .proofValidate => (db.proofValidateLog.lookup h).isSome
  | .utxoApply => (db.utxoApplyLog.lookup h).isSome
  | .tipFinalize => (db.tipFinalizeLog.lookup h).isSome

/-- The stage has logged every height below its cursor, genesis apart. -/
structure StageLogged (db : ProgressStore) (name : StageName) : Prop where
  cursor_le : db.cursor name ≤ 2 ^ 31
  logged : ∀ h, 1 ≤ h → h < db.cursor name → db.logged h name = true

variable {k : ℕ} {db db' : ProgressStore} {name : StageName} {tip : UInt256}

namespace StageLogged

theorem congr (h : StageLogged db name) (hcursor : db'.cursor name = db.cursor name)
    (hlogged : ∀ k, db'.logged k name = db.logged k name) : StageLogged db' name where
  cursor_le := hcursor ▸ h.cursor_le
  logged k hone hlt := by
    rw [hlogged]
    exact h.logged k hone (hcursor ▸ hlt)

theorem step (h : StageLogged db name) (hnext : nextHeight (db.cursor name) = some k)
    (hcursor : db'.cursor name = db.cursor name + 1)
    (hlogged : ∀ j, db'.logged j name = (decide (j = k) || db.logged j name)) :
    StageLogged db' name := by
  obtain ⟨hk, hlt⟩ := nextHeight_some h.cursor_le hnext
  refine ⟨by omega, ?_⟩
  intro j hone hj
  rw [hlogged, Bool.or_eq_true, decide_eq_true_eq]
  by_cases hjk : j = k
  · exact .inl hjk
  · exact .inr (h.logged j hone (by omega))

end StageLogged

/-- A call that seeds an anchor does so at genesis or at a tip that every stage in front of
utxo_apply has passed. -/
def SeedsProcessed (w : ReducerWorld) (st : Reducer) (_ : IngestCall) : Prop :=
  ∀ tip ∈ seedsAnchor w st, tip = w.genesis ∨
    ∀ name ∈ anchorStages, name ≠ .utxoApply → w.index.nHeight tip < st.node.db.cursor name

instance (w : ReducerWorld) (st : Reducer) (call : IngestCall) :
    Decidable (SeedsProcessed w st call) :=
  Option.decidableForallMem (seedsAnchor w st)

structure Validated (w : ReducerWorld) (st : Reducer) : Prop extends
    AppliedIndex w (fun _ => True) st where
  scripts : StageLogged st.node.db .scriptValidate
  proofs : StageLogged st.node.db .proofValidate

theorem AtGenesis.validated {w : ReducerWorld} {st : Reducer} (h : AtGenesis w st) :
    Validated w st where
  toAppliedIndex := h.appliedIndex _
  scripts := by
    rw [h.db]
    exact ⟨Nat.zero_le _, nofun⟩
  proofs := by
    rw [h.db]
    exact ⟨Nat.zero_le _, nofun⟩

section Moves

variable {w : ReducerWorld} {st st' : Reducer} {m : ReducerMove}

theorem Anchored.cursor_eq_or (hdb : Anchored (w.index.nHeight tip) tip db db')
    (hname : name ∈ anchorStages) (hutxo : name ≠ .utxoApply)
    (hok : tip = w.genesis ∨ ∀ name ∈ anchorStages, name ≠ .utxoApply →
      w.index.nHeight tip < db.cursor name) :
    db'.cursor name = db.cursor name ∨ db'.cursor name = 1 := by
  have htip : name ≠ .tipFinalize := by
    rintro rfl
    exact absurd hname (by decide)
  rcases hdb.cursor name htip with hsame | ⟨target, htarget, hbehind, hmoved⟩
  · exact .inl hsame
  rw [anchorTargetForStage, if_neg hutxo, Option.some.injEq] at htarget
  rcases hok with rfl | hpassed
  · rw [w.nHeight_genesis] at htarget
    exact .inr (by omega)
  · have := hpassed name hname hutxo
    omega

theorem Anchored.logged_eq {height : ℕ} {hash : UInt256} (hdb : Anchored height hash db db')
    (hname : name ∈ anchorStages) (k : ℕ) : db'.logged k name = db.logged k name := by
  obtain ⟨cursors, log, rfl⟩ := hdb.writes
  cases name with
  | tipFinalize => exact absurd hname (by decide)
  | _ => rfl

theorem StageLogged.anchored (h : StageLogged db name)
    (hdb : Anchored (w.index.nHeight tip) tip db db') (hname : name ∈ anchorStages)
    (hutxo : name ≠ .utxoApply)
    (hok : tip = w.genesis ∨ ∀ name ∈ anchorStages, name ≠ .utxoApply →
      w.index.nHeight tip < db.cursor name) :
    StageLogged db' name := by
  rcases hdb.cursor_eq_or hname hutxo hok with hsame | hone
  · exact h.congr hsame (hdb.logged_eq hname)
  · exact ⟨by omega, fun k hk hlt => by omega⟩

theorem Validated.move (h : Validated w st) (hok : OnReceive (SeedsProcessed w) st m) :
    Validated w (moveStep w st m) := by
  have hmove := storeMove h.toLinearIndex h.delta m
  suffices hlogged : StageLogged (moveStep w st m).node.db .scriptValidate ∧
      StageLogged (moveStep w st m).node.db .proofValidate from
    ⟨h.toAppliedIndex.move (fun _ _ _ => trivial) hok, hlogged.1, hlogged.2⟩
  generalize moveStep w st m = st' at hmove
  have hsame : SameValidation st.node.db st'.node.db →
      StageLogged st'.node.db .scriptValidate ∧ StageLogged st'.node.db .proofValidate := by
    intro hsame
    constructor
    · exact h.scripts.congr hsame.scriptValidate.1 fun k => by
        rw [logged, hsame.scriptValidate.2]
        rfl
    · exact h.proofs.congr hsame.proofValidate.1 fun k => by
        rw [logged, hsame.proofValidate.2]
        rfl
  cases hmove with
  | keep same published => exact hsame same.toSameValidation
  | scripts k row next db published =>
    rw [db]
    constructor
    · refine h.scripts.step next ((cursor_scriptLogged _ _ _ _).trans (if_pos rfl)) ?_
      intro j
      rw [logged, lookup_scriptLogged]
      split_ifs with hjk
      · simp [hjk]
      · simp [hjk, logged]
    · exact h.proofs.congr ((cursor_scriptLogged _ _ _ _).trans (if_neg nofun)) fun k => rfl
  | proofs k row next db published =>
    rw [db]
    constructor
    · exact h.scripts.congr ((cursor_proofLogged _ _ _ _).trans (if_neg nofun)) fun k => rfl
    · refine h.proofs.step next ((cursor_proofLogged _ _ _ _).trans (if_pos rfl)) ?_
      intro j
      rw [logged, lookup_proofLogged]
      split_ifs with hjk
      · simp [hjk]
      · simp [hjk, logged]
  | applies author bi known height db published =>
    have helse := sameElsewhere_applyToStore w.toWorld author (st.node.db.cursor .utxoApply)
      (st.node.db.cursor .utxoApply) bi st.node.db (st.node.db.cursor .utxoApply + 1)
    rw [db]
    constructor
    · exact h.scripts.congr (helse.cursor _ nofun) fun k => by
        rw [logged, helse.scriptValidateLog]
        rfl
    · exact h.proofs.congr (helse.cursor _ nofun) fun k => by
        rw [logged, helse.proofValidateLog]
        rfl
  | tips same rows published => exact hsame same
  | anchors seeds db published =>
    have hseeds := hok _ seeds
    exact ⟨h.scripts.anchored db (by decide) nofun hseeds,
      h.proofs.anchored db (by decide) nofun hseeds⟩

theorem Validated.receive (h : Validated w st) {call : IngestCall} (hok : SeedsProcessed w st call)
    (hname : name ∈ anchorStages) (hone : 1 ≤ k) (hle : st.node.db.cursor name ≤ k)
    (hlt : k < (moveStep w st (.receive call)).node.db.cursor name) :
    st.node.db.logged k name = true := by
  rcases (receive_writes h.toLinearIndex call).2 with hsame | ⟨hseeds, hanchored⟩
  · rw [hsame] at hlt
    omega
  by_cases hutxo : name = .utxoApply
  · -- the anchor leaves the log, so a height that is logged after it was logged before
    subst hutxo
    rw [← hanchored.logged_eq hname]
    exact (h.move (m := .receive call) hok).logged k hone hlt
  · rcases hanchored.cursor_eq_or hname hutxo (hok _ hseeds) with hsame | hmoved
    · omega
    · omega

end Moves

/-- In every run from genesis in which no call seeds an anchor at a tip that a stage in front of
utxo_apply has not passed, the heights below the cursors of script_validate, proof_validate and
utxo_apply are logged, and no call moves a cursor past a height that the stage has not logged. -/
theorem cursors_logged (w : ReducerWorld) (st : Reducer) (hinit : AtGenesis w st)
    (acts : List ReducerAction)
    (hok : MeetsAll (reducerStep w) (OnIngest (SeedsProcessed w)) st acts) :
    (∀ pre, pre <+: runMoves w st acts →
      ∀ name ∈ [StageName.scriptValidate, .proofValidate, .utxoApply], ∀ h, 1 ≤ h →
        h < (run (moveStep w) st pre).node.db.cursor name →
        (run (moveStep w) st pre).node.db.logged h name = true) ∧
      ∀ pre call, pre ++ [.receive call] <+: runMoves w st acts → ∀ name ∈ anchorStages,
        ∀ h, 1 ≤ h → (run (moveStep w) st pre).node.db.cursor name ≤ h →
        h < (run (moveStep w) st (pre ++ [.receive call])).node.db.cursor name →
        (run (moveStep w) st pre).node.db.logged h name = true := by
  have hrun : ∀ pre, pre <+: runMoves w st acts → Validated w (run (moveStep w) st pre) :=
    fun pre hpre =>
      moves_invariant (Validated w) (fun _ _ h hm => h.move hm) hinit.validated hok hpre
  constructor
  · intro pre hpre name hname h hone hlt
    have hvalid := hrun pre hpre
    simp only [mem_cons, not_mem_nil, or_false] at hname
    rcases hname with rfl | rfl | rfl
    · exact hvalid.scripts.logged h hone hlt
    · exact hvalid.proofs.logged h hone hlt
    · exact hvalid.logged h hone hlt
  · intro pre call hpre name hname h hone hle hlt
    rw [run_append] at hlt
    refine (hrun pre ((prefix_append _ _).trans hpre)).receive ?_ hname hone hle hlt
    -- the call meets its condition where it is received
    obtain ⟨post, hpost⟩ := hpre
    have hmeets := meetsAll_runMoves hok
    rw [← hpost, append_assoc, meetsAll_append] at hmeets
    exact hmeets.2.1

def joinsplitTx (hash : UInt256) : Transaction where
  version := 2
  vJoinsplit := [{ nullifiers := twoNullifiers, useGroth := false }]
  hash

def joinsplitSecond (b : UInt256) : Block :=
  if b = 2 then ⟨[zeroCoinbase 12, joinsplitTx 22]⟩ else ⟨[zeroCoinbase 11]⟩

def unloadedProofs : ProofValidateEnv := { acceptingProofs with saplingParamsLoaded := false }

def unloadedRun : Reducer :=
  run (reducerStep (shortChain joinsplitSecond)) (bootState (shortChain joinsplitSecond))
    [.ingest (drainCall unloadedProofs 1), .ingest (drainCall unloadedProofs 2),
      .ingest (drainCall unloadedProofs 2)]

/-- proof_validate waits for its parameters at block 2, which is published as the successor of
block 1 all the same; the anchor of the next call takes proof_validate past it. -/
theorem unloadedRun_skips :
    AtGenesis (shortChain joinsplitSecond) (bootState (shortChain joinsplitSecond)) ∧
      unloadedRun.node.db.cursor .proofValidate = 3 ∧
      unloadedRun.node.db.logged 2 .proofValidate = false :=
  ⟨bootState_atGenesis _, by decide +kernel, by decide +kernel⟩

theorem thirdCall_logged :
    seedsAnchor (shortChain coinbaseOnly) (run (reducerStep (shortChain coinbaseOnly))
        (bootState (shortChain coinbaseOnly)) twoCalls) = some 2 ∧
      ∀ name ∈ [StageName.scriptValidate, .proofValidate, .utxoApply], ∀ h, 1 ≤ h →
        h < (run (moveStep (shortChain coinbaseOnly)) (bootState (shortChain coinbaseOnly))
          (runMoves (shortChain coinbaseOnly) (bootState (shortChain coinbaseOnly))
            (twoCalls ++ [.ingest (drainCall acceptingProofs 3)]))).node.db.cursor name →
        (run (moveStep (shortChain coinbaseOnly)) (bootState (shortChain coinbaseOnly))
          (runMoves (shortChain coinbaseOnly) (bootState (shortChain coinbaseOnly))
            (twoCalls ++ [.ingest (drainCall acceptingProofs 3)]))).node.db.logged h name =
              true := by
  have hok : MeetsAll (reducerStep (shortChain coinbaseOnly))
      (OnIngest (SeedsProcessed (shortChain coinbaseOnly))) (bootState (shortChain coinbaseOnly))
      (twoCalls ++ [.ingest (drainCall acceptingProofs 3)]) := by decide +kernel
  refine ⟨by decide +kernel, ?_⟩
  exact (cursors_logged (shortChain coinbaseOnly) (bootState (shortChain coinbaseOnly))
    (bootState_atGenesis _) (twoCalls ++ [.ingest (drainCall acceptingProofs 3)]) hok).1 _
    prefix_rfl

end ZClassic
