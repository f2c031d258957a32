import ZClassic.Jobs.ProjectionLookup
import ZClassic.Jobs.UtxoApplyReorg

/-!
# utxo_apply

`step_apply` and `utxo_apply_stage_step_once` of `app/jobs/src/utxo_apply_stage.c`.
-/

namespace ZClassic

/-- How a stage transaction ends: it commits, or it is lost after some of the nullifier inserts
into `node.db` were done. -/
inductive TxFate where
  | commits
  | lost (recorded : ℕ)
  deriving DecidableEq

structure UtxoApplyEnv where
  readable : UInt256 → Bool := fun _ => true
  author : UtxoAuthor := .stage
  nodeDbOpen : Bool := true
  unwindCommits : Bool := true
  fate : TxFate := .commits

def blockSproutNullifiers (blk : Block) : List UInt256 := blk.vtx.flatMap txSproutNullifiers

/-- The first transaction with a nullifier that `node.db` holds; a closed database reports none. -/
def nullifierConflict (nodeDbOpen : Bool) (known : Finset UInt256) (blk : Block) :
    Option Transaction :=
  if nodeDbOpen then blk.vtx.find? fun tx => (txSproutNullifiers tx).any fun nf => nf ∈ known
  else none

/-- The insert loop of `node_db_sync_sprout_nullifier`, as far as the transaction's fate lets it
run. -/
def recordNullifiers (env : UtxoApplyEnv) (known : Finset UInt256) (blk : Block) :
    Finset UInt256 :=
  if env.nodeDbOpen then
    match env.fate with
    | .commits => known ∪ (blockSproutNullifiers blk).toFinset
    | .lost recorded => known ∪ ((blockSproutNullifiers blk).take recorded).toFinset
  else known

def DeltaSummary.logRow (s : DeltaSummary) : UtxoApplyRow where
  status := s.status
  ok := s.ok
  spentCount := s.spentCount
  addedCount := s.addedCount
  totalValueDelta := s.totalValueDelta
  firstFailureKind := s.failureKind
  firstFailureDetail := if s.ok then none else some s.failureDetail

def utxoApplyLogInsert (db : ProgressStore) (h : ℕ) (row : UtxoApplyRow) : ProgressStore :=
  { db with utxoApplyLog := db.utxoApplyLog.insert h row }

def blockApplyFailure (h : ℕ) (status kind : String) (detail : Option (List UInt8)) : JobResult :=
  .blocked { height := h, status, kind, detail }

section

variable (w : World) (env : UtxoApplyEnv)

def stageDelta (db : ProgressStore) (h : ℕ) (bi : UInt256) : DeltaSummary :=
  utxoApplyComputeBlockDelta w.params (some (w.content bi)) (UInt32.ofNat h)
    (projectionLiveLookup db.coins)

/-- The writes of an accepted block: coins, inverse delta, log row and frontier. -/
def applyToStore (author : UtxoAuthor) (cursorIn h : ℕ) (bi : UInt256)
    (db : ProgressStore) : ProgressStore :=
  let summary := stageDelta w db h bi
  let db' := match author with
    | .stage => { db with coins := applyCoinsKv db.coins summary (UInt32.ofNat h) }
    | .legacy => db
  (utxoApplyLogInsert (utxoApplyDeltaPersist db' h bi summary) h summary.logRow).setAppliedHeight
    (Int32.ofNat (cursorIn + 1))

def acceptResult (cursorIn h : ℕ) (bi : UInt256) (node : Node) : StepResult where
  result := .advanced
  node := { node with
    db := applyToStore w env.author cursorIn h bi node.db
    sproutNullifiers := recordNullifiers env node.sproutNullifiers (w.content bi) }
  cursorOut := cursorIn + 1
  block := some bi

def applyBlock (cursorIn h : ℕ) (bi : UInt256) (node : Node) : StepResult :=
  match nullifierConflict env.nodeDbOpen node.sproutNullifiers (w.content bi) with
  | some tx =>
    { result := blockApplyFailure h DeltaStatus.nullifierConflict.text
        FailureKind.badJoinsplitNullifierReused.text (some (failureDetailSet ⟨tx.hash, 0⟩))
      node := { node with
        db := utxoApplyLogInsert node.db h
          { status := .nullifierConflict, ok := false
            firstFailureKind := some .badJoinsplitNullifierReused } } }
  | none =>
    let summary := stageDelta w node.db h bi
    if !summary.ok then
      { result := blockApplyFailure h summary.status.text
          ((summary.failureKind.map FailureKind.text).getD "") (some summary.failureDetail)
        node := { node with db := utxoApplyLogInsert node.db h summary.logRow } }
    else acceptResult w env cursorIn h bi node

def stepApply (cursorIn : ℕ) (node : Node) : StepResult :=
  match upstreamGate cursorIn (node.db.cursor .proofValidate) node.db.proofValidateLog with
  | .fatal => { result := .fatal, node }
  | .idle => { result := .idle, node }
  | .row h upstream =>
    if !upstream.ok then
      { result := blockApplyFailure h "upstream_failed" "proof_validate" none, node }
    else match readActiveBlock env.readable node h with
      | none => { result := .idle, node }
      | some bi => applyBlock w env cursorIn h bi node

/-- `utxo_apply_stage_step_once`, after it has extended the window: the unwind check, then one
step. -/
def utxoApplyStageStepOnce (node : Node) : StepResult :=
  match utxoApplyReorgUnwindIfNeeded env.author env.unwindCommits node with
  | none => { result := .fatal, node }
  | some db =>
    stageRunOnce .utxoApply (stepApply w env) (env.fate == .commits) { node with db }

end

variable {w : World} {env : UtxoApplyEnv} {blk : Block} {bi : UInt256} {h : ℕ} {node : Node}

/-- A block meets no conflict in an open database exactly when the database holds nothing that it
reveals. -/
theorem nullifierConflict_eq_none_iff {known : Finset UInt256} :
    nullifierConflict true known blk = none ↔ ∀ nf ∈ blockSproutNullifiers blk, nf ∉ known := by
  rw [nullifierConflict, if_pos rfl, List.find?_eq_none]
  simp only [List.any_eq_true, decide_eq_true_eq, not_exists, not_and, blockSproutNullifiers,
    List.mem_flatMap, forall_exists_index, and_imp]
  exact ⟨fun h nf tx htx hnf => h tx htx nf hnf, fun h tx htx nf hnf => h nf tx htx hnf⟩

theorem subset_recordNullifiers (env : UtxoApplyEnv) (known : Finset UInt256) (blk : Block) :
    known ⊆ recordNullifiers env known blk := by
  unfold recordNullifiers
  split
  · split
    · exact Finset.subset_union_left
    · exact Finset.subset_union_left
  · exact Finset.Subset.refl _

theorem mem_recordNullifiers (hopen : env.nodeDbOpen = true) (hfate : env.fate = .commits)
    (known : Finset UInt256) {nf : UInt256} (hnf : nf ∈ blockSproutNullifiers blk) :
    nf ∈ recordNullifiers env known blk := by
  rw [recordNullifiers, if_pos hopen, hfate]
  exact Finset.mem_union_right _ (List.mem_toFinset.mpr hnf)

structure Offered (env : UtxoApplyEnv) (node : Node) (h : ℕ) (bi : UInt256) : Prop where
  next : nextHeight (node.db.cursor .utxoApply) = some h
  behind : h < node.db.cursor .proofValidate
  proof : ∃ row, node.db.proofValidateLog.lookup h = some row ∧ row.ok = true
  active : readActiveBlock env.readable node h = some bi

/-- `step_apply` accepts the block that it is offered. -/
structure Accepts (w : World) (env : UtxoApplyEnv) (node : Node) (h : ℕ) (bi : UInt256) : Prop
    extends Offered env node h bi where
  fresh : nullifierConflict env.nodeDbOpen node.sproutNullifiers (w.content bi) = none
  delta : (stageDelta w node.db h bi).ok = true

theorem Accepts.eq_cursor (ha : Accepts w env node h bi)
    (hlt : node.db.cursor .utxoApply < 2 ^ 31) :
    h = node.db.cursor .utxoApply :=
  (nextHeight_some hlt.le ha.next).1

def appliedNode (w : World) (env : UtxoApplyEnv) (h : ℕ) (bi : UInt256) (node : Node) : Node :=
  { node with
    db := (applyToStore w env.author (node.db.cursor .utxoApply) h bi node.db).setCursor .utxoApply
      (node.db.cursor .utxoApply + 1)
    sproutNullifiers := recordNullifiers env node.sproutNullifiers (w.content bi) }

theorem lookup_applyToStore_delta (w : World) (author : UtxoAuthor) (cursorIn h : ℕ)
    (bi : UInt256) (db : ProgressStore) (k : ℕ) :
    (applyToStore w author cursorIn h bi db).utxoApplyDelta.lookup k =
      if k = h then some ⟨bi, serializeSpent (stageDelta w db h bi).spent,
        serializeAdded (stageDelta w db h bi).added⟩
      else db.utxoApplyDelta.lookup k := by
  cases author with
  | stage => exact Table.lookup_put _ _ _ _
  | legacy => exact Table.lookup_put _ _ _ _

theorem lookup_applyToStore_log (w : World) (author : UtxoAuthor) (cursorIn h : ℕ)
    (bi : UInt256) (db : ProgressStore) (k : ℕ) :
    (applyToStore w author cursorIn h bi db).utxoApplyLog.lookup k =
      if k = h then some (stageDelta w db h bi).logRow else db.utxoApplyLog.lookup k := by
  cases author with
  | stage => exact Table.lookup_put _ _ _ _
  | legacy => exact Table.lookup_put _ _ _ _

section

variable (w env)

theorem applyBlock_cases (cursorIn h : ℕ) (bi : UInt256) (node : Node) :
    (applyBlock w env cursorIn h bi node).result ≠ .advanced ∧
        { (applyBlock w env cursorIn h bi node).node with db := node.db } = node ∨
      nullifierConflict env.nodeDbOpen node.sproutNullifiers (w.content bi) = none ∧
        (stageDelta w node.db h bi).ok = true ∧
        applyBlock w env cursorIn h bi node = acceptResult w env cursorIn h bi node := by
  unfold applyBlock
  cases nullifierConflict env.nodeDbOpen node.sproutNullifiers (w.content bi) with
  | some tx => exact .inl ⟨nofun, rfl⟩
  | none =>
    dsimp only
    by_cases hdelta : (stageDelta w node.db h bi).ok = true
    · rw [hdelta, Bool.not_true, if_neg Bool.false_ne_true]
      exact .inr ⟨rfl, rfl, rfl⟩
    · rw [Bool.not_eq_true] at hdelta
      rw [hdelta, Bool.not_false, if_pos rfl]
      exact .inl ⟨nofun, rfl⟩

theorem applyBlock_advanced_iff {cursorIn h : ℕ} :
    (applyBlock w env cursorIn h bi node).result = .advanced ↔
      nullifierConflict env.nodeDbOpen node.sproutNullifiers (w.content bi) = none ∧
        (stageDelta w node.db h bi).ok = true := by
  constructor
  · intro hadvanced
    rcases applyBlock_cases w env cursorIn h bi node with ⟨hne, -⟩ | ⟨hfresh, hdelta, -⟩
    · exact absurd hadvanced hne
    · exact ⟨hfresh, hdelta⟩
  · rintro ⟨hfresh, hdelta⟩
    rw [applyBlock, hfresh]
    dsimp only
    rw [hdelta, Bool.not_true, if_neg Bool.false_ne_true]
    rfl

theorem stepApply_of_offered (ho : Offered env node h bi) :
    stepApply w env (node.db.cursor .utxoApply) node =
      applyBlock w env (node.db.cursor .utxoApply) h bi node := by
  obtain ⟨row, hrow, hok⟩ := ho.proof
  have hgate : upstreamGate (node.db.cursor .utxoApply) (node.db.cursor .proofValidate)
      node.db.proofValidateLog = .row h row := by
    unfold upstreamGate
    rw [ho.next]
    dsimp only
    rw [if_neg (not_le.mpr ho.behind), hrow]
  unfold stepApply
  rw [hgate]
  dsimp only
  rw [hok, Bool.not_true, if_neg Bool.false_ne_true, ho.active]

theorem stepApply_cases (node : Node) : let out := stepApply w env (node.db.cursor .utxoApply) node
    out.result ≠ .advanced ∧ { out.node with db := node.db } = node ∨ ∃ h bi,
      Accepts w env node h bi ∧ out = acceptResult w env (node.db.cursor .utxoApply) h bi node := by
  unfold stepApply
  cases hgate : upstreamGate (node.db.cursor .utxoApply) (node.db.cursor .proofValidate)
      node.db.proofValidateLog with
  | fatal => exact .inl ⟨nofun, rfl⟩
  | idle => exact .inl ⟨nofun, rfl⟩
  | row h upstream =>
    obtain ⟨hnext, hbehind, hrow⟩ := upstreamGate_row hgate
    dsimp only
    cases hok : upstream.ok with
    | false => exact .inl ⟨nofun, rfl⟩
    | true =>
      rw [Bool.not_true, if_neg Bool.false_ne_true]
      cases hactive : readActiveBlock env.readable node h with
      | none => exact .inl ⟨nofun, rfl⟩
      | some bi =>
        rcases applyBlock_cases w env (node.db.cursor .utxoApply) h bi node with
          hstop | ⟨hfresh, hdelta, hout⟩
        · exact .inl hstop
        · exact .inr
            ⟨h, bi, ⟨⟨hnext, hbehind, ⟨upstream, hrow, hok⟩, hactive⟩, hfresh, hdelta⟩, hout⟩

/-- What one step of the stage can do: stop at the unwind check, unwind without advancing, record
nullifiers of an accepted block and lose it, or apply the block. -/
theorem utxoApply_cases (node : Node) : let out := utxoApplyStageStepOnce w env node
    out.result ≠ .advanced ∧ out.node = node ∨
      ∃ db, utxoApplyReorgUnwindIfNeeded env.author env.unwindCommits node = some db ∧
        (out.result ≠ .advanced ∧ out.node = { node with db } ∨
          ∃ h bi, Accepts w env { node with db } h bi ∧
            (out.result ≠ .advanced ∧ env.fate ≠ .commits ∧ out.node = { node with
                db
                sproutNullifiers := recordNullifiers env node.sproutNullifiers (w.content bi) } ∨
              out.result = .advanced ∧ env.fate = .commits ∧ out.block = some bi ∧
                out.node = appliedNode w env h bi { node with db })) := by
  unfold utxoApplyStageStepOnce
  cases hunwind : utxoApplyReorgUnwindIfNeeded env.author env.unwindCommits node with
  | none => exact .inl ⟨nofun, rfl⟩
  | some db =>
    refine .inr ⟨db, rfl, ?_⟩
    dsimp only
    set node₁ : Node := { node with db }
    rcases stepApply_cases w env node₁ with ⟨hresult, hnode⟩ | ⟨h, bi, haccepts, hout⟩
    · rcases stageFinish_cases .utxoApply (env.fate == .commits) node₁
        (stepApply w env (node₁.db.cursor .utxoApply) node₁) with ⟨hne, hroll⟩ | ⟨hadv, -⟩
      · exact .inl ⟨hne, hroll.trans hnode⟩
      · exact absurd hadv hresult
    · refine .inr ⟨h, bi, haccepts, ?_⟩
      unfold stageRunOnce
      rw [hout]
      unfold stageFinish acceptResult
      dsimp only
      rw [if_neg (by omega)]
      by_cases hfate : env.fate = .commits
      · rw [if_pos (beq_iff_eq.mpr hfate)]
        exact .inr ⟨rfl, hfate, rfl, rfl⟩
      · rw [if_neg (fun hb => hfate (beq_iff_eq.mp hb))]
        exact .inl ⟨nofun, hfate, rfl⟩

end

/-- The part of the store that belongs to the other stages. -/
structure SameElsewhere (db db' : ProgressStore) : Prop where
  cursor : ∀ name, name ≠ .utxoApply → db'.cursor name = db.cursor name
  bodyPersistLog : db'.bodyPersistLog = db.bodyPersistLog
  scriptValidateLog : db'.scriptValidateLog = db.scriptValidateLog
  proofValidateLog : db'.proofValidateLog = db.proofValidateLog
  tipFinalizeLog : db'.tipFinalizeLog = db.tipFinalizeLog

theorem SameElsewhere.refl (db : ProgressStore) : SameElsewhere db db :=
  ⟨fun _ _ => rfl, rfl, rfl, rfl, rfl⟩

theorem SameElsewhere.trans {db₁ db₂ db₃ : ProgressStore} (h : SameElsewhere db₁ db₂)
    (h' : SameElsewhere db₂ db₃) : SameElsewhere db₁ db₃ where
  cursor name hname := (h'.cursor name hname).trans (h.cursor name hname)
  bodyPersistLog := h'.bodyPersistLog.trans h.bodyPersistLog
  scriptValidateLog := h'.scriptValidateLog.trans h.scriptValidateLog
  proofValidateLog := h'.proofValidateLog.trans h.proofValidateLog
  tipFinalizeLog := h'.tipFinalizeLog.trans h.tipFinalizeLog

theorem sameElsewhere_rewind (db : ProgressStore) (S : CoinSet) (lo hi : ℕ) :
    SameElsewhere db (rewindUtxoApply { db with coins := S } lo hi) where
  cursor name hname := by
    rw [cursor_rewindUtxoApply, if_neg hname]
    rfl
  bodyPersistLog := rfl
  scriptValidateLog := rfl
  proofValidateLog := rfl
  tipFinalizeLog := rfl

theorem sameElsewhere_unwind {author : UtxoAuthor} {commits : Bool} {db : ProgressStore}
    (hdb : utxoApplyReorgUnwindIfNeeded author commits node = some db) :
    SameElsewhere node.db db := by
  rcases unwindIfNeeded_some hdb with ⟨rfl, -⟩ | ⟨-, -, hunwind⟩
  · exact .refl _
  · obtain ⟨S, rfl⟩ := unwindTransaction_some hunwind
    exact sameElsewhere_rewind _ S _ _

theorem sameElsewhere_applyToStore (w : World) (author : UtxoAuthor) (cursorIn h : ℕ)
    (bi : UInt256) (db : ProgressStore) (value : ℕ) :
    SameElsewhere db ((applyToStore w author cursorIn h bi db).setCursor .utxoApply value) where
  cursor name hname := by
    rw [ProgressStore.cursor_setCursor, if_neg hname]
    cases author <;> rfl
  bodyPersistLog := by cases author <;> rfl
  scriptValidateLog := by cases author <;> rfl
  proofValidateLog := by cases author <;> rfl
  tipFinalizeLog := by cases author <;> rfl

theorem utxoApply_elsewhere (w : World) (env : UtxoApplyEnv) (node : Node) :
    SameElsewhere node.db (utxoApplyStageStepOnce w env node).node.db ∧
      (utxoApplyStageStepOnce w env node).node.chain = node.chain := by
  rcases utxoApply_cases w env node with
    ⟨-, hnode⟩ | ⟨db, hunwind, ⟨-, hnode⟩ | ⟨h, bi, -, ⟨-, -, hnode⟩ | ⟨-, -, -, hnode⟩⟩⟩
  · rw [hnode]
    exact ⟨.refl _, rfl⟩
  · rw [hnode]
    exact ⟨sameElsewhere_unwind hunwind, rfl⟩
  · rw [hnode]
    exact ⟨sameElsewhere_unwind hunwind, rfl⟩
  · rw [hnode]
    exact ⟨(sameElsewhere_unwind hunwind).trans (sameElsewhere_applyToStore _ _ _ _ _ _ _), rfl⟩

end ZClassic
