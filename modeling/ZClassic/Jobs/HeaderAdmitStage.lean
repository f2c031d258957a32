import ZClassic.Jobs.ReducerState
import ZClassic.Validation.AcceptBlockHeader

/-!
# header_admit

`step_admit` of `app/jobs/src/header_admit_stage.c`.
-/

namespace ZClassic

structure HeaderAdmitEnv where
  checkpointsEnabled : Bool := true
  rewindCommits : Bool := true
  commits : Bool := true

/-- `log_row_active_match`: `none` unless both the log and the chain have the height. -/
def logRowActiveMatch (node : Node) (h : ℕ) : Option Bool :=
  match activeChainAt node.chain h, node.db.headerAdmitLog.lookup h with
  | some bi, some row => some (row.hash == bi)
  | _, _ => none

def headerAdmitReorgRewindMaxDepth : ℕ := 10000

/-- The lowest height of the scanned window below the cursor that was logged for another block. -/
def deepestDivergent (node : Node) (cursor : ℕ) : Option ℕ :=
  let floor := cursor - headerAdmitReorgRewindMaxDepth
  (List.range' floor (cursor - floor)).find? fun h => logRowActiveMatch node h == some false

def headerAdmitRewind (commits : Bool) (node : Node) : Option ProgressStore :=
  let cursor := node.db.cursor .headerAdmit
  if cursor = 0 then some node.db
  else if 2 ^ 31 ≤ cursor then none
  else match deepestDivergent node cursor with
    | none => some node.db
    | some h => if commits then some (node.db.setCursor .headerAdmit h) else none

def drainInbox (st : Reducer) : Reducer :=
  { st with inbox := [], pending := st.inbox.foldl pendingHeaderStage st.pending }

section

variable (w : ReducerWorld) (env : HeaderAdmitEnv)

/-- The staged header has its parent in the map and would stand at `wantHeight`. -/
def landsAt (known : Finset UInt256) (wantHeight : ℕ) (b : UInt256) : Bool :=
  wantHeight == 0 ||
    (decide ((w.header b).hashPrevBlock ∈ known) &&
      w.index.nHeight (w.header b).hashPrevBlock + 1 == wantHeight)

/-- `produce_block_index`; a header that fails its contextual check is dropped. -/
def produceBlockIndex (st : Reducer) (wantHeight : ℕ) : Option UInt256 × Reducer :=
  match takeSlot (landsAt w st.known wantHeight) st.pending.slots with
  | none => (none, st)
  | some (b, slots) =>
    let st := { st with pending := { st.pending with slots } }
    let pprev := if wantHeight = 0 then none else some (w.header b).hashPrevBlock
    match contextualHeaderGate w.check w.headers st.lastAdvanceHeight env.checkpointsEnabled
        (w.header b) pprev with
    | .error _ => (none, st)
    | .ok () =>
      if b ∈ st.known then (some b, st)
      else (some b,
        { st with
          known := insert b st.known
          node := { st.node with nStatus := Function.update st.node.nStatus b 0 } })

/-- The block at `h` on the active chain, or else one that is produced for it. -/
def activeOrProduced (st : Reducer) (h : ℕ) : Option UInt256 × Reducer :=
  match activeChainAt st.node.chain h with
  | some bi => (some bi, st)
  | none => produceBlockIndex w env st h

/-- The block is the new best header: more work, or more height where work is unknown. -/
def advancesBest (index : BlockIndex) (best bi : UInt256) : Bool :=
  bi != best &&
    if index.nChainWork bi ≠ 0 ∧ index.nChainWork best ≠ 0 then
      decide (index.nChainWork best < index.nChainWork bi)
    else decide (index.nHeight best < index.nHeight bi)

/-- `authoritative_admit`: the entry has at least a tree. -/
def admitTree (nStatus : UInt256 → UInt32) (bi : UInt256) : UInt256 → UInt32 :=
  if nStatus bi &&& blockValidMask < blockValidTree then
    Function.update nStatus bi ((nStatus bi &&& ~~~blockValidMask) ||| blockValidTree)
  else nStatus

def admitRow (h : ℕ) (bi : UInt256) (parent : Option UInt256) (node : Node) : StepResult where
  result := .advanced
  node := { node with
    nStatus := admitTree node.nStatus bi
    db := { node.db with headerAdmitLog := node.db.headerAdmitLog.insert h ⟨bi, parent⟩ } }
  cursorOut := node.db.cursor .headerAdmit + 1

def admitBlock (h : ℕ) (bi : UInt256) (st : Reducer) : JobResult × Reducer :=
  let parent := if h = 0 then none else w.index.pprev bi
  if 0 < h ∧ parent = none then
    (.blocked { height := h, status := "header_admit", kind := "missing_parent" }, st)
  else
    let out := stageFinish .headerAdmit env.commits st.node (admitRow h bi parent st.node)
    (out.result,
      { st with
        node := out.node
        bestHeader := if advancesBest w.index st.bestHeader bi then bi else st.bestHeader })

/-- `step_admit`, on the node after the inbox was drained. -/
def stepAdmit (st : Reducer) : JobResult × Reducer :=
  let st := reducerExtendWindowToCandidate w st
  match nextHeight (st.node.db.cursor .headerAdmit) with
  | none => (.fatal, st)
  | some h =>
    match activeOrProduced w env st h with
    | (none, st) => (.idle, st)
    | (some bi, st) => admitBlock w env h bi st

def headerAdmitStageStepOnce (st : Reducer) : JobResult × Reducer :=
  match headerAdmitRewind env.rewindCommits st.node with
  | none => (.fatal, st)
  | some db => stepAdmit w env (drainInbox (st.setDb db))

end

theorem headerAdmitRewind_same {commits : Bool} {node : Node} {db : ProgressStore}
    (h : headerAdmitRewind commits node = some db) : SameDownstream node.db db := by
  unfold headerAdmitRewind at h
  dsimp only at h
  cases hdeep : deepestDivergent node (node.db.cursor .headerAdmit) with
  | none =>
    rw [hdeep] at h
    split_ifs at h <;> cases h <;> exact .refl _
  | some k =>
    rw [hdeep] at h
    split_ifs at h
    · cases h
      exact .refl _
    · cases h
      exact (SameDownstream.refl _).setCursor rfl _

/-- The step may add an entry to the map; it leaves the published tip and the later stages. -/
structure AdmitWrites (st st' : Reducer) : Prop where
  same : SameDownstream st.node.db st'.node.db
  known : st.known ⊆ st'.known
  lastAdvanceHash : st'.lastAdvanceHash = st.lastAdvanceHash

variable (w : ReducerWorld) (env : HeaderAdmitEnv) (st : Reducer) (h : ℕ)

theorem AdmitWrites.refl : AdmitWrites st st := ⟨.refl _, Finset.Subset.refl _, rfl⟩

theorem AdmitWrites.trans {st st' st'' : Reducer} (h : AdmitWrites st st')
    (h' : AdmitWrites st' st'') : AdmitWrites st st'' :=
  ⟨h.same.trans h'.same, h.known.trans h'.known, h'.lastAdvanceHash.trans h.lastAdvanceHash⟩

theorem activeOrProduced_writes : AdmitWrites st (activeOrProduced w env st h).2 := by
  unfold activeOrProduced produceBlockIndex
  split
  · exact .refl st
  · split
    · exact .refl st
    · dsimp only
      split
      · exact ⟨.refl _, Finset.Subset.refl _, rfl⟩
      · split_ifs
        · exact ⟨.refl _, Finset.Subset.refl _, rfl⟩
        · exact ⟨.refl _, Finset.subset_insert _ _, rfl⟩

theorem admitRow_writes (commits : Bool) (h : ℕ) (bi : UInt256) (parent : Option UInt256)
    (node : Node) :
    UpstreamWrites node
      (stageFinish .headerAdmit commits node (admitRow h bi parent node)).node := by
  apply UpstreamWrites.stageFinish _ _ rfl
  exact ⟨⟨⟨⟨rfl, rfl⟩, ⟨rfl, rfl⟩, ⟨rfl, rfl, rfl⟩, rfl⟩, rfl, rfl⟩, rfl⟩

theorem admitBlock_writes (bi : UInt256)
    (st : Reducer) : AdmitWrites st (admitBlock w env h bi st).2 := by
  unfold admitBlock
  dsimp only
  generalize (if h = 0 then none else w.index.pprev bi) = parent
  by_cases hblocked : 0 < h ∧ parent = none
  · rw [if_pos hblocked]
    exact .refl st
  · rw [if_neg hblocked]
    exact ⟨(admitRow_writes env.commits h bi parent st.node).same, Finset.Subset.refl _, rfl⟩

theorem headerAdmit_writes : AdmitWrites st (headerAdmitStageStepOnce w env st).2 := by
  unfold headerAdmitStageStepOnce
  cases hrewind : headerAdmitRewind env.rewindCommits st.node with
  | none => exact .refl st
  | some db =>
    set ext := reducerExtendWindowToCandidate w (drainInbox (st.setDb db))
    have hdrained : AdmitWrites st ext :=
      ⟨headerAdmitRewind_same hrewind, Finset.Subset.refl _, rfl⟩
    refine hdrained.trans ?_
    dsimp only
    unfold stepAdmit
    dsimp only
    cases nextHeight _ with
    | none => exact .refl ext
    | some h =>
      have hfound := activeOrProduced_writes w env ext h
      dsimp only
      cases hres : activeOrProduced w env ext h with
      | mk found st' =>
        rw [hres] at hfound
        cases found with
        | none => exact hfound
        | some bi => exact hfound.trans (admitBlock_writes w env h bi st')

end ZClassic
