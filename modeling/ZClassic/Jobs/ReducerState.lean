import ZClassic.Consensus.CheckBlock
import ZClassic.Jobs.TipFinalizeStage

/-!
# The state of the reducer

What the stages share with the ingest call: the block map, the best header, the inbox of
header_admit and the published tip.
-/

namespace ZClassic

open List

/-- What does not change while blocks come in. `header b` is the header with the hash `b`; the index
links every block whose parents lead back to genesis. -/
structure ReducerWorld where
  check : CheckEnv
  index : BlockIndex
  header : UInt256 → BlockHeader
  content : UInt256 → Block
  gapless : index.Gapless
  pprev_genesis : index.pprev check.params.hashGenesisBlock = none
  pprev_eq : ∀ b p, index.pprev b = some p → p = (header b).hashPrevBlock
  pprev_linked : ∀ b, b ≠ check.params.hashGenesisBlock →
    (header b).hashPrevBlock = check.params.hashGenesisBlock ∨
      (index.pprev (header b).hashPrevBlock).isSome →
    index.pprev b = some (header b).hashPrevBlock
  nChainWork_pprev : ∀ b p, index.pprev b = some p →
    index.nChainWork b = index.nChainWork p + (getBlockProof (header b).nBits).toNat

namespace ReducerWorld

variable (w : ReducerWorld)

def genesis : UInt256 := w.check.params.hashGenesisBlock

def toWorld : World where
  params := w.check.params.consensus
  index := w.index
  content := w.content

/-- The index as the retargeting and median walks see it. -/
def headers : HeaderIndex where
  pprev := w.index.pprev
  nHeight b := w.index.nHeight b
  nTime b := (w.header b).nTime
  nBits b := (w.header b).nBits

end ReducerWorld

def headerAdmitPendingCap : ℕ := 64

/-- `g_pending` and the slot that a full ring overwrites next. -/
structure PendingHeaders where
  slots : List (Option UInt256) := List.replicate headerAdmitPendingCap none
  rr : ℕ := 0

def pendingHeaderStage (p : PendingHeaders) (b : UInt256) : PendingHeaders :=
  if some b ∈ p.slots then p
  else match p.slots.findIdx? (· == none) with
    | some i => { p with slots := p.slots.set i (some b) }
    | none =>
      let rr := (p.rr + 1) % headerAdmitPendingCap
      { slots := p.slots.set rr (some b), rr }

/-- The first occupied slot whose header passes the test is handed out and freed. -/
def takeSlot (lands : UInt256 → Bool) :
    List (Option UInt256) → Option (UInt256 × List (Option UInt256))
  | [] => none
  | none :: slots => (takeSlot lands slots).map fun r => (r.1, none :: r.2)
  | some b :: slots =>
    if lands b then some (b, none :: slots)
    else (takeSlot lands slots).map fun r => (r.1, some b :: r.2)

variable {p : PendingHeaders}

theorem mem_pendingHeaderStage {b c : UInt256}
    (h : some c ∈ (pendingHeaderStage p b).slots) : c = b ∨ some c ∈ p.slots := by
  have hset : ∀ i, some c ∈ p.slots.set i (some b) → c = b ∨ some c ∈ p.slots := by
    intro i hi
    rcases mem_or_eq_of_mem_set hi with hold | hnew
    · exact .inr hold
    · exact .inl (Option.some.inj hnew)
  unfold pendingHeaderStage at h
  split_ifs at h
  · exact .inr h
  · split at h
    · exact hset _ h
    · exact hset _ h

theorem mem_foldl_pendingHeaderStage {l : List UInt256} {c : UInt256}
    (h : some c ∈ (l.foldl pendingHeaderStage p).slots) : c ∈ l ∨ some c ∈ p.slots := by
  induction l generalizing p with
  | nil => exact .inr h
  | cons b l ih =>
    rcases ih h with hl | hp
    · exact .inl (mem_cons_of_mem b hl)
    · rcases mem_pendingHeaderStage hp with rfl | hold
      · exact .inl mem_cons_self
      · exact .inr hold

theorem takeSlot_some {lands : UInt256 → Bool} {slots slots' : List (Option UInt256)} {b : UInt256}
    (h : takeSlot lands slots = some (b, slots')) :
    lands b = true ∧ some b ∈ slots ∧ ∀ c, some c ∈ slots' → some c ∈ slots := by
  induction slots generalizing slots' with
  | nil => cases h
  | cons slot slots ih =>
    have hrest : (takeSlot lands slots).map (fun r => (r.1, slot :: r.2)) = some (b, slots') →
        lands b = true ∧ some b ∈ slot :: slots ∧
          ∀ c, some c ∈ slots' → some c ∈ slot :: slots := by
      intro htake
      obtain ⟨⟨b', rest⟩, htake', heq⟩ := Option.map_eq_some_iff.mp htake
      cases heq
      obtain ⟨hlands, hmem, hsub⟩ := ih htake'
      refine ⟨hlands, mem_cons_of_mem _ hmem, ?_⟩
      intro c hc
      rcases mem_cons.mp hc with hhead | htail
      · exact hhead ▸ mem_cons_self
      · exact mem_cons_of_mem _ (hsub c htail)
    cases slot with
    | none => exact hrest h
    | some c =>
      rw [takeSlot] at h
      split_ifs at h with hlands
      · cases h
        refine ⟨hlands, mem_cons_self, ?_⟩
        intro d hd
        rcases mem_cons.mp hd with hnone | htail
        · cases hnone
        · exact mem_cons_of_mem _ htail
      · exact hrest h

structure Reducer where
  node : Node
  /-- the blocks in `map_block_index` -/
  known : Finset UInt256
  bestHeader : UInt256
  /-- the headers in the mailbox of header_admit; an ingest call sends them without a height -/
  inbox : List UInt256 := []
  pending : PendingHeaders := {}
  /-- `g_last_advance_height` and `g_last_advance_hash` -/
  lastAdvanceHeight : ℤ
  lastAdvanceHash : UInt256
  /-- `g_failure_recheck_cursor` of validate_headers -/
  failureRecheckCursor : ℕ := 0

namespace Reducer

/-- The tip of the published hash; an unknown one leaves the slot of the published height. -/
def activeChainTip (st : Reducer) : Option UInt256 :=
  if st.lastAdvanceHeight < 0 then none
  else if st.lastAdvanceHash ∈ st.known then some st.lastAdvanceHash
  else st.node.chain.chain st.lastAdvanceHeight.toNat

def publish (st : Reducer) (height : ℕ) (hash : UInt256) : Reducer :=
  { st with lastAdvanceHeight := height, lastAdvanceHash := hash }

def setDb (st : Reducer) (db : ProgressStore) : Reducer :=
  { st with node := { st.node with db } }

end Reducer

/-- Widens the window to the best header; the published tip stays. -/
def reducerExtendWindowToCandidate (w : ReducerWorld) (st : Reducer) : Reducer :=
  { st with
    node := { st.node with
      chain := activeChainExtendWindow w.index st.node.chain (some st.bestHeader) } }

/-- Both states have the same block map, window, published tip and headers on the way. -/
structure SameIndex (st st' : Reducer) : Prop where
  known : st'.known = st.known
  bestHeader : st'.bestHeader = st.bestHeader
  inbox : st'.inbox = st.inbox
  pending : st'.pending = st.pending
  chain : st'.node.chain = st.node.chain
  lastAdvance : st'.lastAdvanceHeight = st.lastAdvanceHeight ∧
    st'.lastAdvanceHash = st.lastAdvanceHash

theorem SameIndex.trans {st st' st'' : Reducer} (h : SameIndex st st') (h' : SameIndex st' st'') :
    SameIndex st st'' where
  known := h'.known.trans h.known
  bestHeader := h'.bestHeader.trans h.bestHeader
  inbox := h'.inbox.trans h.inbox
  pending := h'.pending.trans h.pending
  chain := h'.chain.trans h.chain
  lastAdvance := ⟨h'.lastAdvance.1.trans h.lastAdvance.1, h'.lastAdvance.2.trans h.lastAdvance.2⟩

variable {node : Node}

theorem sameIndex_of_chain {st : Reducer} (h : node.chain = st.node.chain) :
    SameIndex st { st with node } :=
  ⟨rfl, rfl, rfl, rfl, h, rfl, rfl⟩

/-- Both stores have the same verdicts of script_validate, proof_validate and utxo_apply. -/
structure SameValidation (db db' : ProgressStore) : Prop where
  scriptValidate : db'.cursor .scriptValidate = db.cursor .scriptValidate ∧
    db'.scriptValidateLog = db.scriptValidateLog
  proofValidate : db'.cursor .proofValidate = db.cursor .proofValidate ∧
    db'.proofValidateLog = db.proofValidateLog
  utxoApply : SameApplied db db'
  progressMeta : db'.progressMeta = db.progressMeta

structure SameDownstream (db db' : ProgressStore) : Prop extends SameValidation db db' where
  tipFinalize : db'.cursor .tipFinalize = db.cursor .tipFinalize ∧
    db'.tipFinalizeLog = db.tipFinalizeLog

theorem SameValidation.refl (db : ProgressStore) : SameValidation db db :=
  ⟨⟨rfl, rfl⟩, ⟨rfl, rfl⟩, ⟨rfl, rfl, rfl⟩, rfl⟩

theorem SameValidation.trans {db db' db'' : ProgressStore} (h : SameValidation db db')
    (h' : SameValidation db' db'') : SameValidation db db'' where
  scriptValidate := ⟨h'.1.1.trans h.1.1, h'.1.2.trans h.1.2⟩
  proofValidate := ⟨h'.2.1.trans h.2.1, h'.2.2.trans h.2.2⟩
  utxoApply := ⟨h'.3.1.trans h.3.1, h'.3.2.trans h.3.2, h'.3.3.trans h.3.3⟩
  progressMeta := h'.4.trans h.4

theorem SameDownstream.refl (db : ProgressStore) : SameDownstream db db :=
  ⟨.refl db, rfl, rfl⟩

theorem SameDownstream.trans {db db' db'' : ProgressStore} (h : SameDownstream db db')
    (h' : SameDownstream db' db'') : SameDownstream db db'' where
  toSameValidation := h.toSameValidation.trans h'.toSameValidation
  tipFinalize := ⟨h'.2.1.trans h.2.1, h'.2.2.trans h.2.2⟩

def StageName.upstream : StageName → Bool
  | headerAdmit | validateHeaders | bodyFetch | bodyPersist => true
  | _ => false

theorem SameDownstream.setCursor {db db' : ProgressStore} (h : SameDownstream db db')
    {name : StageName} (hname : name.upstream = true) (value : ℕ) :
    SameDownstream db (db'.setCursor name value) := by
  have hcursor : ∀ other : StageName, other.upstream = false →
      (db'.setCursor name value).cursor other = db'.cursor other := by
    intro other hother
    rw [ProgressStore.cursor_setCursor]
    apply if_neg
    rintro rfl
    rw [hname] at hother
    cases hother
  exact h.trans ⟨⟨⟨hcursor _ rfl, rfl⟩, ⟨hcursor _ rfl, rfl⟩, ⟨hcursor _ rfl, rfl, rfl⟩, rfl⟩,
    hcursor _ rfl, rfl⟩

/-- A step in front of script_validate writes its own tables and leaves the window. -/
structure UpstreamWrites (node node' : Node) : Prop where
  same : SameDownstream node.db node'.db
  chain : node'.chain = node.chain

theorem UpstreamWrites.stageFinish (name : StageName) (commits : Bool)
    (hname : name.upstream = true) {out : StepResult} (h : UpstreamWrites node out.node) :
    UpstreamWrites node (stageFinish name commits node out).node := by
  rcases stageFinish_cases name commits node out with ⟨-, hroll⟩ | ⟨-, -, hout⟩
  · rw [hroll]
    exact ⟨.refl _, h.chain⟩
  · rw [hout]
    exact ⟨h.same.setCursor hname _, h.chain⟩

end ZClassic
