import ZClassic.Validation.AcceptBlockHeader

/-!
# Headers in the index

What holds of every entry that header acceptance puts into the block index: its rules with respect
to its parent.
-/

namespace ZClassic

open Option MainState

/-- `j` has the entries of `S` as `i` has them, and the parents of these are among them. -/
structure HeaderIndex.AgreeOn (i j : HeaderIndex) (S : UInt256 → Prop) : Prop where
  pprev : ∀ b, S b → j.pprev b = i.pprev b
  nHeight : ∀ b, S b → j.nHeight b = i.nHeight b
  nTime : ∀ b, S b → j.nTime b = i.nTime b
  nBits : ∀ b, S b → j.nBits b = i.nBits b
  closed : ∀ b p, S b → i.pprev b = some p → S p

variable {b last : UInt256} {env : CheckEnv} {header : BlockHeader} {ms ms' : MainState}
  {p : ChainParams}

namespace HeaderIndex.AgreeOn

variable {i j : HeaderIndex} {S : UInt256 → Prop} (h : i.AgreeOn j S)

include h

theorem lineage_eq (n : ℕ) {b : Option UInt256} (hb : ∀ x, b = some x → S x) :
    j.lineage n b = i.lineage n b ∧ ∀ x ∈ i.lineage n b, S x := by
  induction n generalizing b with
  | zero => exact ⟨rfl, by simp [lineage]⟩
  | succ n ih =>
    cases b with
    | none => exact ⟨rfl, by simp [lineage]⟩
    | some b =>
      obtain ⟨heq, hmem⟩ := ih (h.closed b · (hb b rfl))
      constructor
      · rw [lineage, lineage, h.pprev b (hb b rfl), heq]
      · rw [lineage, List.forall_mem_cons]
        exact ⟨hb b rfl, hmem⟩

theorem ancestor_eq (n : ℕ) {b : Option UInt256} (hb : ∀ x, b = some x → S x) :
    j.ancestor n b = i.ancestor n b ∧ ∀ x, i.ancestor n b = some x → S x := by
  induction n generalizing b with
  | zero => exact ⟨rfl, hb⟩
  | succ n ih =>
    have hpprev : b.bind j.pprev = b.bind i.pprev := by
      cases b with
      | none => rfl
      | some b => exact h.pprev b (hb b rfl)
    rw [ancestor, ancestor, hpprev]
    apply ih
    intro x hx
    obtain ⟨c, rfl, hc⟩ := bind_eq_some_iff.mp hx
    exact h.closed c x (hb c rfl) hc

theorem getTime_eq (hb : S b) : j.getTime b = i.getTime b := by
  rw [getTime, getTime, h.nTime b hb]

theorem getMedianTimePast_eq (hb : S b) : j.getMedianTimePast b = i.getMedianTimePast b := by
  obtain ⟨heq, hmem⟩ := h.lineage_eq medianTimeSpan (b := some b) (by rintro _ ⟨⟩; exact hb)
  unfold getMedianTimePast
  rw [heq, List.map_congr_left fun x hx => h.getTime_eq (hmem x hx)]

theorem averagedWork_eq (p : ChainParams) (hlast : S last) :
    averagedWork p j last = averagedWork p i last := by
  have hstart : ∀ x, some last = some x → S x := by
    rintro _ ⟨⟩
    exact hlast
  obtain ⟨heq, hmem⟩ := h.lineage_eq p.nPowAveragingWindow hstart
  obtain ⟨hanc, hfirst⟩ := h.ancestor_eq p.nPowAveragingWindow hstart
  have hbits : (i.lineage p.nPowAveragingWindow (some last)).map
        (fun b => (arithUint256SetCompact (j.nBits b)).target) =
      (i.lineage p.nPowAveragingWindow (some last)).map
        (fun b => (arithUint256SetCompact (i.nBits b)).target) := by
    apply List.map_congr_left
    intro x hx
    rw [h.nBits x (hmem x hx)]
  unfold averagedWork
  rw [hanc, heq, hbits, h.nHeight last hlast, h.getMedianTimePast_eq hlast]
  cases hx : i.ancestor p.nPowAveragingWindow (some last) with
  | none => rfl
  | some first =>
    dsimp only
    rw [h.getMedianTimePast_eq (hfirst first hx)]

theorem getNextWorkRequired_eq (p : ChainParams) (hlast : S last) (header : BlockHeader) :
    getNextWorkRequired p j (some last) header = getNextWorkRequired p i (some last) header := by
  unfold getNextWorkRequired upgradeForkWork minDifficultyWork
  dsimp only
  rw [h.averagedWork_eq p hlast, h.getTime_eq hlast, h.nHeight last hlast]

end HeaderIndex.AgreeOn

/-- The rules for a header of height `nHeight` on the given parent. -/
structure HeaderRules (p : ChainParams) (index : HeaderIndex) (parent : UInt256)
    (header : BlockHeader) (nHeight : ℤ) : Prop where
  nBits : header.nBits = getNextWorkRequired p index (some parent) header
  time : index.getMedianTimePast parent < blockHeaderGetTime header
  solution : header.nSolutionSize = expectedSolutionSize p nHeight

/-- Genesis is there, and every other entry stands one above its parent and meets the rules. -/
structure CheckedIndex (p : ChainParams) (ms : MainState) : Prop where
  genesis : ∃ e, ms.find p.hashGenesisBlock = some e ∧ e.pprev = none
  linked : ∀ b e, ms.find b = some e → b ≠ p.hashGenesisBlock → ∃ parent pe,
    e.pprev = some parent ∧ ms.find parent = some pe ∧ e.nHeight = pe.nHeight + 1 ∧
      HeaderRules p ms.index parent e.header e.nHeight

theorem checkBlockHeader_solution (h : checkBlockHeader env header true = .ok ()) :
    0 < header.nSolutionSize := by
  unfold checkBlockHeader at h
  rw [refuseIf_bind_eq_ok] at h
  obtain ⟨-, h⟩ := h
  rw [if_pos rfl, refuseIf_bind_eq_ok] at h
  obtain ⟨hsolution, -⟩ := h
  by_contra hzero
  apply hsolution
  rw [checkEquihashSolution, Nat.eq_zero_of_not_pos hzero]
  rfl

theorem contextualHeader_rules {index : HeaderIndex} {prev : UInt256}
    {checkpointsEnabled : Bool}
    (hgenesis : env.blockHeaderGetHash header ≠ env.params.hashGenesisBlock)
    (hsolution : 0 < header.nSolutionSize)
    (h : contextualCheckBlockHeader env index header (some prev) checkpointsEnabled = .ok ()) :
    HeaderRules env.params index prev header (index.nHeight prev + 1) := by
  unfold contextualCheckBlockHeader at h
  rw [if_neg hgenesis] at h
  rw [refuseIf_bind_eq_ok, refuseIf_bind_eq_ok, refuseIf_bind_eq_ok] at h
  obtain ⟨hsize, hbits, htime, -⟩ := h
  exact ⟨not_not.mp hbits, not_le.mp htime, not_not.mp fun hne => hsize ⟨hsolution, hne⟩⟩

namespace CheckedIndex

variable {p : ChainParams} {ms : MainState} (h : CheckedIndex p ms)

include h

theorem not_scrambled (b : UInt256) : scrambled ms b = false := by
  unfold scrambled index
  dsimp only
  cases hb : ms.find b with
  | none => rfl
  | some e =>
    by_cases hgenesis : b = p.hashGenesisBlock
    · obtain ⟨g, hg, hpprev⟩ := h.genesis
      rw [hgenesis, hg] at hb
      cases hb
      rw [bind_some, hpprev]
    · obtain ⟨parent, pe, hparent, hpe, hheight, -⟩ := h.linked b e hb hgenesis
      rw [bind_some, hparent]
      simp [hpe, hheight]

theorem repairHeights_eq (b : UInt256) : repairHeights ms b = ms := by
  rw [repairHeights, h.not_scrambled b]
  rfl

theorem isSome_pprev {b parent : UInt256} (hparent : ms.index.pprev b = some parent) :
    (ms.find parent).isSome := by
  obtain ⟨e, he, hpprev⟩ := bind_eq_some_iff.mp hparent
  by_cases hgenesis : b = p.hashGenesisBlock
  · obtain ⟨g, hg, hnone⟩ := h.genesis
    rw [hgenesis, hg] at he
    cases he
    rw [hnone] at hpprev
    cases hpprev
  · obtain ⟨parent', pe, hparent', hpe, -⟩ := h.linked b e he hgenesis
    rw [hparent'] at hpprev
    cases hpprev
    rw [hpe]
    rfl

end CheckedIndex

/-- What a call must meet. A new header on a known parent passes the contextual check where the
policy leaves it out; a known one comes with the parent it has, and at the active tip the active
chain reports the height of the entry. -/
def HeaderCallOk (env : CheckEnv) (ms : MainState) (header : BlockHeader) : Prop :=
  let hash := env.blockHeaderGetHash header
  match ms.find hash with
  | none =>
    (ms.find header.hashPrevBlock).isSome →
      processBlockShouldSkipContextualHeader env.params ms.index ms.activeHeight
        header.hashPrevBlock = true →
      contextualCheckBlockHeader env ms.index header (some header.hashPrevBlock)
        ms.fCheckpointsEnabled = .ok ()
  | some e =>
    hash ≠ env.params.hashGenesisBlock →
      e.pprev = some header.hashPrevBlock ∧
      (0 < ms.activeHeight → ms.activeTip = some hash → ms.activeHeight = e.nHeight) ∧
      (ms.activeTip = some header.hashPrevBlock → ms.activeHeight = e.nHeight - 1)

theorem MainState.modify_eq_self {f : IndexEntry → IndexEntry}
    (h : ∀ e, ms.find b = some e → f e = e) : ms.modify b f = ms := by
  unfold modify
  cases hb : ms.find b with
  | none => rfl
  | some e =>
    dsimp only
    rw [h e hb, insert]
    congr
    apply Finmap.ext_lookup
    intro k
    rw [Table.lookup_put]
    split_ifs with hk
    · rw [hk, ← hb, find]
    · rfl

section Calls

variable {e : IndexEntry}

theorem relinkKnown_eq (h : CheckedIndex env.params ms)
    (he : ms.find (env.blockHeaderGetHash header) = some e) (hok : HeaderCallOk env ms header)
    (hms' : relinkKnown env.params ms header (env.blockHeaderGetHash header) = .ok ms') :
    ms' = ms := by
  unfold relinkKnown at hms'
  by_cases hgenesis : env.blockHeaderGetHash header = env.params.hashGenesisBlock
  · rw [if_pos hgenesis] at hms'
    cases hms'
    rfl
  rw [if_neg hgenesis] at hms'
  unfold HeaderCallOk at hok
  dsimp only at hok
  rw [he] at hok
  obtain ⟨hpprev, htip, hchild⟩ := hok hgenesis
  obtain ⟨parent, pe, hparent, hpe, hheight, -⟩ := h.linked _ e he hgenesis
  rw [hpprev] at hparent
  cases hparent
  rw [hpe] at hms'
  dsimp only at hms'
  -- wherever the height comes from, it is the one that the entry has
  have hrelink : ∀ height, height = e.nHeight →
      relink ms (env.blockHeaderGetHash header) header.hashPrevBlock height = ms := by
    intro height hheight
    apply modify_eq_self
    intro e' he'
    rw [he] at he'
    cases he'
    exact if_pos ⟨hpprev, hheight.symm⟩
  split_ifs at hms' with hactive hparentActive
  · have hlower : lowerParent ms header.hashPrevBlock = ms := by
      apply modify_eq_self
      intro e' he'
      rw [hpe] at he'
      cases he'
      have := htip hactive.1 hactive.2
      exact if_pos (by omega)
    rw [hlower, hrelink _ (htip hactive.1 hactive.2)] at hms'
    cases hms'
    rfl
  · have := hchild hparentActive
    rw [hrelink _ (by omega)] at hms'
    cases hms'
    rfl
  · rw [hrelink _ hheight.symm] at hms'
    cases hms'
    rfl

theorem CheckedIndex.of_mapBlockIndex (h : CheckedIndex p ms)
    (hmap : ms'.mapBlockIndex = ms.mapBlockIndex) : CheckedIndex p ms' := by
  have hfind : ms'.find = ms.find := by
    funext b
    rw [find, find, hmap]
  have hindex : ms'.index = ms.index := by
    unfold index
    rw [hfind]
  constructor
  · rw [hfind]
    exact h.genesis
  · rw [hfind, hindex]
    exact h.linked

theorem acceptKnownHeader_checked (h : CheckedIndex env.params ms)
    (he : ms.find (env.blockHeaderGetHash header) = some e) (hok : HeaderCallOk env ms header) :
    CheckedIndex env.params
      (acceptKnownHeader env.params ms header (env.blockHeaderGetHash header)).2 := by
  unfold acceptKnownHeader
  cases hrelink : relinkKnown env.params ms header (env.blockHeaderGetHash header) with
  | error r => exact h
  | ok ms' =>
    rw [relinkKnown_eq h he hok hrelink]
    dsimp only
    rw [h.repairHeights_eq]
    exact h.of_mapBlockIndex rfl

theorem CheckedIndex.insert_agree (h : CheckedIndex p ms) (hnew : ms.find b = none)
    (entry : IndexEntry) :
    ms.index.AgreeOn (ms.insert b entry).index fun x => (ms.find x).isSome := by
  have hfind : ∀ x, (ms.find x).isSome → (ms.insert b entry).find x = ms.find x := by
    intro x hx
    have hne : x ≠ b := by
      rintro rfl
      rw [hnew] at hx
      cases hx
    exact (Table.lookup_put _ _ _ _).trans (if_neg hne)
  constructor
  · intro x hx
    simp only [index, hfind x hx]
  · intro x hx
    simp only [index, hfind x hx]
  · intro x hx
    simp only [index, hfind x hx]
  · intro x hx
    simp only [index, hfind x hx]
  · intro x parent _ hparent
    exact h.isSome_pprev hparent

theorem HeaderRules.of_agree {i j : HeaderIndex} {S : UInt256 → Prop} (h : i.AgreeOn j S)
    {parent : UInt256} (hparent : S parent) {nHeight : ℤ}
    (hrules : HeaderRules p i parent header nHeight) : HeaderRules p j parent header nHeight where
  nBits := by rw [h.getNextWorkRequired_eq p hparent, ← hrules.nBits]
  time := by rw [h.getMedianTimePast_eq hparent]; exact hrules.time
  solution := hrules.solution

theorem CheckedIndex.insert (h : CheckedIndex p ms) {b parent : UInt256} (hnew : ms.find b = none)
    {entry pe : IndexEntry} (hparent : entry.pprev = some parent) (hpe : ms.find parent = some pe)
    (hheight : entry.nHeight = pe.nHeight + 1)
    (hrules : HeaderRules p ms.index parent entry.header entry.nHeight) :
    CheckedIndex p (ms.insert b entry) := by
  have hagree := h.insert_agree hnew entry
  have hfind : ∀ x, (ms.insert b entry).find x = if x = b then some entry else ms.find x :=
    fun x => Table.lookup_put _ _ _ _
  have hold : ∀ x y, ms.find x = some y → (ms.insert b entry).find x = some y := by
    intro x y hx
    have hne : x ≠ b := by
      rintro rfl
      rw [hnew] at hx
      cases hx
    rw [hfind, if_neg hne, hx]
  constructor
  · obtain ⟨g, hg, hpprev⟩ := h.genesis
    exact ⟨g, hold _ _ hg, hpprev⟩
  · intro x y hx hgenesis
    rw [hfind] at hx
    split_ifs at hx with hxb
    · cases hx
      exact ⟨parent, pe, hparent, hold _ _ hpe, hheight, hrules.of_agree hagree (by rw [hpe]; rfl)⟩
    · obtain ⟨q, qe, hq, hqe, hqheight, hy⟩ := h.linked x y hx hgenesis
      exact ⟨q, qe, hq, hold _ _ hqe, hqheight, hy.of_agree hagree (by rw [hqe]; rfl)⟩

theorem findParent_ok {hash : UInt256} {prev : Option UInt256}
    (hgenesis : hash ≠ p.hashGenesisBlock) (h : findParent p ms header hash = .ok prev) :
    prev = some header.hashPrevBlock ∧ (ms.find header.hashPrevBlock).isSome := by
  unfold findParent at h
  rw [if_neg hgenesis, refuseIf_bind_eq_ok, refuseIf_bind_eq_ok] at h
  obtain ⟨hsome, -, h⟩ := h
  cases h
  exact ⟨rfl, isSome_iff_ne_none.mpr hsome⟩

theorem contextualHeaderGate_ok (hnew : ms.find (env.blockHeaderGetHash header) = none)
    (hok : HeaderCallOk env ms header) (hprev : (ms.find header.hashPrevBlock).isSome)
    (hgate : contextualHeaderGate env ms.index ms.activeHeight ms.fCheckpointsEnabled header
      (some header.hashPrevBlock) = .ok ()) :
    contextualCheckBlockHeader env ms.index header (some header.hashPrevBlock)
      ms.fCheckpointsEnabled = .ok () := by
  unfold HeaderCallOk at hok
  dsimp only at hok
  rw [hnew] at hok
  unfold contextualHeaderGate at hgate
  dsimp only at hgate
  split_ifs at hgate with hskip
  · exact hok hprev hskip
  · exact hgate

theorem acceptNewHeader_checked (h : CheckedIndex env.params ms)
    (hnew : ms.find (env.blockHeaderGetHash header) = none) (hok : HeaderCallOk env ms header) :
    CheckedIndex env.params
      (acceptNewHeader env ms header (env.blockHeaderGetHash header)).2 := by
  have hgenesis : env.blockHeaderGetHash header ≠ env.params.hashGenesisBlock := by
    intro heq
    obtain ⟨g, hg, -⟩ := h.genesis
    rw [heq, hg] at hnew
    cases hnew
  unfold acceptNewHeader
  cases hparent : findParent env.params ms header (env.blockHeaderGetHash header) with
  | error r => exact h
  | ok prev =>
    cases hheader : checkBlockHeader env header true with
    | error r => exact h
    | ok u =>
      obtain ⟨rfl, hprev⟩ := findParent_ok hgenesis hparent
      dsimp only [Option.elim]
      rw [h.repairHeights_eq]
      cases hgate : contextualHeaderGate env ms.index ms.activeHeight ms.fCheckpointsEnabled header
          (some header.hashPrevBlock) with
      | error r => exact h
      | ok u =>
        have hrules := contextualHeader_rules hgenesis
          (checkBlockHeader_solution hheader) (contextualHeaderGate_ok hnew hok hprev hgate)
        obtain ⟨pe, hpe⟩ := isSome_iff_exists.mp hprev
        have hheight : ms.index.nHeight header.hashPrevBlock = pe.nHeight := by
          simp [index, hpe]
        rw [hheight] at hrules
        have hstatus : CheckedIndex env.params { ms with
            nStatus := Function.update ms.nStatus (env.blockHeaderGetHash header)
              blockValidTree } := h.of_mapBlockIndex rfl
        unfold addToBlockIndex
        dsimp only [find] at hpe ⊢
        rw [hpe]
        exact hstatus.insert hnew rfl hpe rfl hrules

end Calls

inductive HeaderAction where
  | acceptBlockHeader (adjustedTime : ℤ) (header : BlockHeader)
  /-- the active chain is moved, and the status bits that go with it -/
  | moveActiveChain (height : ℤ) (tip : Option UInt256) (nStatus : UInt256 → UInt32)

def headerStep (env : CheckEnv) (ms : MainState) : HeaderAction → MainState
  | .acceptBlockHeader adjustedTime header =>
    (acceptBlockHeader { env with adjustedTime } ms header).2
  | .moveActiveChain height tip nStatus =>
    { ms with activeHeight := height, activeTip := tip, nStatus }

def HeaderActionOk (env : CheckEnv) (ms : MainState) : HeaderAction → Prop
  | .acceptBlockHeader adjustedTime header =>
    HeaderCallOk { env with adjustedTime } ms header
  | .moveActiveChain _ _ _ => True

theorem headerStep_checked {a : HeaderAction} (h : CheckedIndex env.params ms)
    (hok : HeaderActionOk env ms a) : CheckedIndex env.params (headerStep env ms a) := by
  cases a with
  | moveActiveChain height tip nStatus => exact h.of_mapBlockIndex rfl
  | acceptBlockHeader adjustedTime header =>
    unfold headerStep acceptBlockHeader
    dsimp only
    cases hfind : ms.find (env.blockHeaderGetHash header) with
    | none =>
      exact @acceptNewHeader_checked { env with adjustedTime } header ms h hfind hok
    | some e =>
      exact @acceptKnownHeader_checked { env with adjustedTime } header ms e h hfind
        hok

def OnlyGenesis (p : ChainParams) (ms : MainState) : Prop :=
  ∃ genesis : IndexEntry, genesis.pprev = none ∧
    ms.mapBlockIndex = (∅ : Table UInt256 IndexEntry).insert p.hashGenesisBlock genesis

theorem OnlyGenesis.checked (h : OnlyGenesis p ms) : CheckedIndex p ms := by
  obtain ⟨genesis, hpprev, hmap⟩ := h
  constructor
  · exact ⟨genesis, by rw [find, hmap, Finmap.lookup_insert], hpprev⟩
  · intro b e hb hne
    rw [find, hmap, Table.lookup_put, if_neg hne] at hb
    cases hb

/-- In every run whose calls meet the condition, every entry other than genesis meets the rules with
respect to its parent. -/
theorem acceptedHeaders_rules {env : CheckEnv} {ms : MainState} {acts : List HeaderAction}
    (hinit : OnlyGenesis env.params ms)
    (hok : MeetsAll (headerStep env) (HeaderActionOk env) ms acts) :
    ∀ b e, (run (headerStep env) ms acts).find b = some e → b ≠ env.params.hashGenesisBlock →
      ∃ parent, e.pprev = some parent ∧
        HeaderRules env.params (run (headerStep env) ms acts).index parent e.header e.nHeight := by
  intro b e hb hne
  have hchecked : CheckedIndex env.params (run (headerStep env) ms acts) :=
    run_invariant (CheckedIndex env.params) (fun ms a h hok => headerStep_checked h hok)
      hinit.checked hok
  obtain ⟨parent, -, hparent, -, -, hrules⟩ := hchecked.linked b e hb hne
  exact ⟨parent, hparent, hrules⟩

def genesisState : MainState where
  mapBlockIndex := (∅ : Table UInt256 IndexEntry).insert regtestParams.hashGenesisBlock
    { header := { nTime := 1000, nBits := 0x200f0f0f } }

theorem genesisState_onlyGenesis : OnlyGenesis permissiveEnv.params genesisState :=
  ⟨_, rfl, rfl⟩

/-- Older than its parent, with another difficulty than required and a solution for other
parameters. -/
def unruledHeader : BlockHeader where
  hashPrevBlock := regtestParams.hashGenesisBlock
  nTime := 5
  nBits := 0x1f0f0f0f
  nNonce := 7
  nSolution := List.replicate 1344 0

theorem unruledHeader_accepted :
    let ms := run (headerStep permissiveEnv) genesisState [.acceptBlockHeader 0 unruledHeader]
    ∃ e, ms.find 7 = some e ∧ e.pprev = some regtestParams.hashGenesisBlock ∧ e.nHeight = 1 ∧
      e.header.nBits ≠ getNextWorkRequired regtestParams ms.index e.pprev e.header ∧
      blockHeaderGetTime e.header ≤ ms.index.getMedianTimePast regtestParams.hashGenesisBlock ∧
      e.header.nSolutionSize ≠ expectedSolutionSize regtestParams e.nHeight := by
  refine ⟨
    { header := unruledHeader
      pprev := some regtestParams.hashGenesisBlock
      nHeight := 1
      nChainWork := getBlockProof 0x1f0f0f0f }, ?_⟩
  decide +kernel

def ruledHeader : BlockHeader :=
  { easyHeader 0 7 with hashPrevBlock := regtestParams.hashGenesisBlock, nTime := 1001 }

theorem ruledHeader_rules :
    let ms := run (headerStep permissiveEnv) genesisState [.acceptBlockHeader 0 ruledHeader]
    (ms.find 7).isSome ∧ ∀ b e, ms.find b = some e → b ≠ regtestParams.hashGenesisBlock →
      ∃ parent, e.pprev = some parent ∧
        HeaderRules regtestParams ms.index parent e.header e.nHeight := by
  refine ⟨by decide +kernel, acceptedHeaders_rules genesisState_onlyGenesis ⟨?_, trivial⟩⟩
  intro _ _
  decide +kernel

end ZClassic
