import ZClassic.Services.ReducerIngest

/-!
# The index that ingestion builds

header_admit produces an entry only above the window, and the window reaches up to the best header,
so every block that comes in through the reducer extends the chain: the index holds one block for
each height, and the window, the applied blocks and the published tip all lie on this chain.
-/

namespace ZClassic

open Option Finset

variable {k : ℕ} {b tip : UInt256} {w : ReducerWorld} {env : TipFinalizeEnv} {node : Node}

theorem BlockIndex.nHeight_ancestor {index : BlockIndex} {b c : UInt256}
    (h : index.ancestor k b = some c) : index.nHeight c + k = index.nHeight b := by
  induction k generalizing b with
  | zero =>
    cases h
    rfl
  | succ k ih =>
    obtain ⟨p, hp, hc⟩ := bind_eq_some_iff.mp h
    have hheight := index.nHeight_pprev b p hp
    have := ih hc
    omega

theorem ReducerWorld.nChainWork_ancestor (w : ReducerWorld) {b c : UInt256}
    (h : w.index.ancestor k b = some c) : w.index.nChainWork c ≤ w.index.nChainWork b := by
  induction k generalizing b with
  | zero =>
    cases h
    exact le_rfl
  | succ k ih =>
    obtain ⟨p, hp, hc⟩ := bind_eq_some_iff.mp h
    have hwork := w.nChainWork_pprev b p hp
    have := ih hc
    omega

theorem getBlockProof_pos {nBits : UInt32} (h : (arithUint256SetCompact nBits).unusable = false) :
    0 < (getBlockProof nBits).toNat := by
  unfold getBlockProof
  rw [if_neg (by rw [h]; exact Bool.false_ne_true)]
  have hne : (arithUint256SetCompact nBits).target ≠ 0 := by
    intro hzero
    simp [CompactTarget.unusable, hzero] at h
  generalize (arithUint256SetCompact nBits).target = t at hne
  have hpos : 0 < t.toNat := Nat.pos_of_ne_zero fun hzero => hne (BitVec.eq_of_toNat_eq hzero)
  have hdiv : (~~~t / (t + 1)).toNat ≤ (2 ^ 256 - 2) / 2 := by
    rw [BitVec.toNat_udiv, BitVec.toNat_not, BitVec.toNat_add]
    -- the divisor is at least two, unless it wraps to zero
    by_cases hwrap : t.toNat + 1 = 2 ^ 256
    · rw [show (1 : UInt256).toNat = 1 from rfl, hwrap, Nat.mod_self, Nat.div_zero]
      exact Nat.zero_le _
    · rw [show (1 : UInt256).toNat = 1 from rfl, Nat.mod_eq_of_lt (by omega)]
      exact Nat.div_le_div (by omega) (by omega) (by omega)
  rw [BitVec.toNat_add, show (1 : UInt256).toNat = 1 from rfl, Nat.mod_eq_of_lt (by omega)]
  exact Nat.succ_pos _

/-- The block has been through the stateless checks. -/
def Gated (w : ReducerWorld) (b : UInt256) : Prop :=
  ∃ adjustedTime, checkBlock { w.check with adjustedTime } (w.header b)
    (w.content b) true true true = .ok ()

theorem Gated.proof_pos (h : Gated w b) : 0 < (getBlockProof (w.header b).nBits).toNat := by
  obtain ⟨adjustedTime, hcheck⟩ := h
  obtain ⟨u, hheader, -⟩ := bind_eq_ok hcheck
  obtain ⟨-, hheader⟩ := refuseIf_bind_eq_ok.mp hheader
  rw [if_pos rfl] at hheader
  obtain ⟨-, hheader⟩ := refuseIf_bind_eq_ok.mp hheader
  obtain ⟨hpow, -⟩ := refuseIf_bind_eq_ok.mp hheader
  apply getBlockProof_pos
  simp only [checkProofOfWork, Bool.not_eq_false, Bool.and_eq_true, Bool.not_eq_true'] at hpow
  exact hpow.1.1

/-- The block is in the inbox, among the staged headers or in the index. -/
def Reducer.Entered (st : Reducer) (b : UInt256) : Prop :=
  b ∈ st.inbox ∨ some b ∈ st.pending.slots ∨ b ∈ st.known

/-- The index is the path from the best header to genesis, and every block on its way into it has
passed the gate and has the property `Q`. -/
structure LinearIndex (w : ReducerWorld) (Q : UInt256 → Prop) (st : Reducer) : Prop where
  genesis_mem : w.genesis ∈ st.known
  best_mem : st.bestHeader ∈ st.known
  path : ∀ b ∈ st.known, ∃ k, w.index.ancestor k st.bestHeader = some b
  linked : ∀ b ∈ st.known, b ≠ w.genesis → ∃ p ∈ st.known, w.index.pprev b = some p
  fits : ∀ b ∈ st.known, w.index.nHeight b < 2 ^ 31
  window : ∃ tip ∈ st.known, w.index.ShowsPath st.node.chain tip
  published : 0 ≤ st.lastAdvanceHeight ∧ st.lastAdvanceHash ∈ st.known
  entered : ∀ b, st.Entered b → b ≠ w.genesis → Gated w b ∧ Q b

theorem ReducerWorld.nHeight_genesis (w : ReducerWorld) : w.index.nHeight w.genesis = 0 :=
  w.gapless _ w.pprev_genesis

theorem AtGenesis.linearIndex {st : Reducer} (h : AtGenesis w st) (Q : UInt256 → Prop) :
    LinearIndex w Q st where
  genesis_mem := by rw [h.known]; exact mem_singleton_self _
  best_mem := by rw [h.known, h.bestHeader]; exact mem_singleton_self _
  path b hb := by
    rw [h.known, mem_singleton] at hb
    exact ⟨0, by rw [h.bestHeader, hb]; rfl⟩
  linked b hb hne := by
    rw [h.known, mem_singleton] at hb
    exact absurd hb hne
  fits b hb := by
    rw [h.known, mem_singleton] at hb
    rw [hb, w.nHeight_genesis]
    exact Nat.two_pow_pos 31
  window := ⟨w.genesis, by rw [h.known]; exact mem_singleton_self _, h.window⟩
  published := by
    rw [h.lastAdvance.1, h.lastAdvance.2, h.known]
    exact ⟨le_rfl, mem_singleton_self _⟩
  entered b hb hne := by
    unfold Reducer.Entered at hb
    rw [h.inbox, h.pending, h.known] at hb
    simp [headerAdmitPendingCap] at hb
    exact absurd hb hne

/-- The two states differ at most in the store, in the status bits and in headers that were
dropped on their way. -/
structure Narrows (st st' : Reducer) : Prop where
  known : st'.known = st.known
  bestHeader : st'.bestHeader = st.bestHeader
  chain : st'.node.chain = st.node.chain
  lastAdvance : st'.lastAdvanceHeight = st.lastAdvanceHeight ∧
    st'.lastAdvanceHash = st.lastAdvanceHash
  entered : ∀ b, st'.Entered b → st.Entered b

theorem SameIndex.narrows {st st' : Reducer} (h : SameIndex st st') : Narrows st st' where
  known := h.known
  bestHeader := h.bestHeader
  chain := h.chain
  lastAdvance := h.lastAdvance
  entered b hb := by
    unfold Reducer.Entered at hb ⊢
    rwa [h.inbox, h.pending, h.known] at hb

theorem isSome_of_stepFinalize_block {w : World} {cursorIn h : ℕ}
    (hnext : nextHeight cursorIn = some h)
    (hblock : (stepFinalize w env cursorIn node).block = some b) :
    (node.db.utxoApplyLog.lookup h).isSome = true := by
  unfold stepFinalize at hblock
  cases hgate : upstreamGate cursorIn (node.db.cursor .utxoApply) node.db.utxoApplyLog with
  | fatal =>
    rw [hgate] at hblock
    cases hblock
  | idle =>
    rw [hgate] at hblock
    cases hblock
  | row k upstream =>
    obtain ⟨hk, -, hrow⟩ := upstreamGate_row hgate
    rw [hnext, some.injEq] at hk
    rw [hk, hrow, isSome_some]

theorem finalizes_some {w : World} {h : ℕ} {newTip : UInt256}
    (hfinal : finalizes w env node = some (h, newTip)) :
    activeChainAt node.chain (h + 1) = some newTip ∧
      (node.db.utxoApplyLog.lookup h).isSome = true := by
  unfold finalizes at hfinal
  cases hrewind : rewindCursorIfActiveChainReorged env.rewindCommits node with
  | none =>
    rw [hrewind] at hfinal
    cases hfinal
  | some db =>
    rw [hrewind] at hfinal
    have hlog : db.utxoApplyLog = node.db.utxoApplyLog := by
      rcases (rewindCursor_some hrewind).2 with rfl | ⟨value, rfl⟩
      · rfl
      · rfl
    dsimp only at hfinal
    split at hfinal
    · next b k hblock hnext =>
      obtain ⟨bi, hbi, heq⟩ := map_eq_some_iff.mp hfinal
      cases heq
      refine ⟨hbi, ?_⟩
      rw [← hlog]
      exact isSome_of_stepFinalize_block hnext hblock
    · cases hfinal

namespace LinearIndex

variable {Q : UInt256 → Prop} {st st' : Reducer}

section

variable (h : LinearIndex w Q st)

include h

theorem eq_of_nHeight {a b : UInt256} (ha : a ∈ st.known)
    (hb : b ∈ st.known) (hheight : w.index.nHeight a = w.index.nHeight b) : a = b := by
  obtain ⟨j, hj⟩ := h.path a ha
  obtain ⟨k, hk⟩ := h.path b hb
  have hja := BlockIndex.nHeight_ancestor hj
  have hkb := BlockIndex.nHeight_ancestor hk
  have hjk : j = k := by omega
  rw [hjk, hk, some.injEq] at hj
  exact hj.symm

theorem nHeight_le_best (hb : b ∈ st.known) :
    w.index.nHeight b ≤ w.index.nHeight st.bestHeader := by
  obtain ⟨k, hk⟩ := h.path b hb
  have := BlockIndex.nHeight_ancestor hk
  omega

theorem pprev_mem {b p : UInt256} (hb : b ∈ st.known)
    (hp : w.index.pprev b = some p) : p ∈ st.known := by
  by_cases hgenesis : b = w.genesis
  · rw [hgenesis, ReducerWorld.genesis, w.pprev_genesis] at hp
    cases hp
  · obtain ⟨q, hq, hqp⟩ := h.linked b hb hgenesis
    rw [hqp, some.injEq] at hp
    exact hp ▸ hq

theorem ancestor_mem {b c : UInt256} (hb : b ∈ st.known)
    (hc : w.index.ancestor k b = some c) : c ∈ st.known := by
  induction k generalizing b with
  | zero =>
    cases hc
    exact hb
  | succ k ih =>
    obtain ⟨p, hp, hpc⟩ := bind_eq_some_iff.mp hc
    exact ih (h.pprev_mem hb hp) hpc

theorem windowed : w.index.Window st.node.chain := by
  obtain ⟨tip, -, htip⟩ := h.window
  exact .inr ⟨tip, htip⟩

theorem active (hb : activeChainAt st.node.chain k = some b) :
    b ∈ st.known ∧ w.index.nHeight b = k := by
  refine ⟨?_, h.windowed.nHeight_at w.gapless hb⟩
  obtain ⟨tip, htip, hheight, hpath⟩ := h.window
  unfold activeChainAt at hb
  split_ifs at hb with hle
  rw [hpath k (by omega)] at hb
  exact h.ancestor_mem htip hb

theorem activeChainTip : st.activeChainTip = some st.lastAdvanceHash := by
  have hpublished := h.published
  rw [Reducer.activeChainTip, if_neg (by omega), if_pos hpublished.2]

theorem seedsAnchor_some (hseeds : seedsAnchor w st = some tip) : tip = st.lastAdvanceHash := by
  rw [seedsAnchor, h.activeChainTip] at hseeds
  exact (some.inj (filter_eq_some_iff.mp hseeds).1).symm

theorem narrows (hsame : Narrows st st') : LinearIndex w Q st' where
  genesis_mem := hsame.known ▸ h.genesis_mem
  best_mem := by rw [hsame.known, hsame.bestHeader]; exact h.best_mem
  path := by rw [hsame.known, hsame.bestHeader]; exact h.path
  linked := by rw [hsame.known]; exact h.linked
  fits := by rw [hsame.known]; exact h.fits
  window := by rw [hsame.known, hsame.chain]; exact h.window
  published := by rw [hsame.lastAdvance.1, hsame.lastAdvance.2, hsame.known]; exact h.published
  entered b hb := h.entered b (hsame.entered b hb)

theorem withNode (hchain : node.chain = st.node.chain) : LinearIndex w Q { st with node } :=
  { h with window := by rw [hchain]; exact h.window }

theorem setDb (db : ProgressStore) : LinearIndex w Q (st.setDb db) :=
  h.withNode rfl

theorem withWindow (htip : tip ∈ st.known) (hpath : w.index.ShowsPath node.chain tip) :
    LinearIndex w Q { st with node } :=
  { h with window := ⟨tip, htip, hpath⟩ }

theorem extend : LinearIndex w Q (reducerExtendWindowToCandidate w st) := by
  unfold reducerExtendWindowToCandidate activeChainExtendWindow
  dsimp only
  split_ifs
  · exact h
  · exact h.withWindow h.best_mem (fillWindow_showsPath w.gapless h.windowed _)

theorem extendForAuthor (author : UtxoAuthor) :
    LinearIndex w Q (ZClassic.extendForAuthor w author st) := by
  cases author with
  | stage => exact h.extend
  | legacy => exact h

theorem publish (hb : b ∈ st.known) (k : ℕ) : LinearIndex w Q (st.publish k b) :=
  { h with published := ⟨Int.natCast_nonneg k, hb⟩ }

theorem nHeight_best_lt
    (hnone : activeChainAt (reducerExtendWindowToCandidate w st).node.chain k = none) :
    w.index.nHeight st.bestHeader < k := by
  by_contra hle
  have hheight : (w.index.nHeight st.bestHeader : ℤ) ≤
      (reducerExtendWindowToCandidate w st).node.chain.height := by
    unfold reducerExtendWindowToCandidate activeChainExtendWindow
    dsimp only
    split_ifs with hcovered
    · exact hcovered
    · exact le_rfl
  obtain ⟨tip, -, htip, hpath⟩ := h.extend.window
  rw [activeChainAt, if_pos (by omega), hpath k (by omega)] at hnone
  obtain ⟨p, hp, -⟩ := w.gapless.exists_ancestor
    (show w.index.nHeight tip - k ≤ w.index.nHeight tip by omega)
  rw [hp] at hnone
  cases hnone

theorem pprev_of_mem (hb : b ∉ st.known) (hprev : (w.header b).hashPrevBlock ∈ st.known) :
    w.index.pprev b = some (w.header b).hashPrevBlock := by
  apply w.pprev_linked
  · exact fun hgenesis => hb (hgenesis ▸ h.genesis_mem)
  · by_cases hroot : (w.header b).hashPrevBlock = w.genesis
    · exact .inl hroot
    · obtain ⟨p, -, hp⟩ := h.linked _ hprev hroot
      exact .inr (by rw [hp]; rfl)

end

theorem advancesBest_of_pprev {b p : UInt256} (hgated : Gated w b)
    (hp : w.index.pprev b = some p) : advancesBest w.index p b = true := by
  have hwork := w.nChainWork_pprev b p hp
  have hheight := w.index.nHeight_pprev b p hp
  have hpos := hgated.proof_pos
  have hne : b ≠ p := by
    rintro rfl
    omega
  unfold advancesBest
  rw [Bool.and_eq_true, bne_iff_ne]
  refine ⟨hne, ?_⟩
  split_ifs
  · exact decide_eq_true (by omega)
  · exact decide_eq_true (by omega)

section

variable (h : LinearIndex w Q st)

include h

theorem advancesBest_eq_false (hb : b ∈ st.known) :
    advancesBest w.index st.bestHeader b = false := by
  obtain ⟨k, hk⟩ := h.path b hb
  have hwork := w.nChainWork_ancestor hk
  have hheight := h.nHeight_le_best hb
  unfold advancesBest
  rw [Bool.and_eq_false_iff]
  right
  split_ifs
  · exact decide_eq_false (by omega)
  · exact decide_eq_false (by omega)

theorem grow (hpprev : w.index.pprev b = some st.bestHeader)
    (hfits : w.index.nHeight b < 2 ^ 31) (hgated : Gated w b ∧ Q b) (node : Node)
    (hchain : node.chain = st.node.chain) :
    LinearIndex w Q { st with node, known := insert b st.known, bestHeader := b } where
  genesis_mem := mem_insert_of_mem h.genesis_mem
  best_mem := mem_insert_self _ _
  path c hc := by
    rcases mem_insert.mp hc with rfl | hold
    · exact ⟨0, rfl⟩
    · obtain ⟨k, hk⟩ := h.path c hold
      exact ⟨k + 1, by rw [BlockIndex.ancestor, hpprev, bind_some, hk]⟩
  linked c hc hne := by
    rcases mem_insert.mp hc with rfl | hold
    · exact ⟨_, mem_insert_of_mem h.best_mem, hpprev⟩
    · obtain ⟨p, hp, hcp⟩ := h.linked c hold hne
      exact ⟨p, mem_insert_of_mem hp, hcp⟩
  fits c hc := by
    rcases mem_insert.mp hc with rfl | hold
    · exact hfits
    · exact h.fits c hold
  window := by
    obtain ⟨tip, htip, hpath⟩ := h.window
    exact ⟨tip, mem_insert_of_mem htip, by rw [hchain]; exact hpath⟩
  published := ⟨h.published.1, mem_insert_of_mem h.published.2⟩
  entered c hc hne := by
    rcases hc with hinbox | hpending | hknown
    · exact h.entered c (.inl hinbox) hne
    · exact h.entered c (.inr (.inl hpending)) hne
    · rcases mem_insert.mp hknown with rfl | hold
      · exact hgated
      · exact h.entered c (.inr (.inr hold)) hne

theorem admitBlock_grow (env : HeaderAdmitEnv)
    (hpprev : w.index.pprev b = some st.bestHeader) (hfits : w.index.nHeight b < 2 ^ 31)
    (hgated : Gated w b ∧ Q b) (nStatus : UInt256 → UInt32) :
    LinearIndex w Q (admitBlock w env (w.index.nHeight b) b { st with
      known := insert b st.known, node := { st.node with nStatus } }).2 := by
  have hheight := w.index.nHeight_pprev b _ hpprev
  unfold admitBlock
  rw [if_neg (show w.index.nHeight b ≠ 0 by omega), hpprev,
    if_neg (by rintro ⟨-, hnone⟩; cases hnone),
    if_pos (advancesBest_of_pprev hgated.1 hpprev)]
  apply h.grow hpprev hfits hgated
  exact (admitRow_writes env.commits _ b (some st.bestHeader) _).chain

theorem admitBlock_active (env : HeaderAdmitEnv) (hb : b ∈ st.known) :
    LinearIndex w Q (admitBlock w env k b st).2 := by
  unfold admitBlock
  generalize (if k = 0 then none else w.index.pprev b) = parent
  by_cases hblocked : 0 < k ∧ parent = none
  · rw [if_pos hblocked]
    exact h
  · rw [if_neg hblocked]
    have hchain := (admitRow_writes env.commits k b parent st.node).chain
    rw [h.advancesBest_eq_false hb, if_neg Bool.false_ne_true]
    exact h.withNode hchain

theorem drainInbox : LinearIndex w Q (ZClassic.drainInbox st) := by
  refine h.narrows ⟨rfl, rfl, rfl, ⟨rfl, rfl⟩, ?_⟩
  rintro b (hinbox | hpending | hknown)
  · cases hinbox
  · rcases mem_foldl_pendingHeaderStage hpending with hinbox | hold
    · exact .inl hinbox
    · exact .inr (.inl hold)
  · exact .inr (.inr hknown)

theorem pprev_of_landsAt (habove : w.index.nHeight st.bestHeader < k)
    (hlands : landsAt w st.known k b = true) (hnew : b ∉ st.known) :
    w.index.pprev b = some st.bestHeader ∧ w.index.nHeight b = k := by
  have hland : (w.header b).hashPrevBlock ∈ st.known ∧
      w.index.nHeight (w.header b).hashPrevBlock + 1 = k := by
    unfold landsAt at hlands
    simp only [Bool.or_eq_true, beq_iff_eq, Bool.and_eq_true, decide_eq_true_eq] at hlands
    rcases hlands with hzero | hlands
    · omega
    · exact hlands
  -- no known block is higher than the best header
  have hprev : (w.header b).hashPrevBlock = st.bestHeader := by
    have hle := h.nHeight_le_best hland.1
    exact h.eq_of_nHeight hland.1 h.best_mem (by omega)
  have hpprev := h.pprev_of_mem hnew hland.1
  have hheight := w.index.nHeight_pprev b _ hpprev
  exact ⟨hprev ▸ hpprev, by omega⟩

theorem produce (env : HeaderAdmitEnv) (hk : k < 2 ^ 31)
    (habove : w.index.nHeight st.bestHeader < k) :
    match produceBlockIndex w env st k with
    | (none, st') => LinearIndex w Q st'
    | (some b, st') => LinearIndex w Q (admitBlock w env k b st').2 := by
  unfold produceBlockIndex
  cases htake : takeSlot (landsAt w st.known k) st.pending.slots with
  | none => exact h
  | some taken =>
    obtain ⟨b, slots⟩ := taken
    obtain ⟨hlands, hstaged, hsub⟩ := takeSlot_some htake
    dsimp only
    have htaken : LinearIndex w Q { st with pending := { st.pending with slots } } := by
      refine h.narrows ⟨rfl, rfl, rfl, ⟨rfl, rfl⟩, ?_⟩
      rintro c (hinbox | hpending | hknown)
      · exact .inl hinbox
      · exact .inr (.inl (hsub c hpending))
      · exact .inr (.inr hknown)
    generalize contextualHeaderGate _ _ _ _ _ _ = gate
    cases gate with
    | error reject => exact htaken
    | ok u =>
      by_cases hknown : b ∈ st.known
      · rw [if_pos hknown]
        exact htaken.admitBlock_active env hknown
      · rw [if_neg hknown]
        obtain ⟨hpprev, hheight⟩ := h.pprev_of_landsAt habove hlands hknown
        have hgenesis : b ≠ w.genesis := fun heq => hknown (heq ▸ h.genesis_mem)
        have hgated := h.entered b (.inr (.inl hstaged)) hgenesis
        subst hheight
        exact htaken.admitBlock_grow env hpprev hk hgated _

theorem headerAdmit (env : HeaderAdmitEnv) :
    LinearIndex w Q (headerAdmitStageStepOnce w env st).2 := by
  unfold headerAdmitStageStepOnce
  cases headerAdmitRewind env.rewindCommits st.node with
  | none => exact h
  | some db =>
    have hdrained : LinearIndex w Q (ZClassic.drainInbox (st.setDb db)) :=
      (h.setDb db).drainInbox
    unfold stepAdmit
    dsimp only
    have hext := hdrained.extend
    set ext := reducerExtendWindowToCandidate w (ZClassic.drainInbox (st.setDb db))
    cases hnext : nextHeight (ext.node.db.cursor .headerAdmit) with
    | none => exact hext
    | some k =>
      dsimp only
      unfold activeOrProduced
      cases hactive : activeChainAt ext.node.chain k with
      | some bi => exact hext.admitBlock_active env (hext.active hactive).1
      | none =>
        have hproduce := hext.produce env (nextHeight_lt hnext) (hdrained.nHeight_best_lt hactive)
        cases hres : produceBlockIndex w env ext k with
        | mk found st' =>
          rw [hres] at hproduce
          cases found with
          | none => exact hproduce
          | some b => exact hproduce

theorem tipFinalize (env : TipFinalizeEnv) : LinearIndex w Q (runTipFinalize w env st) := by
  have hext := h.extend
  unfold runTipFinalize
  dsimp only
  set ext := reducerExtendWindowToCandidate w st
  obtain ⟨-, hchain, -⟩ := tipFinalize_cases w.toWorld env ext.node
  have hstep : LinearIndex w Q
      { ext with node := (tipFinalizeStageStepOnce w.toWorld env ext.node).node } := by
    rcases hchain with hsame | ⟨k, newTip, hnew, hmoved⟩
    · exact hext.withNode hsame
    · apply hext.withWindow (hext.active hnew).1
      rw [hmoved]
      exact fillWindow_showsPath w.gapless hext.windowed newTip
  cases hfinal : finalizes w.toWorld env ext.node with
  | none => exact hstep
  | some result =>
    obtain ⟨k, newTip⟩ := result
    unfold publishFinalized
    dsimp only
    split_ifs
    · exact hstep.publish (hext.active (finalizes_some hfinal).1).1 k
    · exact hstep

theorem stage (s : StageStep) : LinearIndex w Q (runStageStep w st s) := by
  cases s with
  | header s =>
    cases s with
    | headerAdmit env => exact h.headerAdmit env
    | validateHeaders env =>
      exact h.extend.narrows (validateHeaders_writes w env st).1.narrows
  | bodyFetch commits =>
    exact h.extend.narrows (bodyFetch_writes w commits st).1.narrows
  | bodyPersist env => exact h.extend.narrows (bodyPersist_writes w env st).1.narrows
  | scriptValidate env =>
    exact h.extend.withNode (scriptValidate_cases w.toWorld env _).1
  | proofValidate env =>
    exact h.extend.withNode (proofValidate_cases w.toWorld env _).1
  | utxoApply env =>
    exact (h.extendForAuthor env.author).withNode (utxoApply_elsewhere w.toWorld env _).2
  | tipFinalize env => exact h.tipFinalize env

theorem seed (completed : ℕ) : LinearIndex w Q (seedActiveTip w completed st) := by
  unfold seedActiveTip
  cases hseeds : seedsAnchor w st with
  | none => exact h
  | some tip =>
    cases h.seedsAnchor_some hseeds
    dsimp only
    split_ifs
    · apply (h.setDb _).publish
      exact h.published.2
    · exact h.setDb _

theorem receive {call : IngestCall} (hcall : Q call.block) :
    LinearIndex w Q (moveStep w st (.receive call)) := by
  unfold moveStep
  dsimp only
  split_ifs with hreceives
  · apply LinearIndex.seed
    obtain ⟨hgate, -⟩ := receives_iff.mp hreceives
    obtain ⟨u, hcheck, -⟩ := bind_eq_ok hgate
    refine { h with entered := ?_ }
    rintro b (hinbox | hrest) hne
    · rcases List.mem_append.mp hinbox with hold | hnew
      · exact h.entered b (.inl hold) hne
      · rw [List.mem_singleton.mp hnew]
        exact ⟨⟨call.adjustedTime, hcheck⟩, hcall⟩
    · exact h.entered b (.inr hrest) hne
  · exact h

theorem storeBody (call : IngestCall) : LinearIndex w Q (persistIngestedBody w call st).2 := by
  unfold persistIngestedBody
  split_ifs
  · exact h
  · split
    · exact h
    · exact h
    · exact h.withNode rfl

theorem publishOnDemand (b : UInt256) : LinearIndex w Q (ZClassic.publishOnDemand w b st) := by
  unfold ZClassic.publishOnDemand
  split_ifs with hready
  · exact (h.publish hready.2.1 _).setDb _
  · exact h

theorem move {ok : Reducer → IngestCall → Prop}
    (hQ : ∀ st call, ok st call → Q call.block) {m : ReducerMove} (hok : OnReceive ok st m) :
    LinearIndex w Q (moveStep w st m) := by
  cases m with
  | receive call => exact h.receive (hQ st call hok)
  | stage s => exact h.stage s
  | storeBody call => exact h.storeBody call
  | publishOnDemand b => exact h.publishOnDemand b

end

end LinearIndex

end ZClassic
