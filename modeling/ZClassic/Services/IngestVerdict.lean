import ZClassic.Services.StoreMoves

/-!
# The verdict of a call

`reducer_ingest_block` answers from the rows of tip_finalize and utxo_apply.
-/

namespace ZClassic

open ProgressStore

/-- Every height below the cursor of utxo_apply has been applied, in a run from genesis. -/
structure AppliedRows (w : ReducerWorld) (st : Reducer) : Prop where
  delta : DeltaRows w st
  log_delta : ∀ h, (st.node.db.utxoApplyLog.lookup h).isSome = true →
    (st.node.db.utxoApplyDelta.lookup h).isSome = true
  logged : ∀ h, 1 ≤ h → h < st.node.db.cursor .utxoApply →
    (st.node.db.utxoApplyLog.lookup h).isSome = true
  frontier : ∀ a, st.node.db.appliedHeight = some a → a.toInt ≤ st.node.db.cursor .utxoApply
  fresh : st.node.db.appliedHeight = none →
    (∀ h, st.node.db.utxoApplyLog.lookup h = none) ∧ st.lastAdvanceHash = w.genesis

variable {st : Reducer} {w : ReducerWorld} {Q : UInt256 → Prop} {h : ℕ} {row : TipFinalizeRow}
  {b : UInt256}

theorem AtGenesis.appliedRows (h : AtGenesis w st) :
    AppliedRows w st where
  delta k row hrow := by
    rw [h.db] at hrow
    cases hrow
  log_delta k hrow := by
    rw [h.db] at hrow
    cases hrow
  logged k hone hlt := by
    rw [h.db] at hlt
    cases hlt
  frontier a ha := by
    rw [h.db] at ha
    cases ha
  fresh _ := ⟨fun k => by rw [h.db]; rfl, h.lastAdvance.2⟩

theorem appliedHeight_congr {db db' : ProgressStore} (h : db'.progressMeta = db.progressMeta) :
    db'.appliedHeight = db.appliedHeight := by
  unfold appliedHeight getAppliedHeight
  rw [h]

namespace AppliedRows

variable {st' : Reducer} {m : ReducerMove}

/-- A move that leaves the tables of utxo_apply keeps the rows; a tip may be published once there
is a row. -/
theorem congr (h : AppliedRows w st) (hknown : st.known ⊆ st'.known)
    (hsame : SameApplied st.node.db st'.node.db)
    (hmeta : st'.node.db.progressMeta = st.node.db.progressMeta)
    (hpublished : st'.lastAdvanceHash = st.lastAdvanceHash ∨
      ∃ h, (st.node.db.utxoApplyLog.lookup h).isSome = true) : AppliedRows w st' where
  delta k row hrow := by
    rw [hsame.utxoApplyDelta] at hrow
    obtain ⟨hmem, hheight⟩ := h.delta k row hrow
    exact ⟨hknown hmem, hheight⟩
  log_delta := by
    rw [hsame.utxoApplyLog, hsame.utxoApplyDelta]
    exact h.log_delta
  logged := by
    rw [hsame.utxoApplyLog, hsame.cursor]
    exact h.logged
  frontier := by
    rw [appliedHeight_congr hmeta, hsame.cursor]
    exact h.frontier
  fresh hnone := by
    rw [appliedHeight_congr hmeta] at hnone
    obtain ⟨hempty, hgenesis⟩ := h.fresh hnone
    rw [hsame.utxoApplyLog]
    refine ⟨hempty, ?_⟩
    rcases hpublished with hsame' | ⟨k, hk⟩
    · rw [hsame', hgenesis]
    · rw [hempty k] at hk
      cases hk

theorem applies (h : AppliedRows w st) (hknown : st.known ⊆ st'.known) {author : UtxoAuthor}
    {bi : UInt256} (hbi : bi ∈ st.known)
    (hheight : w.index.nHeight bi = st.node.db.cursor .utxoApply)
    (hdb : st'.node.db = (applyToStore w.toWorld author (st.node.db.cursor .utxoApply)
      (st.node.db.cursor .utxoApply) bi st.node.db).setCursor .utxoApply
        (st.node.db.cursor .utxoApply + 1)) : AppliedRows w st' := by
  set n := st.node.db.cursor .utxoApply
  have hcursor : st'.node.db.cursor .utxoApply = n + 1 := by
    rw [hdb, cursor_setCursor, if_pos rfl]
  have hdelta := lookup_applyToStore_delta w.toWorld author n n bi st.node.db
  have hlog := lookup_applyToStore_log w.toWorld author n n bi st.node.db
  have happlied : st'.node.db.appliedHeight = some (Int32.ofNat (n + 1)) := by
    rw [hdb, appliedHeight_setCursor]
    exact appliedHeight_setAppliedHeight _ _
  refine ⟨?_, ?_, ?_, ?_, ?_⟩
  · intro k row hrow
    rw [hdb] at hrow
    rw [setCursor, hdelta] at hrow
    split_ifs at hrow with hk
    · cases hrow
      exact ⟨hknown hbi, hheight.trans hk.symm⟩
    · obtain ⟨hmem, hrowheight⟩ := h.delta k row hrow
      exact ⟨hknown hmem, hrowheight⟩
  · intro k hk
    rw [hdb] at hk ⊢
    rw [setCursor, hlog] at hk
    rw [setCursor, hdelta]
    split_ifs at hk ⊢
    · rfl
    · exact h.log_delta k hk
  · intro k hone hlt
    rw [hcursor] at hlt
    rw [hdb, setCursor, hlog]
    split_ifs with hk
    · rfl
    · exact h.logged k hone (by omega)
  · intro a ha
    rw [happlied, Option.some.injEq] at ha
    rw [hcursor, ← ha]
    -- a height that does not fit wraps to a smaller one
    by_cases hfits : n + 1 < 2 ^ 31
    · rw [Int32.toInt_ofNat_of_lt hfits]
    · have := (Int32.ofNat (n + 1)).toInt_lt
      omega
  · intro hnone
    rw [happlied] at hnone
    cases hnone

theorem anchored (h : AppliedRows w st) (hknown : st.known ⊆ st'.known)
    (hdb : Anchored (w.index.nHeight st.lastAdvanceHash) st.lastAdvanceHash st.node.db st'.node.db)
    (hpublished : st'.lastAdvanceHash = st.lastAdvanceHash) : AppliedRows w st' := by
  obtain ⟨cursors, log, heq⟩ := hdb.writes
  have hdelta : st'.node.db.utxoApplyDelta = st.node.db.utxoApplyDelta := by rw [heq]
  have hlog : st'.node.db.utxoApplyLog = st.node.db.utxoApplyLog := by rw [heq]
  have hmeta : st'.node.db.progressMeta = st.node.db.progressMeta := by rw [heq]
  rcases hdb.cursor .utxoApply (by decide) with
    hsame | ⟨target, htarget, hbehind, hmoved⟩
  · exact h.congr hknown ⟨hsame, hlog, hdelta⟩ hmeta (.inl hpublished)
  rw [anchorTargetForStage, if_pos rfl] at htarget
  cases hget : st.node.db.getAppliedHeight with
  | none =>
    rw [hget] at htarget
    cases htarget
  | some applied =>
    rw [hget] at htarget
    cases applied with
    | some a =>
      -- the cursor has already reached the applied coins
      have hle := h.frontier a (by rw [appliedHeight, hget]; rfl)
      dsimp only at htarget
      split_ifs at htarget with hneg
      cases htarget
      omega
    | none =>
      have hnone : st.node.db.appliedHeight = none := by rw [appliedHeight, hget]; rfl
      obtain ⟨hempty, hgenesis⟩ := h.fresh hnone
      cases htarget
      rw [hgenesis, w.nHeight_genesis] at hmoved
      refine ⟨?_, ?_, ?_, ?_, ?_⟩
      · intro k row hrow
        rw [hdelta] at hrow
        obtain ⟨hmem, hheight⟩ := h.delta k row hrow
        exact ⟨hknown hmem, hheight⟩
      · rw [hlog, hdelta]
        exact h.log_delta
      · intro k hone hlt
        omega
      · rw [appliedHeight_congr hmeta, hnone]
        intro a ha
        cases ha
      · intro _
        rw [hlog, hpublished]
        exact ⟨hempty, hgenesis⟩

theorem move (h : AppliedRows w st) (hknown : st.known ⊆ st'.known)
    (hmove : StoreMove w st m st') : AppliedRows w st' := by
  cases hmove with
  | keep same published => exact h.congr hknown same.utxoApply same.progressMeta (.inl published)
  | scripts k row next db published =>
    apply h.congr hknown _ _ (.inl published)
    · rw [db]
      exact ⟨(cursor_scriptLogged _ _ _ _).trans (if_neg nofun), rfl, rfl⟩
    · rw [db]
      rfl
  | proofs k row next db published =>
    apply h.congr hknown _ _ (.inl published)
    · rw [db]
      exact ⟨(cursor_proofLogged _ _ _ _).trans (if_neg nofun), rfl, rfl⟩
    · rw [db]
      rfl
  | applies author bi known height db published => exact h.applies hknown known height db
  | tips same rows published => exact h.congr hknown same.utxoApply same.progressMeta published
  | anchors seeds db published => exact h.anchored hknown db published

end AppliedRows

/-- A linear index, and every height below the cursor of utxo_apply applied. -/
structure AppliedIndex (w : ReducerWorld) (Q : UInt256 → Prop) (st : Reducer) : Prop extends
    LinearIndex w Q st, AppliedRows w st

theorem AtGenesis.appliedIndex (h : AtGenesis w st) (Q : UInt256 → Prop) : AppliedIndex w Q st :=
  ⟨h.linearIndex Q, h.appliedRows⟩

theorem AppliedIndex.move {m : ReducerMove} (h : AppliedIndex w Q st)
    {ok : Reducer → IngestCall → Prop} (hQ : ∀ st call, ok st call → Q call.block)
    (hok : OnReceive ok st m) : AppliedIndex w Q (moveStep w st m) :=
  ⟨h.toLinearIndex.move hQ hok,
    h.toAppliedRows.move (known_moveStep w st m) (storeMove h.toLinearIndex h.delta m)⟩

section TipRows

variable {st' : Reducer} {m : ReducerMove}

theorem StoreMove.log_mono (hmove : StoreMove w st m st')
    (hrow : (st.node.db.utxoApplyLog.lookup h).isSome = true) :
    (st'.node.db.utxoApplyLog.lookup h).isSome = true := by
  cases hmove with
  | keep same published => rwa [same.utxoApply.utxoApplyLog]
  | scripts k row next db published => rwa [db]
  | proofs k row next db published => rwa [db]
  | applies author bi known height db published =>
    rw [db, setCursor, lookup_applyToStore_log]
    split_ifs
    · rfl
    · exact hrow
  | tips same rows published => rwa [same.utxoApply.utxoApplyLog]
  | anchors seeds db published =>
    obtain ⟨cursors, log, heq⟩ := db.writes
    rwa [heq]

theorem TipRow.mono (hrow : TipRow w st h row) (hknown : st.known ⊆ st'.known)
    (hlog : (st.node.db.utxoApplyLog.lookup h).isSome = true →
      (st'.node.db.utxoApplyLog.lookup h).isSome = true) :
    TipRow w st' h row := by
  intro hok
  obtain ⟨b, hb, htip, hheight⟩ := hrow hok
  refine ⟨b, hknown hb, htip, ?_⟩
  rcases hheight with hnext | ⟨hown, hgenesis | hlogged⟩
  · exact .inl hnext
  · exact .inr ⟨hown, .inl hgenesis⟩
  · exact .inr ⟨hown, .inr (hlog hlogged)⟩

/-- A call that seeds an anchor does so at genesis or at a tip that utxo_apply has passed. -/
def SeedsApplied (w : ReducerWorld) (st : Reducer) (_ : IngestCall) : Prop :=
  ∀ tip ∈ seedsAnchor w st, tip = w.genesis ∨ w.index.nHeight tip < st.node.db.cursor .utxoApply

instance (w : ReducerWorld) (st : Reducer) (call : IngestCall) :
    Decidable (SeedsApplied w st call) :=
  Option.decidableForallMem (seedsAnchor w st)

/-- What the verdict rests on. -/
structure TipsApplied (w : ReducerWorld) (st : Reducer) : Prop extends
    AppliedIndex w (fun _ => True) st where
  tips : ∀ h row, st.node.db.tipFinalizeLog.lookup h = some row → TipRow w st h row

theorem AtGenesis.tipsApplied (h : AtGenesis w st) : TipsApplied w st where
  toAppliedIndex := h.appliedIndex _
  tips k row hrow := by
    rw [h.db] at hrow
    cases hrow

theorem TipsApplied.tipRow_of_anchor (h : TipsApplied w st)
    (hok : st.lastAdvanceHash = w.genesis ∨
      w.index.nHeight st.lastAdvanceHash < st.node.db.cursor .utxoApply)
    (htip : row.tipHash = some st.lastAdvanceHash) :
    TipRow w st (w.index.nHeight st.lastAdvanceHash) row := by
  have hknown := h.published.2
  refine fun _ => ⟨_, hknown, htip, .inr ⟨rfl, ?_⟩⟩
  rcases hok with hgenesis | hlt
  · exact .inl hgenesis
  · by_cases hzero : w.index.nHeight st.lastAdvanceHash = 0
    · exact .inl (h.eq_of_nHeight hknown h.genesis_mem (hzero.trans w.nHeight_genesis.symm))
    · exact .inr (h.logged _ (by omega) hlt)

theorem TipsApplied.move (h : TipsApplied w st) (hok : OnReceive (SeedsApplied w) st m) :
    TipsApplied w (moveStep w st m) := by
  have hmove := storeMove h.toLinearIndex h.delta m
  have hknown := known_moveStep w st m
  refine ⟨h.toAppliedIndex.move (fun _ _ _ => trivial) hok, ?_⟩
  -- old rows stay as they were, so it is enough to look at new ones
  suffices hrows : ∀ k row, (moveStep w st m).node.db.tipFinalizeLog.lookup k = some row →
      st.node.db.tipFinalizeLog.lookup k = some row ∨ TipRow w st k row by
    intro k row hrow
    apply TipRow.mono _ hknown hmove.log_mono
    rcases hrows k row hrow with hold | hnew
    · exact h.tips k row hold
    · exact hnew
  intro k row hrow
  generalize moveStep w st m = st' at hmove hrow
  cases hmove with
  | keep same published => exact .inl (same.tipFinalize.2 ▸ hrow)
  | scripts j row' next db published => exact .inl (by rwa [db] at hrow)
  | proofs j row' next db published => exact .inl (by rwa [db] at hrow)
  | applies author bi known height db published =>
    rw [db, (sameElsewhere_applyToStore _ _ _ _ _ _ _).tipFinalizeLog] at hrow
    exact .inl hrow
  | tips same rows published => exact rows k row hrow
  | anchors seeds db published =>
    rcases db.rows k row hrow with hold | ⟨rfl, htip⟩
    · exact .inl hold
    · exact .inr (h.tipRow_of_anchor (hok _ seeds) htip)

end TipRows

theorem AppliedRows.branchHash_eq (h : AppliedRows w st) (hindex : LinearIndex w Q st)
    (hb : b ∈ st.known)
    (hlogged : (st.node.db.utxoApplyLog.lookup (w.index.nHeight b)).isSome = true) :
    ∃ row, st.node.db.utxoApplyDelta.lookup (w.index.nHeight b) = some row ∧
      row.branchHash = b := by
  obtain ⟨row, hrow⟩ := Option.isSome_iff_exists.mp (h.log_delta _ hlogged)
  obtain ⟨hmem, hheight⟩ := h.delta _ row hrow
  exact ⟨row, hrow, hindex.eq_of_nHeight hmem hb hheight⟩

theorem finalizedTipAt_some {db : ProgressStore} (hfinal : finalizedTipAt db h = some b) :
    ∃ row, db.tipFinalizeLog.lookup h = some row ∧ row.ok = true ∧ row.tipHash = some b := by
  obtain ⟨row, hrow, htip⟩ := Option.bind_eq_some_iff.mp hfinal
  obtain ⟨hlookup, hok⟩ := Option.filter_eq_some_iff.mp hrow
  exact ⟨row, hlookup, hok, htip⟩

theorem TipsApplied.of_finalizedTipAt (h : TipsApplied w st) {k : ℕ}
    (hfinal : finalizedTipAt st.node.db k = some b) :
    b ∈ st.known ∧ (w.index.nHeight b = k → b ≠ w.genesis →
      (st.node.db.utxoApplyLog.lookup k).isSome = true) := by
  obtain ⟨row, hrow, hok, htip⟩ := finalizedTipAt_some hfinal
  obtain ⟨b', hknown, htip', hheight⟩ := h.tips k row hrow hok
  rw [htip, Option.some.injEq] at htip'
  subst htip'
  refine ⟨hknown, ?_⟩
  intro hk hne
  rcases hheight with hnext | ⟨-, hgenesis | hlogged⟩
  · omega
  · exact absurd hgenesis hne
  · exact hlogged

theorem TipsApplied.of_verdict (h : TipsApplied w st) (hne : b ≠ w.genesis)
    (hverdict : ingestVerdict w b st = .ok ()) :
    ∃ row, st.node.db.utxoApplyDelta.lookup (w.index.nHeight b) = some row ∧
      row.branchHash = b := by
  suffices hlogged : b ∈ st.known ∧
      (st.node.db.utxoApplyLog.lookup (w.index.nHeight b)).isSome = true from
    h.toAppliedRows.branchHash_eq h.toLinearIndex hlogged.1 hlogged.2
  unfold ingestVerdict at hverdict
  dsimp only at hverdict
  generalize htarget : (if b ∈ st.known then w.index.nHeight b
    else (st.activeChainTip.map w.index.nHeight).getD 0) = target at hverdict
  cases hback : readBackVerdict st.node.db target b with
  | ok u =>
    -- the row of tip_finalize
    have hfinal : finalizedTipAt st.node.db target = some b := by
      unfold readBackVerdict at hback
      split at hback
      · cases hback
      · split_ifs at hback with hfinal
        exact hfinal
    obtain ⟨hknown, hlogged⟩ := h.of_finalizedTipAt hfinal
    rw [if_pos hknown] at htarget
    rw [htarget]
    exact ⟨hknown, hlogged htarget hne⟩
  | error reject =>
    -- the live tip, on the word of utxo_apply
    rw [hback] at hverdict
    split_ifs at hverdict with hlive
    exact ⟨hlive.1, isSome_of_bodyApplied hlive.2.2.2⟩

/-- In every run from genesis in which no call seeds an anchor at a tip that utxo_apply has not
passed, a block that a call accepts is the one applied at its height. -/
theorem reducerIngestBlock_applied (w : ReducerWorld) (st : Reducer) (hinit : AtGenesis w st)
    (acts : List ReducerAction) (call : IngestCall)
    (hok : MeetsAll (reducerStep w) (OnIngest (SeedsApplied w)) st (acts ++ [.ingest call]))
    (hne : call.block ≠ w.genesis)
    (hverdict : (reducerIngestBlock w call (run (reducerStep w) st acts)).1 = .ok ()) :
    ∃ row, (reducerIngestBlock w call (run (reducerStep w) st acts)).2.node.db.utxoApplyDelta.lookup
        (w.index.nHeight call.block) = some row ∧ row.branchHash = call.block := by
  have hrun : TipsApplied w (run (reducerStep w) st (acts ++ [.ingest call])) := by
    rw [← run_runMoves]
    exact moves_invariant (TipsApplied w) (fun _ _ h hm => h.move hm) hinit.tipsApplied hok
      List.prefix_rfl
  rw [run_append] at hrun
  set st₁ := run (reducerStep w) st acts
  change TipsApplied w (reducerIngestBlock w call st₁).2 at hrun
  apply hrun.of_verdict hne
  by_cases hreceives : receives w call st₁ = true
  · rw [ingestBlock_of_receives hreceives] at hverdict ⊢
    cases hstore : persistIngestedBody w call (callState w call st₁) with
    | mk result st₂ =>
      rw [hstore] at hverdict
      cases result with
      | error reject => cases hverdict
      | ok u => exact hverdict
  · rw [Bool.not_eq_true] at hreceives
    have hrefused := (ingestBlock_of_not_receives hreceives).1
    rw [hverdict] at hrefused
    cases hrefused

def twoCalls : List ReducerAction :=
  [.ingest (drainCall acceptingProofs 1), .ingest (drainCall acceptingProofs 2)]

def resendSecond (content : UInt256 → Block) : Except Reject Unit × Reducer :=
  reducerIngestBlock (shortChain content) (drainCall acceptingProofs 2)
    (run (reducerStep (shortChain content)) (bootState (shortChain content)) twoCalls)

/-- The coinbase of block 2 pays far more than the subsidy, so utxo_apply refuses the block. -/
def overpaidSecond (b : UInt256) : Block :=
  if b = 2 then ⟨[{ zeroCoinbase 12 with vout := [{ value := 10000000000000 }] }]⟩
  else ⟨[zeroCoinbase 11]⟩

/-- A block that utxo_apply refuses is accepted when it is sent again: in between it was published
as the successor of block 1. -/
theorem overpaidSecond_accepted :
    AtGenesis (shortChain overpaidSecond) (bootState (shortChain overpaidSecond)) ∧
      (resendSecond overpaidSecond).1 = .ok () ∧
      (resendSecond overpaidSecond).2.node.db.utxoApplyDelta.lookup
        ((shortChain overpaidSecond).index.nHeight 2) = none := by
  have hok : (resendSecond overpaidSecond).1.isOk = true := by decide +kernel
  obtain ⟨u, hu⟩ := exists_eq_ok hok
  exact ⟨bootState_atGenesis _, hu, by decide +kernel⟩

def coinbaseOnly (b : UInt256) : Block := ⟨[zeroCoinbase (b + 10)]⟩

/-- A block 2 that utxo_apply takes is found applied. -/
theorem coinbaseOnly_accepted :
    (resendSecond coinbaseOnly).1 = .ok () ∧
      ∃ row, (resendSecond coinbaseOnly).2.node.db.utxoApplyDelta.lookup
        ((shortChain coinbaseOnly).index.nHeight 2) = some row ∧ row.branchHash = 2 := by
  have hok : (resendSecond coinbaseOnly).1.isOk = true := by decide +kernel
  obtain ⟨u, hu⟩ := exists_eq_ok hok
  have hseeds : MeetsAll (reducerStep (shortChain coinbaseOnly))
      (OnIngest (SeedsApplied (shortChain coinbaseOnly))) (bootState (shortChain coinbaseOnly))
      (twoCalls ++ [.ingest (drainCall acceptingProofs 2)]) := by decide +kernel
  exact ⟨hu, reducerIngestBlock_applied _ _ (bootState_atGenesis _) twoCalls
    (drainCall acceptingProofs 2) hseeds (by decide) hu⟩

end ZClassic
