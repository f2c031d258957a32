import ZClassic.Services.LinearIndex

/-!
# What the moves write

Every move is put down as one of six changes to the verdicts in the store and to the published tip.
-/

namespace ZClassic

open List

/-- A store between two transactions of an anchor at `height`. -/
structure Anchored (height : ℕ) (hash : UInt256) (db db' : ProgressStore) : Prop where
  writes : ∃ cursors log, db' = { db with stageCursor := cursors, tipFinalizeLog := log }
  cursor : ∀ name, name ≠ .tipFinalize → db'.cursor name = db.cursor name ∨
    ∃ target, anchorTargetForStage db name (height + 1) = some target ∧ db.cursor name < target ∧
      db'.cursor name = target
  rows : ∀ h row, db'.tipFinalizeLog.lookup h = some row →
    db.tipFinalizeLog.lookup h = some row ∨ h = height ∧ row.tipHash = some hash

namespace Anchored

variable {height : ℕ} {hash : UInt256} {db db' : ProgressStore}

theorem refl (height : ℕ) (hash : UInt256) (db : ProgressStore) : Anchored height hash db db where
  writes := ⟨_, _, rfl⟩
  cursor _ _ := .inl rfl
  rows _ _ hrow := .inl hrow

section

variable (h : Anchored height hash db db')

include h

theorem anchorRow :
    Anchored height hash db (final (ZClassic.anchorRow height hash db')) where
  writes := by
    obtain ⟨cursors, log, rfl⟩ := h.writes
    exact ⟨_, _, rfl⟩
  cursor := h.cursor
  rows k row hrow := by
    change (db'.tipFinalizeLog.insert height _).lookup k = some row at hrow
    rw [Table.lookup_put] at hrow
    split_ifs at hrow with hk
    · cases hrow
      exact .inr ⟨hk, rfl⟩
    · exact h.rows k row hrow

theorem anchorTargetForStage_eq (name : StageName)
    (requested : ℕ) :
    anchorTargetForStage db' name requested = anchorTargetForStage db name requested := by
  obtain ⟨cursors, log, rfl⟩ := h.writes
  rfl

theorem anchorStage (name : StageName) :
    Anchored height hash db (final (ZClassic.anchorStage (height + 1) name db')) := by
  unfold ZClassic.anchorStage
  rw [h.anchorTargetForStage_eq]
  cases htarget : anchorTargetForStage db name (height + 1) with
  | none => exact h
  | some target =>
    dsimp only [final]
    unfold ProgressStore.setCursorIfBehind
    split_ifs with hbehind
    · refine ⟨?_, ?_, h.rows⟩
      · obtain ⟨cursors, log, rfl⟩ := h.writes
        exact ⟨_, _, rfl⟩
      · intro name' hname'
        rw [ProgressStore.cursor_setCursor]
        split_ifs with heq
        · subst heq
          rcases h.cursor name' hname' with hsame | ⟨target', htarget', -, hmoved⟩
          · exact .inr ⟨target, htarget, hsame ▸ hbehind, rfl⟩
          · rw [htarget, Option.some.injEq] at htarget'
            omega
        · exact h.cursor name' hname'
    · exact h

end

end Anchored

theorem seedAnchor_anchored {n : ℕ} (hn : n < 2 ^ 31) (hash : UInt256)
    (completed : ℕ) (db : ProgressStore) :
    Anchored n hash db (tipFinalizeStageSeedAnchor (Int32.ofNat n) hash completed db) := by
  have htoInt : (Int32.ofNat n).toInt = n := Int32.toInt_ofNat_of_lt hn
  unfold tipFinalizeStageSeedAnchor
  split_ifs
  · exact .refl n hash db
  rw [htoInt, Int.toNat_natCast]
  apply final_foldlM_invariant (Anchored n hash db) _ (.refl n hash db)
  intro tx htx t ht
  have htx := mem_of_mem_take htx
  simp only [seedAnchorTxs, cons_append, mem_cons, mem_append, mem_map,
    not_mem_nil, or_false] at htx
  rcases htx with rfl | ⟨name, -, rfl⟩ | rfl
  · exact ht.anchorRow
  · exact ht.anchorStage name
  · refine ⟨?_, ?_, ht.rows⟩
    · obtain ⟨cursors, log, rfl⟩ := ht.writes
      exact ⟨_, _, rfl⟩
    · intro name hname
      have hcursor : (t.setCursor .tipFinalize (n + 1)).cursor name = t.cursor name := by
        rw [ProgressStore.cursor_setCursor, if_neg hname]
      dsimp only [final]
      rw [hcursor]
      exact ht.cursor name hname

/-- A tip_finalize row names the successor of its height, or the block of its height if that is
genesis or utxo_apply has logged it. -/
def TipRow (w : ReducerWorld) (st : Reducer) (h : ℕ) (row : TipFinalizeRow) : Prop :=
  row.ok = true → ∃ b ∈ st.known, row.tipHash = some b ∧
    (w.index.nHeight b = h + 1 ∨ w.index.nHeight b = h ∧
      (b = w.genesis ∨ (st.node.db.utxoApplyLog.lookup h).isSome = true))

/-- How a move can change the store and the published tip. -/
inductive StoreMove (w : ReducerWorld) (st : Reducer) : ReducerMove → Reducer → Prop where
  /-- nothing from script_validate on -/
  | keep {m : ReducerMove} {st' : Reducer} (same : SameDownstream st.node.db st'.node.db)
      (published : st'.lastAdvanceHash = st.lastAdvanceHash) : StoreMove w st m st'
  | scripts {m : ReducerMove} {st' : Reducer} (h : ℕ) (row : ScriptValidateRow)
      (next : nextHeight (st.node.db.cursor .scriptValidate) = some h)
      (db : st'.node.db = scriptLogged st.node.db h row)
      (published : st'.lastAdvanceHash = st.lastAdvanceHash) : StoreMove w st m st'
  | proofs {m : ReducerMove} {st' : Reducer} (h : ℕ) (row : ProofValidateRow)
      (next : nextHeight (st.node.db.cursor .proofValidate) = some h)
      (db : st'.node.db = proofLogged st.node.db h row)
      (published : st'.lastAdvanceHash = st.lastAdvanceHash) : StoreMove w st m st'
  | applies {m : ReducerMove} {st' : Reducer} (author : UtxoAuthor) (bi : UInt256)
      (known : bi ∈ st.known) (height : w.index.nHeight bi = st.node.db.cursor .utxoApply)
      (db : st'.node.db = (applyToStore w.toWorld author (st.node.db.cursor .utxoApply)
        (st.node.db.cursor .utxoApply) bi st.node.db).setCursor .utxoApply
          (st.node.db.cursor .utxoApply + 1))
      (published : st'.lastAdvanceHash = st.lastAdvanceHash) : StoreMove w st m st'
  /-- rows of tip_finalize, and maybe a new tip, which needs an applied block -/
  | tips {m : ReducerMove} {st' : Reducer} (same : SameValidation st.node.db st'.node.db)
      (rows : ∀ h row, st'.node.db.tipFinalizeLog.lookup h = some row →
        st.node.db.tipFinalizeLog.lookup h = some row ∨ TipRow w st h row)
      (published : st'.lastAdvanceHash = st.lastAdvanceHash ∨
        ∃ h, (st.node.db.utxoApplyLog.lookup h).isSome = true) : StoreMove w st m st'
  | anchors {call : IngestCall} {st' : Reducer} (seeds : seedsAnchor w st = some st.lastAdvanceHash)
      (db : Anchored (w.index.nHeight st.lastAdvanceHash) st.lastAdvanceHash st.node.db st'.node.db)
      (published : st'.lastAdvanceHash = st.lastAdvanceHash) :
      StoreMove w st (.receive call) st'

def DeltaRows (w : ReducerWorld) (st : Reducer) : Prop :=
  ∀ h row, st.node.db.utxoApplyDelta.lookup h = some row →
    row.branchHash ∈ st.known ∧ w.index.nHeight row.branchHash = h

section Moves

variable {w : ReducerWorld} {Q : UInt256 → Prop} {st : Reducer}

theorem unwind_eq (hindex : LinearIndex w Q st) (hdelta : DeltaRows w st) {author : UtxoAuthor}
    {commits : Bool} {db : ProgressStore}
    (hdb : utxoApplyReorgUnwindIfNeeded author commits st.node = some db) : db = st.node.db := by
  unfold utxoApplyReorgUnwindIfNeeded at hdb
  by_cases hzero : st.node.db.cursor .utxoApply = 0
  · rw [if_pos hzero] at hdb
    exact (Option.some.inj hdb).symm
  rw [if_neg hzero] at hdb
  by_cases hlarge : 2 ^ 31 ≤ st.node.db.cursor .utxoApply
  · rw [if_pos hlarge] at hdb
    cases hdb
  rw [if_neg hlarge] at hdb
  split at hdb
  · next row bi hrow hbi =>
    obtain ⟨hknown, hheight⟩ := hdelta _ row hrow
    obtain ⟨hbi, hbiheight⟩ := hindex.active hbi
    rw [if_pos (hindex.eq_of_nHeight hknown hbi (hheight.trans hbiheight.symm))] at hdb
    exact (Option.some.inj hdb).symm
  · exact (Option.some.inj hdb).symm

theorem extendForAuthor_eq (w : ReducerWorld) (author : UtxoAuthor) (st : Reducer) :
    ∃ chain, extendForAuthor w author st = { st with node := { st.node with chain } } := by
  cases author with
  | stage => exact ⟨_, rfl⟩
  | legacy => exact ⟨_, rfl⟩

/-- One step of utxo_apply on a linear index: the store stays, or the active block at the cursor is
applied. -/
theorem utxoApply_linear (hindex : LinearIndex w Q st) (hdelta : DeltaRows w st)
    (env : UtxoApplyEnv) :
    let out := utxoApplyStageStepOnce w.toWorld env st.node
    let h := st.node.db.cursor .utxoApply
    out.result ≠ .advanced ∧ out.node.db = st.node.db ∨
      ∃ bi, out.result = .advanced ∧ out.block = some bi ∧ Accepts w.toWorld env st.node h bi ∧
        out.node = appliedNode w.toWorld env h bi st.node := by
  rcases utxoApply_cases w.toWorld env st.node with ⟨hne, hnode⟩ | ⟨db, hunwind, hcases⟩
  · exact .inl ⟨hne, by rw [hnode]⟩
  have hlt := unwind_cursor_lt hunwind
  cases unwind_eq hindex hdelta hunwind
  rcases hcases with ⟨hne, hnode⟩ | ⟨h, bi, haccepts, ⟨hne, -, hnode⟩ | ⟨hadv, -, hblock, hnode⟩⟩
  · exact .inl ⟨hne, by rw [hnode]⟩
  · exact .inl ⟨hne, by rw [hnode]⟩
  · cases haccepts.eq_cursor hlt
    exact .inr ⟨bi, hadv, hblock, haccepts, hnode⟩

structure Applies (w : ReducerWorld) (st : Reducer) (env : UtxoApplyEnv) (b : UInt256) : Prop where
  advanced : (utxoApplyStageStepOnce w.toWorld env
    (extendForAuthor w env.author st).node).result = .advanced
  block : (utxoApplyStageStepOnce w.toWorld env (extendForAuthor w env.author st).node).block =
    some b

variable {b : UInt256}

theorem Applies.entered {env : UtxoApplyEnv} (h : Applies w st env b)
    (hindex : LinearIndex w Q st) (hdelta : DeltaRows w st) :
    w.index.nHeight b = st.node.db.cursor .utxoApply ∧ b ∈ st.known ∧
      (b ≠ w.genesis → Gated w b ∧ Q b) := by
  obtain ⟨hadv, hblock⟩ := h
  have hext := hindex.extendForAuthor env.author
  obtain ⟨chain, heq⟩ := extendForAuthor_eq w env.author st
  rw [heq] at hadv hblock hext
  rcases utxoApply_linear hext hdelta env with
    ⟨hne, -⟩ | ⟨bi, -, hbi, haccepts, -⟩
  · exact absurd hadv hne
  · rw [hbi, Option.some.injEq] at hblock
    subst hblock
    obtain ⟨hknown, hheight⟩ := hext.active (readActiveBlock_some haccepts.active)
    exact ⟨hheight, hknown, hindex.entered _ (.inr (.inr hknown))⟩

theorem storeMove_utxoApply (hindex : LinearIndex w Q st) (hdelta : DeltaRows w st)
    (env : UtxoApplyEnv) (m : ReducerMove) :
    StoreMove w st m (runStageStep w st (.utxoApply env)) := by
  have hext := hindex.extendForAuthor env.author
  unfold runStageStep
  dsimp only
  obtain ⟨chain, heq⟩ := extendForAuthor_eq w env.author st
  rw [heq] at hext ⊢
  rcases utxoApply_linear hext hdelta env with
    ⟨-, hdb⟩ | ⟨bi, -, -, haccepts, hnode⟩
  · exact .keep (hdb ▸ .refl st.node.db) rfl
  · obtain ⟨hknown, hheight⟩ := hext.active (readActiveBlock_some haccepts.active)
    rw [hnode]
    exact .applies env.author bi hknown hheight rfl rfl

theorem sameValidation_tip (db : ProgressStore) (log : Table ℕ TipFinalizeRow) (value : ℕ) :
    SameValidation db ({ db with tipFinalizeLog := log }.setCursor .tipFinalize value) := by
  have hcursor : ∀ name, name ≠ StageName.tipFinalize →
      ({ db with tipFinalizeLog := log }.setCursor .tipFinalize value).cursor name =
        db.cursor name := by
    intro name hname
    rw [ProgressStore.cursor_setCursor, if_neg hname]
    rfl
  exact ⟨⟨hcursor _ nofun, rfl⟩, ⟨hcursor _ nofun, rfl⟩, ⟨hcursor _ nofun, rfl, rfl⟩, rfl⟩

section

variable (hindex : LinearIndex w Q st)

include hindex

theorem storeMove_tipFinalize (env : TipFinalizeEnv)
    (m : ReducerMove) : StoreMove w st m (runTipFinalize w env st) := by
  have hext := hindex.extend
  set ext := reducerExtendWindowToCandidate w st
  set out := (tipFinalizeStageStepOnce w.toWorld env ext.node).node with hout
  have hdb : (runTipFinalize w env st).node.db = out.db := by
    unfold runTipFinalize publishFinalized
    dsimp only
    split
    · rfl
    · split_ifs <;> rfl
  have hpublished : (runTipFinalize w env st).lastAdvanceHash = st.lastAdvanceHash ∨
      ∃ h, (st.node.db.utxoApplyLog.lookup h).isSome = true := by
    unfold runTipFinalize publishFinalized
    dsimp only
    split
    · exact .inl rfl
    · next h newTip hfinal => exact .inr ⟨h, (finalizes_some hfinal).2⟩
  rcases (tipFinalize_cases w.toWorld env ext.node).1 with hsame | ⟨log, value, heq, hrows⟩
  · refine .tips ?_ ?_ hpublished
    · rw [hdb, hout, hsame]
      exact .refl _
    · intro h row hrow
      rw [hdb, hout, hsame] at hrow
      exact .inl hrow
  · refine .tips ?_ ?_ hpublished
    · rw [hdb, hout, heq]
      exact sameValidation_tip _ _ _
    · intro h row hrow
      rw [hdb, hout, heq] at hrow
      rcases hrows h row hrow with hold | hnew
      · exact .inl hold
      · refine .inr fun hok => ?_
        obtain ⟨htip, hsome⟩ := hnew hok
        obtain ⟨newTip, hactive⟩ := Option.isSome_iff_exists.mp hsome
        obtain ⟨hknown, hheight⟩ := hext.active hactive
        exact ⟨newTip, hknown, htip.trans hactive, .inl hheight⟩

theorem storeMove_stage (hdelta : DeltaRows w st) (s : StageStep)
    (m : ReducerMove) : StoreMove w st m (runStageStep w st s) := by
  cases s with
  | header s =>
    cases s with
    | headerAdmit env =>
      have hwrites := headerAdmit_writes w env st
      exact .keep hwrites.same hwrites.lastAdvanceHash
    | validateHeaders env =>
      obtain ⟨hindex', hsame⟩ := validateHeaders_writes w env st
      exact .keep hsame hindex'.lastAdvance.2
  | bodyFetch commits =>
    obtain ⟨hindex', hsame⟩ := bodyFetch_writes w commits st
    exact .keep hsame hindex'.lastAdvance.2
  | bodyPersist env =>
    obtain ⟨hindex', hsame⟩ := bodyPersist_writes w env st
    exact .keep hsame hindex'.lastAdvance.2
  | scriptValidate env =>
    rcases (scriptValidate_cases w.toWorld env
      (reducerExtendWindowToCandidate w st).node).2 with ⟨-, hdb⟩ | ⟨-, h, row, hnext, hdb, -⟩
    · exact .keep (hdb ▸ .refl st.node.db) rfl
    · exact .scripts h row hnext hdb rfl
  | proofValidate env =>
    rcases (proofValidate_cases w.toWorld env
      (reducerExtendWindowToCandidate w st).node).2 with ⟨-, hdb⟩ | ⟨-, h, row, hnext, -, hdb, -⟩
    · exact .keep (hdb ▸ .refl st.node.db) rfl
    · exact .proofs h row hnext hdb rfl
  | utxoApply env => exact storeMove_utxoApply hindex hdelta env m
  | tipFinalize env => exact storeMove_tipFinalize hindex env m

theorem receive_writes (call : IngestCall) :
    let out := moveStep w st (.receive call)
    out.lastAdvanceHash = st.lastAdvanceHash ∧ (out.node.db = st.node.db ∨
      seedsAnchor w st = some st.lastAdvanceHash ∧ Anchored (w.index.nHeight st.lastAdvanceHash)
        st.lastAdvanceHash st.node.db out.node.db) := by
  unfold moveStep
  dsimp only
  split_ifs
  swap
  · exact ⟨rfl, .inl rfl⟩
  -- the inbox plays no part in what is seeded
  have hinbox : seedsAnchor w { st with inbox := st.inbox ++ [call.block] } =
      seedsAnchor w st := rfl
  unfold seedActiveTip
  rw [hinbox]
  cases hseeds : seedsAnchor w st with
  | none => exact ⟨rfl, .inl rfl⟩
  | some tip =>
    cases hindex.seedsAnchor_some hseeds
    have hanchored := seedAnchor_anchored
      (hindex.fits _ hindex.published.2) st.lastAdvanceHash call.anchorTxs st.node.db
    dsimp only
    split_ifs
    · exact ⟨rfl, .inr ⟨rfl, hanchored⟩⟩
    · exact ⟨rfl, .inr ⟨rfl, hanchored⟩⟩

theorem storeMove_receive (call : IngestCall) :
    StoreMove w st (.receive call) (moveStep w st (.receive call)) := by
  obtain ⟨hpublished, hsame | ⟨hseeds, hanchored⟩⟩ := receive_writes hindex call
  · exact .keep (hsame ▸ .refl st.node.db) hpublished
  · exact .anchors hseeds hanchored hpublished

end

theorem storeMove_storeBody (call : IngestCall) (m : ReducerMove) :
    StoreMove w st m (persistIngestedBody w call st).2 := by
  unfold persistIngestedBody
  split_ifs
  · exact .keep (.refl _) rfl
  · split
    · exact .keep (.refl _) rfl
    · exact .keep (.refl _) rfl
    · exact .keep (.refl _) rfl

theorem setCursorIfBehind_tipFinalize (db : ProgressStore) (value : ℕ) :
    SameValidation db (db.setCursorIfBehind .tipFinalize value) ∧
      (db.setCursorIfBehind .tipFinalize value).tipFinalizeLog = db.tipFinalizeLog := by
  unfold ProgressStore.setCursorIfBehind
  split_ifs
  · exact ⟨sameValidation_tip db db.tipFinalizeLog value, rfl⟩
  · exact ⟨.refl db, rfl⟩

theorem anchorCursor_writes (h : ℕ) (hash : UInt256) (db : ProgressStore) :
    SameValidation db (anchorCursorToAuthority h hash db) ∧
      ∀ k row, (anchorCursorToAuthority h hash db).tipFinalizeLog.lookup k = some row →
        db.tipFinalizeLog.lookup k = some row ∨ k = h ∧ row.tipHash = some hash := by
  unfold anchorCursorToAuthority
  split_ifs
  · obtain ⟨hsame, hlog⟩ := setCursorIfBehind_tipFinalize db (h + 1)
    refine ⟨hsame, ?_⟩
    intro k row hrow
    rw [hlog] at hrow
    exact .inl hrow
  · obtain ⟨hsame, hlog⟩ := setCursorIfBehind_tipFinalize (final (anchorRow h hash db)) (h + 1)
    have hrow : SameValidation db (final (anchorRow h hash db)) :=
      ⟨⟨rfl, rfl⟩, ⟨rfl, rfl⟩, ⟨rfl, rfl, rfl⟩, rfl⟩
    refine ⟨hrow.trans hsame, ?_⟩
    intro k row hrow
    rw [hlog] at hrow
    exact (Anchored.refl h hash db).anchorRow.rows k row hrow

theorem isSome_of_bodyApplied (h : bodyApplied w st b = true) :
    (st.node.db.utxoApplyLog.lookup (w.index.nHeight b)).isSome = true := by
  simp only [bodyApplied, utxoApplyStageSucceededAt, Bool.and_eq_true] at h
  cases hrow : st.node.db.utxoApplyLog.lookup (w.index.nHeight b) with
  | none =>
    rw [hrow] at h
    exact absurd h.2 Bool.false_ne_true
  | some row => rfl

theorem storeMove_publishOnDemand (b : UInt256) (m : ReducerMove) :
    StoreMove w st m (publishOnDemand w b st) := by
  unfold publishOnDemand
  split_ifs with hready
  swap
  · exact .keep (.refl _) rfl
  obtain ⟨-, hknown, happlied⟩ := hready
  have hlogged := isSome_of_bodyApplied happlied
  obtain ⟨hsame, hrows⟩ := anchorCursor_writes (w.index.nHeight b) b st.node.db
  refine .tips hsame ?_ (.inr ⟨_, hlogged⟩)
  intro h row hrow
  rcases hrows h row hrow with hold | ⟨rfl, htip⟩
  · exact .inl hold
  · exact .inr fun _ => ⟨b, hknown, htip, .inr ⟨rfl, .inr hlogged⟩⟩

theorem storeMove (hindex : LinearIndex w Q st) (hdelta : DeltaRows w st) (m : ReducerMove) :
    StoreMove w st m (moveStep w st m) := by
  cases m with
  | receive call => exact storeMove_receive hindex call
  | stage s => exact storeMove_stage hindex hdelta s _
  | storeBody call => exact storeMove_storeBody call _
  | publishOnDemand b => exact storeMove_publishOnDemand b _

variable (w st)

theorem known_seedActiveTip (completed : ℕ) (st : Reducer) :
    (seedActiveTip w completed st).known = st.known := by
  unfold seedActiveTip
  split
  · rfl
  · dsimp only
    split_ifs <;> rfl

theorem known_publishFinalized (result : Option (ℕ × UInt256)) :
    (publishFinalized w st result).known = st.known := by
  cases result with
  | none => rfl
  | some result =>
    unfold publishFinalized
    dsimp only
    split_ifs <;> rfl

theorem known_persistIngestedBody (call : IngestCall) (st : Reducer) :
    (persistIngestedBody w call st).2.known = st.known := by
  unfold persistIngestedBody
  split_ifs
  · rfl
  · split <;> rfl

theorem known_publishOnDemand (b : UInt256) (st : Reducer) :
    (publishOnDemand w b st).known = st.known := by
  unfold publishOnDemand
  split_ifs <;> rfl

theorem known_runStageStep (s : StageStep) : st.known ⊆ (runStageStep w st s).known := by
  cases s with
  | header s =>
    cases s with
    | headerAdmit env => exact (headerAdmit_writes w env st).known
    | validateHeaders env =>
      exact (validateHeaders_writes w env st).1.known.symm.subset
  | bodyFetch commits => exact (bodyFetch_writes w commits st).1.known.symm.subset
  | bodyPersist env => exact (bodyPersist_writes w env st).1.known.symm.subset
  | scriptValidate env => exact Finset.Subset.refl _
  | proofValidate env => exact Finset.Subset.refl _
  | utxoApply env =>
    obtain ⟨chain, heq⟩ := extendForAuthor_eq w env.author st
    change st.known ⊆ (extendForAuthor w env.author st).known
    rw [heq]
  | tipFinalize env =>
    change st.known ⊆ (publishFinalized w _ _).known
    rw [known_publishFinalized]
    exact Finset.Subset.refl _

theorem known_moveStep (m : ReducerMove) : st.known ⊆ (moveStep w st m).known := by
  cases m with
  | receive call =>
    unfold moveStep
    dsimp only
    split_ifs
    · rw [known_seedActiveTip]
    · exact Finset.Subset.refl _
  | stage s => exact known_runStageStep w st s
  | storeBody call => exact (known_persistIngestedBody w call st).symm.subset
  | publishOnDemand b => exact (known_publishOnDemand w b st).symm.subset

end Moves

end ZClassic
