import ZClassic.Services.ReducerIngest

/-!
# The recheck window of validate_headers

A header that fails for want of a solution may pass later.
-/

namespace ZClassic

open List

/-- The row of the height failed for a reason that may still go away. -/
def repairableRow (db : ProgressStore) (h : ℕ) : Bool :=
  (db.validateHeadersLog.lookup h).any fun row => !row.ok && vhFailureIsRepairable row.failReason

/-- The cursor is not above a repairable row at or above the frontier of the pipeline. -/
def RecheckWindow (st : Reducer) : Prop :=
  ∀ h, recheckFrontier st.node.db ≤ h → repairableRow st.node.db h = true →
    st.failureRecheckCursor ≤ h

def VhJob.repairable (job : VhJob) : Bool := !job.ok && vhFailureIsRepairable job.reason

variable {job : VhJob} {node node' : Node} {h k start : ℕ} {jobs : List VhJob} {l : List ℕ}
  {st : Reducer} {w : ReducerWorld}

theorem vhWriteRow_db (h : vhWriteRow node job = .ok node') :
    node'.db = { node.db with
      validateHeadersLog := node.db.validateHeadersLog.insert job.height
        { hash := job.block, ok := job.ok, failReason := job.reason } } := by
  unfold vhWriteRow at h
  split_ifs at h
  · cases hmark : markValidHeader node.nStatus job.block with
    | none =>
      rw [hmark] at h
      cases h
    | some nStatus =>
      rw [hmark] at h
      cases h
      rfl
  · cases h
    rfl

theorem vhWriteRows_repairable (hrun : jobs.foldlM vhWriteRow node = .ok node')
    (hrow : repairableRow node'.db h = true) :
    (∃ job ∈ jobs, job.height = h ∧ job.repairable = true) ∨
      (repairableRow node.db h = true ∧ ∀ job ∈ jobs, job.height ≠ h) := by
  induction jobs generalizing node with
  | nil =>
    cases hrun
    exact .inr ⟨hrow, nofun⟩
  | cons job jobs ih =>
    obtain ⟨mid, hjob, hrest⟩ := foldlM_ok_cons hrun
    rcases ih hrest with ⟨other, hmem, hother⟩ | ⟨hmid, hnone⟩
    · exact .inl ⟨other, mem_cons_of_mem job hmem, hother⟩
    · rw [repairableRow, vhWriteRow_db hjob, Table.lookup_put] at hmid
      by_cases hh : h = job.height
      · rw [if_pos hh] at hmid
        exact .inl ⟨job, mem_cons_self, hh.symm, hmid⟩
      · rw [if_neg hh] at hmid
        exact .inr ⟨hmid, forall_mem_cons.mpr ⟨Ne.symm hh, hnone⟩⟩

theorem vhWriteRows_cursor (hrun : jobs.foldlM vhWriteRow node = .ok node') (name : StageName) :
    node'.db.cursor name = node.db.cursor name := by
  induction jobs generalizing node with
  | nil =>
    cases hrun
    rfl
  | cons job jobs ih =>
    obtain ⟨mid, hjob, hrest⟩ := foldlM_ok_cons hrun
    rw [ih hrest, vhWriteRow_db hjob]
    rfl

theorem recheckFrontier_congr {db db' : ProgressStore}
    (hfin : db'.cursor .tipFinalize = db.cursor .tipFinalize)
    (hbf : db'.cursor .bodyFetch = db.cursor .bodyFetch) :
    recheckFrontier db' = recheckFrontier db := by
  unfold recheckFrontier
  rw [hfin, hbf]

theorem lowestRepairable_le (hsorted : (jobs.map (·.height)).Pairwise (· < ·)) (hmem : job ∈ jobs)
    (hjob : job.repairable = true) : ∃ lowest ∈ lowestRepairable jobs, lowest ≤ job.height := by
  induction jobs with
  | nil => cases hmem
  | cons first jobs ih =>
    rw [map_cons, pairwise_cons] at hsorted
    change ∃ lowest ∈ ((first :: jobs).find? VhJob.repairable).map (·.height), lowest ≤ job.height
    by_cases hfirst : first.repairable = true
    · rw [find?_cons_of_pos hfirst]
      refine ⟨first.height, rfl, ?_⟩
      rcases mem_cons.mp hmem with rfl | hmem
      · exact le_refl _
      · exact (hsorted.1 _ (mem_map_of_mem hmem)).le
    · rw [find?_cons_of_neg hfirst]
      rcases mem_cons.mp hmem with rfl | hmem
      · exact absurd hjob hfirst
      · exact ih hsorted.2 hmem

theorem lowestRepairable_mem {lowest : ℕ} (h : lowestRepairable jobs = some lowest) :
    lowest ∈ jobs.map (·.height) := by
  obtain ⟨job, hfind, rfl⟩ := Option.map_eq_some_iff.mp h
  exact mem_map_of_mem (mem_of_find?_eq_some hfind)

def validateHeadersForward (w : ReducerWorld) (env : ValidateHeadersEnv) (st : Reducer) :
    JobResult × Reducer :=
  let st := reducerExtendWindowToCandidate w st
  let (step, floor) := stepValidateHeaders w env st
  let out := stageFinish .validateHeaders env.commits st.node step
  (out.result, { st with node := out.node, failureRecheckCursor := floor })

theorem mapM_pair {f : ℕ → Option UInt256} {batch : List (ℕ × UInt256)}
    (h : (l.mapM fun k => (f k).map (k, ·)) = some batch) : batch.map Prod.fst = l := by
  induction l generalizing batch with
  | nil =>
    cases h
    rfl
  | cons k l ih =>
    rw [mapM_cons] at h
    obtain ⟨pair, hpair, h⟩ := Option.bind_eq_some_iff.mp h
    obtain ⟨rest, hrest, h⟩ := Option.bind_eq_some_iff.mp h
    obtain ⟨b, -, rfl⟩ := Option.map_eq_some_iff.mp hpair
    cases h
    rw [map_cons, ih hrest]

theorem stepValidateHeaders_cases (w : ReducerWorld) (env : ValidateHeadersEnv) (st : Reducer) :
    let out := stepValidateHeaders w env st
    (out.2 = st.failureRecheckCursor ∧ out.1.result ≠ .advanced) ∨
    ∃ (next : ℕ) (batch : List (ℕ × UInt256)) (node : Node),
      nextHeight (st.node.db.cursor .validateHeaders) = some next ∧
      next < st.node.db.cursor .headerAdmit ∧ batch.map Prod.fst = vhBatch st.node.db next ∧
      (batch.map (poolRun env st.node.db)).foldlM vhWriteRow st.node = .ok node ∧
      out =
        ({ result := .advanced
           node
           cursorOut := st.node.db.cursor .validateHeaders + batch.length },
          nextRecheckFloor st.failureRecheckCursor
            (st.node.db.cursor .validateHeaders + batch.length)
            (batch.map (poolRun env st.node.db))) := by
  unfold stepValidateHeaders
  dsimp only
  cases hnext : nextHeight (st.node.db.cursor .validateHeaders) with
  | none => exact .inl ⟨rfl, nofun⟩
  | some next =>
    dsimp only
    split_ifs with hadmit
    · exact .inl ⟨rfl, nofun⟩
    · cases hbatch : (vhBatch st.node.db next).mapM fun h => (vhResolveBi w st h).map (h, ·) with
      | none => exact .inl ⟨rfl, nofun⟩
      | some batch =>
        dsimp only
        cases hrun : (batch.map (poolRun env st.node.db)).foldlM vhWriteRow st.node with
        | error node => exact .inl ⟨rfl, nofun⟩
        | ok node =>
          exact .inr ⟨next, batch, node, rfl, not_le.mp hadmit, mapM_pair hbatch, hrun, rfl⟩

theorem poolRun_heights (env : ValidateHeadersEnv) (db : ProgressStore)
    (batch : List (ℕ × UInt256)) :
    (batch.map (poolRun env db)).map (·.height) = batch.map Prod.fst := by
  rw [map_map]
  rfl

/-- What a forward batch must meet: no repairable row at or above the frontier lies below the end
of the batch. -/
def ForwardOk (st : Reducer) : Prop :=
  ∀ next, nextHeight (st.node.db.cursor .validateHeaders) = some next →
    next < st.node.db.cursor .headerAdmit → ∀ h, recheckFrontier st.node.db ≤ h →
      repairableRow st.node.db h = true →
      st.node.db.cursor .validateHeaders + (vhBatch st.node.db next).length ≤ h

/-- A batch that leaves no repairable row moves the cursor to its end, any other keeps it below its
own rows; whatever was there is above both. -/
theorem nextRecheckFloor_le {floor cursorOut h : ℕ}
    (hsorted : (jobs.map (·.height)).Pairwise (· < ·))
    (hrow : (∃ job ∈ jobs, job.height = h ∧ job.repairable = true) ∨ (floor ≤ h ∧ cursorOut ≤ h)) :
    nextRecheckFloor floor cursorOut jobs ≤ h := by
  unfold nextRecheckFloor
  rcases hrow with ⟨job, hmem, rfl, hjob⟩ | ⟨hfloor, hout⟩
  · obtain ⟨lowest, hlowest, hle⟩ := lowestRepairable_le hsorted hmem hjob
    rw [Option.mem_def.mp hlowest]
    exact (min_le_right _ _).trans hle
  · cases lowestRepairable jobs with
    | none => exact max_le hfloor hout
    | some lowest => exact (min_le_left _ _).trans hfloor

theorem RecheckWindow.forward (h : RecheckWindow st) (hok : ForwardOk st) (w : ReducerWorld)
    (env : ValidateHeadersEnv) : RecheckWindow (validateHeadersForward w env st).2 := by
  unfold validateHeadersForward
  dsimp only
  set ext := reducerExtendWindowToCandidate w st
  have hdb : ext.node.db = st.node.db := rfl
  rcases stepValidateHeaders_cases w env ext with ⟨hfloor, hresult⟩ |
      ⟨next, batch, node, hnext, hadmit, hbatch, hrun, hstep⟩
  · rcases stageFinish_cases .validateHeaders env.commits ext.node (stepValidateHeaders w env ext).1
      with ⟨-, hroll⟩ | ⟨hadv, -, -⟩
    · rw [hroll, hfloor]
      exact h
    · exact absurd hadv hresult
  · have hsorted : ((batch.map (poolRun env ext.node.db)).map (·.height)).Pairwise (· < ·) := by
      rw [poolRun_heights, hbatch]
      exact pairwise_lt_range'
    have hlength : batch.length = (vhBatch st.node.db next).length := by
      rw [← hdb, ← hbatch, length_map]
    -- a row that was there stands above the cursor and the end of the batch
    have hold : ∀ k, recheckFrontier st.node.db ≤ k → repairableRow st.node.db k = true →
        st.failureRecheckCursor ≤ k ∧ st.node.db.cursor .validateHeaders + batch.length ≤ k := by
      intro k hk hrow
      rw [hlength]
      exact ⟨h k hk hrow, hok next hnext hadmit k hk hrow⟩
    rw [hstep]
    intro k hk hrow
    apply nextRecheckFloor_le hsorted
    rcases stageFinish_cases .validateHeaders env.commits ext.node
        { result := .advanced, node,
          cursorOut := ext.node.db.cursor .validateHeaders + batch.length } with
      ⟨-, hroll⟩ | ⟨-, -, hcommit⟩
    · dsimp only at hk hrow
      rw [hroll] at hk hrow
      exact .inr (hold k hk hrow)
    · dsimp only at hk hrow
      rw [hcommit] at hk hrow
      have hfrontier : recheckFrontier (node.db.setCursor .validateHeaders
          (ext.node.db.cursor .validateHeaders + batch.length)) = recheckFrontier st.node.db := by
        apply recheckFrontier_congr
        · rw [ProgressStore.cursor_setCursor, if_neg (by decide), vhWriteRows_cursor hrun, hdb]
        · rw [ProgressStore.cursor_setCursor, if_neg (by decide), vhWriteRows_cursor hrun, hdb]
      rw [hfrontier] at hk
      rcases vhWriteRows_repairable hrun hrow with hjob | ⟨hrow, -⟩
      · exact .inl hjob
      · exact .inr (hold k hk hrow)

section Recheck

variable {db : ProgressStore}

theorem failedRows_sorted : (failedRows db start).Pairwise (· < ·) :=
  (Pairwise.filter _ pairwise_lt_range').sublist (take_sublist _ _)

theorem mem_failedRows (hmem : h ∈ failedRows db start) :
    start ≤ h ∧ h < db.cursor .validateHeaders := by
  have hrange := mem_of_mem_filter (mem_of_mem_take hmem)
  rw [mem_range'_1] at hrange
  omega

theorem failed_of_repairableRow (hrow : repairableRow db h = true) :
    (db.validateHeadersLog.lookup h).any (fun row => !row.ok) = true := by
  obtain ⟨row, hlookup, hand⟩ := (Option.any_eq_true _ _).mp hrow
  rw [hlookup, Option.any_some]
  exact (Bool.and_eq_true _ _ ▸ hand).1

theorem lt_of_not_mem_failedRows (hstart : start ≤ h) (hrow : repairableRow db h = true)
    (hnot : h ∉ failedRows db start) : ∀ k ∈ failedRows db start, k < h := by
  intro k hk
  rcases Nat.lt_or_ge h (db.cursor .validateHeaders) with hlt | hge
  · have hall : h ∈ allFailedRows db start := by
      rw [allFailedRows, mem_filter, mem_range'_1]
      exact ⟨by omega, failed_of_repairableRow hrow⟩
    have hsorted : (allFailedRows db start).Pairwise (· < ·) :=
      Pairwise.filter _ pairwise_lt_range'
    rw [← take_append_drop vhBatchSize (allFailedRows db start)] at hall hsorted
    rw [pairwise_append] at hsorted
    exact hsorted.2.2 k hk h ((mem_append.mp hall).resolve_left hnot)
  · exact (mem_failedRows hk).2.trans_le hge

theorem failedRows_ne_nil (hstart : start ≤ h) (hlt : h < db.cursor .validateHeaders)
    (hrow : repairableRow db h = true) : failedRows db start ≠ [] := by
  intro hnil
  unfold failedRows at hnil
  rw [take_eq_nil_iff] at hnil
  have hfilter := hnil.resolve_left (by decide)
  rw [allFailedRows, filter_eq_nil_iff] at hfilter
  exact hfilter h (mem_range'_1.mpr (by omega)) (failed_of_repairableRow hrow)

theorem find?_le {p : ℕ → Bool} (hsorted : l.Pairwise (· < ·)) (hmem : h ∈ l) (hp : p h = true) :
    ∃ k ∈ l.find? p, k ≤ h := by
  induction l with
  | nil => cases hmem
  | cons x l ih =>
    rw [pairwise_cons] at hsorted
    by_cases hx : p x = true
    · rw [find?_cons_of_pos hx]
      refine ⟨x, rfl, ?_⟩
      rcases mem_cons.mp hmem with rfl | hmem
      · exact le_refl _
      · exact (hsorted.1 h hmem).le
    · rw [find?_cons_of_neg hx]
      rcases mem_cons.mp hmem with rfl | hmem
      · exact absurd hp hx
      · exact ih hsorted.2 hmem

end Recheck

theorem recheckBatch_heights (f : ℕ → Option UInt256) (rows : List ℕ) :
    (rows.filterMap fun h => (f h).map (h, ·)).map Prod.fst =
      rows.filter fun h => (f h).isSome := by
  induction rows with
  | nil => rfl
  | cons r rows ih =>
    cases hr : f r with
    | none => simp [hr, ih]
    | some b => simp [hr, ih]

theorem RecheckWindow.recheck_unresolved (h : RecheckWindow st)
    (hstart : start = max st.failureRecheckCursor (recheckFrontier st.node.db))
    (hnone : ∀ r ∈ failedRows st.node.db start, (vhResolveBi w st r).isNone = true)
    (hk : recheckFrontier st.node.db ≤ k) (hrow : repairableRow st.node.db k = true) :
    (((failedRows st.node.db start).find? fun h => (vhResolveBi w st h).isNone).getD
      (st.node.db.cursor .validateHeaders)) ≤ k := by
  have hfrom : start ≤ k := by
    rw [hstart]
    exact max_le (h k hk hrow) hk
  cases hfirst : (failedRows st.node.db start).find? fun h => (vhResolveBi w st h).isNone with
  | some first =>
    rw [Option.getD_some]
    by_cases hmem : k ∈ failedRows st.node.db start
    · obtain ⟨first', hfirst', hle⟩ := find?_le (p := fun h => (vhResolveBi w st h).isNone)
        failedRows_sorted hmem (hnone k hmem)
      rw [Option.mem_def.mp hfirst'] at hfirst
      cases hfirst
      exact hle
    · exact (lt_of_not_mem_failedRows hfrom hrow hmem first (mem_of_find?_eq_some hfirst)).le
  | none =>
    -- then the query returned nothing
    rw [Option.getD_none]
    by_contra hlt
    obtain ⟨r, hr⟩ := exists_mem_of_ne_nil _ (failedRows_ne_nil hfrom (not_le.mp hlt) hrow)
    exact find?_eq_none.mp hfirst r hr (hnone r hr)

theorem RecheckWindow.recheck_batch (h : RecheckWindow st)
    (hstart : start = max st.failureRecheckCursor (recheckFrontier st.node.db))
    (hheights : jobs.map (·.height) =
      (failedRows st.node.db start).filter fun h => (vhResolveBi w st h).isSome)
    (hjobs : jobs ≠ []) {node : Node} (hrun : jobs.foldlM vhWriteRow st.node = .ok node)
    (hk : recheckFrontier st.node.db ≤ k) (hrow : repairableRow node.db k = true) {floor : ℕ}
    (hfloor :
      floor = (lowestRepairable jobs).getD ((failedRows st.node.db start).getLastD start + 1)) :
    min floor (((failedRows st.node.db start).find? fun h => (vhResolveBi w st h).isNone).getD
      floor) ≤ k := by
  have hsorted : (jobs.map (·.height)).Pairwise (· < ·) := by
    rw [hheights]
    exact failedRows_sorted.filter _
  rcases vhWriteRows_repairable hrun hrow with ⟨job, hmem, rfl, hjob⟩ | ⟨hold, hother⟩
  · obtain ⟨lowest, hlowest, hle⟩ := lowestRepairable_le hsorted hmem hjob
    rw [Option.mem_def.mp hlowest, Option.getD_some] at hfloor
    exact (min_le_left _ _).trans (hfloor ▸ hle)
  · have hfrom : start ≤ k := by
      rw [hstart]
      exact max_le (h k hk hold) hk
    by_cases hmem : k ∈ failedRows st.node.db start
    · -- it was returned and no job has it, so it is unresolved
      have hunresolved : (vhResolveBi w st k).isNone = true := by
        by_contra hsome
        have hjob : k ∈ jobs.map (·.height) := by
          rw [hheights, mem_filter]
          exact ⟨hmem, Option.isSome_iff_ne_none.mpr fun hn => hsome (hn ▸ rfl)⟩
        obtain ⟨job, hjmem, hjk⟩ := mem_map.mp hjob
        exact hother job hjmem hjk
      obtain ⟨first, hfirst, hle⟩ := find?_le
        (p := fun h => (vhResolveBi w st h).isNone) failedRows_sorted hmem hunresolved
      rw [Option.mem_def.mp hfirst, Option.getD_some]
      exact (min_le_right _ _).trans hle
    · -- everything returned is below it
      have hbelow := lt_of_not_mem_failedRows hfrom hold hmem
      apply (min_le_left _ _).trans
      cases hlowest : lowestRepairable jobs with
      | some lowest =>
        have hlmem := lowestRepairable_mem hlowest
        rw [hheights] at hlmem
        rw [hfloor, hlowest, Option.getD_some]
        exact (hbelow lowest (mem_of_mem_filter hlmem)).le
      | none =>
        have hne : failedRows st.node.db start ≠ [] := by
          intro hnil
          rw [hnil] at hheights
          exact hjobs (map_eq_nil_iff.mp hheights)
        rw [hfloor, hlowest, Option.getD_none, getLastD_eq_getLast?,
          getLast?_eq_some_getLast hne, Option.getD_some]
        exact hbelow _ (getLast_mem hne)

theorem RecheckWindow.recheck (h : RecheckWindow st) (w : ReducerWorld) (env : ValidateHeadersEnv) :
    RecheckWindow (recheckFailedRows w env st).2 := by
  unfold recheckFailedRows
  dsimp only
  set start := max st.failureRecheckCursor (recheckFrontier st.node.db) with hstart
  by_cases hempty : st.node.db.cursor .validateHeaders = 0 ∨
      st.node.db.cursor .validateHeaders ≤ start
  · rw [if_pos hempty]
    exact h
  rw [if_neg hempty]
  by_cases hbatch : ((failedRows st.node.db start).filterMap fun h =>
      (vhResolveBi w st h).map (h, ·)) = []
  · rw [if_pos hbatch]
    intro k hk hrow
    apply h.recheck_unresolved hstart _ hk hrow
    intro r hr
    rw [filterMap_eq_nil_iff] at hbatch
    rw [Option.isNone_iff_eq_none]
    exact Option.map_eq_none_iff.mp (hbatch r hr)
  · rw [if_neg hbatch]
    set batch := (failedRows st.node.db start).filterMap fun h => (vhResolveBi w st h).map (h, ·)
      with hbatchdef
    have hheights : (batch.map (poolRun env st.node.db)).map (·.height) =
        (failedRows st.node.db start).filter fun h => (vhResolveBi w st h).isSome := by
      rw [poolRun_heights, hbatchdef, recheckBatch_heights]
    cases hrun : (batch.map (poolRun env st.node.db)).foldlM vhWriteRow st.node with
    | error node => exact h
    | ok node =>
      dsimp only
      by_cases hcommit : (!env.recheckCommits) = true
      · rw [if_pos hcommit]
        exact h
      · rw [if_neg hcommit]
        intro k hk hrow
        have hfrontier : recheckFrontier node.db = recheckFrontier st.node.db :=
          recheckFrontier_congr (vhWriteRows_cursor hrun _) (vhWriteRows_cursor hrun _)
        apply h.recheck_batch hstart hheights _ hrun (hfrontier ▸ hk) hrow rfl
        intro hnil
        exact hbatch (map_eq_nil_iff.mp hnil)

inductive RecheckAction where
  | forward (env : ValidateHeadersEnv)
  | recheck (env : ValidateHeadersEnv)
  /-- the other stages, header ingest and the active chain take the state to another one -/
  | elsewhere (st : Reducer)

def recheckStep (w : ReducerWorld) (st : Reducer) : RecheckAction → Reducer
  | .forward env => (validateHeadersForward w env st).2
  | .recheck env => (recheckFailedRows w env st).2
  | .elsewhere st' => st'

/-- The rest of the node leaves the log of the stage and its recheck cursor, and the frontier of the
pipeline does not fall. -/
structure Elsewhere (st st' : Reducer) : Prop where
  log : st'.node.db.validateHeadersLog = st.node.db.validateHeadersLog
  recheckCursor : st'.failureRecheckCursor = st.failureRecheckCursor
  frontier : recheckFrontier st.node.db ≤ recheckFrontier st'.node.db

def OtherStages (st : Reducer) : RecheckAction → Prop
  | .elsewhere st' => Elsewhere st st'
  | _ => True

def RecheckActionOk (st : Reducer) : RecheckAction → Prop
  | .forward _ => ForwardOk st
  | _ => True

theorem RecheckWindow.step {a : RecheckAction} (h : RecheckWindow st) (hother : OtherStages st a)
    (hok : RecheckActionOk st a) : RecheckWindow (recheckStep w st a) := by
  cases a with
  | forward env => exact h.forward hok w env
  | recheck env => exact h.recheck w env
  | elsewhere st' =>
    intro k hk hrow
    change st'.failureRecheckCursor ≤ k
    rw [hother.recheckCursor]
    apply h k (hother.frontier.trans hk)
    change (st'.node.db.validateHeadersLog.lookup k).any _ = true at hrow
    rw [hother.log] at hrow
    exact hrow

/-- In every run from the start of a process whose forward batches meet the condition, the cursor is
not above a repairable row at or above the frontier. -/
theorem recheckCursor_window {w : ReducerWorld} {st : Reducer} {acts : List RecheckAction}
    (hinit : st.failureRecheckCursor = 0) (hother : MeetsAll (recheckStep w) OtherStages st acts)
    (hok : MeetsAll (recheckStep w) RecheckActionOk st acts) :
    ∀ h, recheckFrontier (run (recheckStep w) st acts).node.db ≤ h →
      repairableRow (run (recheckStep w) st acts).node.db h = true →
      (run (recheckStep w) st acts).failureRecheckCursor ≤ h := by
  have hstart : RecheckWindow st := by
    intro h _ _
    rw [hinit]
    exact Nat.zero_le h
  refine run_invariant RecheckWindow ?_ hstart (meetsAll_and.mpr ⟨hother, hok⟩)
  rintro st a h ⟨hother, hok⟩
  exact h.step hother hok

def bareChain : ReducerWorld := shortChain fun _ => ⟨[]⟩

def admittedState (admitted : ℕ) : Reducer where
  node := { db := ({} : ProgressStore).setCursor .headerAdmit admitted }
  known := {0, 1, 2, 3}
  bestHeader := 3
  lastAdvanceHeight := -1
  lastAdvanceHash := 0

def solutionless : ValidateHeadersEnv where
  validator := fun _ h _ => (h != 0, "no-header-solution-backfill-required")

def oneMoreAdmitted : Reducer :=
  let st := recheckStep bareChain (admittedState 1) (.forward solutionless)
  st.setDb (st.node.db.setCursor .headerAdmit 2)

def passedRow : List RecheckAction :=
  [.forward solutionless, .elsewhere oneMoreAdmitted, .forward solutionless]

theorem oneMoreAdmitted_elsewhere :
    Elsewhere (recheckStep bareChain (admittedState 1) (.forward solutionless))
      oneMoreAdmitted where
  log := rfl
  recheckCursor := rfl
  frontier := by decide +kernel

theorem passedRow_below :
    (admittedState 1).failureRecheckCursor = 0 ∧
      MeetsAll (recheckStep bareChain) OtherStages (admittedState 1) passedRow ∧
      recheckFrontier (run (recheckStep bareChain) (admittedState 1) passedRow).node.db = 0 ∧
      repairableRow (run (recheckStep bareChain) (admittedState 1) passedRow).node.db 0 = true ∧
      (run (recheckStep bareChain) (admittedState 1) passedRow).failureRecheckCursor = 2 :=
  ⟨rfl, ⟨trivial, oneMoreAdmitted_elsewhere, trivial, trivial⟩, by decide +kernel⟩

def pinnedRow : List RecheckAction := [.forward solutionless, .recheck solutionless]

theorem pinnedRow_ok :
    MeetsAll (recheckStep bareChain) RecheckActionOk (admittedState 3) pinnedRow := by
  refine ⟨?_, trivial, trivial⟩
  -- nothing is logged before the first batch
  intro next _ _ h _ hlogged
  cases hlogged

theorem pinnedRow_window :
    repairableRow (run (recheckStep bareChain) (admittedState 3) pinnedRow).node.db 0 = true ∧
      (run (recheckStep bareChain) (admittedState 3) pinnedRow).failureRecheckCursor ≤ 0 := by
  have hrow : repairableRow (run (recheckStep bareChain) (admittedState 3) pinnedRow).node.db 0 =
      true := by decide +kernel
  exact ⟨hrow, recheckCursor_window rfl
    (show MeetsAll (recheckStep bareChain) OtherStages (admittedState 3) pinnedRow from
      ⟨trivial, trivial, trivial⟩) pinnedRow_ok 0 (by decide +kernel) hrow⟩

end ZClassic
