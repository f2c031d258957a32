import Mathlib.Data.Finset.Sort
import ZClassic.Storage.ProgressStore

/-!
# The provable tip

`reducer_frontier_compute_hstar` of `app/jobs/src/reducer_frontier.c`: the greatest height up to
which all logs agree, above an anchor that is trusted without rows.
-/

namespace ZClassic

open List

def int32Max : ℕ := 2 ^ 31 - 1

def reducerFrontierTrustedAnchor : ℕ := 3056758

/-- `k_logs`. -/
def frontierLogs : List StageName :=
  [.validateHeaders, .scriptValidate, .bodyPersist, .proofValidate, .utxoApply, .tipFinalize]

/-- From `h` upwards, at most `fuel` heights, while the next one passes. -/
def climbWhile (p : ℕ → Bool) : ℕ → ℕ → ℕ
  | 0, h => h
  | fuel + 1, h => if p (h + 1) then climbWhile p fuel (h + 1) else h

section Read

variable (db : ProgressStore)

/-- `none` is an absent row. -/
def logOkAt : StageName → ℕ → Option Bool
  | .validateHeaders, h => (db.validateHeadersLog.lookup h).map (·.ok)
  | .scriptValidate, h => (db.scriptValidateLog.lookup h).map (·.ok)
  | .bodyPersist, h => (db.bodyPersistLog.lookup h).map (·.ok)
  | .proofValidate, h => (db.proofValidateLog.lookup h).map (·.ok)
  | .utxoApply, h => (db.utxoApplyLog.lookup h).map (·.ok)
  | .tipFinalize, h => (db.tipFinalizeLog.lookup h).map (·.ok)
  | _, _ => none

/-- A height beyond `INT32_MAX` is cast to a negative one, which has no row. -/
def logContiguousPrefix (name : StageName) (anchor cursor : ℕ) : ℕ :=
  climbWhile (fun h => decide (h ≤ int32Max) && logOkAt db name h == some true)
    (cursor - 1 - anchor) anchor

def reducerAnchorCandidateOk (height : ℕ) : Bool :=
  decide (height + 1 ≤ int32Max) && frontierLogs.all fun name =>
    decide (height + 1 ≤ db.cursor name) &&
      (db.cursor name == height + 1 || logOkAt db name (height + 1) == some true)

def isAnchorRow (h : ℕ) : Bool :=
  (db.tipFinalizeLog.lookup h).any fun row => row.ok && row.status == .anchor

/-- The first candidate in the order of falling heights. -/
def reducerTrustedAnchor (compiledAnchor : ℕ) : ℕ :=
  (((db.tipFinalizeLog.keys.filter fun h => compiledAnchor ≤ h ∧ isAnchorRow db h = true).sort
    (· ≥ ·)).find? (reducerAnchorCandidateOk db)).getD compiledAnchor

def tipFinalizeServedFloor : ℕ :=
  (db.tipFinalizeLog.keys.filter fun h => logOkAt db .tipFinalize h = some true).sup id

/-- Both logs have a hash at the height, and the two differ. -/
def hashSplit (h : ℕ) : Bool :=
  match db.validateHeadersLog.lookup h, (db.scriptValidateLog.lookup h).bind (·.blockHash) with
  | some vh, some sv => vh.hash != sv
  | _, _ => false

def applyHashAgreement (anchor hstar : ℕ) : ℕ :=
  climbWhile (fun h => !hashSplit db h) (hstar - anchor) anchor

/-- H* and the served floor. -/
def reducerFrontierComputeHstar : ℕ × ℕ :=
  let anchor := reducerTrustedAnchor db reducerFrontierTrustedAnchor
  let hs := frontierLogs.foldl (fun hs name =>
    let hContig := logContiguousPrefix db name anchor (db.cursor name)
    if hContig < hs then hContig else hs) int32Max
  let hs := if hs = int32Max then anchor else hs
  let hs := applyHashAgreement db anchor hs
  (if hs < anchor then anchor else hs, tipFinalizeServedFloor db)

/-- All six logs have a successful row below their cursor. -/
def PassedAt (k : ℕ) : Prop :=
  ∀ name ∈ frontierLogs, k < db.cursor name ∧ logOkAt db name k = some true

def AgreedAt (k : ℕ) : Prop := PassedAt db k ∧ hashSplit db k = false

/-- An anchor row that every stage has reached and none has failed right above. -/
def TrustedAnchor (h : ℕ) : Prop :=
  reducerFrontierTrustedAnchor ≤ h ∧ isAnchorRow db h = true ∧ ∀ name ∈ frontierLogs,
    h + 1 ≤ db.cursor name ∧ (h + 1 < db.cursor name → logOkAt db name (h + 1) = some true)

/-- Each height above the anchor, up to the largest `int32_t`, has passed. -/
def ReachesTop (a : ℕ) : Prop := ∀ k, a < k → k ≤ int32Max → PassedAt db k

/-- The logs reach the top, and the first height above the anchor is agreed on. -/
def TopFilled (a : ℕ) : Prop := ReachesTop db a ∧ hashSplit db (a + 1) = false

end Read

/-- The highest trusted anchor, or else the compiled one. -/
def ChosenAnchor (trusted : ℕ → Prop) (a : ℕ) : Prop :=
  IsGreatest {h | trusted h} a ∨ (∀ h, ¬trusted h) ∧ a = reducerFrontierTrustedAnchor

theorem ChosenAnchor.le {trusted trusted' : ℕ → Prop} {a a' : ℕ} (h : ChosenAnchor trusted a)
    (h' : ChosenAnchor trusted' a') (hbound : ∀ h, trusted' h → reducerFrontierTrustedAnchor ≤ h)
    (himp : trusted a → trusted' a) : a ≤ a' := by
  rcases h with ⟨htrusted, -⟩ | ⟨-, rfl⟩
  · rcases h' with ⟨-, hgreatest⟩ | ⟨hnone, -⟩
    · exact hgreatest (himp htrusted)
    · exact absurd (himp htrusted) (hnone a)
  · rcases h' with ⟨htrusted, -⟩ | ⟨-, rfl⟩
    · exact hbound a' htrusted
    · exact le_rfl

theorem le_climbWhile (p : ℕ → Bool) (fuel h k : ℕ) :
    k ≤ climbWhile p fuel h ↔ k ≤ h ∨ k ≤ h + fuel ∧ ∀ i, h < i → i ≤ k → p i = true := by
  induction fuel generalizing h with
  | zero =>
    rw [climbWhile]
    exact ⟨.inl, fun hk => hk.elim id And.left⟩
  | succ fuel ih =>
    rw [climbWhile]
    split_ifs with hp
    · rw [ih]
      constructor
      · rintro (hk | ⟨hk, hall⟩)
        · refine (Nat.lt_or_ge h k).elim (fun hlt => .inr ⟨by omega, fun i hi hik => ?_⟩) .inl
          rwa [show i = h + 1 by omega]
        · refine .inr ⟨by omega, fun i hi hik => ?_⟩
          rcases Nat.eq_or_lt_of_le hi with rfl | hlt
          · exact hp
          · exact hall i hlt hik
      · rintro (hk | ⟨hk, hall⟩)
        · exact .inl (by omega)
        · exact .inr ⟨by omega, fun i hi hik => hall i (by omega) hik⟩
    · refine ⟨.inl, ?_⟩
      rintro (hk | ⟨-, hall⟩)
      · exact hk
      · by_contra hlt
        exact hp (hall (h + 1) (by omega) (by omega))

theorem le_foldl_min (f : StageName → ℕ) (names : List StageName) (init k : ℕ) :
    k ≤ names.foldl (fun hs name => if f name < hs then f name else hs) init ↔
      k ≤ init ∧ ∀ name ∈ names, k ≤ f name := by
  induction names generalizing init with
  | nil => simp
  | cons name names ih =>
    rw [foldl_cons, ih, forall_mem_cons, ← and_assoc]
    refine and_congr_left fun _ => ?_
    split_ifs <;> omega

theorem le_logContiguousPrefix (db : ProgressStore) (name : StageName) (anchor cursor k : ℕ) :
    k ≤ logContiguousPrefix db name anchor cursor ↔
      k ≤ anchor ∨ k < cursor ∧ ∀ i, anchor < i → i ≤ k →
        i ≤ int32Max ∧ logOkAt db name i = some true := by
  rw [logContiguousPrefix, le_climbWhile]
  simp only [Bool.and_eq_true, decide_eq_true_eq, beq_iff_eq]
  refine or_congr_right' fun hk => and_congr_left fun _ => ?_
  omega

section Anchor

variable (db : ProgressStore)

def chosenAnchor : ℕ := reducerTrustedAnchor db reducerFrontierTrustedAnchor

/-- The anchors that can be chosen. -/
def LowAnchor (h : ℕ) : Prop := TrustedAnchor db h ∧ h < int32Max

variable {db}

theorem isAnchorRow_mem {h : ℕ} (hrow : isAnchorRow db h = true) : h ∈ db.tipFinalizeLog := by
  unfold isAnchorRow at hrow
  cases hlookup : db.tipFinalizeLog.lookup h with
  | none =>
    rw [hlookup] at hrow
    cases hrow
  | some row => exact Finmap.mem_of_lookup_eq_some hlookup

theorem candidateOk_iff {h : ℕ} :
    reducerAnchorCandidateOk db h = true ↔ h < int32Max ∧ ∀ name ∈ frontierLogs,
      h + 1 ≤ db.cursor name ∧ (h + 1 < db.cursor name → logOkAt db name (h + 1) = some true) := by
  unfold reducerAnchorCandidateOk
  simp only [Bool.and_eq_true, decide_eq_true_eq, all_eq_true, Bool.or_eq_true, beq_iff_eq]
  refine and_congr_right fun _ => forall₂_congr fun name _ => and_congr_right fun hle => ?_
  constructor
  · rintro (heq | hok) hgt
    · omega
    · exact hok
  · intro himp
    exact (Nat.eq_or_lt_of_le hle).imp Eq.symm himp

theorem chosenAnchor_chosen (db : ProgressStore) :
    ChosenAnchor (LowAnchor db) (chosenAnchor db) := by
  unfold chosenAnchor reducerTrustedAnchor
  have hmem : ∀ h, LowAnchor db h ↔ h ∈ (db.tipFinalizeLog.keys.filter fun h =>
      reducerFrontierTrustedAnchor ≤ h ∧ isAnchorRow db h = true).sort (· ≥ ·) ∧
        reducerAnchorCandidateOk db h = true := by
    intro h
    rw [Finset.mem_sort, Finset.mem_filter, Finmap.mem_keys, LowAnchor, TrustedAnchor,
      candidateOk_iff]
    constructor
    · rintro ⟨⟨hle, hrow, hall⟩, hlt⟩
      exact ⟨⟨isAnchorRow_mem hrow, hle, hrow⟩, hlt, hall⟩
    · rintro ⟨⟨-, hle, hrow⟩, hlt, hall⟩
      exact ⟨⟨hle, hrow, hall⟩, hlt⟩
  have hsorted := (db.tipFinalizeLog.keys.filter fun h =>
    reducerFrontierTrustedAnchor ≤ h ∧ isAnchorRow db h = true).pairwise_sort (· ≥ ·)
  generalize (db.tipFinalizeLog.keys.filter fun h =>
    reducerFrontierTrustedAnchor ≤ h ∧ isAnchorRow db h = true).sort (· ≥ ·) = rows
    at hmem hsorted ⊢
  cases hfind : rows.find? (reducerAnchorCandidateOk db) with
  | none =>
    rw [find?_eq_none] at hfind
    exact .inr ⟨fun h hh => hfind h ((hmem h).mp hh).1 ((hmem h).mp hh).2, rfl⟩
  | some a =>
    obtain ⟨hok, before, after, rfl, hbefore⟩ := find?_eq_some_iff_append.mp hfind
    refine .inl ⟨(hmem a).mpr ⟨by simp, hok⟩, fun h hh => ?_⟩
    obtain ⟨hin, hcand⟩ := (hmem h).mp hh
    rcases mem_append.mp hin with hin | hin
    · have hnot := hbefore h hin
      rw [hcand] at hnot
      cases hnot
    · rcases mem_cons.mp hin with rfl | hin
      · exact le_rfl
      · rw [pairwise_append, pairwise_cons] at hsorted
        exact hsorted.2.1.1 h hin

theorem chosenAnchor_lt (db : ProgressStore) : chosenAnchor db < int32Max := by
  rcases chosenAnchor_chosen db with ⟨htrusted, -⟩ | ⟨-, heq⟩
  · exact htrusted.2
  · rw [heq]
    decide

theorem reachesTop_of_agreed {a k : ℕ} (htop : int32Max ≤ k)
    (hall : ∀ i, a < i → i ≤ k → AgreedAt db i) : ReachesTop db a :=
  fun i hi hik => (hall i hi (hik.trans htop)).1

/-- A minimum that reaches the start value is replaced by the anchor. -/
theorem le_computeHstar_iff (db : ProgressStore) (k : ℕ) :
    let anchor := chosenAnchor db
    k ≤ (reducerFrontierComputeHstar db).1 ↔
      k ≤ anchor ∨ ¬ReachesTop db anchor ∧ ∀ i, anchor < i → i ≤ k → AgreedAt db i := by
  have hanchor := chosenAnchor_lt db
  unfold reducerFrontierComputeHstar
  rw [← chosenAnchor]
  dsimp only
  generalize chosenAnchor db = anchor at hanchor ⊢
  have hfold := le_foldl_min (fun name => logContiguousPrefix db name anchor (db.cursor name))
    frontierLogs int32Max
  generalize frontierLogs.foldl _ int32Max = hs at hfold ⊢
  have hle : anchor ≤ hs :=
    (hfold anchor).mpr ⟨hanchor.le, fun name _ => (le_logContiguousPrefix ..).mpr (.inl le_rfl)⟩
  have htop : hs = int32Max ↔ ReachesTop db anchor := by
    rw [← ((hfold hs).mp le_rfl).1.ge_iff_eq, hfold, and_iff_right le_rfl, ReachesTop]
    simp only [le_logContiguousPrefix, Nat.not_le.mpr hanchor, false_or]
    constructor
    · intro hall k hk hktop name hname
      obtain ⟨hcursor, hrows⟩ := hall name hname
      exact ⟨hktop.trans_lt hcursor, (hrows k hk hktop).2⟩
    · intro hall name hname
      exact ⟨(hall int32Max hanchor le_rfl name hname).1,
        fun i hi hitop => ⟨hitop, (hall i hi hitop name hname).2⟩⟩
  have hguard : ∀ h, ¬applyHashAgreement db anchor h < anchor :=
    fun h => Nat.not_lt.mpr ((le_climbWhile ..).mpr (.inl le_rfl))
  rw [if_neg (hguard _), applyHashAgreement, le_climbWhile]
  refine or_congr_right' fun hk => ?_
  by_cases hreach : hs = int32Max
  · rw [if_pos hreach, ← htop]
    exact iff_of_false (by omega) (by simp [hreach])
  · rw [if_neg hreach, Nat.add_sub_cancel' hle, ← htop, and_iff_right hreach]
    simp only [Bool.not_eq_true']
    constructor
    · rintro ⟨hks, hsplit⟩ i hi hik
      refine ⟨fun name hname => ?_, hsplit i hi hik⟩
      obtain ⟨hlt, hall⟩ :=
        ((le_logContiguousPrefix ..).mp (((hfold k).mp hks).2 name hname)).resolve_left hk
      exact ⟨hik.trans_lt hlt, (hall i hi hik).2⟩
    · intro hall
      have hfit : k ≤ int32Max := by
        by_contra hlt
        exact hreach (htop.mpr (reachesTop_of_agreed (not_le.mp hlt).le hall))
      refine ⟨(hfold k).mpr ⟨hfit, fun name hname => ?_⟩, fun i hi hik => (hall i hi hik).2⟩
      exact (le_logContiguousPrefix ..).mpr (.inr ⟨((hall k (by omega) le_rfl).1 name hname).1,
        fun i hi hik => ⟨hik.trans hfit, ((hall i hi hik).1 name hname).2⟩⟩)

theorem computeHstar_lt (db : ProgressStore) : (reducerFrontierComputeHstar db).1 < int32Max := by
  by_contra hge
  rcases (le_computeHstar_iff db _).mp (not_lt.mp hge) with hle | ⟨hreach, hall⟩
  · exact absurd (chosenAnchor_lt db) (not_lt.mpr hle)
  · exact hreach (reachesTop_of_agreed le_rfl hall)

end Anchor

/-- A row for one of the logs. -/
inductive FrontierRow where
  | validateHeaders (row : ValidateHeadersRow)
  | scriptValidate (row : ScriptValidateRow)
  | bodyPersist (row : BodyPersistRow)
  | proofValidate (row : ProofValidateRow)
  | utxoApply (row : UtxoApplyRow)
  | tipFinalize (row : TipFinalizeRow)

def FrontierRow.name : FrontierRow → StageName
  | .validateHeaders _ => .validateHeaders
  | .scriptValidate _ => .scriptValidate
  | .bodyPersist _ => .bodyPersist
  | .proofValidate _ => .proofValidate
  | .utxoApply _ => .utxoApply
  | .tipFinalize _ => .tipFinalize

def FrontierRow.ok : FrontierRow → Bool
  | .validateHeaders row => row.ok
  | .scriptValidate row => row.ok
  | .bodyPersist row => row.ok
  | .proofValidate row => row.ok
  | .utxoApply row => row.ok
  | .tipFinalize row => row.ok

def FrontierRow.insert (db : ProgressStore) (h : ℕ) : FrontierRow → ProgressStore
  | .validateHeaders row => { db with validateHeadersLog := db.validateHeadersLog.insert h row }
  | .scriptValidate row => { db with scriptValidateLog := db.scriptValidateLog.insert h row }
  | .bodyPersist row => { db with bodyPersistLog := db.bodyPersistLog.insert h row }
  | .proofValidate row => { db with proofValidateLog := db.proofValidateLog.insert h row }
  | .utxoApply row => { db with utxoApplyLog := db.utxoApplyLog.insert h row }
  | .tipFinalize row => { db with tipFinalizeLog := db.tipFinalizeLog.insert h row }

/-- The row is written at its stage's cursor, which goes one further. -/
def appendRow (db : ProgressStore) (row : FrontierRow) : ProgressStore :=
  (row.insert db (db.cursor row.name)).setCursor row.name (db.cursor row.name + 1)

section Append

variable {db : ProgressStore} {row : FrontierRow}

theorem FrontierRow.name_mem (row : FrontierRow) : row.name ∈ frontierLogs := by
  cases row <;> simp [FrontierRow.name, frontierLogs]

theorem cursor_appendRow (db : ProgressStore) (row : FrontierRow) (name : StageName) :
    (appendRow db row).cursor name =
      if name = row.name then db.cursor row.name + 1 else db.cursor name := by
  rw [appendRow, ProgressStore.cursor_setCursor]
  cases row <;> rfl

theorem logOkAt_appendRow (db : ProgressStore) (row : FrontierRow) (name : StageName) (h : ℕ) :
    logOkAt (appendRow db row) name h =
      if name = row.name ∧ h = db.cursor row.name then some row.ok else logOkAt db name h := by
  cases row <;> cases name <;>
    simp [appendRow, FrontierRow.insert, FrontierRow.name, FrontierRow.ok, ProgressStore.setCursor,
      logOkAt, Table.lookup_put] <;>
    split_ifs <;> rfl

variable {h : ℕ}

theorem isAnchorRow_appendRow (hne : h ≠ db.cursor row.name) :
    isAnchorRow (appendRow db row) h = isAnchorRow db h := by
  cases row with
  | tipFinalize row =>
    exact congrArg _ ((Table.lookup_put ..).trans (if_neg hne))
  | _ => rfl

theorem hashSplit_appendRow (hne : h ≠ db.cursor row.name) :
    hashSplit (appendRow db row) h = hashSplit db h := by
  have hheaders :
      (appendRow db row).validateHeadersLog.lookup h = db.validateHeadersLog.lookup h := by
    cases row with
    | validateHeaders row => exact (Table.lookup_put ..).trans (if_neg hne)
    | _ => rfl
  have hscripts :
      (appendRow db row).scriptValidateLog.lookup h = db.scriptValidateLog.lookup h := by
    cases row with
    | scriptValidate row => exact (Table.lookup_put ..).trans (if_neg hne)
    | _ => rfl
  rw [hashSplit, hheaders, hscripts]
  rfl

theorem passedAt_appendRow (hne : h ≠ db.cursor row.name) :
    PassedAt (appendRow db row) h ↔ PassedAt db h := by
  refine forall₂_congr fun name _ => ?_
  rw [logOkAt_appendRow, if_neg fun heq => hne heq.2, cursor_appendRow]
  refine and_congr_left fun _ => ?_
  split_ifs with hname
  · rw [hname]
    omega
  · rfl

theorem agreedAt_appendRow (hne : h ≠ db.cursor row.name) :
    AgreedAt (appendRow db row) h ↔ AgreedAt db h := by
  rw [AgreedAt, passedAt_appendRow hne, hashSplit_appendRow hne]
  rfl

/-- Only the height of the new row can become a trusted anchor. -/
theorem trustedAnchor_appendRow (hok : row.ok = true) (hne : h ≠ db.cursor row.name) :
    TrustedAnchor (appendRow db row) h ↔ TrustedAnchor db h := by
  unfold TrustedAnchor
  rw [isAnchorRow_appendRow hne]
  refine and_congr_right fun _ => and_congr_right fun _ => forall₂_congr fun name _ => ?_
  rw [cursor_appendRow, logOkAt_appendRow, hok]
  by_cases hname : name = row.name
  · rw [if_pos hname, hname]
    by_cases hnext : h + 1 = db.cursor row.name
    · simp [hnext]
    · rw [if_neg fun heq => hnext heq.2]
      exact and_congr (by omega) (imp_congr_left (by omega))
  · rw [if_neg hname, if_neg fun heq => hname heq.1]

theorem not_trustedAnchor_cursor : ¬TrustedAnchor db (db.cursor row.name) :=
  fun h => absurd (h.2.2 row.name row.name_mem).1 (Nat.not_succ_le_self _)

end Append

/-- The result is the greatest height that the logs agree on, and one more successful row does not
lower it. -/
structure ProvableTip (db : ProgressStore) : Prop where
  greatest : ∃ anchor, ChosenAnchor (TrustedAnchor db) anchor ∧
    IsGreatest {h | anchor ≤ h ∧ ∀ k, anchor < k → k ≤ h → AgreedAt db k}
      (reducerFrontierComputeHstar db).1
  append : ∀ row : FrontierRow, row.ok = true →
    (∀ k ≤ (reducerFrontierComputeHstar db).1, hashSplit (appendRow db row) k = true →
      hashSplit db k = true) →
    (reducerFrontierComputeHstar db).1 ≤ (reducerFrontierComputeHstar (appendRow db row)).1

theorem lowAnchor_eq {db : ProgressStore} (hlow : ∀ h, TrustedAnchor db h → h < int32Max) :
    LowAnchor db = TrustedAnchor db :=
  funext fun h => propext (and_iff_left_of_imp (hlow h))

theorem ChosenAnchor.eq {db : ProgressStore} {a a' : ℕ} (h : ChosenAnchor (TrustedAnchor db) a)
    (h' : ChosenAnchor (TrustedAnchor db) a') : a = a' :=
  le_antisymm (h.le h' (fun _ hh => hh.1) id) (h'.le h (fun _ hh => hh.1) id)

theorem computeHstar_isGreatest_iff (db : ProgressStore) :
    (∃ anchor, ChosenAnchor (TrustedAnchor db) anchor ∧
        IsGreatest {h | anchor ≤ h ∧ ∀ k, anchor < k → k ≤ h → AgreedAt db k}
          (reducerFrontierComputeHstar db).1) ↔
      (∀ h, TrustedAnchor db h → h < int32Max) ∧
        ∀ a, ChosenAnchor (TrustedAnchor db) a → ¬TopFilled db a := by
  have hchosen := chosenAnchor_chosen db
  have hlt := chosenAnchor_lt db
  have hiff := le_computeHstar_iff db
  have htop := computeHstar_lt db
  dsimp only at hiff
  generalize chosenAnchor db = anchor at hchosen hlt hiff
  constructor
  · rintro ⟨b, hb, ⟨hble, -⟩, hgreatest⟩
    have hlow : ∀ h, TrustedAnchor db h → h < int32Max := by
      intro h hh
      rcases hb with ⟨-, hmax⟩ | ⟨hnone, -⟩
      · exact (hmax hh).trans_lt (hble.trans_lt htop)
      · exact absurd hh (hnone h)
    refine ⟨hlow, fun a ha hfilled => ?_⟩
    rw [lowAnchor_eq hlow] at hchosen
    rw [hb.eq hchosen] at hgreatest
    rw [ha.eq hchosen] at hfilled
    have hnext : AgreedAt db (anchor + 1) := ⟨hfilled.1 _ (Nat.lt_succ_self _) hlt, hfilled.2⟩
    have hle :=
      hgreatest ⟨Nat.le_succ anchor, fun k hk hkle => by rwa [show k = anchor + 1 by omega]⟩
    rcases (hiff _).mp hle with hle | ⟨hreach, -⟩
    · omega
    · exact hreach hfilled.1
  · rintro ⟨hlow, hfilled⟩
    rw [lowAnchor_eq hlow] at hchosen
    have hle : anchor ≤ (reducerFrontierComputeHstar db).1 := (hiff anchor).mpr (.inl le_rfl)
    refine ⟨anchor, hchosen, ⟨hle, fun k hk hkr => ?_⟩, fun h hh => (hiff h).mpr ?_⟩
    · rcases (hiff _).mp le_rfl with hlow | ⟨-, hall⟩
      · omega
      · exact hall k hk hkr
    · refine (Nat.lt_or_ge anchor h).symm.imp_right fun hgt => ⟨fun hreach => ?_, hh.2⟩
      exact hfilled anchor hchosen ⟨hreach, (hh.2 (anchor + 1) (Nat.lt_succ_self _) hgt).2⟩

section Top

variable {db : ProgressStore} {row : FrontierRow} {a : ℕ}

/-- A row that makes the logs reach the top is written at the top. -/
theorem cursor_of_reachesTop_appendRow (hreach : ReachesTop (appendRow db row) a)
    (hnot : ¬ReachesTop db a) (ha : a < int32Max) : db.cursor row.name = int32Max := by
  have hge := (hreach int32Max ha le_rfl row.name row.name_mem).1
  rw [cursor_appendRow, if_pos rfl] at hge
  by_contra hne
  exact hnot fun k hk hktop => (passedAt_appendRow (by omega)).mp (hreach k hk hktop)

/-- The anchor stays, unless the new row is one. -/
theorem chosenAnchor_appendRow (db : ProgressStore) (hok : row.ok = true) :
    let anchor := chosenAnchor db
    let anchor' := chosenAnchor (appendRow db row)
    anchor ≤ anchor' ∧ (anchor' = anchor ∨ anchor' = db.cursor row.name) := by
  have hchosen := chosenAnchor_chosen db
  have hchosen' := chosenAnchor_chosen (appendRow db row)
  dsimp only
  generalize chosenAnchor db = anchor at hchosen ⊢
  generalize chosenAnchor (appendRow db row) = anchor' at hchosen' ⊢
  have hle : anchor ≤ anchor' := by
    apply hchosen.le hchosen' fun _ hh => hh.1.1
    rintro ⟨htrusted, hlt⟩
    refine ⟨(trustedAnchor_appendRow hok ?_).mpr htrusted, hlt⟩
    rintro rfl
    exact not_trustedAnchor_cursor htrusted
  refine ⟨hle, (eq_or_ne anchor' (db.cursor row.name)).symm.imp_left fun hne => ?_⟩
  refine le_antisymm (hchosen'.le hchosen (fun _ hh => hh.1.1) ?_) hle
  exact And.imp_left (trustedAnchor_appendRow hok hne).mp

theorem computeHstar_append_iff
    (hfilled : ¬TopFilled db (chosenAnchor db)) (hok : row.ok = true) :
    ((∀ k ≤ (reducerFrontierComputeHstar db).1, hashSplit (appendRow db row) k = true →
      hashSplit db k = true) →
        (reducerFrontierComputeHstar db).1 ≤ (reducerFrontierComputeHstar (appendRow db row)).1) ↔
      (chosenAnchor db + 1 < int32Max →
        ¬TopFilled (appendRow db row) (chosenAnchor db)) := by
  obtain ⟨hanchor, hsame⟩ := chosenAnchor_appendRow db hok
  have hlt' := chosenAnchor_lt (appendRow db row)
  have hiff := le_computeHstar_iff db
  have hiff' := le_computeHstar_iff (appendRow db row)
  have hbelow := computeHstar_lt db
  dsimp only at hiff hiff'
  generalize chosenAnchor db = anchor at *
  generalize chosenAnchor (appendRow db row) = anchor' at *
  constructor
  · intro hmono hroom hfilled'
    have hsplit : hashSplit db (anchor + 1) = false := by
      have hge := (hfilled'.1 int32Max (by omega) le_rfl row.name row.name_mem).1
      rw [cursor_appendRow, if_pos rfl] at hge
      exact (hashSplit_appendRow (by omega)).symm.trans hfilled'.2
    have hreach : ¬ReachesTop db anchor := fun h => hfilled ⟨h, hsplit⟩
    have hcursor := cursor_of_reachesTop_appendRow hfilled'.1 hreach (by omega)
    -- the old result is above the anchor, the new one is the anchor
    have hnext : AgreedAt db (anchor + 1) :=
      (agreedAt_appendRow (by omega)).mp ⟨hfilled'.1 _ (Nat.lt_succ_self _) hroom.le, hfilled'.2⟩
    have hgt : anchor + 1 ≤ (reducerFrontierComputeHstar db).1 := by
      refine (hiff _).mpr (.inr ⟨hreach, fun i hi hile => ?_⟩)
      rwa [show i = anchor + 1 by omega]
    have hle := hgt.trans (hmono fun k hk hk' => (hashSplit_appendRow (by omega)).symm.trans hk')
    have heq : anchor' = anchor := hsame.resolve_right (by omega)
    rcases (hiff' _).mp hle with hle | ⟨hnot, -⟩
    · omega
    · rw [heq] at hnot
      exact hnot hfilled'.1
  · intro hroom _
    rw [hiff']
    rcases Nat.lt_or_ge anchor (reducerFrontierComputeHstar db).1 with hgt | hle
    · obtain ⟨-, hall⟩ := ((hiff _).mp le_rfl).resolve_left (Nat.not_le.mpr hgt)
      rcases hsame with heq | heq
      · have hagreed : ∀ i, anchor < i → i ≤ (reducerFrontierComputeHstar db).1 →
            AgreedAt (appendRow db row) i := fun i hi hir =>
          (agreedAt_appendRow ((hall i hi hir).1 row.name row.name_mem).1.ne).mpr (hall i hi hir)
        rw [heq]
        refine .inr ⟨fun hreach => hroom (by omega) ⟨hreach, ?_⟩, hagreed⟩
        exact (hagreed (anchor + 1) (Nat.lt_succ_self _) hgt).2
      · -- the old result is below the cursor of the new row
        rw [heq]
        exact .inl ((hall _ hgt le_rfl).1 row.name row.name_mem).1.le
    · exact .inl (hle.trans hanchor)

end Top

/-- The largest `int32_t` is the start value of the minimum over the logs, so the result is right
exactly for stores that stay clear of it. -/
theorem computeHstar_greatest_iff (db : ProgressStore) :
    ProvableTip db ↔ (∀ h, TrustedAnchor db h → h < int32Max) ∧
      ∀ a, ChosenAnchor (TrustedAnchor db) a → ¬TopFilled db a ∧
        ∀ row : FrontierRow, row.ok = true → a + 1 < int32Max →
          ¬TopFilled (appendRow db row) a := by
  have hchosen := chosenAnchor_chosen db
  constructor
  · rintro ⟨hgreatest, happend⟩
    obtain ⟨hlow, hfilled⟩ := (computeHstar_isGreatest_iff db).mp hgreatest
    rw [lowAnchor_eq hlow] at hchosen
    refine ⟨hlow, fun a ha => ⟨hfilled a ha, fun row hok => ?_⟩⟩
    rw [ha.eq hchosen]
    exact (computeHstar_append_iff (hfilled _ hchosen) hok).mp (happend row hok)
  · rintro ⟨hlow, hfilled⟩
    rw [lowAnchor_eq hlow] at hchosen
    obtain ⟨hnot, hrows⟩ := hfilled _ hchosen
    exact ⟨(computeHstar_isGreatest_iff db).mpr ⟨hlow, fun a ha => (hfilled a ha).1⟩,
      fun row hok => (computeHstar_append_iff hnot hok).mpr (hrows row hok)⟩

def passedAll (h : ℕ) : ProgressStore where
  stageCursor := Table.putAll ∅ (frontierLogs.map fun name => (name, h + 1))
  validateHeadersLog := Finmap.singleton h ⟨7, true, ""⟩
  scriptValidateLog := Finmap.singleton h { status := .verified, ok := true }
  bodyPersistLog := Finmap.singleton h ⟨"", true⟩
  proofValidateLog := Finmap.singleton h { status := .verified, ok := true }
  utxoApplyLog := Finmap.singleton h { status := .verified, ok := true }
  tipFinalizeLog := Finmap.singleton h { status := .finalized, ok := true }

/-- The last height of an `int32_t`, above an anchor row. -/
def lastHeight : ProgressStore :=
  { passedAll int32Max with
    tipFinalizeLog := (passedAll int32Max).tipFinalizeLog.insert (int32Max - 1)
      { status := .anchor, ok := true } }

/-- The result is taken for the start value of the minimum and replaced by the anchor. -/
theorem lastHeight_lost : (reducerFrontierComputeHstar lastHeight).1 = int32Max - 1 ∧
    AgreedAt lastHeight int32Max := by
  unfold AgreedAt PassedAt
  decide +kernel

end ZClassic
