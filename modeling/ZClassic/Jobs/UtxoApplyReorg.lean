import ZClassic.Chain.ChainParams
import ZClassic.Jobs.Stage
import ZClassic.Jobs.UtxoApplyDeltaStore

/-!
# Unwinding applied blocks

`utxo_apply_reorg_unwind_if_needed` of `app/jobs/src/utxo_apply_delta_reorg.c`.
-/

namespace ZClassic

inductive UtxoAuthor where
  | stage
  | legacy
  deriving DecidableEq

def reorgIsAllowed (tip fork : ℤ) : Bool :=
  decide (tip < 0) || decide (tip ≤ fork) || decide (tip - fork ≤ zclFinalityDepth)

/-- The delta stored for `h` is the one of the block the active chain has there. -/
def deltaMatches (node : Node) (h : ℕ) : Bool :=
  match node.db.utxoApplyDelta.lookup h, activeChainAt node.chain h with
  | some row, some bi => row.branchHash == bi
  | _, _ => false

/-- The fork walk over the heights below its argument: one above the highest one that matches. -/
def forkPlus1 (node : Node) : ℕ → ℕ
  | 0 => 0
  | h + 1 => if deltaMatches node h then h + 1 else forkPlus1 node h

/-- The inverse deltas of the heights from `lo` up to below the next argument, highest first. The
loop stops with a failure at a height that does not pass the check. -/
def emitInverseDeltas (check : ProgressStore → ℕ → Bool) (lo : ℕ) :
    ℕ → ProgressStore → Option ProgressStore
  | 0, db => some db
  | h + 1, db =>
    if h < lo then some db
    else if !check db h then none
    else (utxoApplyEmitInverseDelta db h).bind (emitInverseDeltas check lo h)

def utxoApplyDeleteRowsAbove (db : ProgressStore) (lo hi : ℕ) : ProgressStore :=
  { db with
    utxoApplyLog := db.utxoApplyLog.delWhere fun h => lo ≤ h ∧ h < hi
    utxoApplyDelta := db.utxoApplyDelta.delWhere fun h => lo ≤ h ∧ h < hi }

/-- Drops the rows of the heights in `[lo, hi)` and moves cursor and frontier back to `lo`. -/
def rewindUtxoApply (db : ProgressStore) (lo hi : ℕ) : ProgressStore :=
  ((utxoApplyDeleteRowsAbove db lo hi).setCursor .utxoApply lo).setAppliedHeight (Int32.ofNat lo)

/-- The unwind transaction; only the configured author undoes coins. -/
def unwindTransaction (author : UtxoAuthor) (db : ProgressStore) (lo hi : ℕ) :
    Option ProgressStore :=
  match author with
  | .stage =>
    (emitInverseDeltas (fun _ _ => true) lo hi db).map fun db => rewindUtxoApply db lo hi
  | .legacy => some (rewindUtxoApply db lo hi)

def utxoApplyReorgUnwindIfNeeded (author : UtxoAuthor) (commits : Bool) (node : Node) :
    Option ProgressStore :=
  let C := node.db.cursor .utxoApply
  if C = 0 then some node.db
  else if 2 ^ 31 ≤ C then none
  else match node.db.utxoApplyDelta.lookup (C - 1), activeChainAt node.chain (C - 1) with
    | some row, some bi =>
      if row.branchHash = bi then some node.db
      else
        let fork1 := forkPlus1 node (C - 1)
        if !reorgIsAllowed (C - 1) (fork1 - 1) then none
        else if commits then unwindTransaction author node.db fork1 C else none
    | _, _ => some node.db

theorem forkPlus1_le (node : Node) (n : ℕ) : forkPlus1 node n ≤ n := by
  induction n with
  | zero => exact le_rfl
  | succ n ih =>
    rw [forkPlus1]
    split_ifs
    · exact le_rfl
    · omega

variable {db db' : ProgressStore} {lo hi : ℕ} {author : UtxoAuthor} {commits : Bool} {node : Node}

theorem emitInverseDelta_some {h : ℕ} (hdb : utxoApplyEmitInverseDelta db h = some db') :
    ∃ S, db' = { db with coins := S } := by
  unfold utxoApplyEmitInverseDelta at hdb
  split at hdb
  · cases hdb
    exact ⟨db.coins, rfl⟩
  · split at hdb
    · cases hdb
    · cases hdb
      exact ⟨_, rfl⟩

theorem emitInverseDeltas_some {check : ProgressStore → ℕ → Bool}
    (hdb : emitInverseDeltas check lo hi db = some db') : ∃ S, db' = { db with coins := S } := by
  induction hi generalizing db with
  | zero =>
    cases hdb
    exact ⟨_, rfl⟩
  | succ h ih =>
    rw [emitInverseDeltas] at hdb
    split_ifs at hdb
    · cases hdb
      exact ⟨_, rfl⟩
    · obtain ⟨db₁, h₁, hrest⟩ := Option.bind_eq_some_iff.mp hdb
      obtain ⟨S₁, rfl⟩ := emitInverseDelta_some h₁
      obtain ⟨S, rfl⟩ := ih hrest
      exact ⟨S, rfl⟩

theorem unwindTransaction_some (hdb : unwindTransaction author db lo hi = some db') :
    ∃ S, db' = rewindUtxoApply { db with coins := S } lo hi := by
  cases author with
  | stage =>
    obtain ⟨db₁, h₁, rfl⟩ := Option.map_eq_some_iff.mp hdb
    obtain ⟨S, rfl⟩ := emitInverseDeltas_some h₁
    exact ⟨S, rfl⟩
  | legacy =>
    cases hdb
    exact ⟨db.coins, rfl⟩

variable {db : ProgressStore}

theorem unwindIfNeeded_some
    (hdb : utxoApplyReorgUnwindIfNeeded author commits node = some db) :
    let cursor := node.db.cursor .utxoApply
    db = node.db ∧ (cursor = 0 ∨ cursor < 2 ^ 31 ∧
        ∀ row bi, node.db.utxoApplyDelta.lookup (cursor - 1) = some row →
          activeChainAt node.chain (cursor - 1) = some bi → row.branchHash = bi) ∨
      0 < cursor ∧ cursor < 2 ^ 31 ∧
        unwindTransaction author node.db (forkPlus1 node (cursor - 1)) cursor = some db := by
  unfold utxoApplyReorgUnwindIfNeeded at hdb
  dsimp only at hdb
  by_cases hzero : node.db.cursor .utxoApply = 0
  · rw [if_pos hzero] at hdb
    cases hdb
    exact .inl ⟨rfl, .inl hzero⟩
  rw [if_neg hzero] at hdb
  by_cases hlarge : 2 ^ 31 ≤ node.db.cursor .utxoApply
  · rw [if_pos hlarge] at hdb
    cases hdb
  rw [if_neg hlarge] at hdb
  split at hdb
  · next row bi hrow hbi =>
    split_ifs at hdb with heq
    · cases hdb
      refine .inl ⟨rfl, .inr ⟨by omega, ?_⟩⟩
      intro row' bi' hrow' hbi'
      rw [hrow] at hrow'
      rw [hbi] at hbi'
      cases hrow'
      cases hbi'
      exact heq
    · exact .inr ⟨by omega, by omega, hdb⟩
  · next hnone =>
    cases hdb
    refine .inl ⟨rfl, .inr ⟨by omega, ?_⟩⟩
    intro row bi hrow hbi
    exact absurd hbi (hnone row bi hrow)

@[simp]
theorem cursor_rewindUtxoApply (db : ProgressStore) (lo hi : ℕ) (name : StageName) :
    (rewindUtxoApply db lo hi).cursor name = if name = .utxoApply then lo else db.cursor name := by
  rw [rewindUtxoApply, ProgressStore.cursor_setAppliedHeight, ProgressStore.cursor_setCursor]
  rfl

@[simp]
theorem appliedHeight_rewindUtxoApply (db : ProgressStore) (lo hi : ℕ) :
    (rewindUtxoApply db lo hi).appliedHeight = some (Int32.ofNat lo) :=
  ProgressStore.appliedHeight_setAppliedHeight _ _

theorem unwind_cursor_lt (hdb : utxoApplyReorgUnwindIfNeeded author commits node = some db) :
    db.cursor .utxoApply < 2 ^ 31 := by
  rcases unwindIfNeeded_some hdb with ⟨rfl, hzero | ⟨hlt, -⟩⟩ | ⟨hpos, hlt, hunwind⟩
  · omega
  · exact hlt
  · obtain ⟨S, rfl⟩ := unwindTransaction_some hunwind
    have := forkPlus1_le node (node.db.cursor .utxoApply - 1)
    rw [cursor_rewindUtxoApply, if_pos rfl]
    omega

theorem rewindUtxoApply_delta (db : ProgressStore) (lo hi h : ℕ) :
    (rewindUtxoApply db lo hi).utxoApplyDelta.lookup h =
      if lo ≤ h ∧ h < hi then none else db.utxoApplyDelta.lookup h :=
  Table.lookup_delWhere _ _ _

end ZClassic
