import ZClassic.Jobs.ChainCoins
import ZClassic.Jobs.NullifierReuse

/-!
# Does the verdict on a block depend on the history?

An unwind and a lost transaction take back what utxo_apply wrote to the progress store.
-/

namespace ZClassic

open List

/-- The stage authors the coins, the node database is open, and the blocks that the unwind check
takes back spend none of their own outputs. -/
def Undoable (w : World) (node : Node) : ApplyAction → Prop
  | .utxoApply env => env.author = .stage ∧ env.nodeDbOpen = true ∧
      ∀ db, utxoApplyReorgUnwindIfNeeded env.author env.unwindCommits node = some db →
        ∀ h row, db.cursor .utxoApply ≤ h → node.db.utxoApplyDelta.lookup h = some row →
          SpendsNoOwn (w.content row.branchHash)
  | .elsewhere _ _ _ _ => True

/-- What the block reveals and `node.db` holds is revealed by one of the applied blocks. -/
def NoStaleNullifier (w : World) (node : Node) (blocks : List UInt256) (bi : UInt256) : Prop :=
  ∀ nf ∈ blockSproutNullifiers (w.content bi), nf ∈ node.sproutNullifiers →
    nf ∈ revealedSprout w blocks

variable {w : World} {env : UtxoApplyEnv} {node : Node} {blocks : List UInt256}

/-- The invariant of a run: the store is that of a chain, whose nullifiers are recorded. -/
structure Follows (w : World) (node : Node) (blocks : List UInt256) : Prop where
  chain : FollowsChain w node.db blocks
  recorded : Recorded w node blocks

theorem Follows.utxoApply (hw : WellFormedTxs w) (h : Follows w node blocks)
    (hok : Undoable w node (.utxoApply env)) :
    ∃ blocks', Follows w (utxoApplyStageStepOnce w env node).node blocks' := by
  obtain ⟨hauthor, hopen, hown⟩ := hok
  rcases utxoApply_cases w env node with ⟨-, hnode⟩ | ⟨db, hunwind, hcases⟩
  · rw [hnode]
    exact ⟨blocks, h⟩
  have hlt := unwind_cursor_lt hunwind
  have hown := hown db hunwind
  rw [hauthor] at hunwind
  obtain ⟨n, hn, hchain⟩ := h.chain.unwind hw hunwind hown
  rcases hcases with ⟨-, hnode⟩ | ⟨k, bi, haccepts, ⟨-, -, hnode⟩ | ⟨-, hfate, -, hnode⟩⟩
  · rw [hnode]
    exact ⟨_, hchain, h.recorded.take (Finset.Subset.refl _)⟩
  · rw [hnode]
    exact ⟨_, hchain, h.recorded.take (subset_recordNullifiers _ _ _)⟩
  · rw [hnode]
    have hrecorded : Recorded w { node with db } (blocks.take n) :=
      h.recorded.take (Finset.Subset.refl _)
    exact ⟨_, FollowsChain.apply { node with db } hchain hauthor haccepts hlt,
      hrecorded.apply hopen hfate k bi⟩

theorem follows_run (hw : WellFormedTxs w) {acts : List ApplyAction}
    (hok : MeetsAll (applyStep w) (Undoable w) {} acts) :
    ∃ blocks, Follows w (run (applyStep w) {} acts) blocks := by
  have hinit : ∃ blocks, Follows w {} blocks :=
    ⟨[], ⟨⟨rfl, fun _ => rfl⟩, ⟨Nat.zero_le _, nofun⟩, rfl, nofun⟩, nofun⟩
  refine run_invariant (fun node => ∃ blocks, Follows w node blocks) ?_ hinit hok
  rintro node a ⟨blocks, h⟩ ha
  cases a with
  | utxoApply env => exact h.utxoApply hw ha
  | elsewhere chain nStatus proofCursor proofLog =>
    exact ⟨blocks, ⟨h.chain.applied.elsewhere _ _ _ _, h.chain.valid, h.chain.coins, h.chain.rows⟩,
      h.recorded⟩

variable {db : ProgressStore}

theorem AppliedBlocks.unique {blocks' : List UInt256}
    (h : AppliedBlocks db blocks) (h' : AppliedBlocks db blocks') : blocks = blocks' := by
  apply ext_getElem?
  intro i
  rw [← h.delta i, h'.delta i]

theorem Follows.advanced_iff (h : Follows w node blocks) {k : ℕ} {bi : UInt256}
    (hopen : env.nodeDbOpen = true) (ho : Offered env node k bi)
    (hstale : NoStaleNullifier w node blocks bi) :
    (stepApply w env (node.db.cursor .utxoApply) node).result = .advanced ↔
      (∀ nf ∈ blockSproutNullifiers (w.content bi), nf ∉ revealedSprout w blocks) ∧
        (deltaOver w (chainCoins w blocks) k bi).ok = true := by
  have hdelta : stageDelta w node.db k bi = deltaOver w (chainCoins w blocks) k bi := by
    rw [← h.chain.coins]
    rfl
  rw [stepApply_of_offered w env ho, applyBlock_advanced_iff, hopen, nullifierConflict_eq_none_iff,
    hdelta]
  apply and_congr_left'
  apply forall₂_congr
  intro nf hnf
  exact not_congr ⟨hstale nf hnf, h.recorded nf⟩

/-- Nodes whose delta rows name the same blocks hold the same coins, whatever they undid before. -/
theorem coins_history_independent (w : World) (hw : WellFormedTxs w)
    (acts₁ acts₂ : List ApplyAction) (hok₁ : MeetsAll (applyStep w) (Undoable w) {} acts₁)
    (hok₂ : MeetsAll (applyStep w) (Undoable w) {} acts₂) :
    let db₁ := (run (applyStep w) {} acts₁).db
    let db₂ := (run (applyStep w) {} acts₂).db
    (∀ h, (db₁.utxoApplyDelta.lookup h).map UtxoApplyDeltaRow.branchHash =
        (db₂.utxoApplyDelta.lookup h).map UtxoApplyDeltaRow.branchHash) →
      db₁.coins = db₂.coins := by
  intro db₁ db₂ hsame
  obtain ⟨blocks, h₁, -⟩ := follows_run hw hok₁
  obtain ⟨blocks₂, h₂, -⟩ := follows_run hw hok₂
  obtain rfl : blocks = blocks₂ := by
    apply ext_getElem?
    intro h
    rw [← h₁.applied.delta, ← h₂.applied.delta, hsame]
  exact h₁.coins.trans h₂.coins.symm

def returnWorld : World :=
  { soloWorld with
    content := fun b => ⟨zeroCoinbase b :: if b = 1 then [revealTx 1000 5 6 8] else []⟩ }

/-- Block 1 is applied, a reorganisation to block 2 unwinds it, and block 1 is offered again. -/
def returnRun : List ApplyAction :=
  [offer 1, .utxoApply {}, offer 2, .utxoApply { fate := .lost 0 }, offer 1]

theorem appliedBlocks_nil (hcursor : db.cursor .utxoApply = 0)
    (hdelta : db.utxoApplyDelta = ∅) : AppliedBlocks db [] := by
  refine ⟨hcursor, ?_⟩
  intro h
  rw [hdelta]
  rfl

theorem soloWorld_wellFormed : WellFormedTxs soloWorld := by
  constructor
  · intro b tx htx
    cases mem_singleton.mp htx
    change 1 ≤ maxTxOutputs
    decide
  · intro b b' tx htx tx' htx' hhash
    cases mem_singleton.mp htx
    cases mem_singleton.mp htx'
    exact congrArg zeroCoinbase hhash

theorem lostRun_undoable :
    MeetsAll (applyStep soloWorld) (Undoable soloWorld) {}
      [offer 1, .utxoApply { fate := .lost 0 }] := by
  refine ⟨trivial, ⟨rfl, rfl, ?_⟩, trivial⟩
  intro db hdb h row hh hrow
  cases hrow

theorem reorgRun_coins :
    (run (applyStep soloWorld) {} [offer 2, .utxoApply {}, offer 1, .utxoApply {}]).db.coins =
      (run (applyStep soloWorld) {} [offer 1, .utxoApply {}]).db.coins := by
  have hown : ∀ b, SpendsNoOwn (soloWorld.content b) := fun _ _ _ => not_mem_nil
  exact coins_history_independent soloWorld soloWorld_wellFormed
    [offer 2, .utxoApply {}, offer 1, .utxoApply {}] [offer 1, .utxoApply {}]
    ⟨trivial, ⟨rfl, rfl, fun _ _ _ _ _ _ => hown _⟩, trivial,
      ⟨rfl, rfl, fun _ _ _ _ _ _ => hown _⟩, trivial⟩
    ⟨trivial, ⟨rfl, rfl, fun _ _ _ _ _ _ => hown _⟩, trivial⟩ fun _ => rfl

end ZClassic
