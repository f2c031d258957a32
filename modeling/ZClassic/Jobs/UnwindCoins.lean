import ZClassic.Jobs.ApplyHistory

/-!
# The coins after an unwind

An unwind undoes the rows it finds from the cursor down to the fork and skips the heights that have
none.
-/

namespace ZClassic

/-- The store holds the coins of a valid chain, but some rows of the delta table may be missing. -/
structure HoldsChain (w : World) (db : ProgressStore) (blocks : List UInt256) : Prop where
  cursor : db.cursor .utxoApply = blocks.length
  valid : ValidChain w blocks
  coins : db.coins = chainCoins w blocks
  rows : ∀ h row, db.utxoApplyDelta.lookup h = some row →
    ∃ b, blocks[h]? = some b ∧ row = deltaRow w (chainCoins w (blocks.take h)) h b

variable {w : World} {blocks : List UInt256}

section

variable (w blocks)

def TouchedAt (op : Outpoint) (h : ℕ) : Prop :=
  ∃ b, blocks[h]? = some b ∧ (op ∈ createdBy (w.content b).vtx ∨ op ∈ spentBy (w.content b).vtx)

def PassedThroughAt (op : Outpoint) (h : ℕ) : Prop :=
  ∃ b, blocks[h]? = some b ∧ op ∈ createdBy (w.content b).vtx ∧ op ∈ spentBy (w.content b).vtx

/-- The lowest block from `lo` on that touches `op` creates it and spends it. -/
def LeftOver (lo : ℕ) (op : Outpoint) : Prop :=
  ∃ h, lo ≤ h ∧ PassedThroughAt w blocks op h ∧ ∀ k, lo ≤ k → k < h → ¬TouchedAt w blocks op k

end

variable {op : Outpoint} {n : ℕ} {db : ProgressStore}

theorem PassedThroughAt.touched {h : ℕ} (hop : PassedThroughAt w blocks op h) :
    TouchedAt w blocks op h := by
  obtain ⟨b, hb, hcreated, -⟩ := hop
  exact ⟨b, hb, .inl hcreated⟩

theorem leftOver_of_passedThrough (h : PassedThroughAt w blocks op n) : LeftOver w blocks n op :=
  ⟨n, le_rfl, h, fun k hle hlt => absurd hle (by omega)⟩

theorem leftOver_iff_of_touched (h : TouchedAt w blocks op n) :
    LeftOver w blocks n op ↔ PassedThroughAt w blocks op n := by
  constructor
  · rintro ⟨k, hle, hpassed, hlowest⟩
    rcases hle.eq_or_lt with rfl | hlt
    · exact hpassed
    · exact absurd h (hlowest n le_rfl hlt)
  · exact leftOver_of_passedThrough

theorem leftOver_iff_of_not_touched (h : ¬TouchedAt w blocks op n) :
    LeftOver w blocks n op ↔ LeftOver w blocks (n + 1) op := by
  constructor
  · rintro ⟨k, hle, hpassed, hlowest⟩
    rcases hle.eq_or_lt with rfl | hlt
    · exact absurd hpassed.touched h
    · exact ⟨k, hlt, hpassed, fun j hj hjk => hlowest j (by omega) hjk⟩
  · rintro ⟨k, hle, hpassed, hlowest⟩
    refine ⟨k, by omega, hpassed, fun j hj hjk => ?_⟩
    rcases hj.eq_or_lt with rfl | hlt
    · exact h
    · exact hlowest j hlt hjk

section

variable (hw : WellFormedTxs w)

include hw

section

variable (hvalid : ValidChain w blocks)

include hvalid

theorem lookup_chainCoins_of_not_touched
    (h : ¬TouchedAt w blocks op n) :
    (chainCoins w (blocks.take (n + 1))).lookup op = (chainCoins w (blocks.take n)).lookup op := by
  cases hb : blocks[n]? with
  | none => rw [List.take_add_one, hb, Option.toList_none, List.append_nil]
  | some b =>
    have hcreated : op ∉ createdBy (w.content b).vtx := fun hmem => h ⟨b, hb, .inl hmem⟩
    have hspent : op ∉ spentBy (w.content b).vtx := fun hmem => h ⟨b, hb, .inr hmem⟩
    obtain ⟨st, hacc, -, htop, -⟩ := hvalid.block hw hb
    rw [htop, lookup_applyCoinsKv hacc op hcreated, if_neg hspent]

theorem lookup_chainCoins_of_untouched
    {n m : ℕ} (hle : n ≤ m) (h : ∀ k, n ≤ k → k < m → ¬TouchedAt w blocks op k) :
    (chainCoins w (blocks.take m)).lookup op = (chainCoins w (blocks.take n)).lookup op := by
  induction m, hle using Nat.le_induction with
  | base => rfl
  | succ m hle ih =>
    rw [lookup_chainCoins_of_not_touched hw hvalid (h m hle m.lt_succ_self)]
    exact ih fun k hk hlt => h k hk (by omega)

theorem LeftOver.notMem
    (h : LeftOver w blocks n op) : op ∉ chainCoins w (blocks.take n) := by
  obtain ⟨k, hle, ⟨b, hb, hcreated, -⟩, hlowest⟩ := h
  obtain ⟨st, hacc, hreports, -, -⟩ := hvalid.block hw hb
  rw [← Finmap.lookup_eq_none, ← lookup_chainCoins_of_untouched hw hvalid hle hlowest,
    Finmap.lookup_eq_none]
  exact hacc.created_notMem hreports.found hcreated

/-- `S` is what the walk has left once the blocks from `n` on are undone. -/
structure Undone (w : World) (blocks : List UInt256) (n : ℕ) (S : CoinSet) : Prop where
  leftOver : ∀ op, LeftOver w blocks n op → op ∈ S
  restored : ∀ op, ¬LeftOver w blocks n op → S.lookup op = (chainCoins w (blocks.take n)).lookup op

theorem Undone.eq_iff {S : CoinSet}
    (h : Undone w blocks n S) :
    S = chainCoins w (blocks.take n) ↔ ∀ op, ¬LeftOver w blocks n op := by
  constructor
  · rintro rfl op hop
    exact hop.notMem hw hvalid (h.leftOver op hop)
  · intro hnone
    exact Finmap.ext_lookup fun op => h.restored op (hnone op)

end

end

theorem undone_length : Undone w blocks blocks.length (chainCoins w blocks) where
  leftOver := by
    rintro op ⟨h, hle, ⟨b, hb, -⟩, -⟩
    have hlt := (List.getElem?_eq_some_iff.mp hb).1
    omega
  restored op _ := by rw [List.take_length]

theorem Undone.step (hw : WellFormedTxs w) (hvalid : ValidChain w blocks) {b : UInt256}
    (hb : blocks[n]? = some b) (h : Undone w blocks (n + 1) db.coins)
    (hrow : db.utxoApplyDelta.lookup n = some (deltaRow w (chainCoins w (blocks.take n)) n b)) :
    ∃ S, utxoApplyEmitInverseDelta db n = some { db with coins := S } ∧ Undone w blocks n S := by
  obtain ⟨st, hacc, hreports, -, hundo⟩ := hvalid.block hw hb
  have htouched : ∀ op, TouchedAt w blocks op n ↔
      op ∈ createdBy (w.content b).vtx ∨ op ∈ spentBy (w.content b).vtx := by
    intro op
    simp [TouchedAt, hb]
  have hpassed : ∀ op, PassedThroughAt w blocks op n ↔
      op ∈ createdBy (w.content b).vtx ∧ op ∈ spentBy (w.content b).vtx := by
    intro op
    simp [PassedThroughAt, hb]
  refine ⟨_, hundo db hrow, ?_, ?_⟩
  · intro op hop
    by_cases ht : TouchedAt w blocks op n
    · rw [leftOver_iff_of_touched ht, hpassed] at hop
      exact mem_undoDelta_of_mem_spent hacc db.coins hop.2
    · rw [leftOver_iff_of_not_touched ht] at hop
      rw [htouched, not_or] at ht
      rw [Finmap.mem_iff]
      rw [undoDelta_of_notMem_spent hacc ht.2, if_neg ht.1]
      exact Finmap.mem_iff.mp (h.leftOver op hop)
  · intro op hop
    by_cases ht : TouchedAt w blocks op n
    · rw [leftOver_iff_of_touched ht, hpassed, not_and] at hop
      by_cases hspent : op ∈ spentBy (w.content b).vtx
      · exact undoDelta_of_mem_spent hacc hreports _ hspent fun hc => hop hc hspent
      · have hcreated : op ∈ createdBy (w.content b).vtx :=
          ((htouched op).mp ht).resolve_right hspent
        rw [undoDelta_of_notMem_spent hacc hspent, if_pos hcreated, eq_comm, Finmap.lookup_eq_none]
        exact hacc.created_notMem hreports.found hcreated
    · rw [leftOver_iff_of_not_touched ht] at hop
      have hkeep := lookup_chainCoins_of_not_touched hw hvalid ht
      rw [htouched, not_or] at ht
      rw [undoDelta_of_notMem_spent hacc ht.2, if_neg ht.1, h.restored op hop, hkeep]

theorem Undone.run (hw : WellFormedTxs w) (hvalid : ValidChain w blocks) {lo hi : ℕ} (hlo : lo ≤ hi)
    (hhi : hi ≤ blocks.length) (h : Undone w blocks hi db.coins)
    (hrows : ∀ k b, lo ≤ k → blocks[k]? = some b →
      db.utxoApplyDelta.lookup k = some (deltaRow w (chainCoins w (blocks.take k)) k b)) :
    ∃ S, emitInverseDeltas (fun _ _ => true) lo hi db = some { db with coins := S } ∧
      Undone w blocks lo S := by
  induction hi generalizing db with
  | zero =>
    cases Nat.le_zero.mp hlo
    exact ⟨db.coins, rfl, h⟩
  | succ k ih =>
    rw [emitInverseDeltas]
    by_cases hk : k < lo
    · have heq : lo = k + 1 := by omega
      rw [if_pos hk, heq]
      exact ⟨db.coins, rfl, h⟩
    · have hb : blocks[k]? = some blocks[k] := List.getElem?_eq_getElem hhi
      obtain ⟨S, hemit, hS⟩ := h.step hw hvalid hb (hrows k _ (not_lt.mp hk) hb)
      have hS : Undone w blocks k ({ db with coins := S } : ProgressStore).coins := hS
      obtain ⟨S', hrest, hS'⟩ := ih (not_lt.mp hk) (by omega) hS hrows
      rw [if_neg hk, hemit]
      exact ⟨S', hrest, hS'⟩

/-- An unwind that is committed leaves the coins that the chain had at the fork, with every row
above it undone, exactly when every one of those rows is there and no outpoint is left over. -/
theorem unwind_restores_iff (hw : WellFormedTxs w) {node : Node} {commits : Bool}
    {db : ProgressStore} (h : HoldsChain w node.db blocks)
    (hdb : utxoApplyReorgUnwindIfNeeded .stage commits node = some db)
    (hunwound : db.cursor .utxoApply < node.db.cursor .utxoApply) :
    (db.coins = chainCoins w (blocks.take (db.cursor .utxoApply)) ∧
        ∀ k, db.cursor .utxoApply ≤ k → k < node.db.cursor .utxoApply →
          (node.db.utxoApplyDelta.lookup k).isSome) ↔
      (∀ k, forkPlus1 node (node.db.cursor .utxoApply - 1) ≤ k → k < node.db.cursor .utxoApply →
          (node.db.utxoApplyDelta.lookup k).isSome) ∧
        ∀ op, ¬LeftOver w blocks (forkPlus1 node (node.db.cursor .utxoApply - 1)) op := by
  rcases unwindIfNeeded_some hdb with ⟨rfl, -⟩ | ⟨hpos, -, hunwind⟩
  · exact absurd hunwound (lt_irrefl _)
  have hfork := forkPlus1_le node (node.db.cursor .utxoApply - 1)
  have hcursor := h.cursor
  set lo := forkPlus1 node (node.db.cursor .utxoApply - 1)
  obtain ⟨db₁, hemit, rfl⟩ := Option.map_eq_some_iff.mp hunwind
  rw [cursor_rewindUtxoApply, if_pos rfl, and_comm]
  refine and_congr_right fun hrows => ?_
  have hrows' : ∀ k b, lo ≤ k → blocks[k]? = some b → node.db.utxoApplyDelta.lookup k =
      some (deltaRow w (chainCoins w (blocks.take k)) k b) := by
    intro k b hk hb
    have hlt := (List.getElem?_eq_some_iff.mp hb).1
    obtain ⟨row, hrow⟩ := Option.isSome_iff_exists.mp (hrows k hk (by omega))
    obtain ⟨b', hb', rfl⟩ := h.rows k row hrow
    cases Option.some.inj (hb'.symm.trans hb)
    exact hrow
  have htop : Undone w blocks (node.db.cursor .utxoApply) node.db.coins := by
    rw [hcursor, h.coins]
    exact undone_length
  obtain ⟨S, hrun, hS⟩ := htop.run hw h.valid (by omega) hcursor.le hrows'
  cases Option.some.inj (hemit.symm.trans hrun)
  exact hS.eq_iff hw h.valid

/-- The store after blocks 1, 2 and 3, with the delta rows of the given heights. -/
def rowsKept (heights : List ℕ) : ProgressStore :=
  ProgressStore.setCursor
    { coins := chainCoins soloWorld [1, 2, 3]
      utxoApplyDelta := Table.putAll ∅ (heights.map fun h =>
        (h, deltaRow soloWorld (chainCoins soloWorld ([1, 2, 3].take h)) h
          (BitVec.ofNat 256 (h + 1)))) }
    .utxoApply 3

def forkedNode (heights : List ℕ) : Node where
  db := rowsKept heights
  chain := { chain := fun h => [1, 12, 13][h]?, height := 2 }

theorem rowsKept_holdsChain {heights : List ℕ} (hlt : ∀ h ∈ heights, h < 3) :
    HoldsChain soloWorld (rowsKept heights) [1, 2, 3] where
  cursor := rfl
  valid := by
    refine ⟨by decide, ?_⟩
    intro h b hb
    match h with
    | 0 => cases hb; decide
    | 1 => cases hb; decide
    | 2 => cases hb; decide
    | h + 3 => cases hb
  coins := rfl
  rows h row hrow := by
    rcases Table.lookup_putAll_eq_some hrow with hempty | hmem
    · cases hempty
    · obtain ⟨k, hk, heq⟩ := List.mem_map.mp hmem
      cases heq
      have hb : ∀ k < 3, [1, 2, 3][k]? = some (BitVec.ofNat 256 (k + 1)) := by decide
      exact ⟨_, hb h (hlt h hk), rfl⟩

/-- Without the row of height 1 the unwind commits and keeps the coinbase of block 2. -/
theorem missingRow_unwound :
    HoldsChain soloWorld (rowsKept [0, 2]) [1, 2, 3] ∧
      ∃ db, utxoApplyReorgUnwindIfNeeded .stage true (forkedNode [0, 2]) = some db ∧
        db.cursor .utxoApply = 1 ∧ (⟨2, 0⟩ : Outpoint) ∈ db.coins ∧
        db.coins ≠ chainCoins soloWorld [1] := by
  refine ⟨rowsKept_holdsChain (by decide), _, rfl, by decide, ?_⟩
  have hmem : (⟨2, 0⟩ : Outpoint) ∉ chainCoins soloWorld [1] := by decide
  have hkept : (⟨2, 0⟩ : Outpoint) ∈ (rewindUtxoApply ((emitInverseDeltas (fun _ _ => true) 1 3
      (rowsKept [0, 2])).getD {}) 1 3).coins := by decide
  exact ⟨hkept, fun heq => hmem (heq ▸ hkept)⟩

theorem zeroCoinbase_no_leftOver (blocks : List UInt256) (lo : ℕ) (op : Outpoint) :
    ¬LeftOver soloWorld blocks lo op := by
  rintro ⟨h, -, ⟨b, -, -, hspent⟩, -⟩
  cases hspent

theorem allRows_unwound :
    ∃ db, utxoApplyReorgUnwindIfNeeded .stage true (forkedNode [0, 1, 2]) = some db ∧
      db.cursor .utxoApply = 1 ∧ db.coins = chainCoins soloWorld [1] := by
  obtain ⟨db, hdb, hcursor⟩ : ∃ db,
      utxoApplyReorgUnwindIfNeeded .stage true (forkedNode [0, 1, 2]) = some db ∧
        db.cursor .utxoApply = 1 := ⟨_, rfl, by decide⟩
  have hunwound : db.cursor .utxoApply < (forkedNode [0, 1, 2]).db.cursor .utxoApply := by
    rw [hcursor]
    decide
  have hrestores := (unwind_restores_iff soloWorld_wellFormed
    (rowsKept_holdsChain (by decide : ∀ h ∈ [0, 1, 2], h < 3)) hdb hunwound).mpr
    ⟨by decide, fun op => zeroCoinbase_no_leftOver _ _ op⟩
  refine ⟨db, hdb, hcursor, hrestores.1.trans ?_⟩
  rw [hcursor]
  rfl

end ZClassic
