import ZClassic.Jobs.AppliedChain

/-!
# The coins of a chain

The coin table as a function of the applied blocks, and the proof that utxo_apply keeps to it: a
block is applied to the coins of the blocks below it, and undoing a block that spends none of its
own outputs gives those coins back.
-/

namespace ZClassic

open List

def deltaOver (w : World) (S : CoinSet) (h : ℕ) (b : UInt256) : DeltaSummary :=
  utxoApplyComputeBlockDelta w.params (some (w.content b)) (UInt32.ofNat h)
    (projectionLiveLookup S)

def coinsAfter (w : World) (S : CoinSet) (h : ℕ) (b : UInt256) : CoinSet :=
  applyCoinsKv S (deltaOver w S h b) (UInt32.ofNat h)

def chainCoins (w : World) (blocks : List UInt256) : CoinSet :=
  blocks.zipIdx.foldl (fun S b => coinsAfter w S b.2 b.1) ∅

theorem chainCoins_append (w : World) (blocks : List UInt256) (b : UInt256) :
    chainCoins w (blocks ++ [b]) = coinsAfter w (chainCoins w blocks) blocks.length b := by
  rw [chainCoins, zipIdx_append, foldl_append, Nat.zero_add]
  rfl

structure ValidChain (w : World) (blocks : List UInt256) : Prop where
  length_le : blocks.length ≤ 2 ^ 31
  delta : ∀ h b, blocks[h]? = some b → (deltaOver w (chainCoins w (blocks.take h)) h b).ok = true

/-- What reading and hashing transactions ensures: a bounded number of outputs, and an identifier
for each transaction. -/
structure WellFormedTxs (w : World) : Prop where
  outputs_le : ∀ b, ∀ tx ∈ (w.content b).vtx, tx.vout.length ≤ maxTxOutputs
  hash_inj : ∀ b b', ∀ tx ∈ (w.content b).vtx, ∀ tx' ∈ (w.content b').vtx,
    tx.hash = tx'.hash → tx = tx'

def CreatedCoins (w : World) (S : CoinSet) : Prop :=
  ∀ op c, S.lookup op = some c → ∃ b, op ∈ createdBy (w.content b).vtx

def SpendsNoOwn (blk : Block) : Prop := ∀ op ∈ createdBy blk.vtx, op ∉ spentBy blk.vtx

variable {w : World} {S : CoinSet} {blocks : List UInt256}

variable {op : Outpoint} {txs : List Transaction} {c : Coin} {st : DeltaState} {b : UInt256} {h : ℕ}
  {db : ProgressStore}

theorem exists_tx_of_mem_createdBy (hop : op ∈ createdBy txs) :
    ∃ tx ∈ txs, op ∈ txOutputs tx ∧ op.hash = tx.hash := by
  obtain ⟨tx, htx, hop⟩ := mem_flatMap.mp hop
  refine ⟨tx, htx, hop, ?_⟩
  obtain ⟨e, he, rfl⟩ := mem_map.mp hop
  obtain ⟨out, i, -, -, rfl⟩ := mem_txAdded.mp he
  rfl

theorem forall_lookup_applyCoinsKv {height : UInt32} {lookup : UtxoApplyLookupFn}
    {P : Outpoint → Coin → Prop} (h : Accepted height lookup txs st)
    (hold : ∀ op c, S.lookup op = some c → P op c)
    (hnew : ∀ tx ∈ txs, ∀ e ∈ txAdded tx, P e.outpoint (addedCoin height e)) (op : Outpoint)
    (c : Coin) (hc : (applyCoinsKv S st.accept height).lookup op = some c) : P op c := by
  rw [applyCoinsKv_eq, Table.lookup_delAll] at hc
  split_ifs at hc
  rcases Table.lookup_putAll_eq_some hc with hc | hc
  · exact hold op c hc
  · obtain ⟨e, he, heq⟩ := mem_map.mp hc
    change e ∈ st.added at he
    rw [h.added] at he
    obtain ⟨tx, htx, he⟩ := mem_flatMap.mp he
    cases heq
    exact hnew tx htx e he

theorem deltaOver_accepted (hok : (deltaOver w S h b).ok = true) :
    ∃ st, deltaOver w S h b = st.accept ∧
      Accepted (UInt32.ofNat h) (projectionLiveLookup S) (w.content b).vtx st := by
  obtain ⟨st, hst, hsum⟩ := computeBlockDelta_ok hok
  exact ⟨st, hsum, accepted_of_loop (blockDelta_ok hst).1⟩

theorem hash_ne_of_accepted (hw : WellFormedTxs w) (hreg : RegularCoins S)
    (hcreated : CreatedCoins w S)
    (hacc : Accepted (UInt32.ofNat h) (projectionLiveLookup S) (w.content b).vtx st)
    (hc : S.lookup op = some c) {tx : Transaction} (htx : tx ∈ (w.content b).vtx) :
    op.hash ≠ tx.hash := by
  intro hhash
  obtain ⟨b', hop⟩ := hcreated op c hc
  obtain ⟨tx', htx', hout, hhash'⟩ := exists_tx_of_mem_createdBy hop
  have heq : tx' = tx := hw.hash_inj b' b tx' htx' tx htx (hhash'.symm.trans hhash)
  subst heq
  have hmem : op ∈ createdBy (w.content b).vtx := mem_flatMap.mpr ⟨tx', htx, hout⟩
  exact hacc.created_notMem (liveLookup_reportsCoins hreg).found hmem
    (Finmap.mem_of_lookup_eq_some hc)

theorem toInt32_ofNat_nonneg (hh : h < 2 ^ 31) : 0 ≤ (UInt32.ofNat h).toInt32 := by
  have heq : (UInt32.ofNat h).toInt32 = Int32.ofNat h := rfl
  rw [heq, Int32.le_iff_toInt_le, Int32.toInt_ofNat_of_lt hh, Int32.toInt_zero]
  omega

theorem RegularCoins.coinsAfter (hw : WellFormedTxs w) (hreg : RegularCoins S)
    (hcreated : CreatedCoins w S) (hh : h < 2 ^ 31) (hok : (deltaOver w S h b).ok = true) :
    RegularCoins (ZClassic.coinsAfter w S h b) ∧ CreatedCoins w (ZClassic.coinsAfter w S h b) := by
  obtain ⟨st, hsum, hacc⟩ := deltaOver_accepted hok
  unfold ZClassic.coinsAfter
  rw [hsum]
  refine ⟨⟨?_, ?_, ?_, ?_, ?_⟩, forall_lookup_applyCoinsKv hacc hcreated ?_⟩
  · intro op op' c c' hc
    revert op' c'
    revert op c
    refine forall_lookup_applyCoinsKv hacc (fun op c hold => ?_) fun tx htx e he => ?_
    · refine forall_lookup_applyCoinsKv hacc (hreg.shared op · c · hold) ?_
      intro tx htx e he hhash
      obtain ⟨out, i, -, -, rfl⟩ := mem_txAdded.mp he
      exact absurd hhash (hash_ne_of_accepted hw hreg hcreated hacc hold htx)
    · obtain ⟨out, i, -, -, rfl⟩ := mem_txAdded.mp he
      refine forall_lookup_applyCoinsKv hacc (fun op' c' hold' hhash => ?_)
        fun tx' htx' e' he' hhash => ?_
      · exact absurd hhash.symm (hash_ne_of_accepted hw hreg hcreated hacc hold' htx)
      · obtain ⟨out', i', -, -, rfl⟩ := mem_txAdded.mp he'
        cases hw.hash_inj b b tx htx tx' htx' hhash
        exact ⟨rfl, rfl⟩
  · refine forall_lookup_applyCoinsKv hacc hreg.script_le fun tx htx e he => ?_
    obtain ⟨out, i, -, -, rfl⟩ := mem_txAdded.mp he
    exact out.scriptPubKey.size_le
  · exact forall_lookup_applyCoinsKv hacc hreg.height_nonneg fun _ _ _ _ => toInt32_ofNat_nonneg hh
  · refine forall_lookup_applyCoinsKv hacc hreg.value_ne fun tx htx e he hvalue => ?_
    have hpos := (hacc.added_value e (hacc.added ▸ mem_flatMap.mpr ⟨tx, htx, he⟩)).1
    change e.value = -1 at hvalue
    rw [hvalue] at hpos
    exact absurd hpos (by decide)
  · refine forall_lookup_applyCoinsKv hacc hreg.index_ne fun tx htx e he hmax => ?_
    obtain ⟨out, i, hi, -, rfl⟩ := mem_txAdded.mp he
    have hlt := (List.getElem?_eq_some_iff.mp hi).1
    have hle := hw.outputs_le b tx htx
    unfold maxTxOutputs at hle
    have hnat : (UInt32.ofNat i).toNat = (0xffffffff : UInt32).toNat := congrArg UInt32.toNat hmax
    rw [UInt32.toNat_ofNat_of_lt' (by change i < 2 ^ 32; omega)] at hnat
    change i = 4294967295 at hnat
    omega
  · exact fun tx htx e he => ⟨b, mem_flatMap.mpr ⟨tx, htx, mem_map_of_mem he⟩⟩

theorem ValidChain.take (h : ValidChain w blocks) (n : ℕ) : ValidChain w (blocks.take n) where
  length_le := (length_take_le' n blocks).trans h.length_le
  delta k b hb := by
    rw [getElem?_take] at hb
    split_ifs at hb with hk
    rw [take_take, Nat.min_eq_left hk.le]
    exact h.delta k b hb

theorem ValidChain.append (h : ValidChain w blocks) (hlt : blocks.length < 2 ^ 31)
    (hok : (deltaOver w (chainCoins w blocks) blocks.length b).ok = true) :
    ValidChain w (blocks ++ [b]) where
  length_le := by
    rw [length_append, length_singleton]
    omega
  delta k b' hb := by
    rcases Nat.lt_or_ge k blocks.length with hk | hk
    · rw [getElem?_append_left hk] at hb
      rw [take_append_of_le_length hk.le]
      exact h.delta k b' hb
    · rw [getElem?_append_right hk, getElem?_singleton] at hb
      split_ifs at hb with hzero
      cases hb
      have heq : k = blocks.length := by omega
      rw [heq, take_left]
      exact hok

section

variable (hw : WellFormedTxs w)

include hw

theorem ValidChain.regular (h : ValidChain w blocks) :
    RegularCoins (chainCoins w blocks) ∧ CreatedCoins w (chainCoins w blocks) := by
  induction blocks using reverseRecOn with
  | nil => exact ⟨⟨nofun, nofun, nofun, nofun, nofun⟩, nofun⟩
  | append_singleton blocks b ih =>
    have hbelow : ValidChain w blocks := by
      have htake := h.take blocks.length
      rwa [take_left] at htake
    obtain ⟨hreg, hcreated⟩ := ih hbelow
    have hlen := h.length_le
    rw [length_append, length_singleton] at hlen
    have hok := h.delta blocks.length b (by simp)
    rw [take_left] at hok
    rw [chainCoins_append]
    exact hreg.coinsAfter hw hcreated (by omega) hok

def deltaRow (w : World) (S : CoinSet) (h : ℕ) (b : UInt256) : UtxoApplyDeltaRow :=
  ⟨b, serializeSpent (deltaOver w S h b).spent, serializeAdded (deltaOver w S h b).added⟩

structure FollowsChain (w : World) (db : ProgressStore) (blocks : List UInt256) : Prop where
  applied : AppliedBlocks db blocks
  valid : ValidChain w blocks
  coins : db.coins = chainCoins w blocks
  rows : ∀ h b, blocks[h]? = some b →
    db.utxoApplyDelta.lookup h = some (deltaRow w (chainCoins w (blocks.take h)) h b)

/-- What a block of a valid chain does to the coins below it, and what its row undoes, whatever the
coins are by then. -/
theorem ValidChain.block (hvalid : ValidChain w blocks)
    (hb : blocks[h]? = some b) :
    let coins := chainCoins w (blocks.take h)
    ∃ st, Accepted (UInt32.ofNat h) (projectionLiveLookup coins) (w.content b).vtx st ∧
      ReportsCoins (projectionLiveLookup coins) coins ∧
      chainCoins w (blocks.take (h + 1)) = applyCoinsKv coins st.accept (UInt32.ofNat h) ∧
      ∀ db : ProgressStore, db.utxoApplyDelta.lookup h = some (deltaRow w coins h b) →
        utxoApplyEmitInverseDelta db h =
          some { db with coins := undoDelta db.coins st.added st.spent } := by
  obtain ⟨st, hsum, hacc⟩ := deltaOver_accepted (hvalid.delta h b hb)
  obtain ⟨hreg, -⟩ := (hvalid.take h).regular hw
  have hlt := (List.getElem?_eq_some_iff.mp hb).1
  refine ⟨st, hacc, liveLookup_reportsCoins hreg, ?_, ?_⟩
  · rw [take_add_one, hb, Option.toList_some, chainCoins_append, length_take,
      Nat.min_eq_left hlt.le, coinsAfter, hsum]
  · intro db hrow
    rw [deltaRow, hsum] at hrow
    exact emitInverseDelta_stored hrow hacc.script_lt

theorem emitInverseDelta_chainCoins (hvalid : ValidChain w blocks)
    (hb : blocks[h]? = some b)
    (hrow : db.utxoApplyDelta.lookup h = some (deltaRow w (chainCoins w (blocks.take h)) h b))
    (hown : SpendsNoOwn (w.content b)) :
    utxoApplyEmitInverseDelta { db with coins := chainCoins w (blocks.take (h + 1)) } h =
      some { db with coins := chainCoins w (blocks.take h) } := by
  obtain ⟨st, hacc, hreports, htop, hundo⟩ := hvalid.block hw hb
  have hrestored := (undoDelta_applyCoinsKv_iff hacc hreports).mpr hown
  rw [← htop] at hrestored
  have hemit := hundo { db with coins := chainCoins w (blocks.take (h + 1)) } hrow
  rw [hemit, hrestored]

theorem emitInverseDeltas_chainCoins (h : FollowsChain w db blocks)
    {lo hi : ℕ} (hlo : lo ≤ hi) (hhi : hi ≤ blocks.length)
    (hown : ∀ k b, lo ≤ k → blocks[k]? = some b → SpendsNoOwn (w.content b)) :
    emitInverseDeltas (fun _ _ => true) lo hi { db with coins := chainCoins w (blocks.take hi) } =
      some { db with coins := chainCoins w (blocks.take lo) } := by
  induction hi with
  | zero =>
    cases Nat.le_zero.mp hlo
    rfl
  | succ k ih =>
    rw [emitInverseDeltas]
    by_cases hk : k < lo
    · have heq : lo = k + 1 := by omega
      rw [if_pos hk, heq]
    · have hb : blocks[k]? = some blocks[k] := getElem?_eq_getElem hhi
      rw [if_neg hk, emitInverseDelta_chainCoins hw h.valid hb (h.rows k _ hb)
        (hown k _ (not_lt.mp hk) hb)]
      exact ih (not_lt.mp hk) (by omega)

theorem FollowsChain.unwind {node : Node} {commits : Bool}
    (h : FollowsChain w node.db blocks)
    (hdb : utxoApplyReorgUnwindIfNeeded .stage commits node = some db)
    (hown : ∀ k row, db.cursor .utxoApply ≤ k → node.db.utxoApplyDelta.lookup k = some row →
      SpendsNoOwn (w.content row.branchHash)) :
    ∃ n ≤ blocks.length, FollowsChain w db (blocks.take n) := by
  rcases unwindIfNeeded_some hdb with ⟨rfl, -⟩ | ⟨hpos, -, hunwind⟩
  · exact ⟨blocks.length, le_rfl, by rwa [take_length]⟩
  have hfork := forkPlus1_le node (node.db.cursor .utxoApply - 1)
  have hcursor := h.applied.cursor
  set lo := forkPlus1 node (node.db.cursor .utxoApply - 1)
  have hlo : lo ≤ blocks.length := by omega
  obtain ⟨db₁, hemit, rfl⟩ := Option.map_eq_some_iff.mp hunwind
  have hundo := emitInverseDeltas_chainCoins hw h hlo le_rfl ?_
  swap
  · intro k b hk hb
    refine hown k _ ?_ (h.rows k b hb)
    rw [cursor_rewindUtxoApply, if_pos rfl]
    exact hk
  rw [take_length, ← h.coins, ← hcursor] at hundo
  cases Option.some.inj (hemit.symm.trans hundo)
  refine ⟨lo, hlo, h.applied.rewind _ hlo, h.valid.take lo, rfl, ?_⟩
  intro k b hb
  rw [getElem?_take] at hb
  split_ifs at hb with hk
  rw [rewindUtxoApply_delta, if_neg (by omega), take_take, Nat.min_eq_left hk.le]
  exact h.rows k b hb

end

theorem FollowsChain.apply (node : Node) {env : UtxoApplyEnv} (h : FollowsChain w node.db blocks)
    (hauthor : env.author = .stage) {k : ℕ} {bi : UInt256} (haccepts : Accepts w env node k bi)
    (hlt : node.db.cursor .utxoApply < 2 ^ 31) :
    FollowsChain w (appliedNode w env k bi node).db (blocks ++ [bi]) := by
  have hk := haccepts.eq_cursor hlt
  have hlen := h.applied.cursor
  have hdelta : stageDelta w node.db k bi = deltaOver w (chainCoins w blocks) blocks.length bi := by
    rw [hk, hlen, ← h.coins]
    rfl
  have hok := haccepts.delta
  rw [hdelta] at hok
  refine ⟨h.applied.apply hk bi, h.valid.append (by omega) hok, ?_, ?_⟩
  · rw [chainCoins_append, coinsAfter, ← hdelta, ← h.coins, ← hlen, ← hk]
    simp only [appliedNode, applyToStore, hauthor]
    rfl
  · intro i b hb
    have hrow : (appliedNode w env k bi node).db.utxoApplyDelta.lookup i =
        if i = blocks.length then some (deltaRow w (chainCoins w blocks) blocks.length bi)
        else node.db.utxoApplyDelta.lookup i := by
      rw [deltaRow, ← hdelta, ← hlen, ← hk]
      exact lookup_applyToStore_delta w env.author (node.db.cursor .utxoApply) k bi node.db i
    rw [hrow]
    rcases Nat.lt_or_ge i blocks.length with hi | hi
    · rw [if_neg hi.ne, take_append_of_le_length hi.le]
      rw [getElem?_append_left hi] at hb
      exact h.rows i b hb
    · rw [getElem?_append_right hi, getElem?_singleton] at hb
      split_ifs at hb with hzero
      cases hb
      have heq : i = blocks.length := by omega
      rw [if_pos heq, heq, take_left]

end ZClassic
