import ZClassic.Validation.MempoolIndex
import ZClassic.Wallet.SyncOrder

/-!
# A send that fails

`wallet_commit_transaction` records the transaction and marks its inputs before the memory pool is
asked.
-/

namespace ZClassic

open List Function

open LinearProbing

/-- The call had no effect that the wallet's functions show. -/
structure SameWallet (hash160 : List UInt8 → UInt160) (w w' : Wallet) : Prop where
  mapWallet : w'.mapWallet = w.mapWallet
  numWalletTx : w'.numWalletTx = w.numWalletTx
  spentSet : w'.spentSet = w.spentSet
  availableCoins : ∀ maxCoins onlyConfirmed includeZeroValue,
    walletAvailableCoins hash160 w' maxCoins onlyConfirmed includeZeroValue =
      walletAvailableCoins hash160 w maxCoins onlyConfirmed includeZeroValue
  balance : walletGetBalance hash160 w' = walletGetBalance hash160 w

/-- There is nothing to record of the transaction: it is known with the same block and depth, and
its inputs are marked, as far as the spent set has room. -/
def NothingToRecord (w : Wallet) (wtx : WalletTx) : Prop :=
  ∃ idx old, walletFindSlot w wtx.tx.hash = some idx ∧ w.mapWallet idx = some old ∧
    old.hashBlock = wtx.hashBlock ∧ old.confirms = wtx.confirms ∧
    ∀ o ∈ wtx.tx.outpoints, walletIsOutpointSpent spentHash w.spentSet o = true ∨
      ∀ q, w.spentSet.slots q ≠ none

/-- The pool has room for the copy of the transaction and holds no other spend of its inputs. -/
def PoolTakes (mempool : TxMempool) (tx : WireTransaction) : Prop :=
  mempool.totalTxSize + (transactionSerialize (transactionCopy tx)).length ≤ maxMempoolSize ∧
    txMempoolHasConflict mempool (transactionCopy tx) = false ∧
    (reserveOutpoints mempool (transactionCopy tx).vin.length).isSome = true

section Mark

variable {set : SpentSet} {o : Outpoint}

theorem markOutpointSpent_cases (set : SpentSet) (o : Outpoint) :
    (walletMarkOutpointSpent spentHash set o = set ∧
        (walletIsOutpointSpent spentHash set o = true ∨ ∀ q, set.slots q ≠ none)) ∨
      ((walletMarkOutpointSpent spentHash set o).numSpent = set.numSpent + 1 ∧
        ¬(walletIsOutpointSpent spentHash set o = true ∨ ∀ q, set.slots q ≠ none)) := by
  unfold walletMarkOutpointSpent walletIsOutpointSpent
  rcases insert_cases succSlot set.slots o () spentSetBuckets (spentHash o) with
    ⟨j, hfind, hinsert⟩ | ⟨hfind, n, -, f, -, hfree, hinsert⟩ |
    ⟨hfind, hinsert, hused⟩
  · obtain ⟨v, hv⟩ := find_sound hfind
    have hsame : update set.slots j (some (o, ())) = set.slots := by
      rw [update_eq_self_iff]
      exact hv.symm
    rw [hinsert, hfind, hsame]
    exact .inl ⟨rfl, .inl rfl⟩
  · rw [hinsert, hfind]
    refine .inr ⟨rfl, ?_⟩
    rintro (hspent | hfull)
    · exact nomatch hspent
    · exact hfull f hfree
  · rw [hinsert]
    refine .inl ⟨rfl, .inr ?_⟩
    intro q
    rw [← succSlot_iterate_dist (spentHash o) q]
    exact hused _ (dist_lt _ q)

theorem markOutpointSpent_eq_self_iff :
    walletMarkOutpointSpent spentHash set o = set ↔
      walletIsOutpointSpent spentHash set o = true ∨ ∀ q, set.slots q ≠ none := by
  rcases markOutpointSpent_cases set o with ⟨hsame, hor⟩ | ⟨hnum, hnot⟩
  · exact iff_of_true hsame hor
  · refine iff_of_false ?_ hnot
    intro hsame
    rw [hsame] at hnum
    omega

theorem numSpent_le_foldl (l : List Outpoint) (set : SpentSet) :
    set.numSpent ≤ (l.foldl (walletMarkOutpointSpent spentHash) set).numSpent := by
  induction l generalizing set with
  | nil => exact Nat.le.refl
  | cons o l ih =>
    have hrest := ih (walletMarkOutpointSpent spentHash set o)
    rw [foldl_cons]
    rcases markOutpointSpent_cases set o with ⟨hsame, -⟩ | ⟨hnum, -⟩
    · rwa [hsame] at hrest ⊢
    · omega

theorem foldl_mark_eq_self_iff (l : List Outpoint) :
    l.foldl (walletMarkOutpointSpent spentHash) set = set ↔
      ∀ o ∈ l, walletIsOutpointSpent spentHash set o = true ∨ ∀ q, set.slots q ≠ none := by
  induction l with
  | nil => simp
  | cons o l ih =>
    rw [foldl_cons, forall_mem_cons, ← ih, ← markOutpointSpent_eq_self_iff]
    constructor
    · intro hfold
      have hmark : walletMarkOutpointSpent spentHash set o = set := by
        rcases markOutpointSpent_cases set o with ⟨hsame, -⟩ | ⟨hnum, -⟩
        · exact hsame
        · -- a mark that counts is never taken back
          have hle := numSpent_le_foldl l (walletMarkOutpointSpent spentHash set o)
          rw [hfold] at hle
          omega
      rw [hmark] at hfold
      exact ⟨hmark, hfold⟩
    · rintro ⟨hmark, hfold⟩
      rw [hmark, hfold]

end Mark

section Failure

variable {hash160 : List UInt8 → UInt160} {params : ConsensusParams} {w : Wallet} {wtx : WalletTx}

theorem addToWallet_eq_none_iff :
    walletAddToWallet w wtx = none ↔
      walletFindSlot w wtx.tx.hash = none ∧ walletFindFreeSlot w = none := by
  cases hfind : walletFindSlot w wtx.tx.hash with
  | some idx =>
    rw [addToWallet_known hfind]
    simp
  | none =>
    rw [walletAddToWallet_new hfind]
    simp

theorem confirmSlot_mapWallet_eq_iff {idx : Fin maxWalletTx} {old : WalletTx}
    (hold : w.mapWallet idx = some old) (hashBlock : UInt256) (confirms : ℤ) :
    (confirmSlot w idx hashBlock confirms).mapWallet = w.mapWallet ↔
      old.hashBlock = hashBlock ∧ old.confirms = confirms := by
  unfold confirmSlot
  rw [update_eq_self_iff, hold, Option.map_some, Option.some.injEq]
  constructor
  · intro h
    rw [← h]
    exact ⟨rfl, rfl⟩
  · rintro ⟨rfl, rfl⟩
    rfl

theorem sameWallet_iff {w' : Wallet} (hkeys : w'.keystore = w.keystore) :
    SameWallet hash160 w w' ↔ w'.mapWallet = w.mapWallet ∧ w'.numWalletTx = w.numWalletTx ∧
      w'.spentSet = w.spentSet := by
  constructor
  · exact fun h => ⟨h.mapWallet, h.numWalletTx, h.spentSet⟩
  · rintro ⟨hmap, hnum, hset⟩
    refine ⟨hmap, hnum, hset, ?_, ?_⟩
    · intro maxCoins onlyConfirmed includeZeroValue
      simp only [walletAvailableCoins, usedTxs, unspentOutputs, hmap, hset, hkeys]
    · simp only [walletGetBalance, usedTxs, unspentOutputs, hmap, hset, hkeys]

variable {added : Wallet}

theorem addToWallet_same_iff (hadd : walletAddToWallet w wtx = some added) :
    added.keystore = w.keystore ∧ added.spentSet = w.spentSet ∧
      (added.mapWallet = w.mapWallet ∧ added.numWalletTx = w.numWalletTx ↔
        ∃ idx old, walletFindSlot w wtx.tx.hash = some idx ∧ w.mapWallet idx = some old ∧
          old.hashBlock = wtx.hashBlock ∧ old.confirms = wtx.confirms) := by
  cases hfind : walletFindSlot w wtx.tx.hash with
  | some idx =>
    obtain ⟨old, hold, -⟩ := walletFindSlot_some hfind
    rw [addToWallet_known hfind, Option.some.injEq] at hadd
    rw [← hadd, confirmSlot_mapWallet_eq_iff hold]
    refine ⟨rfl, rfl, ?_⟩
    constructor
    · rintro ⟨hsame, -⟩
      exact ⟨idx, old, rfl, hold, hsame⟩
    · rintro ⟨idx', old', hidx, hold', hsame⟩
      rw [← Option.some.inj hidx, hold, Option.some.injEq] at hold'
      rw [← hold'] at hsame
      exact ⟨hsame, rfl⟩
  | none =>
    rw [walletAddToWallet_new hfind, Option.map_eq_some_iff] at hadd
    obtain ⟨idx, -, rfl⟩ := hadd
    refine ⟨rfl, rfl, iff_of_false ?_ ?_⟩
    · rintro ⟨-, hnum⟩
      exact Nat.succ_ne_self _ hnum
    · rintro ⟨idx, old, hidx, -⟩
      exact nomatch hidx

theorem commitTransaction_wallet (hadd : walletAddToWallet w wtx = some added)
    (mempool : TxMempool) (now : Int64) :
    (walletCommitTransaction hash160 w params wtx mempool now).2.1 =
      { added with
        spentSet := wtx.tx.outpoints.foldl (walletMarkOutpointSpent spentHash) added.spentSet } :=
  walletStep_commit hadd

theorem addUnchecked_isSome_iff {pool : TxMempool} {entry : MempoolEntry} {out : Option TxMempool}
    (h : txMempoolAddUnchecked pool entry = out) :
    out.isSome = true ↔ pool.totalTxSize + entry.txSize ≤ maxMempoolSize ∧
      txMempoolHasConflict pool entry.tx = false ∧
      (reserveOutpoints pool entry.tx.vin.length).isSome = true := by
  subst h
  unfold txMempoolAddUnchecked
  split_ifs with hsize hconflict
  · exact iff_of_false Bool.false_ne_true fun h => absurd h.1 (Nat.not_le.mpr hsize)
  · exact iff_of_false Bool.false_ne_true fun h => absurd hconflict (Bool.eq_false_iff.mp h.2.1)
  · rw [and_iff_right (Nat.not_lt.mp hsize), and_iff_right (Bool.eq_false_iff.mpr hconflict)]
    cases reserveOutpoints pool entry.tx.vin.length <;> rfl

/-- A transaction is sent if the wallet has recorded it and the pool takes it. -/
theorem commitTransaction_sent_iff (mempool : TxMempool) (now : Int64) :
    (walletCommitTransaction hash160 w params wtx mempool now).1 = true ↔
      walletAddToWallet w wtx ≠ none ∧ PoolTakes mempool wtx.tx := by
  unfold walletCommitTransaction
  cases walletAddToWallet w wtx with
  | none => exact iff_of_false Bool.false_ne_true fun h => h.1 rfl
  | some added =>
    rw [and_iff_right (Option.some_ne_none added)]
    dsimp only
    split
    next hadd => exact addUnchecked_isSome_iff hadd
    next hadd => exact addUnchecked_isSome_iff hadd

theorem commitTransaction_same_iff (mempool : TxMempool) (now : Int64) :
    SameWallet hash160 w (walletCommitTransaction hash160 w params wtx mempool now).2.1 ↔
      walletAddToWallet w wtx = none ∨ NothingToRecord w wtx := by
  cases hadd : walletAddToWallet w wtx with
  | none =>
    have hsame : (walletCommitTransaction hash160 w params wtx mempool now).2.1 = w := by
      rw [walletCommitTransaction, hadd]
    rw [hsame, sameWallet_iff rfl]
    exact iff_of_true ⟨rfl, rfl, rfl⟩ (.inl rfl)
  | some added =>
    obtain ⟨hkeys, hset, hiff⟩ := addToWallet_same_iff hadd
    rw [commitTransaction_wallet hadd]
    refine (sameWallet_iff (by exact hkeys)).trans ?_
    rw [← and_assoc, hiff, hset, foldl_mark_eq_self_iff, or_iff_right (Option.some_ne_none added)]
    constructor
    · rintro ⟨⟨idx, old, hfind, hold, hblock, hconfirms⟩, hmarks⟩
      exact ⟨idx, old, hfind, hold, hblock, hconfirms, hmarks⟩
    · rintro ⟨idx, old, hfind, hold, hblock, hconfirms, hmarks⟩
      exact ⟨⟨idx, old, hfind, hold, hblock, hconfirms⟩, hmarks⟩

/-- A send leaves the wallet as it was exactly if the table was full for it, or there was nothing to
record. A failed one does so in these cases only, and it fails unless the pool takes the
transaction. -/
theorem commit_sameWallet_iff (hash160 : List UInt8 → UInt160) (params : ConsensusParams)
    (w : Wallet) (wtx : WalletTx) (mempool : TxMempool) (now : Int64) :
    let out := walletCommitTransaction hash160 w params wtx mempool now
    let full := walletFindSlot w wtx.tx.hash = none ∧ walletFindFreeSlot w = none
    (SameWallet hash160 w out.2.1 ↔ full ∨ NothingToRecord w wtx) ∧
      ((out.1 = false → SameWallet hash160 w out.2.1) ↔
        PoolTakes mempool wtx.tx ∨ full ∨ NothingToRecord w wtx) := by
  intro out full
  have hsent : out.1 = true ↔ walletAddToWallet w wtx ≠ none ∧ PoolTakes mempool wtx.tx :=
    commitTransaction_sent_iff mempool now
  have hsame : SameWallet hash160 w out.2.1 ↔ full ∨ NothingToRecord w wtx := by
    rw [commitTransaction_same_iff, addToWallet_eq_none_iff]
  refine ⟨hsame, ?_⟩
  rw [← hsame]
  constructor
  · intro h
    by_cases htakes : PoolTakes mempool wtx.tx
    · exact .inl htakes
    · exact .inr (h (Bool.eq_false_iff.mpr fun hout => htakes (hsent.mp hout).2))
  · rintro (htakes | h) hfalse
    · refine hsame.mpr (.inl (addToWallet_eq_none_iff.mp ?_))
      by_contra hadd
      rw [hsent.mpr ⟨hadd, htakes⟩] at hfalse
      cases hfalse
    · exact h

end Failure

section Pool

variable {pool : TxMempool} {entry : MempoolEntry}

theorem txMempoolAddUnchecked_isSome (h : pool.Indexed) (hentry : entry.Initialised)
    (hsize : pool.totalTxSize + entry.txSize ≤ maxMempoolSize)
    (hfresh : ∀ op ∈ entry.tx.outpoints, ∀ ip, ¬pool.SpendsAt op ip) :
    ∃ pool', txMempoolAddUnchecked pool entry = some pool' := by
  have hinputs := inputs_le_serialize entry.tx
  rw [← hentry.size] at hinputs
  obtain ⟨m, hreserve, -⟩ :=
    h.reserve (show pool.totalTxSize + 41 * entry.tx.vin.length ≤ maxMempoolSize by omega)
  refine Option.isSome_iff_exists.mp ((addUnchecked_isSome_iff rfl).mpr ?_)
  exact ⟨hsize, h.not_conflict.mpr hfresh, by rw [hreserve]; rfl⟩

theorem txMempoolHasConflict_of_added {pool' : TxMempool} {tx : WireTransaction} {op : Outpoint}
    (h : pool.Indexed) (hentry : entry.Initialised) (hnodup : entry.tx.outpoints.Nodup)
    (hadd : txMempoolAddUnchecked pool entry = some pool') (hop : entry.tx.outpoints[0]? = some op)
    (hop' : op ∈ tx.outpoints) : txMempoolHasConflict pool' tx = true := by
  have h' := h.addUnchecked hentry hnodup hadd
  obtain ⟨-, -, m, -, hpool'⟩ := TxMempool.addUnchecked_inv hentry hadd
  by_contra hconflict
  rw [Bool.not_eq_true, h'.not_conflict] at hconflict
  apply hconflict op hop' ⟨pool.entries.length, 0⟩
  rw [TxMempool.spendsAt_concat (by rw [hpool'])]
  exact .inr ⟨rfl, hop⟩

end Pool

def poolWithSpend : TxMempool :=
  (txMempoolAddUnchecked (txMempoolInit 0)
    (mempoolEntryInit (payment 3 1) 0 0 0 true false 0)).getD (txMempoolInit 0)

theorem poolWithSpend_refuses : ¬PoolTakes poolWithSpend (payment 2 1) := by
  have hinit := TxMempool.txMempoolInit_indexed 0
  have hentry := mempoolEntryInit_initialised (payment 3 1) 0 0 0 true false 0
  have hsize : (txMempoolInit 0).totalTxSize +
      (mempoolEntryInit (payment 3 1) 0 0 0 true false 0).txSize ≤ maxMempoolSize := by
    rw [hentry.size, serialize_length]
    decide +kernel
  obtain ⟨pool, hpool⟩ := txMempoolAddUnchecked_isSome hinit hentry hsize
    fun op _ ip ⟨e, he, _⟩ => nomatch he
  rintro ⟨-, hfresh, -⟩
  rw [poolWithSpend, hpool, Option.getD_some, txMempoolHasConflict_of_added hinit hentry
    (nodup_singleton _) hpool rfl (mem_singleton.mpr rfl)] at hfresh
  cases hfresh

theorem commit_poolWithSpend_changes :
    (walletCommitTransaction constHash160 payeeWallet mainParams { tx := payment 2 1 } poolWithSpend
        0).1 = false ∧
      ¬SameWallet constHash160 payeeWallet (walletCommitTransaction constHash160 payeeWallet
        mainParams { tx := payment 2 1 } poolWithSpend 0).2.1 := by
  refine ⟨Bool.eq_false_iff.mpr fun hsent => ?_, fun hsame => ?_⟩
  · exact poolWithSpend_refuses ((commitTransaction_sent_iff _ _).mp hsent).2
  have hslot : (walletFindFreeSlot payeeWallet).isSome = true :=
    findFreeSlot_isSome (i := ⟨0, by decide⟩) rfl
  obtain ⟨added, hadd⟩ := addToWallet_isSome hslot { tx := payment 2 1 }
  have hnum := hsame.numWalletTx
  have hmap := hsame.mapWallet
  rw [commitTransaction_wallet hadd] at hnum hmap
  obtain ⟨-, -, hiff⟩ := addToWallet_same_iff hadd
  obtain ⟨idx, old, hfind, -⟩ := hiff.mp ⟨hmap, hnum⟩
  rw [payeeWallet_findSlot] at hfind
  exact nomatch hfind

end ZClassic
