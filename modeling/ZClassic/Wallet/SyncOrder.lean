import ZClassic.Wallet.Wallet

/-!
# The order in which the wallet sees transactions

`wallet_sync_transaction` and `wallet_commit_transaction` mark what a transaction spends against the
transactions recorded so far, `wallet_rebuild_spent_set` against all of them.
-/

namespace ZClassic

open List Function

inductive WalletCall where
  | sync (tx : WireTransaction) (pindex : Option SyncIndex) (now : Int64)
  | commit (wtx : WalletTx) (mempool : TxMempool) (now : Int64)

def WalletCall.tx : WalletCall → WireTransaction
  | .sync tx _ _ => tx
  | .commit wtx _ _ => wtx.tx

section Agreement

variable (hash160 : List UInt8 → UInt160) (params : ConsensusParams)

variable (w : Wallet)

def walletStep : WalletCall → Wallet
  | .sync tx pindex now => walletSyncTransaction hash160 w tx pindex now
  | .commit wtx mempool now => (walletCommitTransaction hash160 w params wtx mempool now).2.1

def Wallet.Spends (o : Outpoint) : Prop :=
  ∃ i wtx, w.mapWallet i = some wtx ∧ o ∈ wtx.tx.outpoints

def Wallet.Owns (o : Outpoint) : Prop := (ownOutput hash160 w o).isSome = true

/-- The outpoint is an output of the transaction that pays to a key of the wallet. -/
def Wallet.Pays (tx : WireTransaction) (o : Outpoint) : Prop :=
  o.hash = tx.hash ∧ (tx.vout[o.n.toNat]?).any (walletIsMine hash160 w.keystore) = true

def marksOf : WalletCall → List Outpoint
  | .sync tx _ _ => tx.outpoints.filter fun o => (ownOutput hash160 w o).isSome
  | .commit wtx _ _ => wtx.tx.outpoints

/-- What a call has to mark so that nothing is left to the rebuilding of the spent set. -/
structure InOrder (c : WalletCall) : Prop where
  /-- a transaction that is recorded spends nothing of the wallet that is not spent already -/
  known : walletFindSlot w c.tx.hash ≠ none → ∀ o ∈ marksOf hash160 w c,
    w.Spends o ∧ w.Owns hash160 o
  /-- what a new transaction is marked to spend is the wallet's -/
  own : walletFindSlot w c.tx.hash = none → ∀ o ∈ marksOf hash160 w c,
    w.Owns hash160 o ∨ w.Pays hash160 c.tx o
  /-- a new transaction pays the wallet no output that is spent by then, unless the call marks it -/
  unspent : walletFindSlot w c.tx.hash = none → ∀ o, w.Spends o ∨ o ∈ c.tx.outpoints →
    w.Pays hash160 c.tx o → o ∈ marksOf hash160 w c

/-- A committed transaction is sent, there is a slot for a new one, and the spent set does not
fill. -/
structure HasRoom (c : WalletCall) : Prop where
  sent : match c with
    | .sync .. => True
    | .commit wtx mempool now => (walletCommitTransaction hash160 w params wtx mempool now).1 = true
  slot : (walletFindFreeSlot w).isSome = true
  spent : (walletStep hash160 params w c).spentSet.numSpent < spentSetBuckets

structure SameSpends (set set' : SpentSet) : Prop where
  isSpent : ∀ o, walletIsOutpointSpent spentHash set o = walletIsOutpointSpent spentHash set' o
  numSpent : set.numSpent = set'.numSpent

def Agrees (w : Wallet) : Prop := SameSpends w.spentSet (walletRebuildSpentSet hash160 w).spentSet

end Agreement

variable {m : Finset Outpoint} {o : Outpoint} {now : Int64} {wtx : WalletTx}
  {pindex : Option SyncIndex} {tx : WireTransaction}

theorem Records.markAll {set : SpentSet} (h : Records spentHash set m) (l : List Outpoint) :
    ∃ m', Records spentHash (l.foldl (walletMarkOutpointSpent spentHash) set) m' ∧ m ⊆ m' ∧
      m' ⊆ m ∪ l.toFinset ∧ (m'.card < spentSetBuckets → m' = m ∪ l.toFinset) := by
  induction l generalizing set m with
  | nil => exact ⟨m, h, Finset.Subset.refl m, by simp, by simp⟩
  | cons o l ih =>
    by_cases hroom : (insert o m).card ≤ spentSetBuckets
    · obtain ⟨m', hm', hsub, hbound, heq⟩ := ih (h.mark hroom)
      have hunion : insert o m ∪ l.toFinset = m ∪ (o :: l).toFinset := by
        ext x
        simp
      rw [hunion] at hbound heq
      exact ⟨m', hm', (Finset.subset_insert o m).trans hsub, hbound, heq⟩
    · -- the set was full before, and stays as it is
      have hle := card_le_of_isSpent h.isSpent
      have hinsert := Finset.card_insert_le o m
      have ho : o ∉ m := by
        intro ho
        rw [Finset.insert_eq_of_mem ho] at hroom
        exact hroom hle
      have hfull := h.mark_full ho (by omega)
      rw [foldl_cons, hfull]
      obtain ⟨m', hm', hsub, hbound, -⟩ := ih h
      refine ⟨m', hm', hsub, hbound.trans ?_, ?_⟩
      · apply Finset.union_subset_union_right
        simp
      · intro hlt
        have hcard := Finset.card_le_card hsub
        omega

variable {hash160 : List UInt8 → UInt160} {params : ConsensusParams}

section Recorded

variable {w w' : Wallet}

def Wallet.Rebuilds (hash160 : List UInt8 → UInt160) (w : Wallet) (o : Outpoint) : Prop :=
  w.Spends o ∧ w.Owns hash160 o

/-- The same keys, and the same transactions in the same slots. -/
structure SameTxs (w w' : Wallet) : Prop where
  keystore : w'.keystore = w.keystore
  tx : ∀ i, (w'.mapWallet i).map (·.tx) = (w.mapWallet i).map (·.tx)

theorem walletFindSlot_eq (w : Wallet) (hash : UInt256) :
    walletFindSlot w hash =
      firstSlot fun i => ((w.mapWallet i).map (·.tx)).any (·.hash == hash) := by
  unfold walletFindSlot
  simp only [Option.any_map]

theorem ownOutput_eq (w : Wallet) (o : Outpoint) :
    ownOutput hash160 w o =
      ((((walletFindSlot w o.hash).bind fun i => (w.mapWallet i).map (·.tx)).bind
        fun tx => tx.vout[o.n.toNat]?).filter (walletIsMine hash160 w.keystore)) := by
  unfold ownOutput walletGetTx
  cases walletFindSlot w o.hash with
  | none => rfl
  | some i =>
    cases hi : w.mapWallet i with
    | none => simp [hi]
    | some wtx =>
      simp only [Option.bind_some, hi, Option.map_some, Option.bind_eq_bind]
      cases wtx.tx.vout[o.n.toNat]? <;> simp [Option.filter]

theorem SameTxs.findSlot (h : SameTxs w w') (hash : UInt256) :
    walletFindSlot w' hash = walletFindSlot w hash := by
  rw [walletFindSlot_eq, walletFindSlot_eq]
  simp only [h.tx]

theorem SameTxs.owns (h : SameTxs w w') (o : Outpoint) : w'.Owns hash160 o ↔ w.Owns hash160 o := by
  unfold Wallet.Owns
  rw [ownOutput_eq, ownOutput_eq, h.findSlot, h.keystore]
  simp only [h.tx]

theorem spends_iff :
    w.Spends o ↔ ∃ i tx, (w.mapWallet i).map (·.tx) = some tx ∧ o ∈ tx.outpoints := by
  simp [Wallet.Spends]

theorem SameTxs.rebuilds (h : SameTxs w w') (o : Outpoint) :
    w'.Rebuilds hash160 o ↔ w.Rebuilds hash160 o := by
  unfold Wallet.Rebuilds
  rw [h.owns, spends_iff, spends_iff]
  simp only [h.tx]

theorem sameTxs_confirmSlot (w : Wallet) (idx : Fin maxWalletTx) (hashBlock : UInt256)
    (confirms : ℤ) : SameTxs w (confirmSlot w idx hashBlock confirms) := by
  refine ⟨rfl, ?_⟩
  intro i
  unfold confirmSlot
  dsimp only
  by_cases hi : i = idx
  · rw [hi, update_self, Option.map_map]
    rfl
  · rw [update_of_ne hi]

/-- The wallet with a transaction in a slot that was free. -/
structure AddedAt (w w' : Wallet) (idx : Fin maxWalletTx) (wtx : WalletTx) : Prop where
  keystore : w'.keystore = w.keystore
  free : w.mapWallet idx = none
  map : w'.mapWallet = Function.update w.mapWallet idx (some wtx)

variable {idx : Fin maxWalletTx}

theorem AddedAt.findSlot (h : AddedAt w w' idx wtx) (hnew : walletFindSlot w wtx.tx.hash = none)
    (hash : UInt256) :
    walletFindSlot w' hash = if hash = wtx.tx.hash then some idx else walletFindSlot w hash := by
  split_ifs with heq
  · -- no other slot has the hash
    cases hfind : walletFindSlot w' hash with
    | none =>
      have hidx := firstSlot_eq_none_iff.mp hfind idx
      rw [h.map, update_self, Option.any_some, heq, beq_self_eq_true] at hidx
      exact nomatch hidx
    | some j =>
      by_cases hj : j = idx
      · rw [hj]
      · obtain ⟨x, hx, hhash⟩ := walletFindSlot_some hfind
        rw [h.map, update_of_ne hj] at hx
        exact absurd (hhash.trans heq) (walletFindSlot_none hnew hx)
  · apply congrArg firstSlot
    funext i
    by_cases hi : i = idx
    · rw [h.map, hi, update_self, h.free, Option.any_some, Option.any_none]
      exact beq_eq_false_iff_ne.mpr (Ne.symm heq)
    · rw [h.map, update_of_ne hi]

theorem not_owns_of_new (hnew : walletFindSlot w o.hash = none) : ¬w.Owns hash160 o := by
  unfold Wallet.Owns
  rw [ownOutput_eq, hnew]
  exact Bool.false_ne_true

theorem AddedAt.owns (h : AddedAt w w' idx wtx) (hnew : walletFindSlot w wtx.tx.hash = none)
    (o : Outpoint) : w'.Owns hash160 o ↔ w.Owns hash160 o ∨ w.Pays hash160 wtx.tx o := by
  by_cases ho : o.hash = wtx.tx.hash
  · rw [or_iff_right (not_owns_of_new (ho ▸ hnew))]
    unfold Wallet.Owns Wallet.Pays
    rw [ownOutput_eq, h.findSlot hnew, if_pos ho, h.keystore, Option.bind_some, h.map,
      update_self, Option.map_some, Option.bind_some, and_iff_right ho]
    cases wtx.tx.vout[o.n.toNat]? <;> simp [Option.filter]
  · rw [or_iff_left fun hpays => ho hpays.1]
    unfold Wallet.Owns
    rw [ownOutput_eq, ownOutput_eq, h.findSlot hnew, if_neg ho, h.keystore]
    -- the slot that was free is not found
    cases hfind : walletFindSlot w o.hash with
    | none => rfl
    | some i =>
      have hi : i ≠ idx := by
        rintro rfl
        obtain ⟨x, hx, -⟩ := walletFindSlot_some hfind
        rw [h.free] at hx
        exact nomatch hx
      rw [Option.bind_some, Option.bind_some, h.map, update_of_ne hi]

theorem AddedAt.spends (h : AddedAt w w' idx wtx) (o : Outpoint) :
    w'.Spends o ↔ w.Spends o ∨ o ∈ wtx.tx.outpoints := by
  unfold Wallet.Spends
  rw [h.map]
  constructor
  · rintro ⟨i, x, hx, ho⟩
    by_cases hi : i = idx
    · rw [hi, update_self, Option.some.injEq] at hx
      exact .inr (hx ▸ ho)
    · rw [update_of_ne hi] at hx
      exact .inl ⟨i, x, hx, ho⟩
  · rintro (⟨i, x, hx, ho⟩ | ho)
    · have hi : i ≠ idx := by
        rintro rfl
        rw [h.free] at hx
        exact nomatch hx
      exact ⟨i, x, by rw [update_of_ne hi, hx], ho⟩
    · exact ⟨idx, wtx, update_self .., ho⟩

theorem addToWallet_known (hknown : walletFindSlot w wtx.tx.hash = some idx) :
    walletAddToWallet w wtx = some (confirmSlot w idx wtx.hashBlock wtx.confirms) := by
  rw [walletAddToWallet, hknown]

theorem walletAddToWallet_new (hnew : walletFindSlot w wtx.tx.hash = none) :
    walletAddToWallet w wtx = (walletFindFreeSlot w).map fun idx =>
      { w with
        mapWallet := update w.mapWallet idx (some wtx)
        numWalletTx := w.numWalletTx + 1 } := by
  rw [walletAddToWallet, hnew]

/-- A transaction that is known changes no record of a transaction, a new one takes a free slot. -/
theorem walletAddToWallet_cases (h : walletAddToWallet w wtx = some w') :
    w'.spentSet = w.spentSet ∧
      (walletFindSlot w wtx.tx.hash ≠ none ∧ SameTxs w w' ∨
        walletFindSlot w wtx.tx.hash = none ∧ ∃ idx, AddedAt w w' idx wtx) := by
  cases hfind : walletFindSlot w wtx.tx.hash with
  | some idx =>
    rw [addToWallet_known hfind, Option.some.injEq] at h
    rw [← h]
    exact ⟨rfl, .inl ⟨Option.some_ne_none idx, sameTxs_confirmSlot ..⟩⟩
  | none =>
    rw [walletAddToWallet_new hfind, Option.map_eq_some_iff] at h
    obtain ⟨idx, hfree, rfl⟩ := h
    refine ⟨rfl, .inr ⟨rfl, idx, rfl, ?_, rfl⟩⟩
    exact Option.isNone_iff_eq_none.mp (firstSlot_eq_some hfree)

theorem addToWallet_isSome (hslot : (walletFindFreeSlot w).isSome = true) (wtx : WalletTx) :
    ∃ w', walletAddToWallet w wtx = some w' := by
  obtain ⟨free, hfree⟩ := Option.isSome_iff_exists.mp hslot
  cases hfind : walletFindSlot w wtx.tx.hash with
  | some idx => exact ⟨_, addToWallet_known hfind⟩
  | none => exact ⟨_, by rw [walletAddToWallet_new hfind, hfree, Option.map_some]⟩

end Recorded

section Steps

variable {w : Wallet} {c : WalletCall}

theorem mem_marksOf_outpoints (h : o ∈ marksOf hash160 w c) : o ∈ c.tx.outpoints := by
  cases c with
  | sync tx pindex now => exact (mem_filter.mp h).1
  | commit wtx mempool now => exact h

theorem mem_marksOf_of_owns (ho : o ∈ c.tx.outpoints) (hown : w.Owns hash160 o) :
    o ∈ marksOf hash160 w c := by
  cases c with
  | sync tx pindex now => exact mem_filter.mpr ⟨ho, hown⟩
  | commit wtx mempool now => exact ho

theorem markOwnSpends_eq (set : SpentSet) (tx : WireTransaction) :
    markOwnSpends hash160 w set tx =
      (tx.outpoints.filter fun o => (ownOutput hash160 w o).isSome).foldl
        (walletMarkOutpointSpent spentHash) set := by
  rw [foldl_filter]
  rfl

theorem walletStep_commit {mempool : TxMempool} {added : Wallet}
    (h : walletAddToWallet w wtx = some added) :
    walletStep hash160 params w (.commit wtx mempool now) =
      { added with
        spentSet :=
          wtx.tx.outpoints.foldl (walletMarkOutpointSpent spentHash) added.spentSet } := by
  rw [walletStep, walletCommitTransaction, h]
  dsimp only
  split <;> rfl

theorem walletStep_sync (hdominated : isDominated hash160 w tx = true) :
    walletStep hash160 params w (.sync tx pindex now) =
      (walletAddToWallet { w with spentSet := markOwnSpends hash160 w w.spentSet tx }
        (syncedTx w tx pindex now)).getD
          { w with spentSet := markOwnSpends hash160 w w.spentSet tx } := by
  rw [walletStep, walletSyncTransaction, if_pos hdominated]
  cases hfind : walletFindSlot w tx.hash with
  | some idx =>
    have hadd : walletAddToWallet { w with spentSet := markOwnSpends hash160 w w.spentSet tx }
        (syncedTx w tx pindex now) = some _ := addToWallet_known hfind
    rw [hadd, Option.getD_some]
  | none => rfl

theorem walletStep_ignored (hignored : isDominated hash160 w tx = false) :
    walletStep hash160 params w (.sync tx pindex now) = w ∧
      marksOf hash160 w (.sync tx pindex now) = [] ∧ ∀ o, ¬w.Pays hash160 tx o := by
  have hstep : walletStep hash160 params w (.sync tx pindex now) = w := by
    rw [walletStep, walletSyncTransaction, hignored]
    exact if_neg Bool.false_ne_true
  rw [isDominated, Bool.or_eq_false_iff, any_eq_false, any_eq_false] at hignored
  refine ⟨hstep, ?_, ?_⟩
  · rw [marksOf, filter_eq_nil_iff]
    intro o ho
    have hslot := hignored.2 o ho
    rw [Option.not_isSome_iff_eq_none] at hslot
    rw [ownOutput_eq, hslot]
    exact Bool.false_ne_true
  · rintro o ⟨-, hpays⟩
    rw [Option.any_eq_true] at hpays
    obtain ⟨out, hout, hmine⟩ := hpays
    exact hignored.1 out (mem_of_getElem? hout) hmine

/-- A call marks its outpoints and leaves the table as `wallet_add_to_wallet` does, or it is not for
the wallet. -/
theorem walletStep_cases (hroom : HasRoom hash160 params w c) :
    let out := walletStep hash160 params w c
    out = w ∧ marksOf hash160 w c = [] ∧ (∀ o, ¬w.Pays hash160 c.tx o) ∨
      out.spentSet = (marksOf hash160 w c).foldl (walletMarkOutpointSpent spentHash) w.spentSet ∧
        (walletFindSlot w c.tx.hash ≠ none ∧ SameTxs w out ∨
          walletFindSlot w c.tx.hash = none ∧
            ∃ idx wtx, wtx.tx = c.tx ∧ AddedAt w out idx wtx) := by
  cases c with
  | sync tx pindex now =>
    cases hdominated : isDominated hash160 w tx with
    | false => exact .inl (walletStep_ignored hdominated)
    | true =>
      obtain ⟨w', hadd⟩ := addToWallet_isSome
        (w := { w with spentSet := markOwnSpends hash160 w w.spentSet tx }) hroom.slot
        (syncedTx w tx pindex now)
      rw [walletStep_sync hdominated, hadd, Option.getD_some]
      obtain ⟨hset, hcases⟩ := walletAddToWallet_cases hadd
      refine .inr ⟨hset.trans (markOwnSpends_eq ..), ?_⟩
      rcases hcases with ⟨hknown, hsame⟩ | ⟨hnew, idx, hadded⟩
      · exact .inl ⟨hknown, hsame.keystore, hsame.tx⟩
      · exact .inr ⟨hnew, idx, _, rfl, hadded.keystore, hadded.free, hadded.map⟩
  | commit wtx mempool now =>
    obtain ⟨added, hadd⟩ := addToWallet_isSome hroom.slot wtx
    rw [walletStep_commit hadd]
    obtain ⟨hset, hcases⟩ := walletAddToWallet_cases hadd
    refine .inr ⟨by rw [hset]; rfl, ?_⟩
    rcases hcases with ⟨hknown, hsame⟩ | ⟨hnew, idx, hadded⟩
    · exact .inl ⟨hknown, hsame.keystore, hsame.tx⟩
    · exact .inr ⟨hnew, idx, wtx, rfl, hadded.keystore, hadded.free, hadded.map⟩

def ownSpends (hash160 : List UInt8 → UInt160) (w : Wallet) : List Outpoint :=
  (usedTxs w).flatMap fun wtx => wtx.tx.outpoints.filter fun o => (ownOutput hash160 w o).isSome

theorem rebuild_eq (w : Wallet) : (walletRebuildSpentSet hash160 w).spentSet =
    (ownSpends hash160 w).foldl (walletMarkOutpointSpent spentHash) {} := by
  rw [walletRebuildSpentSet, ownSpends, foldl_flatMap]
  simp only [markOwnSpends_eq]

theorem exists_records_rebuild (hash160 : List UInt8 → UInt160) (w : Wallet) :
    ∃ m, Records spentHash (walletRebuildSpentSet hash160 w).spentSet m ∧
      (∀ o ∈ m, w.Rebuilds hash160 o) ∧
      (m.card < spentSetBuckets → ∀ o, w.Rebuilds hash160 o → o ∈ m) := by
  rw [rebuild_eq]
  obtain ⟨m, hm, -, hbound, heq⟩ := records_empty.markAll (ownSpends hash160 w)
  have hmem : ∀ o, o ∈ (ownSpends hash160 w).toFinset ↔ w.Rebuilds hash160 o := by
    intro o
    simp only [ownSpends, mem_toFinset, mem_flatMap, mem_filter, mem_usedTxs,
      Wallet.Rebuilds, Wallet.Spends, Wallet.Owns]
    constructor
    · rintro ⟨wtx, ⟨i, hi⟩, ho, hown⟩
      exact ⟨⟨i, wtx, hi, ho⟩, hown⟩
    · rintro ⟨⟨i, wtx, hi, ho⟩, hown⟩
      exact ⟨wtx, ⟨i, hi⟩, ho, hown⟩
  rw [Finset.empty_union] at hbound heq
  refine ⟨m, hm, fun o ho => (hmem o).mp (hbound ho), ?_⟩
  intro hcard o ho
  rw [heq hcard]
  exact (hmem o).mpr ho

theorem sameSpends_iff {set set' : SpentSet} {m m' : Finset Outpoint} (h : Records spentHash set m)
    (h' : Records spentHash set' m') : SameSpends set set' ↔ m = m' := by
  constructor
  · intro hsame
    ext o
    rw [← h.isSpent, ← h'.isSpent, hsame.isSpent]
  · rintro rfl
    refine ⟨?_, h.count.trans h'.count.symm⟩
    intro o
    rw [Bool.eq_iff_iff, h.isSpent, h'.isSpent]

theorem agrees_iff (h : Records spentHash w.spentSet m) (hroom : m.card < spentSetBuckets) :
    Agrees hash160 w ↔ ∀ o, o ∈ m ↔ w.Rebuilds hash160 o := by
  obtain ⟨m', hm', hsound, hcomplete⟩ := exists_records_rebuild hash160 w
  rw [Agrees, sameSpends_iff h hm']
  constructor
  · rintro rfl o
    exact ⟨hsound o, hcomplete hroom o⟩
  · intro hiff
    have hle : m'.card ≤ m.card := Finset.card_le_card fun o ho => (hiff o).mpr (hsound o ho)
    ext o
    rw [hiff]
    exact ⟨hcomplete (by omega) o, hsound o⟩

/-- The spent set holds what the wallet's transactions spend of it. -/
def Kept (hash160 : List UInt8 → UInt160) (w : Wallet) : Prop :=
  ∃ m, Records spentHash w.spentSet m ∧ ∀ o, o ∈ m ↔ w.Rebuilds hash160 o

theorem AddedAt.rebuilds {w' : Wallet} {idx : Fin maxWalletTx} (h : AddedAt w w' idx wtx)
    (hnew : walletFindSlot w wtx.tx.hash = none) (o : Outpoint) :
    w'.Rebuilds hash160 o ↔ (w.Spends o ∨ o ∈ wtx.tx.outpoints) ∧
      (w.Owns hash160 o ∨ w.Pays hash160 wtx.tx o) := by
  rw [Wallet.Rebuilds, h.spends, h.owns hnew]

theorem agrees_walletStep_iff (h : Kept hash160 w) (hroom : HasRoom hash160 params w c) :
    let out := walletStep hash160 params w c
    (Agrees hash160 out ↔ InOrder hash160 w c) ∧ (Agrees hash160 out → Kept hash160 out) := by
  dsimp only
  obtain ⟨m, hm, hrebuilds⟩ := h
  have hspent := hroom.spent
  rcases walletStep_cases hroom with ⟨hstep, hmarks, hpays⟩ | ⟨hset, hcases⟩
  · rw [hstep] at hspent ⊢
    rw [hm.count] at hspent
    refine ⟨iff_of_true ((agrees_iff hm hspent).mpr hrebuilds) ?_, fun _ => ⟨m, hm, hrebuilds⟩⟩
    refine ⟨?_, ?_, ?_⟩
    · rw [hmarks]
      simp
    · rw [hmarks]
      simp
    · exact fun _ o _ ho => absurd ho (hpays o)
  · obtain ⟨m', hm', -, -, heq⟩ := hm.markAll (marksOf hash160 w c)
    rw [← hset] at hm'
    rw [hm'.count] at hspent
    have hmem : ∀ o, o ∈ m' ↔ w.Rebuilds hash160 o ∨ o ∈ marksOf hash160 w c := by
      intro o
      rw [heq hspent, Finset.mem_union, mem_toFinset, hrebuilds]
    rw [agrees_iff hm' hspent]
    refine ⟨?_, fun hiff => ⟨m', hm', hiff⟩⟩
    simp only [hmem]
    rcases hcases with ⟨hknown, hsame⟩ | ⟨hnew, idx, wtx, htx, hadded⟩
    · simp only [hsame.rebuilds, or_iff_left_iff_imp]
      refine ⟨fun hiff => ⟨fun _ => hiff, ?_, ?_⟩, fun horder => horder.known hknown⟩
      · exact fun hnew => absurd hnew hknown
      · exact fun hnew => absurd hnew hknown
    · rw [← htx] at hnew
      simp only [hadded.rebuilds hnew]
      rw [htx] at hnew ⊢
      constructor
      · intro hiff
        refine ⟨fun hknown => absurd hnew hknown, ?_, ?_⟩
        · intro _ o ho
          exact ((hiff o).mp (.inr ho)).2
        · intro _ o hspends hpays
          refine ((hiff o).mpr ⟨hspends, .inr hpays⟩).resolve_left ?_
          exact fun hrebuilt => not_owns_of_new (hpays.1 ▸ hnew) hrebuilt.2
      · intro horder o
        constructor
        · rintro (⟨hspends, hown⟩ | ho)
          · exact ⟨.inl hspends, .inl hown⟩
          · exact ⟨.inr (mem_marksOf_outpoints ho), horder.own hnew o ho⟩
        · rintro ⟨hspends, hown | hpays⟩
          · rcases hspends with hspends | ho
            · exact .inl ⟨hspends, hown⟩
            · exact .inr (mem_marksOf_of_owns ho hown)
          · exact .inr (horder.unspent hnew o hspends hpays)

end Steps

def emptyWallet (keystore : BasicKeystore) (defaultFee : Int64) (bestBlockHeight : ℤ) : Wallet :=
  { keystore, defaultFee, bestBlockHeight }

theorem kept_emptyWallet (hash160 : List UInt8 → UInt160) (keystore : BasicKeystore)
    (defaultFee : Int64) (bestBlockHeight : ℤ) :
    Kept hash160 (emptyWallet keystore defaultFee bestBlockHeight) := by
  refine ⟨∅, records_empty, ?_⟩
  intro o
  refine iff_of_false (Finset.notMem_empty o) ?_
  rintro ⟨⟨i, wtx, hi, -⟩, -⟩
  exact nomatch hi

section Run

variable (hash160 : List UInt8 → UInt160) (params : ConsensusParams)

/-- The spent set is the rebuilt one after every call exactly if every call is in order. -/
theorem spentSet_agrees_iff (keystore : BasicKeystore) (defaultFee : Int64) (bestBlockHeight : ℤ)
    (calls : List WalletCall)
    (hroom : MeetsAll (walletStep hash160 params) (HasRoom hash160 params)
      (emptyWallet keystore defaultFee bestBlockHeight) calls) :
    MeetsAll (walletStep hash160 params)
        (fun w c => Agrees hash160 (walletStep hash160 params w c))
        (emptyWallet keystore defaultFee bestBlockHeight) calls ↔
      MeetsAll (walletStep hash160 params) (InOrder hash160)
        (emptyWallet keystore defaultFee bestBlockHeight) calls := by
  have hiff : MeetsAll (walletStep hash160 params)
        (fun w c => Agrees hash160 (walletStep hash160 params w c) ∧ HasRoom hash160 params w c)
        (emptyWallet keystore defaultFee bestBlockHeight) calls ↔
      MeetsAll (walletStep hash160 params)
        (fun w c => InOrder hash160 w c ∧ HasRoom hash160 params w c)
        (emptyWallet keystore defaultFee bestBlockHeight) calls := by
    apply meetsAll_congr (Kept hash160)
    · exact fun w c h => and_congr_left fun hroom => (agrees_walletStep_iff h hroom).1
    · exact fun w c h hok => (agrees_walletStep_iff h hok.2).2 hok.1
    · exact kept_emptyWallet hash160 keystore defaultFee bestBlockHeight
  rw [meetsAll_and, meetsAll_and] at hiff
  exact ⟨fun h => (hiff.mp ⟨h, hroom⟩).1, fun h => (hiff.mpr ⟨h, hroom⟩).1⟩

end Run

section Pair

variable {w : Wallet}

theorem hasRoom_sync (h : Kept hash160 w) (hslot : (walletFindFreeSlot w).isSome = true)
    (hspent : w.spentSet.numSpent + tx.outpoints.length < spentSetBuckets) :
    HasRoom hash160 params w (.sync tx pindex now) := by
  refine ⟨trivial, hslot, ?_⟩
  obtain ⟨m, hm, -⟩ := h
  cases hdominated : isDominated hash160 w tx with
  | false =>
    rw [(walletStep_ignored hdominated).1]
    omega
  | true =>
    obtain ⟨w', hadd⟩ := addToWallet_isSome
      (w := { w with spentSet := markOwnSpends hash160 w w.spentSet tx }) hslot
      (syncedTx w tx pindex now)
    rw [walletStep_sync hdominated, hadd, Option.getD_some, (walletAddToWallet_cases hadd).1]
    obtain ⟨m', hm', -, hbound, -⟩ := hm.markAll
      (tx.outpoints.filter fun o => (ownOutput hash160 w o).isSome)
    rw [← markOwnSpends_eq] at hm'
    have hcard := (Finset.card_le_card hbound).trans (Finset.card_union_le _ _)
    have hlist := (toFinset_card_le
      (tx.outpoints.filter fun o => (ownOutput hash160 w o).isSome)).trans
        (length_filter_le ..)
    rw [hm.count] at hspent
    rw [hm'.count]
    omega

theorem findFreeSlot_isSome {i : Fin maxWalletTx} (h : w.mapWallet i = none) :
    (walletFindFreeSlot w).isSome = true := by
  rw [Option.isSome_iff_ne_none]
  intro hnone
  have hused := firstSlot_eq_none_iff.mp hnone i
  rw [h] at hused
  exact nomatch hused

end Pair

def payeeKey : UInt160 := .replicate 20 0

def payeeWallet : Wallet := emptyWallet { watching := [⟨payeeKey, [], true⟩] } 0 0

def constHash160 (_ : List UInt8) : UInt160 := payeeKey

/-- A payment to the wallet that spends the first output of another transaction. -/
def payment (hash prev : UInt256) : WireTransaction where
  vin := [{ prevout := ⟨prev, 0⟩ }]
  vout := [{ value := 5, scriptPubKey := scriptForDestination (.keyId payeeKey) }]
  hash

section Payments

variable (params : ConsensusParams) {a b p q : UInt256}

theorem payee_isMine : walletIsMine constHash160 payeeWallet.keystore
    { value := 5, scriptPubKey := scriptForDestination (.keyId payeeKey) } = true := by
  decide +kernel

theorem payment_pays (w : Wallet) (hkeys : w.keystore = payeeWallet.keystore) (a p : UInt256) :
    w.Pays constHash160 (payment a p) ⟨a, 0⟩ := by
  refine ⟨rfl, ?_⟩
  rw [hkeys]
  exact payee_isMine

theorem payeeWallet_findSlot (hash : UInt256) : walletFindSlot payeeWallet hash = none :=
  firstSlot_eq_none_iff.mpr fun _ => rfl

theorem payeeWallet_hasRoom (a p : UInt256) :
    HasRoom constHash160 params payeeWallet (.sync (payment a p) none 0) := by
  apply hasRoom_sync (kept_emptyWallet ..)
  · exact findFreeSlot_isSome (i := ⟨0, by decide⟩) rfl
  · show 0 + 1 < 8192
    decide

theorem payeeWallet_added (a p : UInt256) :
    ∃ idx wtx, wtx.tx = payment a p ∧ AddedAt payeeWallet
      (walletStep constHash160 params payeeWallet (.sync (payment a p) none 0)) idx wtx := by
  rcases walletStep_cases (payeeWallet_hasRoom params a p) with ⟨-, -, hpays⟩ | ⟨-, hcases⟩
  · exact absurd (payment_pays payeeWallet rfl a p) (hpays ⟨a, 0⟩)
  · rcases hcases with ⟨hknown, -⟩ | ⟨-, hadded⟩
    · exact absurd (payeeWallet_findSlot _) hknown
    · exact hadded

theorem inOrder_payment {w : Wallet} (hnew : walletFindSlot w b = none)
    (hspends : ∀ o, w.Spends o → o.hash ≠ b) (hq : q ≠ b) :
    InOrder constHash160 w (.sync (payment b q) none 0) := by
  refine ⟨fun hknown => absurd hnew hknown, ?_, ?_⟩
  · intro _ o ho
    exact .inl (mem_filter.mp ho).2
  · rintro - o (ho | ho) hpays
    · exact absurd hpays.1 (hspends o ho)
    · rw [show o = ⟨q, 0⟩ from mem_singleton.mp ho] at hpays
      exact absurd hpays.1 hq

theorem payeeWallet_not_spends (o : Outpoint) : ¬payeeWallet.Spends o := by
  rintro ⟨i, wtx, hi, -⟩
  exact nomatch hi

theorem payeeWallet_kept (h : p ≠ a) :
    Kept constHash160
      (walletStep constHash160 params payeeWallet (.sync (payment a p) none 0)) := by
  have hstep := agrees_walletStep_iff (kept_emptyWallet ..) (payeeWallet_hasRoom params a p)
  apply hstep.2
  rw [hstep.1]
  apply inOrder_payment (payeeWallet_findSlot a)
  · exact fun o ho => absurd ho (payeeWallet_not_spends o)
  · exact h

theorem payment_hasRoom (h : p ≠ a) (b q : UInt256) :
    HasRoom constHash160 params
      (walletStep constHash160 params payeeWallet (.sync (payment a p) none 0))
      (.sync (payment b q) none 0) := by
  obtain ⟨idx, wtx, htx, hadded⟩ := payeeWallet_added params a p
  have hkept := payeeWallet_kept params h
  apply hasRoom_sync hkept
  · -- one of the first two slots is not the one that was taken
    have hfree : ∀ i, i ≠ idx → (walletStep constHash160 params payeeWallet
        (.sync (payment a p) none 0)).mapWallet i = none := by
      intro i hi
      rw [hadded.map, update_of_ne hi]
      rfl
    by_cases hidx : idx = ⟨0, by decide⟩
    · apply findFreeSlot_isSome (hfree ⟨1, by decide⟩ _)
      rw [hidx, Ne, Fin.mk.injEq]
      decide
    · exact findFreeSlot_isSome (hfree _ (Ne.symm hidx))
  · obtain ⟨m, hm, hrebuilds⟩ := hkept
    have hempty : m = ∅ := by
      rw [Finset.eq_empty_iff_forall_notMem]
      intro o ho
      rw [hrebuilds, hadded.rebuilds (payeeWallet_findSlot _), htx] at ho
      obtain ⟨hspends, hown⟩ := ho
      have ho := hspends.resolve_left (payeeWallet_not_spends o)
      rw [show o = ⟨p, 0⟩ from mem_singleton.mp ho] at hown
      rcases hown with hown | hpays
      · exact not_owns_of_new (payeeWallet_findSlot _) hown
      · exact h hpays.1
    rw [hm.count, hempty]
    show 0 + 1 < 8192
    decide

theorem spentSet_agrees_parentFirst :
    MeetsAll (walletStep constHash160 mainParams)
      (fun w c => Agrees constHash160 (walletStep constHash160 mainParams w c))
      payeeWallet [.sync (payment 1 9) none 0, .sync (payment 2 1) none 0] := by
  have hne : (9 : UInt256) ≠ 1 := by decide
  obtain ⟨idx, wtx, htx, hadded⟩ := payeeWallet_added mainParams 1 9
  have hroom : MeetsAll (walletStep constHash160 mainParams) (HasRoom constHash160 mainParams)
      payeeWallet [.sync (payment 1 9) none 0, .sync (payment 2 1) none 0] :=
    ⟨payeeWallet_hasRoom .., payment_hasRoom mainParams hne 2 1, trivial⟩
  apply (spentSet_agrees_iff constHash160 mainParams _ _ _ _ hroom).mpr
  refine ⟨?_, ?_, trivial⟩
  · apply inOrder_payment (payeeWallet_findSlot 1)
    · exact fun o ho => absurd ho (payeeWallet_not_spends o)
    · exact hne
  · apply inOrder_payment
    · have hnew := hadded.findSlot (payeeWallet_findSlot _) 2
      rwa [if_neg (by rw [htx]; decide), payeeWallet_findSlot] at hnew
    · intro o ho
      have ho := ((hadded.spends o).mp ho).resolve_left (payeeWallet_not_spends o)
      rw [htx] at ho
      rw [show o = ⟨9, 0⟩ from mem_singleton.mp ho]
      decide
    · decide

/-- A payment that arrives after the one that spends it: its output is not marked. -/
theorem childFirst_not_agrees :
    ¬Agrees constHash160 (run (walletStep constHash160 mainParams) payeeWallet
      [.sync (payment 2 1) none 0, .sync (payment 1 9) none 0]) := by
  have hkept := payeeWallet_kept mainParams (show (1 : UInt256) ≠ 2 by decide)
  have hroom := payment_hasRoom mainParams (show (1 : UInt256) ≠ 2 by decide) 1 9
  obtain ⟨idx, wtx, htx, hadded⟩ := payeeWallet_added mainParams 2 1
  rw [run_cons, run_cons, run_nil, (agrees_walletStep_iff hkept hroom).1]
  intro horder
  have hnew := hadded.findSlot (payeeWallet_findSlot _) 1
  rw [if_neg (by rw [htx]; decide), payeeWallet_findSlot] at hnew
  have hmarked := horder.unspent hnew ⟨1, 0⟩
    (.inl ((hadded.spends _).mpr (.inr (by rw [htx]; exact mem_singleton.mpr rfl))))
    (payment_pays _ hadded.keystore 1 9)
  have hspent := mem_marksOf_outpoints hmarked
  exact absurd (mem_singleton.mp hspent) (by decide)

end Payments

end ZClassic
