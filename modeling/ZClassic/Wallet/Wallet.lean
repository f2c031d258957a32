import ZClassic.Validation.TxMempool
import ZClassic.Wallet.Ownership
import ZClassic.Wallet.SpentSet

/-!
# The wallet

`struct wallet` (`lib/wallet/src/wallet.c`): a table of 65536 transactions that is searched from its
start, the keys, and the set of spent outpoints.
-/

namespace ZClassic

/-- `struct wallet_tx` without the cached credits and debits, which nothing reads. -/
structure WalletTx where
  tx : WireTransaction
  hashBlock : UInt256 := 0
  timeReceived : Int64 := 0
  fromMe : Bool := false
  confirms : ℤ := 0

def maxWalletTx : ℕ := 65536

/-- The slots that are not `used` are `none`. -/
structure Wallet where
  keystore : BasicKeystore
  mapWallet : Fin maxWalletTx → Option WalletTx := fun _ => none
  numWalletTx : ℕ := 0
  defaultFee : Int64 := 10000
  bestBlockHeight : ℤ := 0
  spentSet : SpentSet := {}

/-- The loop over the slots from `i` on, up to the first one that passes the test. -/
def slotFrom {n : ℕ} (p : Fin n → Bool) : ℕ → ℕ → Option (Fin n)
  | 0, _ => none
  | fuel + 1, i =>
    if h : i < n then if p ⟨i, h⟩ then some ⟨i, h⟩ else slotFrom p fuel (i + 1) else none

def firstSlot {n : ℕ} (p : Fin n → Bool) : Option (Fin n) := slotFrom p n 0

section Table

variable (w : Wallet)

def walletFindSlot (hash : UInt256) : Option (Fin maxWalletTx) :=
  firstSlot fun i => (w.mapWallet i).any (·.tx.hash == hash)

def walletFindFreeSlot : Option (Fin maxWalletTx) := firstSlot fun i => (w.mapWallet i).isNone

def walletGetTx (hash : UInt256) : Option WalletTx := (walletFindSlot w hash).bind w.mapWallet

/-- A transaction that is recorded at `idx` is now in another block. -/
def confirmSlot (idx : Fin maxWalletTx) (hashBlock : UInt256) (confirms : ℤ) : Wallet :=
  { w with
    mapWallet := Function.update w.mapWallet idx <| (w.mapWallet idx).map fun old =>
      { old with hashBlock, confirms } }

/-- `none` if there is no free slot and the wallet stays as it is. -/
def walletAddToWallet (wtx : WalletTx) : Option Wallet :=
  match walletFindSlot w wtx.tx.hash with
  | some idx => some (confirmSlot w idx wtx.hashBlock wtx.confirms)
  | none =>
    (walletFindFreeSlot w).map fun idx =>
      { w with
        mapWallet := Function.update w.mapWallet idx (some wtx)
        numWalletTx := w.numWalletTx + 1 }

def usedTxs : List WalletTx := (List.finRange maxWalletTx).filterMap w.mapWallet

end Table

section Coins

variable (hash160 : List UInt8 → UInt160) (w : Wallet)

/-- The output of a recorded transaction, if the wallet has its key. -/
def ownOutput (o : Outpoint) : Option TxOut := do
  let prev ← walletGetTx w o.hash
  let out ← prev.tx.vout[o.n.toNat]?
  if walletIsMine hash160 w.keystore out then some out else none

def walletGetDebit (tx : WireTransaction) : Int64 :=
  tx.outpoints.foldl (fun debit o => debit + ((ownOutput hash160 w o).map (·.value)).getD 0) 0

def walletTxGetBlocksToMaturity (wtx : WalletTx) : ℤ :=
  if transactionIsCoinbase wtx.tx.toTransaction then
    let maturity := coinbaseMaturity - wtx.confirms
    if 0 < maturity then maturity else 0
  else 0

def isImmature (wtx : WalletTx) : Bool :=
  transactionIsCoinbase wtx.tx.toTransaction && decide (0 < walletTxGetBlocksToMaturity wtx)

/-- The outputs of a transaction that are the wallet's and not spent, with their numbers. -/
def unspentOutputs (wtx : WalletTx) : List (TxOut × ℕ) :=
  wtx.tx.vout.zipIdx.filter fun (out, j) => walletIsMine hash160 w.keystore out &&
    !walletIsOutpointSpent spentHash w.spentSet ⟨wtx.tx.hash, UInt32.ofNat j⟩

def walletGetBalance : Int64 :=
  (usedTxs w).foldl
    (fun balance wtx =>
      if wtx.confirms < 1 || isImmature wtx then balance
      else (unspentOutputs hash160 w wtx).foldl (fun balance x => balance + x.1.value) balance)
    0

/-- `struct coin_entry`; `depth` and `solvable` are copies of `wtx.confirms` and `spendable`. -/
structure CoinEntry where
  wtx : WalletTx
  i : UInt32
  spendable : Bool

/-- The loops stop as soon as there are `maxCoins` coins. -/
def walletAvailableCoins (maxCoins : ℕ) (onlyConfirmed includeZeroValue : Bool) : List CoinEntry :=
  let coins := (usedTxs w).flatMap fun wtx =>
    if onlyConfirmed && decide (wtx.confirms < 1) || isImmature wtx then []
    else
      ((unspentOutputs hash160 w wtx).filter fun x => includeZeroValue || x.1.value != 0).map
        fun (out, j) => ⟨wtx, UInt32.ofNat j, walletCanSpend hash160 w.keystore out⟩
  coins.take maxCoins

end Coins

section Record

variable (hash160 : List UInt8 → UInt160) (w : Wallet)

def markOwnSpends (set : SpentSet) (tx : WireTransaction) : SpentSet :=
  tx.outpoints.foldl
    (fun set o =>
      if (ownOutput hash160 w o).isSome then walletMarkOutpointSpent spentHash set o else set)
    set

def walletRebuildSpentSet : Wallet :=
  { w with
    spentSet := (usedTxs w).foldl (fun set wtx => markOwnSpends hash160 w set wtx.tx) {} }

structure SyncIndex where
  phashBlock : Option UInt256
  nHeight : ℤ

/-- `dominated`: the transaction pays the wallet or spends a transaction of it. -/
def isDominated (tx : WireTransaction) : Bool :=
  tx.vout.any (walletIsMine hash160 w.keystore) ||
    tx.outpoints.any fun o => (walletFindSlot w o.hash).isSome

/-- The record of a transaction in a block; without a block it has no confirmations. -/
def syncedTx (tx : WireTransaction) (pindex : Option SyncIndex) (now : Int64) : WalletTx where
  tx
  hashBlock := (pindex.bind (·.phashBlock)).getD 0
  timeReceived := now
  fromMe := tx.outpoints.any fun o => (walletFindSlot w o.hash).isSome
  confirms := match pindex with
    | none => 0
    | some b =>
      let depth := w.bestBlockHeight - b.nHeight + 1
      if 0 < depth then depth else 1

def walletSyncTransaction (tx : WireTransaction) (pindex : Option SyncIndex) (now : Int64) :
    Wallet :=
  if isDominated hash160 w tx then
    let wtx := syncedTx w tx pindex now
    let marked := { w with spentSet := markOwnSpends hash160 w w.spentSet tx }
    match walletFindSlot w tx.hash with
    | some existing => confirmSlot marked existing wtx.hashBlock wtx.confirms
    | none => (walletAddToWallet marked wtx).getD marked
  else w

/-- Whether the transaction was sent, and what became of the wallet and the pool. -/
def walletCommitTransaction (params : ConsensusParams) (wtx : WalletTx) (mempool : TxMempool)
    (now : Int64) : Bool × Wallet × TxMempool :=
  match walletAddToWallet w wtx with
  | none => (false, w, mempool)
  | some added =>
    let w' := { added with
      spentSet := wtx.tx.outpoints.foldl (walletMarkOutpointSpent spentHash) added.spentSet }
    let valueOut := transactionGetValueOut wtx.tx.toTransaction
    let valueIn := walletGetDebit hash160 w' wtx.tx
    let fee := if valueOut < valueIn then valueIn - valueOut else 0
    let entry := mempoolEntryInit wtx.tx fee now (UInt32.ofInt w.bestBlockHeight) true false
      (consensusCurrentEpochBranchId w.bestBlockHeight params)
    match txMempoolAddUnchecked mempool entry with
    | none => (false, w', mempool)
    | some mempool' => (true, w', mempool')

end Record

section FirstSlot

variable {n : ℕ} {p : Fin n → Bool}

theorem slotFrom_eq_some {fuel i : ℕ} {j : Fin n} (h : slotFrom p fuel i = some j) :
    p j = true := by
  induction fuel generalizing i with
  | zero => exact nomatch h
  | succ fuel ih =>
    unfold slotFrom at h
    split_ifs at h with hi hp
    · rwa [← Option.some.inj h]
    · exact ih h

theorem slotFrom_eq_none {fuel i : ℕ} (h : slotFrom p fuel i = none) (j : Fin n) (hij : i ≤ j)
    (hj : j < i + fuel) : p j = false := by
  induction fuel generalizing i with
  | zero => omega
  | succ fuel ih =>
    unfold slotFrom at h
    split_ifs at h with hi hp
    · by_cases heq : i = j
      · have hslot : (⟨i, hi⟩ : Fin n) = j := Fin.ext heq
        rw [hslot] at hp
        exact Bool.not_eq_true _ ▸ hp
      · exact ih h (by omega) (by omega)
    · omega

theorem firstSlot_eq_some {i : Fin n} (h : firstSlot p = some i) : p i = true := slotFrom_eq_some h

theorem firstSlot_eq_none_iff : firstSlot p = none ↔ ∀ i, p i = false := by
  constructor
  · exact fun h i => slotFrom_eq_none h i (Nat.zero_le _) (by omega)
  · intro h
    cases hfirst : firstSlot p with
    | none => rfl
    | some i =>
      have hi := slotFrom_eq_some hfirst
      rw [h i] at hi
      exact nomatch hi

end FirstSlot

section Lookup

variable {w : Wallet} {hash : UInt256} {idx : Fin maxWalletTx}

theorem walletFindSlot_some (h : walletFindSlot w hash = some idx) :
    ∃ wtx, w.mapWallet idx = some wtx ∧ wtx.tx.hash = hash := by
  have hfits := firstSlot_eq_some h
  rw [Option.any_eq_true] at hfits
  obtain ⟨wtx, hwtx, hhash⟩ := hfits
  exact ⟨wtx, hwtx, eq_of_beq hhash⟩

variable {wtx : WalletTx}

theorem walletFindSlot_none (h : walletFindSlot w hash = none)
    (hwtx : w.mapWallet idx = some wtx) : wtx.tx.hash ≠ hash := by
  have hfits := firstSlot_eq_none_iff.mp h idx
  rw [hwtx, Option.any_some] at hfits
  exact ne_of_beq_false hfits

theorem mem_usedTxs : wtx ∈ usedTxs w ↔ ∃ i, w.mapWallet i = some wtx := by
  simp [usedTxs]

end Lookup

end ZClassic
