import ZClassic.Consensus.ContextualCheck
import ZClassic.Lib.LinearProbing
import ZClassic.Lib.Run
import ZClassic.Primitives.TransactionWire

/-!
# The memory pool

`struct tx_mempool` (`lib/validation/src/txmempool.c`): the entries in an array, and in an
open-addressing table the input that spends each outpoint.
-/

namespace ZClassic

structure Inpoint where
  txIndex : ℕ
  n : UInt32
  deriving DecidableEq

structure OutpointMap where
  cap : ℕ
  cap_pos : 0 < cap
  slots : LinearProbing.Slots (Fin cap) Outpoint Inpoint

/-- The first four bytes of the transaction id are mixed with the output number; the capacity is cut
to 32 bits. -/
def outpointHash (op : Outpoint) (cap : ℕ) : ℕ :=
  (UInt32.ofNat op.hash.toNat ^^^ (op.n * 2654435761)).toNat % (cap % 2 ^ 32)

namespace OutpointMap

def empty (cap : ℕ) (hcap : 0 < cap) : OutpointMap := ⟨cap, hcap, fun _ => none⟩

variable (m : OutpointMap)

/-- `pos` of the probe loops, one slot further. -/
def nextSlot (i : Fin m.cap) : Fin m.cap := ⟨(i + 1) % m.cap, Nat.mod_lt _ m.cap_pos⟩

def homeSlot (op : Outpoint) : Fin m.cap := ⟨outpointHash op m.cap % m.cap, Nat.mod_lt _ m.cap_pos⟩

def outpointFind (op : Outpoint) : Option (Fin m.cap) :=
  LinearProbing.find m.nextSlot m.slots op m.cap (m.homeSlot op)

def outpointRemove (op : Outpoint) : OutpointMap × Bool :=
  let (slots, removed) := LinearProbing.remove m.nextSlot m.homeSlot m.cap m.slots op
  ({ m with slots }, removed)

def pairs : List (Outpoint × Inpoint) := (List.finRange m.cap).filterMap m.slots

def outpointMapGrow (newcap : ℕ) (hcap : 0 < newcap) : Option OutpointMap :=
  let newmap := empty newcap hcap
  (LinearProbing.insertAll newmap.nextSlot newmap.homeSlot newcap m.pairs newmap.slots).map
    fun slots => { newmap with slots }

def lookup (op : Outpoint) : Option Inpoint :=
  (m.outpointFind op).bind fun i => (m.slots i).map Prod.snd

def setTxIndex (op : Outpoint) (idx : ℕ) : OutpointMap :=
  match m.outpointFind op with
  | none => m
  | some i =>
    let moved := (m.slots i).map fun x => (x.1, { x.2 with txIndex := idx })
    { m with slots := Function.update m.slots i moved }

end OutpointMap

/-- `struct mempool_entry` without the priority and what it is computed from. -/
structure MempoolEntry where
  tx : WireTransaction
  fee : Int64
  txSize : ℕ
  time : Int64
  height : UInt32
  hadNoDeps : Bool
  spendsCoinbase : Bool
  branchId : UInt32

def mempoolEntryInit (tx : WireTransaction) (fee time : Int64) (height : UInt32)
    (poolHasNoInputsOf spendsCoinbase : Bool) (branchId : UInt32) : MempoolEntry where
  tx := transactionCopy tx
  fee
  txSize := (transactionSerialize (transactionCopy tx)).length
  time
  height
  hadNoDeps := poolHasNoInputsOf
  spendsCoinbase
  branchId

def outpointMapCap : ℕ := 4096

structure TxMempool where
  entries : List MempoolEntry
  nextTx : OutpointMap
  nextTxUsed : ℕ
  totalTxSize : ℕ
  minRelayFee : Int64

def txMempoolInit (minRelayFee : Int64) : TxMempool where
  entries := []
  nextTx := .empty outpointMapCap (by decide)
  nextTxUsed := 0
  totalTxSize := 0
  minRelayFee

def WireTransaction.outpoints (tx : WireTransaction) : List Outpoint := tx.vin.map (·.prevout)

section Pool

variable (pool : TxMempool)

def findEntryByHash (hash : UInt256) : Option ℕ := pool.entries.findIdx? (·.tx.hash == hash)

def txMempoolExists (hash : UInt256) : Bool := (findEntryByHash pool hash).isSome

def txMempoolHasNoInputsOf (tx : WireTransaction) : Bool :=
  tx.outpoints.all fun op => (findEntryByHash pool op.hash).isNone

def txMempoolHasConflict (tx : WireTransaction) : Bool :=
  tx.outpoints.any fun op => (pool.nextTx.outpointFind op).isSome

def growTarget (cap projected : ℕ) : ℕ :=
  let target := if projected * 4 < outpointMapCap then outpointMapCap else projected * 4
  if target ≤ cap then cap * 2 else target

theorem growTarget_gt {cap : ℕ} (hcap : 0 < cap) (projected : ℕ) :
    cap < growTarget cap projected := by
  unfold growTarget
  dsimp only
  split_ifs <;> omega

/-- Room for `more` entries, at a load of at most seven tenths. -/
def reserveOutpoints (more : ℕ) : Option OutpointMap :=
  let projected := pool.nextTxUsed + more
  if pool.nextTx.cap * 7 < projected * 10 then
    pool.nextTx.outpointMapGrow (growTarget pool.nextTx.cap projected)
      (Nat.zero_lt_of_lt (growTarget_gt pool.nextTx.cap_pos projected))
  else some pool.nextTx

def maxMempoolSize : ℕ := 300 * 1024 * 1024

/-- The loop that records the inputs of the entry at `idx`, with the count of used slots. -/
def insertInputs (m : OutpointMap) (used idx : ℕ) (ops : List Outpoint) : OutpointMap × ℕ :=
  let (slots, used) := (ops.zipIdx.map fun p => (p.1, Inpoint.mk idx (UInt32.ofNat p.2))).foldl
    (LinearProbing.insertCounted m.nextSlot m.homeSlot m.cap) (m.slots, used)
  ({ m with slots }, used)

/-- `none` if the entry is refused and the pool stays as it is. -/
def txMempoolAddUnchecked (entry : MempoolEntry) : Option TxMempool :=
  if maxMempoolSize < pool.totalTxSize + entry.txSize then none
  else if txMempoolHasConflict pool entry.tx then none
  else do
    let nextTx ← reserveOutpoints pool entry.tx.vin.length
    let e := mempoolEntryInit entry.tx entry.fee entry.time entry.height entry.hadNoDeps
      entry.spendsCoinbase entry.branchId
    let (nextTx, used) := insertInputs nextTx pool.nextTxUsed pool.entries.length e.tx.outpoints
    return { pool with
      entries := pool.entries ++ [e]
      nextTx
      nextTxUsed := used
      totalTxSize := pool.totalTxSize + entry.txSize }

def removeInput (acc : OutpointMap × ℕ) (op : Outpoint) : OutpointMap × ℕ :=
  let (m, removed) := acc.1.outpointRemove op
  (m, if removed && decide (0 < acc.2) then acc.2 - 1 else acc.2)

/-- The last entry moves to the place of the one that leaves. -/
def removeEntryAt (idx : ℕ) : TxMempool :=
  match pool.entries[idx]?, pool.entries.getLast? with
  | some e, some last =>
    let (nextTx, used) := e.tx.outpoints.foldl removeInput (pool.nextTx, pool.nextTxUsed)
    let entries := (pool.entries.set idx last).dropLast
    { pool with
      entries
      nextTx := match entries[idx]? with
        | none => nextTx
        | some moved => moved.tx.outpoints.foldl (fun m op => m.setTxIndex op idx) nextTx
      nextTxUsed := used
      totalTxSize := pool.totalTxSize - e.txSize }
  | _, _ => pool

def txMempoolRemove (hash : UInt256) : TxMempool :=
  match findEntryByHash pool hash with
  | none => pool
  | some idx => removeEntryAt pool idx

end Pool

/-- Removes what passes the test; the place of a removed entry is looked at again. -/
def removeIf (p : MempoolEntry → Bool) : ℕ → ℕ → TxMempool → TxMempool
  | 0, _, pool => pool
  | fuel + 1, i, pool =>
    match pool.entries[i]? with
    | none => pool
    | some e =>
      if p e then removeIf p fuel i (removeEntryAt pool i) else removeIf p fuel (i + 1) pool

def txMempoolRemoveExpired (pool : TxMempool) (blockHeight : UInt32) : TxMempool :=
  removeIf (fun e => isExpiredTx e.tx.toTransaction blockHeight.toNat) pool.entries.length 0 pool

def txMempoolRemoveWithoutBranchId (pool : TxMempool) (branchId : UInt32) : TxMempool :=
  removeIf (fun e => e.branchId != branchId) pool.entries.length 0 pool

def txMempoolRemoveForBlock (pool : TxMempool) (txs : List WireTransaction) : TxMempool :=
  txs.foldl (fun pool tx => txMempoolRemove pool tx.hash) pool

end ZClassic
