import ZClassic.Lib.Fold
import ZClassic.Storage.CoinsKv

/-!
# The per-transaction coin writer

`update_coins_with_undo` of `lib/validation/src/update_coins.c` on a `coins_view_cache`
(`lib/coins/src/coins_view.c`): records keyed by txid, fetched from a base view on first use.
-/

namespace ZClassic

open List

structure CoinsViewCache where
  base : UInt256 → Option Coins
  cacheCoins : Table UInt256 Coins := ∅
  /-- `coins_view_cache_get_best_block`; null when neither cache nor base knows one -/
  bestBlock : UInt256 := 0

namespace CoinsViewCache

/-- The record `coins_view_cache_modify` hands out: the cached one, else the base's, else a fresh
empty one. -/
def modify (v : CoinsViewCache) (txid : UInt256) : Coins :=
  (v.cacheCoins.lookup txid).getD ((v.base txid).getD {})

def put (v : CoinsViewCache) (txid : UInt256) (c : Coins) : CoinsViewCache :=
  { v with cacheCoins := v.cacheCoins.insert txid c }

theorem modify_put (v : CoinsViewCache) (txid txid' : UInt256) (c : Coins) :
    (v.put txid c).modify txid' = if txid' = txid then c else v.modify txid' := by
  simp only [modify, put, Table.lookup_put]
  split <;> rfl

end CoinsViewCache

/-- The unspent output of a record at `pos`, with what the record says about all its outputs. -/
def Coins.coin (c : Coins) (pos : ℕ) : Option Coin :=
  (coinsOutput c pos).map fun o => ⟨o.value, c.height, c.isCoinbase, o.scriptPubKey.data⟩

def CoinsViewCache.coin (v : CoinsViewCache) (op : Outpoint) : Option Coin :=
  (v.modify op.hash).coin op.n.toNat

theorem CoinsViewCache.coin_put (v : CoinsViewCache) (txid : UInt256) (c : Coins) (op : Outpoint) :
    (v.put txid c).coin op = if op.hash = txid then c.coin op.n.toNat else v.coin op := by
  rw [coin, modify_put]
  split <;> rfl

structure TxInUndo where
  txout : TxOut
  coinbase : Bool := false
  height : UInt32 := 0
  version : Int32 := 0
  deriving DecidableEq

inductive UpdateCoinsError where
  | spendingNullOutput (op : Outpoint)
  | corruptOutputValue (value : Int64)
  | coinsFromTransaction
  | newOutputOutOfRange
  deriving DecidableEq

def coinsIsPruned (c : Coins) : Bool := c.vout.all txOutIsNull

/-- `coins_math_capture_undo` on an output known to be there: the undo record carries the parent's
metadata only when this was its last output. -/
def coinsMathCaptureUndo (c : Coins) (pos : ℕ) (out : TxOut) : Coins × TxInUndo :=
  let c' := { c with vout := c.vout.set pos txOutNull }
  (c', if coinsIsPruned c'
    then
      { txout := out, coinbase := c.isCoinbase, height := c.height.toUInt32, version := c.version }
    else { txout := out })

/-- One pass of the input loop. The source first grows a short record with null outputs, which
then fails on the null test like any other spent output. -/
def spendPrevout (s : CoinsViewCache × List TxInUndo) (txin : TxIn) :
    Except UpdateCoinsError (CoinsViewCache × List TxInUndo) :=
  let entry := s.1.modify txin.prevout.hash
  match coinsOutput entry txin.prevout.n.toNat with
  | none => .error (.spendingNullOutput txin.prevout)
  | some out =>
    if !moneyRange out.value then .error (.corruptOutputValue out.value)
    else
      let (c, undo) := coinsMathCaptureUndo entry txin.prevout.n.toNat out
      .ok (s.1.put txin.prevout.hash c, s.2 ++ [undo])

def updateCoinsWithUndo (tx : Transaction) (inputs : CoinsViewCache) (nHeight : Int32) :
    Except UpdateCoinsError (CoinsViewCache × List TxInUndo) := do
  let s ← (if transactionIsCoinbase tx then [] else tx.vin).foldlM spendPrevout (inputs, [])
  match coinsFromTransaction tx nHeight with
  | none => .error .coinsFromTransaction
  | some c =>
    if c.vout.all fun o => txOutIsNull o || moneyRange o.value then .ok (s.1.put tx.hash c, s.2)
    else .error .newOutputOutOfRange

theorem coinsOutput_set (c : Coins) (pos pos' : ℕ) :
    coinsOutput { c with vout := c.vout.set pos txOutNull } pos' =
      if pos' = pos then none else coinsOutput c pos' := by
  unfold coinsOutput
  dsimp only
  rw [getElem?_set]
  by_cases h : pos = pos'
  · subst h
    by_cases hlt : pos < c.vout.length <;> simp [hlt, Option.filter]
  · rw [if_neg h, if_neg (Ne.symm h)]

theorem Coins.coin_set (c : Coins) (pos pos' : ℕ) :
    Coins.coin { c with vout := c.vout.set pos txOutNull } pos' =
      if pos' = pos then none else c.coin pos' := by
  unfold Coins.coin
  rw [coinsOutput_set]
  split <;> rfl

variable {s : CoinsViewCache × List TxInUndo}

theorem spendPrevout_ok {s' : CoinsViewCache × List TxInUndo} {i : TxIn}
    (h : spendPrevout s i = .ok s') :
    (s.1.coin i.prevout).isSome ∧
      ∀ op, s'.1.coin op = if op = i.prevout then none else s.1.coin op := by
  unfold spendPrevout at h
  dsimp only at h
  split at h
  · cases h
  · next out hout =>
    split_ifs at h
    cases h
    refine ⟨by simp [CoinsViewCache.coin, Coins.coin, hout], fun op => ?_⟩
    rw [CoinsViewCache.coin_put]
    by_cases hhash : op.hash = i.prevout.hash
    · rw [if_pos hhash, coinsMathCaptureUndo, Coins.coin_set]
      have hiff : op.n.toNat = i.prevout.n.toNat ↔ op = i.prevout := by
        rw [UInt32.toNat_inj]
        constructor
        · intro hn
          cases op
          simp_all
        · intro hop
          rw [hop]
      simp only [hiff, CoinsViewCache.coin, hhash]
    · have hne : op ≠ i.prevout := fun hop => hhash (by rw [hop])
      rw [if_neg hhash, if_neg hne]

theorem spendPrevouts_ok {vin : List TxIn} {s' : CoinsViewCache × List TxInUndo}
    (h : vin.foldlM spendPrevout s = .ok s') :
    (∀ op ∈ vin.map (·.prevout), (s.1.coin op).isSome) ∧
      ∀ op, s'.1.coin op = if op ∈ vin.map (·.prevout) then none else s.1.coin op := by
  refine foldlM_invariant (fun done t => (∀ op ∈ done.map (·.prevout), (s.1.coin op).isSome) ∧
    ∀ op, t.1.coin op = if op ∈ done.map (·.prevout) then none else s.1.coin op) h (by simp) ?_
  rintro done i todo t t' - ⟨hsome, hcoin⟩ hstep
  obtain ⟨hi, hcoin'⟩ := spendPrevout_ok hstep
  have hi' : (s.1.coin i.prevout).isSome := by
    rw [hcoin] at hi
    split at hi
    · cases hi
    · exact hi
  refine ⟨?_, ?_⟩
  · intro op hop
    rw [map_append, map_singleton, mem_append, mem_singleton] at hop
    rcases hop with hop | hop
    · exact hsome op hop
    · rw [hop]
      exact hi'
  · intro op
    rw [hcoin', hcoin, map_append, map_singleton]
    by_cases hop : op = i.prevout <;> by_cases hmem : op ∈ done.map (·.prevout) <;>
      simp [hop, hmem]

/-- The coin a transaction leaves at output `pos`: none for null and unspendable outputs. -/
def txCoin (tx : Transaction) (height : Int32) (pos : ℕ) : Option Coin :=
  ((tx.vout[pos]?).filter fun o => !txOutIsNull o && !scriptIsUnspendable o.scriptPubKey).map
    fun o => ⟨o.value, height, transactionIsCoinbase tx, o.scriptPubKey.data⟩

variable {tx : Transaction} {height : Int32}

theorem coinsFromTransaction_coin {c : Coins}
    (h : coinsFromTransaction tx height = some c) (pos : ℕ) :
    c.coin pos = txCoin tx height pos := by
  unfold coinsFromTransaction at h
  split at h
  · cases h
  · cases h
    rw [Coins.coin, coinsOutput_coinsCleanup, txCoin]
    simp only [coinsOutput, coinsCleanup, getElem?_map]
    cases tx.vout[pos]? with
    | none => rfl
    | some o =>
      by_cases hscript : scriptIsUnspendable o.scriptPubKey <;>
        by_cases hnull : txOutIsNull o <;> simp [hscript, hnull, Option.filter]

theorem updateCoinsWithUndo_ok {v : CoinsViewCache} (h : updateCoinsWithUndo tx v height = .ok s) :
    tx.vout.length ≤ maxCoinsOutputs ∧
      (∀ op ∈ (if transactionIsCoinbase tx then [] else tx.vin).map (·.prevout),
        (v.coin op).isSome) ∧
      ∀ op, s.1.coin op =
        if op.hash = tx.hash then txCoin tx height op.n.toNat
        else if op ∈ (if transactionIsCoinbase tx then [] else tx.vin).map (·.prevout) then none
        else v.coin op := by
  unfold updateCoinsWithUndo at h
  obtain ⟨t, hin, h⟩ := bind_eq_ok h
  obtain ⟨hsome, hcoin⟩ := spendPrevouts_ok hin
  split at h
  · cases h
  · next c hc =>
    split_ifs at h
    cases h
    refine ⟨?_, hsome, fun op => ?_⟩
    · unfold coinsFromTransaction at hc
      split at hc
      · cases hc
      · next hle => exact not_lt.mp hle
    · rw [CoinsViewCache.coin_put, coinsFromTransaction_coin hc, hcoin]

def oneCoinView (txid : UInt256) (value : Int64) : CoinsViewCache where
  base txid' := if txid' = txid then some { vout := [{ value }] } else none

theorem oneCoinView_coin_of_ne {txid : UInt256} {value : Int64} {op : Outpoint}
    (h : op.hash ≠ txid) : (oneCoinView txid value).coin op = none := by
  have hmodify : (oneCoinView txid value).modify op.hash = {} := by
    simp only [CoinsViewCache.modify, oneCoinView, if_neg h]
    rfl
  rw [CoinsViewCache.coin, hmodify]
  rfl

end ZClassic
