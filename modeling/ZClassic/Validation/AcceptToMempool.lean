import Mathlib.Data.BitVec
import ZClassic.Script.Interpreter
import ZClassic.Validation.ConnectBlock
import ZClassic.Validation.TxMempool

/-!
# Admission to the memory pool

`accept_to_mempool` (`lib/validation/src/accept_to_mempool.c`), the gate for transactions from peers
and from RPC.
-/

namespace ZClassic

open List CoinsViewCache

inductive MempoolAcceptResult where
  | invalid | duplicate | conflict | belowFee | missingInputs | internalError
  deriving DecidableEq

structure AcceptEnv extends ContextualEnv where
  hash256 : List UInt8 → UInt256
  /-- `verify_script`, as for `connect_block` -/
  verifyScript : Script → Script → UInt32 → UInt32 → Transaction → ℕ → Int64 → Transaction → Bool

section Accept

variable (env : AcceptEnv)

/-- The error is `missing_inputs`. -/
def verifyTxInputsScripts (view : CoinsViewCache) (tx : Transaction) (branchId : UInt32) :
    Except Bool Unit :=
  tx.vin.zipIdx.foldlM (fun _ input =>
    match view.getOutputFor input.1.prevout with
    | none => .error true
    | some prevOut =>
      if env.verifyScript input.1.scriptSig prevOut.scriptPubKey connectFlags branchId tx input.2
        prevOut.value tx then .ok () else .error false) ()

/-- The checks that need a coins view; the result is the fee. -/
def acceptInputs (view : CoinsViewCache) (tx : Transaction) (branchId : UInt32)
    (minRelayFee : Int64) : Except MempoolAcceptResult Int64 := do
  refuseIf (view.haveInputs tx = false) .missingInputs
  let valueIn := view.getValueIn tx
  refuseIf (valueIn < 0) .invalid
  let valueOut := transactionGetValueOut tx
  refuseIf (valueOut < 0 ∨ valueIn < valueOut) .invalid
  let fee := valueIn - valueOut
  refuseIf (0 < minRelayFee ∧ fee < minRelayFee) .belowFee
  match verifyTxInputsScripts env view tx branchId with
  | .error missing => .error (if missing then .missingInputs else .invalid)
  | .ok () => .ok fee

/-- Without a view, as in unit tests, the fee is taken for 0. -/
def acceptFee (coinsTip : Option CoinsViewCache) (tx : Transaction) (branchId : UInt32)
    (minRelayFee : Int64) : Except MempoolAcceptResult Int64 :=
  match coinsTip with
  | none => .ok 0
  | some view => acceptInputs env view tx branchId minRelayFee

def nextBranchId (params : Option ChainParams) (nextHeight : Int32) : UInt32 :=
  match params with
  | none => 0
  | some p => consensusCurrentEpochBranchId nextHeight.toInt p.consensus

def acceptContextual (params : Option ChainParams) (nextHeight : Int32) (tx : Transaction) :
    Except MempoolAcceptResult Unit :=
  match params with
  | none => .ok ()
  | some p =>
    (contextualCheckTransaction env.toContextualEnv p.consensus nextHeight.toInt 100 tx).mapError
      fun _ => .invalid

def acceptedEntry (pool : TxMempool) (tx : WireTransaction) (fee now : Int64) (nextHeight : Int32)
    (branchId : UInt32) : MempoolEntry :=
  mempoolEntryInit tx fee now nextHeight.toUInt32 (txMempoolHasNoInputsOf pool tx) false branchId

/-- The pool with the transaction when the result is `MEMPOOL_ACCEPT_OK`; the pool stays as it is
otherwise. `coinsTip`, the height of `main_state` and `params` are `none` where the source is given
null pointers. -/
def acceptToMempool (pool : TxMempool) (coinsTip : Option CoinsViewCache)
    (tipHeight : Option Int32) (params : Option ChainParams) (tx : WireTransaction) (now : Int64) :
    Except MempoolAcceptResult TxMempool := do
  refuseIf (transactionIsCoinbase tx.toTransaction = true) .invalid
  (checkTransaction tx.toTransaction).mapError fun _ => .invalid
  let tx := transactionComputeHash env.hash256 tx
  refuseIf (txMempoolExists pool tx.hash = true) .duplicate
  refuseIf (txMempoolHasConflict pool tx = true) .conflict
  let nextHeight := tipHeight.getD 0 + 1
  let branchId := nextBranchId params nextHeight
  acceptContextual env params nextHeight tx.toTransaction
  let fee ← acceptFee env coinsTip tx.toTransaction branchId pool.minRelayFee
  match txMempoolAddUnchecked pool (acceptedEntry pool tx fee now nextHeight branchId) with
  | none => .error .internalError
  | some pool => .ok pool

end Accept

/-- What an accepted transaction has passed, with its fee and branch id. -/
structure AcceptedAs (env : AcceptEnv) (pool : TxMempool) (coinsTip : Option CoinsViewCache)
    (tipHeight : Option Int32) (tx : WireTransaction) (now : Int64) (pool' : TxMempool)
    (fee : Int64) (branchId : UInt32) : Prop where
  notCoinbase : transactionIsCoinbase tx.toTransaction = false
  structural : checkTransaction tx.toTransaction = .ok ()
  unknown : txMempoolExists pool (transactionComputeHash env.hash256 tx).hash = false
  inputs : ∀ view, coinsTip = some view → acceptInputs env view
    (transactionComputeHash env.hash256 tx).toTransaction branchId pool.minRelayFee = .ok fee
  added : txMempoolAddUnchecked pool (acceptedEntry pool (transactionComputeHash env.hash256 tx) fee
    now (tipHeight.getD 0 + 1) branchId) = some pool'

theorem mapError_eq_ok {ε ε' α : Type} {f : ε → ε'} {x : Except ε α} {a : α}
    (h : x.mapError f = .ok a) : x = .ok a := by
  cases x with
  | error e => cases h
  | ok b => exact congrArg Except.ok (Except.ok.inj h)

variable {env : AcceptEnv}

theorem acceptToMempool_ok {pool pool' : TxMempool}
    {coinsTip : Option CoinsViewCache} {tipHeight : Option Int32} {params : Option ChainParams}
    {tx : WireTransaction} {now : Int64}
    (h : acceptToMempool env pool coinsTip tipHeight params tx now = .ok pool') :
    ∃ fee branchId, AcceptedAs env pool coinsTip tipHeight tx now pool' fee branchId := by
  unfold acceptToMempool at h
  rw [refuseIf_bind_eq_ok] at h
  obtain ⟨_, hstructural, hrest⟩ := bind_eq_ok h.2
  rw [refuseIf_bind_eq_ok, refuseIf_bind_eq_ok] at hrest
  obtain ⟨hunknown, -, hrest⟩ := hrest
  obtain ⟨_, -, hrest⟩ := bind_eq_ok hrest
  obtain ⟨fee, hfee, hrest⟩ := bind_eq_ok hrest
  split at hrest
  · cases hrest
  · next pool'' hadd =>
    cases hrest
    refine ⟨fee, _, Bool.eq_false_iff.mpr h.1, mapError_eq_ok hstructural,
      Bool.eq_false_iff.mpr hunknown, ?_, hadd⟩
    intro view hview
    rw [hview] at hfee
    exact hfee

variable {tx : Transaction}

theorem acceptInputs_ok {view : CoinsViewCache} {branchId : UInt32} {minRelayFee fee : Int64}
    (h : acceptInputs env view tx branchId minRelayFee = .ok fee) :
    view.haveInputs tx = true ∧ 0 ≤ view.getValueIn tx ∧ 0 ≤ transactionGetValueOut tx ∧
      transactionGetValueOut tx ≤ view.getValueIn tx := by
  unfold acceptInputs at h
  simp only [refuseIf_bind_eq_ok] at h
  obtain ⟨hinputs, hin, hout, -⟩ := h
  rw [not_or, Int64.not_lt, Int64.not_lt] at hout
  exact ⟨Bool.not_eq_false _ ▸ hinputs, Int64.not_lt.mp hin, hout.1, hout.2⟩

section NextBlock

variable {view view' : CoinsViewCache} {tx : Transaction}

section

variable (h : ∀ i ∈ tx.vin, view'.modify i.prevout.hash = view.modify i.prevout.hash)

include h

theorem haveInputs_congr :
    view'.haveInputs tx = view.haveInputs tx := by
  unfold haveInputs getOutputFor
  congr 1
  rw [Bool.eq_iff_iff, all_eq_true, all_eq_true]
  exact forall₂_congr fun i hi => by rw [h i hi]

theorem getValueIn_congr :
    view'.getValueIn tx = view.getValueIn tx := by
  have hloop : ∀ (vin : List TxIn) (value : Int64),
      (∀ i ∈ vin, view'.modify i.prevout.hash = view.modify i.prevout.hash) →
      (vin.foldlM (fun value i => do
        let out ← view'.getOutputFor i.prevout
        if moneyRange out.value then addValueIn value out.value else none) value) =
      vin.foldlM (fun value i => do
        let out ← view.getOutputFor i.prevout
        if moneyRange out.value then addValueIn value out.value else none) value := by
    intro vin
    induction vin with
    | nil => exact fun _ _ => rfl
    | cons i vin ih =>
      intro value hvin
      rw [forall_mem_cons] at hvin
      rw [foldlM_cons, foldlM_cons, getOutputFor, hvin.1]
      apply bind_congr
      exact fun value => ih value hvin.2
  unfold getValueIn valueIn
  rw [hloop tx.vin 0 h]

end

variable {value : Int64}

theorem addValueIn_moneyRange {x value' : Int64} (h : addValueIn value x = some value') :
    moneyRange value' = true := by
  unfold addValueIn at h
  split_ifs at h with hrange
  cases h
  exact hrange

theorem foldlM_moneyRange {α : Type} {f : Int64 → α → Option Int64}
    (hf : ∀ {value x value'}, f value x = some value' → moneyRange value' = true) {l : List α}
    {value' : Int64} (hvalue : moneyRange value = true) (h : l.foldlM f value = some value') :
    moneyRange value' = true := by
  induction l generalizing value with
  | nil =>
    cases h
    exact hvalue
  | cons x l ih =>
    rw [foldlM_cons, Option.bind_eq_bind, Option.bind_eq_some_iff] at h
    obtain ⟨value'', hstep, hrest⟩ := h
    exact ih (hf hstep) hrest

theorem valueIn_moneyRange (h : view.valueIn tx = some value) : moneyRange value = true := by
  obtain ⟨transparent, hvin, hrest⟩ := Option.bind_eq_some_iff.mp h
  have htransparent : moneyRange transparent = true := by
    refine foldlM_moneyRange ?_ (by decide) hvin
    intro value i value' hstep
    obtain ⟨out, -, hadd⟩ := Option.bind_eq_some_iff.mp hstep
    split_ifs at hadd
    exact addValueIn_moneyRange hadd
  split_ifs at hrest
  · obtain ⟨shielded, hbalance, hjoinsplits⟩ := Option.bind_eq_some_iff.mp hrest
    exact foldlM_moneyRange addValueIn_moneyRange (addValueIn_moneyRange hbalance) hjoinsplits
  · exact foldlM_moneyRange addValueIn_moneyRange htransparent hrest

theorem getValueIn_moneyRange (h : 0 ≤ view.getValueIn tx) :
    moneyRange (view.getValueIn tx) = true := by
  unfold getValueIn at h ⊢
  split_ifs at h ⊢
  · decide
  · cases hin : view.valueIn tx with
    | none =>
      rw [hin] at h
      exact absurd h (by decide)
    | some value => exact valueIn_moneyRange hin

theorem chargeTxFee_of_accepted (hin : 0 ≤ view.getValueIn tx)
    (hout : 0 ≤ transactionGetValueOut tx) (hle : transactionGetValueOut tx ≤ view.getValueIn tx) :
    (chargeTxFee view tx 0).isOk = true := by
  have hrange := getValueIn_moneyRange hin
  rw [moneyRange_iff] at hrange
  rw [Int64.le_iff_toInt_le] at hout hle
  have hout' : 0 ≤ (transactionGetValueOut tx).toInt := hout
  have hsub : (view.getValueIn tx - transactionGetValueOut tx).toInt =
      (view.getValueIn tx).toInt - (transactionGetValueOut tx).toInt := by
    apply toInt_sub_of_fits
    rw [subOverflows_eq_false]
    omega
  have hfee : moneyRange (0 + (view.getValueIn tx - transactionGetValueOut tx)) = true := by
    rw [Int64.zero_add, moneyRange_iff, hsub]
    omega
  have hnonneg : ¬view.getValueIn tx - transactionGetValueOut tx < 0 := by
    rw [Int64.lt_iff_toInt_lt, hsub, Int64.toInt_zero]
    omega
  have hvalue : ¬(view.getValueIn tx < 0 ∨ moneyRange (view.getValueIn tx) = false) := by
    rw [moneyRange_iff.mpr hrange, Int64.lt_iff_toInt_lt, Int64.toInt_zero]
    simp [hrange.1]
  have hcharge : chargeTxFee view tx 0 =
      .ok (0 + (view.getValueIn tx - transactionGetValueOut tx)) := by
    unfold chargeTxFee
    simp only [refuseIf_bind_eq_ok]
    exact ⟨hvalue, by rw [Int64.lt_iff_toInt_lt]; omega, hnonneg,
      by rw [hfee]; exact Bool.noConfusion, trivial⟩
  rw [hcharge]
  rfl

theorem connectTx_coinbase {nHeight : Int32} {branchId : UInt32} {expensiveChecks : Bool}
    {st st' : ConnectState} {cb : Transaction} (hcb : transactionIsCoinbase cb = true)
    (h : connectTx nHeight branchId expensiveChecks st cb = .ok st') :
    st'.fees = st.fees ∧ ∀ txid ≠ cb.hash, st'.view.modify txid = st.view.modify txid := by
  obtain ⟨t, view', undo, ht, hupdate, rfl⟩ := connectTx_ok h
  rw [connectInputs, if_pos hcb] at ht
  cases ht
  refine ⟨rfl, ?_⟩
  intro txid hne
  obtain ⟨s, hin, hout⟩ := bind_eq_ok hupdate
  rw [if_pos hcb] at hin
  cases hin
  split at hout
  · cases hout
  · split_ifs at hout
    cases hout
    rw [modify_put, if_neg hne]

end NextBlock

theorem isFinalTx_iff {nBlockHeight nBlockTime : ℤ} :
    isFinalTx tx nBlockHeight nBlockTime = true ↔
      tx.lockTime = 0 ∨
        (tx.lockTime.toNat : ℤ) < (if (tx.lockTime.toNat : ℤ) < locktimeThreshold
          then nBlockHeight else nBlockTime) ∨
        ∀ i ∈ tx.vin, i.sequence = 0xffffffff := by
  have hzero : (tx.lockTime.toNat : ℤ) = 0 ↔ tx.lockTime = 0 := by
    rw [Int.natCast_eq_zero, ← UInt32.toNat_inj]
    rfl
  rw [isFinalTx]
  simp only [Bool.or_eq_true, beq_iff_eq, decide_eq_true_iff, all_eq_true, txInIsFinal, hzero,
    or_assoc]

/-- Being mineable on the tip `prev`: the input checks of `connect_block` in the state after the
coinbase, and the finality check of `contextual_check_block`. -/
structure Mineable (index : HeaderIndex) (prev : UInt256) (st : ConnectState) (nHeight : Int32)
    (tx : Transaction) : Prop where
  available : st.view.haveInputs tx = true
  mature : checkMaturity st.view tx nHeight = .ok ()
  balanced : (chargeTxFee st.view tx st.fees).isOk = true
  final : isFinalTx tx (index.nHeight prev + 1) (index.getMedianTimePast prev) = true

/-- An accepted transaction can be put after the coinbase of the next block exactly if the coinbase
outputs it spends are mature there and its lock time has passed: admission looks at neither. -/
theorem accepted_mineable_iff {env : AcceptEnv} {pool : TxMempool} {view : CoinsViewCache}
    {params : Option ChainParams} {tx : WireTransaction} {now : Int64} {index : HeaderIndex}
    {prev : UInt256} {tip : Int32} (htip : index.nHeight prev = tip.toInt)
    (haccept : (acceptToMempool env pool (some view) (some tip) params tx now).isOk = true)
    {blk : Block} {cb : Transaction} {branchId : UInt32} {expensiveChecks : Bool}
    {st : ConnectState}
    (hcb : transactionIsCoinbase cb = true) (hid : ∀ i ∈ tx.vin, i.prevout.hash ≠ cb.hash)
    (hst : connectTx (tip + 1) branchId expensiveChecks (.init view blk) cb = .ok st) :
    Mineable index prev st (tip + 1) tx.toTransaction ↔
      (∀ i ∈ tx.vin, (view.modify i.prevout.hash).isCoinbase = true →
        coinbaseMaturity ≤ (tip + 1).toInt - (view.modify i.prevout.hash).height.toInt) ∧
      (tx.lockTime = 0 ∨
        (tx.lockTime.toNat : ℤ) < (if (tx.lockTime.toNat : ℤ) < locktimeThreshold
          then tip.toInt + 1 else index.getMedianTimePast prev) ∨
        ∀ i ∈ tx.vin, i.sequence = 0xffffffff) := by
  obtain ⟨pool', hpool'⟩ := exists_eq_ok haccept
  obtain ⟨fee, branch, haccepted⟩ := acceptToMempool_ok hpool'
  obtain ⟨hinputs, hin, hout, hle⟩ := acceptInputs_ok (haccepted.inputs view rfl)
  obtain ⟨hfees, hview⟩ := connectTx_coinbase hcb hst
  have hsame : ∀ i ∈ tx.toTransaction.vin,
      st.view.modify i.prevout.hash = view.modify i.prevout.hash :=
    fun i hi => hview _ (hid i hi)
  have hmature : checkMaturity st.view tx.toTransaction (tip + 1) = .ok () ↔
      ∀ i ∈ tx.vin, (view.modify i.prevout.hash).isCoinbase = true →
        coinbaseMaturity ≤ (tip + 1).toInt - (view.modify i.prevout.hash).height.toInt := by
    rw [checkMaturity, refuseIf_eq_ok_iff]
    simp only [not_exists, not_and, not_lt]
    exact forall₂_congr fun i hi => by rw [hsame i hi]
  rw [← htip]
  constructor
  · intro h
    exact ⟨hmature.mp h.mature, isFinalTx_iff.mp h.final⟩
  · intro h
    refine ⟨?_, hmature.mpr h.1, ?_, isFinalTx_iff.mpr h.2⟩
    · rw [haveInputs_congr hsame]
      exact hinputs
    · rw [hfees]
      apply chargeTxFee_of_accepted
      · rw [getValueIn_congr hsame]
        exact hin
      · exact hout
      · rw [getValueIn_congr hsame]
        exact hle

def acceptingEnv : AcceptEnv where
  toContextualEnv := acceptingContext
  hash256 bs := ((bs.take 41).map (·.toNat)).sum
  verifyScript scriptSig scriptPubKey flags _ _ _ _ _ :=
    (verifyScript plainEnv flags scriptSig scriptPubKey).isOk

def minedView : CoinsViewCache where
  base txid :=
    if txid = 7 then some { vout := [{ value := 1000 }], height := 10, isCoinbase := true }
    else none

def tipIndex (tip : ℤ) : HeaderIndex where
  pprev _ := none
  nHeight _ := tip
  nTime _ := 0
  nBits _ := 0

def spendMined (lockTime : UInt32) : WireTransaction where
  vin := [{ prevout := ⟨7, 0⟩, scriptSig := trueScript, sequence := 0 }]
  vout := [{ value := 900 }]
  lockTime

def coinbaseOfNext : Transaction where
  vin := [{ prevout := nullOutpoint, scriptSig := { data := [0x51, 0x51] } }]
  vout := [{ value := 1 }]
  hash := 3

/-- Both are accepted on block 10: a spend of the coinbase of that block, and one that is locked
until height 1000. -/
theorem spendMined_accepted_not_mineable :
    (acceptToMempool acceptingEnv (txMempoolInit 0) (some minedView) (some 10) (some regtestParams)
      (spendMined 0) 0).isOk = true ∧
    checkMaturity minedView (spendMined 0).toTransaction 11 =
      .error (badBlock "bad-txns-premature-spend-of-coinbase") ∧
    (acceptToMempool acceptingEnv (txMempoolInit 0) (some minedView) (some 10) (some regtestParams)
      (spendMined 1000) 0).isOk = true ∧
    isFinalTx (spendMined 1000).toTransaction 11 ((tipIndex 10).getMedianTimePast 1) = false :=
  ⟨by decide +kernel, by decide +kernel, by decide +kernel, by decide +kernel⟩

/-- A hundred blocks later the coinbase is spent in the next block. -/
theorem accepted_mineable_iff_mature :
    ∃ st, connectTx 110 0 true (.init minedView ⟨[]⟩) coinbaseOfNext = .ok st ∧
      Mineable (tipIndex 109) 1 st 110 (spendMined 0).toTransaction := by
  obtain ⟨st, hst⟩ := exists_eq_ok (x := connectTx 110 0 true (.init minedView ⟨[]⟩) coinbaseOfNext)
    (by decide +kernel)
  have haccept : (acceptToMempool acceptingEnv (txMempoolInit 0) (some minedView) (some 109)
      (some regtestParams) (spendMined 0) 0).isOk = true := by decide +kernel
  have htip : (tipIndex 109).nHeight 1 = (109 : Int32).toInt := rfl
  refine ⟨st, hst, (accepted_mineable_iff htip haccept (by decide) (by decide +kernel) hst).mpr ?_⟩
  exact ⟨by decide +kernel, .inl rfl⟩

end ZClassic
