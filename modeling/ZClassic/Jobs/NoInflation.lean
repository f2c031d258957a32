import ZClassic.Jobs.DoubleSpend
import ZClassic.Jobs.ValueTotals

/-!
# No inflation

A block's fees, its shielded flows and the coinbase ceiling are summed over all its transactions.
-/

namespace ZClassic

open List

/-- What the coin `op` is worth to a block: a coin of `S`, or one of the block's own outputs. -/
def prevoutValue (S : CoinSet) (B : Block) (op : Outpoint) : ℤ :=
  match S.lookup op with
  | some c => c.value.toInt
  | none =>
    match lookupAdded (B.vtx.flatMap txAdded) op with
    | some e => e.value.toInt
    | none => 0

/-- The transparent value that `txs` create, less what they spend. -/
def netCreated (S : CoinSet) (B : Block) (txs : List Transaction) : ℤ :=
  valueSum (txs.flatMap txAdded) - ((spentBy txs).map (prevoutValue S B)).sum

theorem prevoutValue_of_created {S : CoinSet} {B : Block} {a : DeltaEntry}
    (hnodup : (createdBy B.vtx).Nodup) (ha : a ∈ B.vtx.flatMap txAdded) (hS : a.outpoint ∉ S) :
    prevoutValue S B a.outpoint = a.value.toInt := by
  unfold prevoutValue
  rw [Finmap.lookup_eq_none.mpr hS, lookupAdded_created hnodup ha]

theorem valueSum_txAdded {tx : Transaction} (h : ∀ out ∈ tx.vout, 0 ≤ out.value.toInt) :
    valueSum (txAdded tx) = intSum (tx.vout.map (·.value)) := by
  have hall : tx.vout.zipIdx.filter (fun out => !txOutIsNull out.1) = tx.vout.zipIdx := by
    apply filter_eq_self.mpr
    intro out hout
    have hpos := h out.1 (fst_mem_of_mem_zipIdx hout)
    simp only [txOutIsNull, Bool.not_eq_true', beq_eq_false_iff_ne, ne_eq]
    intro hnull
    rw [hnull] at hpos
    exact absurd hpos (by decide)
  have hvalues : (txAdded tx).map (·.value) = tx.vout.map (·.value) := by
    rw [txAdded, hall, map_map]
    change map ((fun out : TxOut => out.value) ∘ Prod.fst) tx.vout.zipIdx = _
    rw [← map_map, zipIdx_map_fst]
  rw [valueSum, hvalues]

/-- The transparent value a transaction is entitled to bring into being, less its fee. -/
def mintedBy (tx : Transaction) : ℤ :=
  if transactionIsCoinbase tx then valueSum (txAdded tx) else shieldedFlow tx

section Block

variable {height : UInt32} {lookup : UtxoApplyLookupFn} {S : CoinSet} {txs : List Transaction}
  {st st' : DeltaState}

theorem Accepted.net_eq {B : Block} {pre post : List Transaction}
    (h : Accepted height lookup pre st) (hS : ReportsCoins lookup S) (hB : B.vtx = pre ++ post)
    (hnodup : (createdBy B.vtx).Nodup) : st.net = netCreated S B pre := by
  have hvalue : ∀ e ∈ st.spent, e.value.toInt = prevoutValue S B e.outpoint := by
    intro e he
    cases h.source e he with
    | intra a mem outpoint eq =>
      have ha : a ∈ B.vtx.flatMap txAdded := by
        rw [hB, flatMap_append, ← h.added]
        exact mem_append_left _ mem
      rw [← outpoint, prevoutValue_of_created hnodup ha (h.added_notMem hS.found a mem), eq]
    | found lk result found eq =>
      rw [prevoutValue, hS.restored_lookup result found eq]
      rfl
  have hspent : valueSum st.spent = ((spentBy pre).map (prevoutValue S B)).sum := by
    rw [← h.spent, map_map, valueSum, intSum, map_map]
    exact congrArg sum (map_congr_left hvalue)
  rw [DeltaState.net, netCreated, h.added, hspent]

variable {tx : Transaction}

section

variable (h : Accepted height lookup txs st) (hS : ReportsCoins lookup S)

include h hS

/-- The spends after one more transaction, against the outputs before it: no transaction can
spend its own outputs. -/
theorem Accepted.deltaOf_step (hstep : applyTx height lookup st tx = .ok st')
    (hnodup : (st'.spent.map DeltaEntry.outpoint).Nodup) :
    DeltaOf S height lookup st.added st'.spent := by
  obtain ⟨es, hspent, -, hes⟩ := applyTx_spent hstep
  refine ⟨h.created ▸ h.created_nodup, h.added_notMem hS.found,
    fun e he => (h.added_value e he).1, hnodup, ?_⟩
  intro e he
  rw [hspent] at he
  rcases mem_append.mp he with he | he
  · exact h.source e he
  · obtain ⟨pre, hpre, hok, heq⟩ := hes e he
    exact restoreSource_of_preimage hpre hok heq

theorem Accepted.deltaOf
    (hnodup : (spentBy txs).Nodup) : DeltaOf S height lookup st.added st.spent :=
  ⟨h.created ▸ h.created_nodup, h.added_notMem hS.found, fun e he => (h.added_value e he).1,
    h.spent ▸ hnodup, h.source⟩

end

theorem applyTx_exact (hstep : applyTx height lookup st tx = .ok st')
    (hfin : st'.overflowed = false) :
    st.overflowed = false ∧
      st'.totalValueDelta.toInt - st'.net = st.totalValueDelta.toInt - st.net := by
  obtain ⟨st₁, st₂, hin, hout, hfee⟩ := applyTx_ok hstep
  have hspend := spendInputs_total hin
  have hcreate := addOutputs_total hout
  obtain ⟨es, -, -, -, hadded₁⟩ := spendInputs_ok hin
  obtain ⟨-, hspent₂, -, -⟩ := addOutputs_ok hout
  have hrest : st₂.overflowed = false ∧ st'.totalValueDelta = st₂.totalValueDelta ∧
      st'.net = st₂.net := by
    rcases hfee with ⟨-, rfl⟩ | ⟨-, hfee⟩
    · exact ⟨hfin, rfl, rfl⟩
    · unfold chargeFee at hfee
      dsimp only at hfee
      split_ifs at hfee
      cases hfee
      simp only [Bool.or_eq_false_iff] at hfin
      exact ⟨hfin.1, rfl, rfl⟩
  obtain ⟨h₂, hdelta, hnet⟩ := hrest
  have h₁ := (hcreate.overflowed.mp h₂).1
  have hdelta₂ := hcreate.delta h₂
  have hdelta₁ := (hspend.delta h₁).1
  refine ⟨(hspend.overflowed.mp h₁).1, ?_⟩
  rw [hdelta, hnet]
  simp only [DeltaState.net, hspent₂, hadded₁] at *
  omega

theorem loop_exact (h : txs.foldlM (applyTx height lookup) st = .ok st')
    (hfin : st'.overflowed = false) :
    st.overflowed = false ∧
      st'.totalValueDelta.toInt - st'.net = st.totalValueDelta.toInt - st.net := by
  refine foldlM_invariant (fun _ t => t.overflowed = false → st.overflowed = false ∧
    t.totalValueDelta.toInt - t.net = st.totalValueDelta.toInt - st.net) h
    (fun h => ⟨h, rfl⟩) ?_ hfin
  rintro done tx todo t t' - hinv hstep hfin'
  obtain ⟨ht, hexact⟩ := applyTx_exact hstep hfin'
  obtain ⟨hst, hexact'⟩ := hinv ht
  exact ⟨hst, hexact.trans hexact'⟩

/-- No total has overflowed, and they add up to what the transactions were entitled to. -/
structure Balanced (txs : List Transaction) (st : DeltaState) : Prop where
  overflowed : st.overflowed = false
  delta : st.totalValueDelta.toInt = st.net
  fees_nonneg : 0 ≤ st.totalFees.toInt
  fees_le : st.totalFees.toInt ≤ 2100000000000000
  balance : st.totalFees.toInt + st.net = (txs.map mintedBy).sum
  helpers : ∀ tx ∈ txs, transactionIsCoinbase tx = false →
    SumsExactly (valueOutTerms tx) ∧ SumsExactly (shieldedValueInTerms tx)

theorem Balanced.nil : Balanced [] {} :=
  ⟨rfl, rfl, le_refl 0, by decide, rfl, by simp⟩

/-- What a transaction that spends `x` does to the totals before its fee is charged. -/
structure MovesValue (tx : Transaction) (st st₂ : DeltaState) (x : ℤ) : Prop where
  nonneg : 0 ≤ x
  coinbase : transactionIsCoinbase tx = true → x = 0
  fees : st₂.totalFees = st.totalFees
  input : st₂.txInputValue = Int64.ofInt x
  spent : valueSum st₂.spent = valueSum st.spent + x
  added : st₂.added = st.added ++ txAdded tx
  exact : st.overflowed = false → -2 ^ 63 ≤ st.totalValueDelta.toInt - x → x < 2 ^ 63 →
    st.totalValueDelta.toInt - x + valueSum (txAdded tx) < 2 ^ 63 →
    st₂.overflowed = false ∧
      st₂.totalValueDelta.toInt = st.totalValueDelta.toInt - x + valueSum (txAdded tx)

theorem applyTx_moves (hstep : applyTx height lookup st tx = .ok st') :
    ∃ st₂ x, MovesValue tx st st₂ x ∧
      (transactionIsCoinbase tx = true ∧ st' = st₂ ∨
        transactionIsCoinbase tx = false ∧ chargeFee tx st₂ = .ok st') := by
  obtain ⟨st₁, st₂, hin, hout, hfee⟩ := applyTx_ok hstep
  have hspend := spendInputs_total hin
  have hcreate := addOutputs_total hout
  obtain ⟨es, -, -, -, hadded₁⟩ := spendInputs_ok hin
  obtain ⟨hadded₂, hspent₂, -, -⟩ := addOutputs_ok hout
  dsimp only at hspend hadded₁
  rw [hadded₂, hadded₁, valueSum_append, add_sub_cancel_left] at hcreate
  refine ⟨st₂, _, ⟨hspend.nonneg, ?_, hcreate.fees.trans hspend.fees, ?_, ?_, ?_, ?_⟩, hfee⟩
  · intro hcb
    rw [if_pos hcb] at hin
    cases hin
    exact sub_self _
  · rw [hcreate.input, hspend.input]
    exact Int64.zero_add _
  · rw [hspent₂]
    omega
  · rw [hadded₂, hadded₁]
  · intro hst hlow hx hhigh
    have h₁ : st₁.overflowed = false := by
      apply hspend.overflowed.mpr
      refine ⟨hst, hlow, ?_⟩
      change 0 + _ < (2 : ℤ) ^ 63
      omega
    have hval₁ := (hspend.delta h₁).1
    dsimp only at hval₁
    have h₂ := hcreate.overflowed.mpr ⟨h₁, by omega⟩
    exact ⟨h₂, by rw [hcreate.delta h₂, hval₁]⟩

theorem Balanced.step (h : Balanced txs st) (hacc : Accepted height lookup txs st)
    (hS : ReportsCoins lookup S) (hval : ∀ op c, S.lookup op = some c → 0 ≤ c.value.toInt)
    (htotal : coinsTotal S ≤ 2100000000000000) (hstep : applyTx height lookup st tx = .ok st')
    (hnodup : (st'.spent.map DeltaEntry.outpoint).Nodup) (hnet : st'.net < 2 ^ 63) :
    Balanced (txs ++ [tx]) st' := by
  have hspentLe := (hacc.deltaOf_step hS hstep hnodup).spent_le hS hval
  obtain ⟨st₂, x, hmoves, hfee⟩ := applyTx_moves hstep
  have hlists : st'.spent = st₂.spent ∧ st'.added = st₂.added := by
    rcases hfee with ⟨-, rfl⟩ | ⟨-, hfee⟩
    · exact ⟨rfl, rfl⟩
    · exact chargeFee_ok hfee
  have hx := hmoves.nonneg
  have hspent := hmoves.spent
  have hnet' : st'.net = st.net - x + valueSum (txAdded tx) := by
    simp only [DeltaState.net, hlists.1, hlists.2, hmoves.added, valueSum_append]
    omega
  have hdelta := h.delta
  have hlow : -2100000000000000 ≤ st.net - x := by
    rw [hlists.1] at hspentLe
    unfold DeltaState.net
    omega
  have hhigh := st.totalValueDelta.toInt_lt
  -- with inputs in money range, the two loops leave exact totals
  have hexact : x ≤ 2100000000000000 →
      st₂.overflowed = false ∧ st₂.totalValueDelta.toInt = st'.net := by
    intro hxle
    obtain ⟨hover, hval₂⟩ := hmoves.exact h.overflowed (by omega) (by omega) (by omega)
    exact ⟨hover, by omega⟩
  have hfees := h.fees_nonneg
  have hfees' := h.fees_le
  have hbal := h.balance
  have hsum : ((txs ++ [tx]).map mintedBy).sum = (txs.map mintedBy).sum + mintedBy tx := by simp
  rcases hfee with ⟨hcb, rfl⟩ | ⟨hcb, hfee⟩
  · -- a coinbase has no inputs, and its outputs count as minted
    have hx0 := hmoves.coinbase hcb
    obtain ⟨hover, hval₂⟩ := hexact (by omega)
    refine ⟨hover, hval₂, ?_, ?_, ?_, ?_⟩
    · rwa [hmoves.fees]
    · rwa [hmoves.fees]
    · rw [hmoves.fees, hsum, mintedBy, if_pos hcb]
      omega
    · intro tx' htx' hcb'
      rcases mem_append.mp htx' with htx' | htx'
      · exact h.helpers tx' htx' hcb'
      · rw [mem_singleton.mp htx', hcb] at hcb'
        cases hcb'
  · rw [← hmoves.fees] at hfees hfees'
    have hcharge := chargeFee_total hfee hmoves.input hx (by omega) hfees hfees'
    obtain ⟨hover, hval₂⟩ := hexact hcharge.input_le
    have hpaid := valueSum_txAdded hcharge.out_nonneg
    have hfeesEq := hcharge.fees
    rw [hmoves.fees] at hfeesEq
    refine ⟨?_, ?_, hcharge.fees_nonneg, hcharge.fees_le, ?_, ?_⟩
    · rwa [hcharge.overflowed]
    · rwa [hcharge.delta]
    · rw [hsum, mintedBy, if_neg (by simp [hcb])]
      omega
    · intro tx' htx' hcb'
      rcases mem_append.mp htx' with htx' | htx'
      · exact h.helpers tx' htx' hcb'
      · rw [mem_singleton.mp htx']
        exact ⟨hcharge.valueOut, hcharge.shieldedIn⟩

theorem balanced_of_loop {B : Block} (h : B.vtx.foldlM (applyTx height lookup) {} = .ok st)
    (hS : ReportsCoins lookup S) (hval : ∀ op c, S.lookup op = some c → 0 ≤ c.value.toInt)
    (htotal : coinsTotal S ≤ 2100000000000000) (hnodup : (spentBy B.vtx).Nodup)
    (hnet : ∀ pre post, B.vtx = pre ++ post → netCreated S B pre < 2 ^ 63) : Balanced B.vtx st := by
  have hcreated := (accepted_of_loop h).created_nodup
  refine (foldlM_invariant (fun done t => Accepted height lookup done t ∧ Balanced done t) h
    ⟨.nil, .nil⟩ ?_).2
  rintro done tx todo t t' hB ⟨hacc, hbal⟩ hstep
  have hacc' := hacc.step hstep
  have hB' : B.vtx = (done ++ [tx]) ++ todo := by simp [hB]
  refine ⟨hacc', hbal.step hacc hS hval htotal hstep ?_ ?_⟩
  · rw [hacc'.spent]
    rw [hB', spentBy_append] at hnodup
    exact (nodup_append.mp hnodup).1
  · rw [hacc'.net_eq hS hB' hcreated]
    exact hnet _ _ hB'

theorem checkCoinbase_ceiling {params : ConsensusParams} {cb : Transaction}
    (h : checkCoinbase params height ⟨cb :: txs⟩ st = .ok st')
    (hcb : transactionIsCoinbase cb = true) (hfees : 0 ≤ st.totalFees.toInt) :
    SumsExactly (valueOutTerms cb) ∧
      valueSum (txAdded cb) ≤ (getBlockSubsidy height.toInt32 params).toInt +
        st.totalFees.toInt := by
  unfold checkCoinbase at h
  split at h
  · cases h
  · dsimp only at h
    rw [hcb] at h
    simp only [Bool.not_true, Bool.false_eq_true, if_false] at h
    split_ifs at h with hreward hamount
    simp only [not_or, Int64.not_lt, Int64.le_iff_toInt_le] at hreward hamount
    obtain ⟨hsubsidy, hroom⟩ := hreward
    obtain ⟨hout, hceiling⟩ := hamount
    have hsubsidy : 0 ≤ (getBlockSubsidy height.toInt32 params).toInt := hsubsidy
    have hlt := (getBlockSubsidy height.toInt32 params).toInt_lt
    rw [toInt_sub_of_fits (subOverflows_eq_false.mpr (by rw [Int64.toInt_maxValue]; omega)),
      Int64.toInt_maxValue] at hroom
    rw [toInt_add_of_fits (addOverflows_eq_false.mpr (by omega))] at hceiling
    obtain ⟨hsum, houts, hold, hval⟩ := valueOut_nonneg hout
    refine ⟨hsum, ?_⟩
    rw [valueSum_txAdded houts]
    omega

end Block

/-- No `int64_t` total overflowed while the block was processed: neither those of the delta loop
nor those inside the two value helpers. -/
def NoOverflow (B : Block) (s : DeltaSummary) : Prop :=
  s.overflowed = false ∧ ∀ tx ∈ B.vtx, SumsExactly (valueOutTerms tx) ∧
    (transactionIsCoinbase tx = false → SumsExactly (shieldedValueInTerms tx))

/-- An accepted block overflows no total and mints at most its subsidy and shielded flows exactly
when the net transparent value of each of its prefixes fits an `int64_t`. -/
theorem computeBlockDelta_no_inflation_iff (params : ConsensusParams) (cb : Transaction)
    (txs : List Transaction) (height : UInt32) (lookup : UtxoApplyLookupFn) (S : CoinSet)
    (hS : ReportsCoins lookup S)
    (hvalue : ∀ op c, S.lookup op = some c → moneyRange c.value = true)
    (htotal : coinsTotal S ≤ maxMoney.toInt)
    (hcb : transactionIsCoinbase cb = true)
    (htxs : ∀ tx ∈ txs, transactionIsCoinbase tx = false)
    (hok : (utxoApplyComputeBlockDelta params (some ⟨cb :: txs⟩) height lookup).ok = true)
    (hdistinct : ((utxoApplyComputeBlockDelta params (some ⟨cb :: txs⟩) height lookup).spent.map
      DeltaEntry.outpoint).Nodup) :
    let s := utxoApplyComputeBlockDelta params (some ⟨cb :: txs⟩) height lookup
    (NoOverflow ⟨cb :: txs⟩ s ∧
      coinsTotal (applyCoinsKv S s height) ≤ coinsTotal S
        + (getBlockSubsidy height.toInt32 params).toInt + (txs.map shieldedFlow).sum) ↔
    ∀ pre post, cb :: txs = pre ++ post → netCreated S ⟨cb :: txs⟩ pre ≤ Int64.maxValue.toInt := by
  intro s
  obtain ⟨st, hst, hsum⟩ := computeBlockDelta_ok hok
  obtain ⟨hloop, hcoinbase⟩ := blockDelta_ok hst
  have hacc := accepted_of_loop hloop
  rw [hsum] at hdistinct
  have hnodup : (spentBy (cb :: txs)).Nodup := hacc.spent ▸ hdistinct
  have hval : ∀ op c, S.lookup op = some c → 0 ≤ c.value.toInt :=
    fun op c hc => (moneyRange_iff.mp (hvalue op c hc)).1
  simp only [s, hsum]
  constructor
  · rintro ⟨⟨hover, -⟩, -⟩ pre post hpre
    rw [hpre] at hloop
    obtain ⟨t, hloop₁, hloop₂⟩ := foldlM_ok_append hloop
    obtain ⟨ht, -⟩ := loop_exact hloop₂ hover
    obtain ⟨-, hexact⟩ := loop_exact hloop₁ ht
    rw [← (accepted_of_loop hloop₁).net_eq hS hpre hacc.created_nodup]
    have hlt := t.totalValueDelta.toInt_lt
    have hzero : ({} : DeltaState).totalValueDelta.toInt - ({} : DeltaState).net = 0 := rfl
    rw [Int64.toInt_maxValue]
    omega
  · intro hnet
    have hbal := balanced_of_loop hloop hS hval htotal hnodup (by
      intro pre post hpre
      have := hnet pre post hpre
      rw [Int64.toInt_maxValue] at this
      omega)
    obtain ⟨hcbSum, hceiling⟩ := checkCoinbase_ceiling hcoinbase hcb hbal.fees_nonneg
    refine ⟨⟨hbal.overflowed, ?_⟩, ?_⟩
    · intro tx htx
      rcases mem_cons.mp htx with rfl | htx'
      · exact ⟨hcbSum, fun h => by rw [hcb] at h; cases h⟩
      · obtain ⟨hout, hin⟩ := hbal.helpers tx htx (htxs tx htx')
        exact ⟨hout, fun _ => hin⟩
    · have htable := (hacc.deltaOf hS hnodup).coinsTotal_applyDelta hS
      have hbalance := hbal.balance
      have hminted : (txs.map mintedBy).sum = (txs.map shieldedFlow).sum := by
        refine congrArg sum (map_congr_left fun tx htx => ?_)
        rw [mintedBy, if_neg (by simp [htxs tx htx])]
      rw [map_cons, sum_cons, mintedBy, if_pos hcb, hminted, DeltaState.net] at hbalance
      rw [applyCoinsKv_eq]
      change coinsTotal (applyDelta S height st.added st.spent) ≤ _
      omega

def unshield (i : ℕ) : Transaction where
  vout := [{ value := maxMoneyZat }]
  valueBalance := maxMoneyZat
  hash := BitVec.ofNat 256 i

def unshieldEntry (i : ℕ) : DeltaEntry := addedEntry (unshield i) ({ value := maxMoneyZat }, 0)

theorem chargeFee_unshield (i : ℕ) (st : DeltaState) (hfees : st.totalFees = 0)
    (hinput : st.txInputValue = 0) :
    ∃ wrapped, chargeFee (unshield i) st = .ok { st with overflowed := wrapped } := by
  -- neither helper reads the hash, so both can be evaluated on a closed transaction
  have hin : transactionGetShieldedValueIn (unshield i) = maxMoneyZat := by
    change transactionGetShieldedValueIn (unshield 0) = _
    decide
  have hval : transactionGetValueOut (unshield i) = maxMoneyZat := by
    change transactionGetValueOut (unshield 0) = _
    decide
  have hrange : ¬(maxMoneyZat < 0 ∨ maxMoneyZat < 0 ∨ maxMoneyZat - 0 < maxMoneyZat) := by decide
  have hcovered : ¬(0 + maxMoneyZat < maxMoneyZat) := by decide
  have hroom : ¬(maxMoneyZat - 0 < 0 + maxMoneyZat - maxMoneyZat) := by decide
  have hnone : (0 : Int64) + (0 + maxMoneyZat - maxMoneyZat) = 0 := by decide
  unfold chargeFee
  simp only [hin, hval, hfees, hinput]
  rw [if_neg hrange, if_neg hcovered, if_neg hroom, hnone, ← hfees]
  exact ⟨_, rfl⟩

theorem applyTx_unshield (height : UInt32) (i : ℕ) (st : DeltaState) (hfees : st.totalFees = 0)
    (hnew : (unshieldEntry i).outpoint ∉ st.added.map DeltaEntry.outpoint) :
    ∃ wrapped, applyTx height (coinLookup ∅) st (unshield i) =
      .ok { { st with txInputValue := 0 }.create (unshieldEntry i) with
        overflowed := wrapped } := by
  have hcreatable : Creatable (coinLookup ∅) st.added (unshieldEntry i) :=
    ⟨show 0 ≤ maxMoneyZat by decide, show maxMoneyZat ≤ maxMoneyZat by decide, hnew, {}, rfl, rfl⟩
  have hvout : (unshield i).vout.zipIdx = [(({ value := maxMoneyZat } : TxOut), 0)] := rfl
  have houts : (unshield i).vout.zipIdx.foldlM (addOutput (coinLookup ∅) (unshield i))
      { st with txInputValue := 0 } =
      .ok ({ st with txInputValue := 0 }.create (unshieldEntry i)) := by
    have hout : addOutput (coinLookup ∅) (unshield i) { st with txInputValue := 0 }
        ({ value := maxMoneyZat }, 0) =
        .ok ({ st with txInputValue := 0 }.create (unshieldEntry i)) :=
      addOutput_of_creatable (by decide) hcreatable
    rw [hvout, foldlM_cons, hout]
    rfl
  obtain ⟨wrapped, hcharge⟩ := chargeFee_unshield i
    ({ st with txInputValue := 0 }.create (unshieldEntry i)) hfees rfl
  exact ⟨wrapped, applyTx_of_passes rfl rfl houts hcharge⟩

def unshieldedState (n : ℕ) (overflowed : Bool) : DeltaState where
  added := (range n).map unshieldEntry
  totalValueDelta := Int64.ofInt (n * maxMoneyZat.toInt)
  overflowed

theorem unshields_accepted (height : UInt32) (n : ℕ) (hn : n ≤ 2 ^ 32) :
    ∃ wrapped, ((range n).map unshield).foldlM (applyTx height (coinLookup ∅)) {} =
      .ok (unshieldedState n wrapped) := by
  induction n with
  | zero => exact ⟨false, rfl⟩
  | succ n ih =>
    obtain ⟨wrapped, hrun⟩ := ih (by omega)
    have hnew : (unshieldEntry n).outpoint ∉
        ((range n).map unshieldEntry).map DeltaEntry.outpoint := by
      rw [map_map]
      intro hmem
      obtain ⟨i, hi, hout⟩ := mem_map.mp hmem
      rw [mem_range] at hi
      have hhash : BitVec.ofNat 256 i = BitVec.ofNat 256 n := congrArg Outpoint.hash hout
      have hnat := congrArg BitVec.toNat hhash
      rw [BitVec.toNat_ofNat, BitVec.toNat_ofNat, Nat.mod_eq_of_lt (by omega),
        Nat.mod_eq_of_lt (by omega)] at hnat
      omega
    rw [range_succ, map_append, map_singleton, foldlM_append, hrun]
    obtain ⟨wrapped', hstep⟩ := applyTx_unshield height n (unshieldedState n wrapped) rfl hnew
    refine ⟨wrapped', ?_⟩
    change [unshield n].foldlM (applyTx height (coinLookup ∅)) _ = _
    rw [foldlM_cons, hstep]
    have hdelta : Int64.ofInt (n * maxMoneyZat.toInt) + maxMoneyZat =
        Int64.ofInt ((n + 1 : ℕ) * maxMoneyZat.toInt) := by
      rw [Nat.cast_add, add_mul, Int64.ofInt_add, Nat.cast_one, one_mul, Int64.ofInt_toInt]
    rw [unshieldedState, unshieldedState, ← hdelta, range_succ, map_append]
    rfl

def unshieldBlock (n : ℕ) : Block where
  vtx := emptyCoinbase (BitVec.ofNat 256 (2 ^ 200)) :: (List.range n).map unshield

theorem unshieldBlock_accepted (n : ℕ) (hn : n ≤ 2 ^ 32)
    (hwrapped : ¬(maxMoneyZat < Int64.ofInt (n * maxMoneyZat.toInt) ∨
      Int64.ofInt (n * maxMoneyZat.toInt) < -maxMoneyZat)) :
    ∃ st, blockDelta mainParams 1000 (coinLookup ∅) (unshieldBlock n) = .ok st ∧
      st.spent = [] ∧ st.added = (range n).map unshieldEntry := by
  obtain ⟨wrapped, hrun⟩ := unshields_accepted 1000 n hn
  have hcb : applyTx 1000 (coinLookup ∅) {} (emptyCoinbase (BitVec.ofNat 256 (2 ^ 200))) =
      .ok {} := rfl
  have hisCb : transactionIsCoinbase (emptyCoinbase (BitVec.ofNat 256 (2 ^ 200))) = true := by
    decide
  have hsubsidy : getBlockSubsidy (1000 : UInt32).toInt32 mainParams = 1250000000 := by decide
  have hclaim : transactionGetValueOut (emptyCoinbase (BitVec.ofNat 256 (2 ^ 200))) = 0 := by decide
  have hreward : ¬((1250000000 : Int64) < 0 ∨ Int64.maxValue - 1250000000 < 0) := by decide
  have hamount : ¬((0 : Int64) < 0 ∨ (1250000000 : Int64) + 0 < 0) := by decide
  refine ⟨unshieldedState n wrapped, ?_, rfl, rfl⟩
  rw [blockDelta, unshieldBlock, foldlM_cons, hcb, ok_bind, hrun, ok_bind, checkCoinbase,
    unshieldedState, if_neg hwrapped]
  simp only [hisCb, hsubsidy, hclaim, Bool.not_true, Bool.false_eq_true, if_false]
  rw [if_neg hreward, if_neg hamount]

theorem valueSum_unshieldEntry (n : ℕ) :
    valueSum ((range n).map unshieldEntry) = n * 2100000000000000 := by
  rw [valueSum, intSum, map_map, map_map]
  change ((range n).map fun _ => (2100000000000000 : ℤ)).sum = _
  rw [map_const', sum_replicate, length_range, nsmul_eq_mul]

/-- 8784 unshielding transactions take `total_value_delta` once around. -/
theorem unshieldBlock_overflows :
    let s := utxoApplyComputeBlockDelta mainParams (some (unshieldBlock 8784)) 1000 (coinLookup ∅)
    ReportsCoins (coinLookup ∅) ∅ ∧
      (∀ op c, (∅ : CoinSet).lookup op = some c → moneyRange c.value = true) ∧
      coinsTotal ∅ ≤ maxMoney.toInt ∧
      (∃ cb txs, (unshieldBlock 8784).vtx = cb :: txs ∧ transactionIsCoinbase cb = true ∧
        ∀ tx ∈ txs, transactionIsCoinbase tx = false) ∧
      s.ok = true ∧ (s.spent.map DeltaEntry.outpoint).Nodup ∧ s.overflowed = true := by
  obtain ⟨st, hst, hspent, hadded⟩ := unshieldBlock_accepted 8784 (by omega) (by decide)
  have hsum : utxoApplyComputeBlockDelta mainParams (some (unshieldBlock 8784)) 1000
      (coinLookup ∅) = st.accept := by
    rw [utxoApplyComputeBlockDelta, hst]
  rw [hsum]
  refine ⟨coinLookup_reportsCoins ∅, ?_, by decide, ⟨_, _, rfl, by decide, ?_⟩, rfl, ?_, ?_⟩
  · intro op c hc
    cases hc
  · intro tx htx
    obtain ⟨i, -, rfl⟩ := mem_map.mp htx
    rfl
  · change (st.spent.map DeltaEntry.outpoint).Nodup
    rw [hspent]
    exact nodup_nil
  · -- an exact total would be 8784 times all the money, which does not fit
    rw [← Bool.not_eq_false]
    intro hover
    have hexact := (loop_exact (blockDelta_ok hst).1 hover).2
    have hnet : st.net = (8784 : ℕ) * 2100000000000000 := by
      rw [DeltaState.net, hspent, hadded, valueSum_unshieldEntry]
      exact sub_zero _
    have hzero : ({} : DeltaState).totalValueDelta.toInt - ({} : DeltaState).net = 0 := rfl
    have hlt := st.totalValueDelta.toInt_lt
    omega

theorem moveCoin_no_inflation :
    let S := oneCoin ⟨9, 0⟩ 50
    let s := utxoApplyComputeBlockDelta mainParams
      (some ⟨[emptyCoinbase 1, moveCoin ⟨9, 0⟩ 50 2]⟩) 1000 (coinLookup S)
    NoOverflow ⟨[emptyCoinbase 1, moveCoin ⟨9, 0⟩ 50 2]⟩ s ∧
      coinsTotal (applyCoinsKv S s 1000) ≤ coinsTotal S
        + (getBlockSubsidy (1000 : UInt32).toInt32 mainParams).toInt
        + ([moveCoin ⟨9, 0⟩ 50 2].map shieldedFlow).sum := by
  intro S s
  refine (computeBlockDelta_no_inflation_iff mainParams (emptyCoinbase 1) [moveCoin ⟨9, 0⟩ 50 2]
    1000 (coinLookup S) S (coinLookup_reportsCoins S) ?_ (by decide) (by decide) (by decide)
    (by decide) (by decide)).mpr ?_
  · intro op c hc
    rw [(oneCoin_lookup hc).2]
    decide
  · intro pre post hsplit
    have hmem : pre ∈ [emptyCoinbase 1, moveCoin ⟨9, 0⟩ 50 2].inits :=
      (mem_inits _ _).mpr ⟨post, hsplit.symm⟩
    clear hsplit
    revert pre
    decide

end ZClassic
