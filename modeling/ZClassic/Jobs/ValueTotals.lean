import ZClassic.Jobs.UtxoApplyDeltaStore

/-!
# The running totals of a block

The delta loop keeps `int64_t` totals.
-/

namespace ZClassic

open List Table

def valueSum (es : List DeltaEntry) : ℤ := intSum (es.map (·.value))

@[simp]
theorem valueSum_append (es es' : List DeltaEntry) :
    valueSum (es ++ es') = valueSum es + valueSum es' := by
  simp [valueSum]

@[simp]
theorem valueSum_singleton (e : DeltaEntry) : valueSum [e] = e.value.toInt := by
  simp [valueSum]

def DeltaState.net (st : DeltaState) : ℤ := valueSum st.added - valueSum st.spent

theorem maxMoneyZat_toInt : maxMoneyZat.toInt = 2100000000000000 := rfl

variable {d d' : ℤ} {st₁ st₂ : DeltaState} {e : DeltaEntry} {tx : Transaction} {S : CoinSet}
  {added spent : List DeltaEntry}

section Loops

variable {height : UInt32} {lookup : UtxoApplyLookupFn} {st st' : DeltaState}

/-- What a run of the input loop that spends `d` in all does to the totals. -/
structure SpendsTotal (st st' : DeltaState) (d : ℤ) : Prop where
  nonneg : 0 ≤ d
  fees : st'.totalFees = st.totalFees
  input : st'.txInputValue = st.txInputValue + Int64.ofInt d
  overflowed : st'.overflowed = false ↔ st.overflowed = false ∧
    -2 ^ 63 ≤ st.totalValueDelta.toInt - d ∧ st.txInputValue.toInt + d < 2 ^ 63
  delta : st'.overflowed = false → st'.totalValueDelta.toInt = st.totalValueDelta.toInt - d ∧
    st'.txInputValue.toInt = st.txInputValue.toInt + d

theorem DeltaState.spend_total (st : DeltaState) (op : Outpoint) {pre : UtxoApplyLookup}
    (hv : 0 ≤ pre.value) : SpendsTotal st (st.spend op pre) pre.value.toInt := by
  have hv : 0 ≤ pre.value.toInt := Int64.le_iff_toInt_le.mp hv
  have hflag : (st.spend op pre).overflowed = false ↔ st.overflowed = false ∧
      subOverflows st.totalValueDelta pre.value = false ∧
      addOverflows st.txInputValue pre.value = false := by
    simp [DeltaState.spend, and_assoc]
  refine ⟨hv, rfl, ?_, ?_, ?_⟩
  · rw [Int64.ofInt_toInt]
    rfl
  · have hdelta := st.totalValueDelta.toInt_lt
    have hinput := st.txInputValue.le_toInt
    rw [hflag, subOverflows_eq_false, addOverflows_eq_false]
    constructor
    · rintro ⟨h, hsub, hadd⟩
      exact ⟨h, hsub.1, hadd.2⟩
    · rintro ⟨h, hsub, hadd⟩
      exact ⟨h, ⟨hsub, by omega⟩, by omega, hadd⟩
  · intro h
    obtain ⟨-, hsub, hadd⟩ := hflag.mp h
    exact ⟨toInt_sub_of_fits hsub, toInt_add_of_fits hadd⟩

theorem SpendsTotal.trans (h : SpendsTotal st st₁ d) (h' : SpendsTotal st₁ st₂ d') :
    SpendsTotal st st₂ (d + d') := by
  have hd := h.nonneg
  have hd' := h'.nonneg
  refine ⟨by omega, h'.fees.trans h.fees, ?_, ?_, ?_⟩
  · rw [h'.input, h.input, Int64.ofInt_add, Int64.add_assoc]
  · constructor
    · intro hfin
      obtain ⟨hmid, hlow, hhigh⟩ := h'.overflowed.mp hfin
      obtain ⟨hdelta, hinput⟩ := h.delta hmid
      exact ⟨(h.overflowed.mp hmid).1, by omega, by omega⟩
    · rintro ⟨hst, hlow, hhigh⟩
      -- the first part fits because the whole does and both parts are nonnegative
      have hmid : st₁.overflowed = false := h.overflowed.mpr ⟨hst, by omega, by omega⟩
      obtain ⟨hdelta, hinput⟩ := h.delta hmid
      exact h'.overflowed.mpr ⟨hmid, by omega, by omega⟩
  · intro hfin
    obtain ⟨hdelta, hinput⟩ := h.delta (h'.overflowed.mp hfin).1
    obtain ⟨hdelta', hinput'⟩ := h'.delta hfin
    omega

theorem spendInputs_total {vin : List TxIn}
    (h : vin.foldlM (spendInput height lookup) st = .ok st') :
    SpendsTotal st st' (valueSum st'.spent - valueSum st.spent) := by
  have hinit : SpendsTotal st st 0 := by
    have hlow := st.totalValueDelta.le_toInt
    have hhigh := st.txInputValue.toInt_lt
    refine ⟨le_refl 0, rfl, (Int64.add_zero _).symm, ?_, ?_⟩
    · constructor
      · intro h
        exact ⟨h, by omega, by omega⟩
      · exact fun h => h.1
    · intro _
      omega
  refine foldlM_invariant (fun _ t => SpendsTotal st t (valueSum t.spent - valueSum st.spent)) h
    (by rwa [sub_self]) ?_
  rintro done i todo t t' - hinv hstep
  obtain ⟨pre, -, hok, rfl⟩ := spendInput_ok hstep
  have hsum : valueSum (t.spend i.prevout pre).spent - valueSum st.spent =
      valueSum t.spent - valueSum st.spent + pre.value.toInt := by
    simp only [DeltaState.spend, valueSum_append, valueSum_singleton, spentEntry]
    omega
  rw [hsum]
  exact hinv.trans (t.spend_total i.prevout hok.value_nonneg)

/-- What a run of the output loop that creates `d` in all does to the totals. -/
structure CreatesTotal (st st' : DeltaState) (d : ℤ) : Prop where
  nonneg : 0 ≤ d
  fees : st'.totalFees = st.totalFees
  input : st'.txInputValue = st.txInputValue
  overflowed : st'.overflowed = false ↔ st.overflowed = false ∧
    st.totalValueDelta.toInt + d < 2 ^ 63
  delta : st'.overflowed = false → st'.totalValueDelta.toInt = st.totalValueDelta.toInt + d

theorem CreatesTotal.refl (st : DeltaState) : CreatesTotal st st 0 := by
  have hhigh := st.totalValueDelta.toInt_lt
  refine ⟨le_refl 0, rfl, rfl, ?_, fun _ => (add_zero _).symm⟩
  constructor
  · intro h
    exact ⟨h, by omega⟩
  · exact fun h => h.1

theorem DeltaState.create_total (st : DeltaState) (hv : 0 ≤ e.value) :
    CreatesTotal st (st.create e) e.value.toInt := by
  have hv : 0 ≤ e.value.toInt := Int64.le_iff_toInt_le.mp hv
  have hflag : (st.create e).overflowed = false ↔
      st.overflowed = false ∧ addOverflows st.totalValueDelta e.value = false := by
    simp [DeltaState.create]
  refine ⟨hv, rfl, rfl, ?_, ?_⟩
  · have hlow := st.totalValueDelta.le_toInt
    rw [hflag, addOverflows_eq_false]
    constructor
    · exact fun h => ⟨h.1, h.2.2⟩
    · exact fun h => ⟨h.1, by omega, h.2⟩
  · intro h
    exact toInt_add_of_fits (hflag.mp h).2

theorem CreatesTotal.trans (h : CreatesTotal st st₁ d) (h' : CreatesTotal st₁ st₂ d') :
    CreatesTotal st st₂ (d + d') := by
  have hd := h.nonneg
  have hd' := h'.nonneg
  refine ⟨by omega, h'.fees.trans h.fees, h'.input.trans h.input, ?_, ?_⟩
  · constructor
    · intro hfin
      obtain ⟨hmid, hhigh⟩ := h'.overflowed.mp hfin
      have hdelta := h.delta hmid
      exact ⟨(h.overflowed.mp hmid).1, by omega⟩
    · rintro ⟨hst, hhigh⟩
      have hmid : st₁.overflowed = false := h.overflowed.mpr ⟨hst, by omega⟩
      have hdelta := h.delta hmid
      exact h'.overflowed.mpr ⟨hmid, by omega⟩
  · intro hfin
    have hdelta := h.delta (h'.overflowed.mp hfin).1
    have hdelta' := h'.delta hfin
    omega

theorem addOutputs_total {outs : List (TxOut × ℕ)}
    (h : outs.foldlM (addOutput lookup tx) st = .ok st') :
    CreatesTotal st st' (valueSum st'.added - valueSum st.added) := by
  refine foldlM_invariant (fun _ t => CreatesTotal st t (valueSum t.added - valueSum st.added)) h
    (by rw [sub_self]; exact .refl st) ?_
  rintro done out todo t t' - hinv hstep
  rcases addOutput_ok hstep with ⟨-, rfl⟩ | ⟨-, hc, rfl⟩
  · exact hinv
  · have hsum : valueSum (t.create (addedEntry tx out)).added - valueSum st.added =
        valueSum t.added - valueSum st.added + (addedEntry tx out).value.toInt := by
      simp only [DeltaState.create, valueSum_append, valueSum_singleton]
      omega
    rw [hsum]
    exact hinv.trans (t.create_total hc.value_nonneg)

/-- What a charged fee says of a transaction whose inputs hold `x` and of the totals. -/
structure ChargesFee (tx : Transaction) (st st' : DeltaState) (x : ℤ) : Prop where
  input_le : x ≤ 2100000000000000
  valueOut : SumsExactly (valueOutTerms tx)
  shieldedIn : SumsExactly (shieldedValueInTerms tx)
  out_nonneg : ∀ out ∈ tx.vout, 0 ≤ out.value.toInt
  delta : st'.totalValueDelta = st.totalValueDelta
  overflowed : st'.overflowed = st.overflowed
  fees_nonneg : 0 ≤ st'.totalFees.toInt
  fees_le : st'.totalFees.toInt ≤ 2100000000000000
  fees : st'.totalFees.toInt =
    st.totalFees.toInt + x + shieldedFlow tx - intSum (tx.vout.map (·.value))

theorem chargeFee_total {x : ℤ} (h : chargeFee tx st = .ok st')
    (hinput : st.txInputValue = Int64.ofInt x) (hx : 0 ≤ x) (hx' : x < 2 ^ 63 + 2100000000000000)
    (hfees : 0 ≤ st.totalFees.toInt) (hfees' : st.totalFees.toInt ≤ 2100000000000000) :
    ChargesFee tx st st' x := by
  unfold chargeFee at h
  dsimp only at h
  split_ifs at h with hin hbelow hmax
  simp only [not_or, Int64.not_lt, Int64.le_iff_toInt_le] at hin hbelow hmax
  obtain ⟨hsh, hout, hroom⟩ := hin
  obtain ⟨hshSum, hshVal⟩ := shieldedValueIn_nonneg hsh
  obtain ⟨houtSum, houts, hold, houtVal⟩ := valueOut_nonneg hout
  have hsh : 0 ≤ (transactionGetShieldedValueIn tx).toInt := hsh
  have hout : 0 ≤ (transactionGetValueOut tx).toInt := hout
  -- a wrapped input total makes the room left negative, so the total did not wrap
  have hroomVal : (maxMoneyZat - st.txInputValue).toInt = 2100000000000000 - x := by
    have hmaxMoney : maxMoneyZat = Int64.ofInt 2100000000000000 := rfl
    rw [hinput, hmaxMoney, ← Int64.ofInt_sub]
    exact Int64.toInt_ofInt_of_le (by omega) (by omega)
  have hxval : st.txInputValue.toInt = x := by
    rw [hinput]
    exact Int64.toInt_ofInt_of_le (by omega) (by omega)
  have hfull : (st.txInputValue + transactionGetShieldedValueIn tx).toInt =
      x + (transactionGetShieldedValueIn tx).toInt := by
    rw [toInt_add_of_fits (addOverflows_eq_false.mpr (by omega)), hxval]
  have hfee : (st.txInputValue + transactionGetShieldedValueIn tx -
      transactionGetValueOut tx).toInt =
      x + (transactionGetShieldedValueIn tx).toInt - (transactionGetValueOut tx).toInt := by
    rw [toInt_sub_of_fits (subOverflows_eq_false.mpr (by omega)), hfull]
  have hfeeRoom : (maxMoneyZat - st.totalFees).toInt = 2100000000000000 - st.totalFees.toInt := by
    rw [toInt_sub_of_fits (subOverflows_eq_false.mpr (by rw [maxMoneyZat_toInt]; omega)),
      maxMoneyZat_toInt]
  have hfits : addOverflows st.totalFees (st.txInputValue + transactionGetShieldedValueIn tx -
      transactionGetValueOut tx) = false := addOverflows_eq_false.mpr (by omega)
  have htotal := toInt_add_of_fits hfits
  cases h
  refine ⟨by omega, houtSum, hshSum, houts, rfl, by simp [hfits], ?_, ?_, ?_⟩
  · dsimp only
    omega
  · dsimp only
    omega
  · dsimp only
    rw [htotal, hfee, hshVal, houtVal, shieldedFlow]
    omega

def coinsTotal (S : CoinSet) : ℤ := Table.total (fun c => c.value.toInt) S

def applyDelta (S : CoinSet) (height : UInt32) (added spent : List DeltaEntry) : CoinSet :=
  Table.delAll (Table.putAll S (added.map fun e => (e.outpoint, addedCoin height e)))
    (spent.map DeltaEntry.outpoint)

/-- Lists of a delta against `S`: new outputs that are distinct and not in `S`, and distinct
spends that each name one of them or a coin of `S`. -/
structure DeltaOf (S : CoinSet) (height : UInt32) (lookup : UtxoApplyLookupFn)
    (added spent : List DeltaEntry) : Prop where
  added_nodup : (added.map DeltaEntry.outpoint).Nodup
  added_fresh : ∀ e ∈ added, e.outpoint ∉ S
  added_nonneg : ∀ e ∈ added, 0 ≤ e.value
  spent_nodup : (spent.map DeltaEntry.outpoint).Nodup
  source : ∀ e ∈ spent, RestoreSource height lookup added e

section

variable (h : DeltaOf S height lookup added spent)

include h

section

variable (hS : ReportsCoins lookup S)

include hS

theorem DeltaOf.lookup_spent
    (he : e ∈ spent) :
    (putAll S (added.map fun e => (e.outpoint, addedCoin height e))).lookup e.outpoint =
      some (restoredCoin e) := by
  have hkeys : (added.map fun e => (e.outpoint, addedCoin height e)).map Prod.fst =
      added.map DeltaEntry.outpoint := by
    rw [map_map]
    rfl
  cases h.source e he with
  | intra a mem outpoint eq =>
    rw [lookup_putAll_of_nodup (v := addedCoin height a) (hkeys ▸ h.added_nodup)]
    · rw [eq]
      rfl
    · rw [← outpoint]
      exact mem_map_of_mem (f := fun e => (e.outpoint, addedCoin height e)) mem
  | found lk result found eq =>
    have hc := hS.restored_lookup result found eq
    rw [lookup_putAll_of_notMem, hc]
    rw [hkeys]
    intro hmem
    obtain ⟨a, ha, hout⟩ := mem_map.mp hmem
    apply h.added_fresh a ha
    rw [hout]
    exact Finmap.mem_of_lookup_eq_some hc

theorem DeltaOf.coinsTotal_applyDelta :
    coinsTotal (applyDelta S height added spent) =
      coinsTotal S + valueSum added - valueSum spent := by
  have hspent : spent.map DeltaEntry.outpoint =
      (spent.map fun e => (e.outpoint, restoredCoin e)).map Prod.fst := by
    rw [map_map]
    rfl
  have hdel : coinsTotal (applyDelta S height added spent) =
      coinsTotal (putAll S (added.map fun e => (e.outpoint, addedCoin height e))) -
        valueSum spent := by
    unfold applyDelta coinsTotal
    rw [hspent, total_delAll _ (hspent ▸ h.spent_nodup)]
    · simp only [map_map, valueSum, intSum]
      rfl
    · intro r hr
      obtain ⟨e, he, rfl⟩ := mem_map.mp hr
      exact h.lookup_spent hS he
  have hput : coinsTotal (putAll S (added.map fun e => (e.outpoint, addedCoin height e))) =
      coinsTotal S + valueSum added := by
    unfold coinsTotal
    rw [total_putAll]
    · simp only [map_map, valueSum, intSum]
      rfl
    · rw [map_map]
      exact h.added_nodup
    · intro r hr
      obtain ⟨e, he, rfl⟩ := mem_map.mp hr
      exact h.added_fresh e he
  rw [hdel, hput]

theorem DeltaOf.spent_le
    (hval : ∀ op c, S.lookup op = some c → 0 ≤ c.value.toInt) :
    valueSum spent ≤ coinsTotal S + valueSum added := by
  have htotal := h.coinsTotal_applyDelta hS
  have hnonneg : 0 ≤ coinsTotal (applyDelta S height added spent) := by
    apply total_nonneg
    intro op c hc
    unfold applyDelta at hc
    rw [lookup_delAll] at hc
    split at hc
    · cases hc
    · rcases lookup_putAll_eq_some hc with hc | hc
      · exact hval op c hc
      · obtain ⟨e, he, heq⟩ := mem_map.mp hc
        cases heq
        exact Int64.le_iff_toInt_le.mp (h.added_nonneg e he)
  omega

end

end

end Loops

end ZClassic
