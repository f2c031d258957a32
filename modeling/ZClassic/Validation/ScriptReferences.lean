import ZClassic.Validation.Turnstile

/-!
# The scripts that the script phase reads

`connect_block` collects a reference to the output that each input spends and reads the script
through it after the last transaction is applied.
-/

namespace ZClassic

open List CoinsViewCache

/-- The record collected for an input of `tx`, with the view as it is before `tx` is applied. -/
def ownCheck (view : CoinsViewCache) (branchId : UInt32) (tx : Transaction) (txdata : ArrayRef)
    (input : TxIn × ℕ) : ScriptCheck where
  scriptSig := input.1.scriptSig
  scriptPubKey := input.1.prevout
  flags := connectFlags
  branchId
  txTo := tx
  nIn := input.2
  amount := ((view.getOutputFor input.1.prevout).map (·.value)).getD 0
  txdata

variable {branchId : UInt32} {tx : Transaction} {nHeight : Int32} {view v v' : CoinsViewCache}

variable {st : ConnectState}

theorem collectInputs_ok {txdata : ArrayRef} {st' : ConnectState} {inputs : List (TxIn × ℕ)}
    (h : inputs.foldlM (collectInput branchId tx txdata) st = .ok st')
    (hroom : st.checks.items.length + inputs.length ≤ st.checks.cap) :
    (∀ i ∈ inputs, (st.view.getOutputFor i.1.prevout).isSome) ∧
      st' = { st with
        checks := { st.checks with
          items := st.checks.items ++ inputs.map (ownCheck st.view branchId tx txdata) }
        checkPtrs := st.checkPtrs ++
          (range' st.checks.items.length inputs.length).map (⟨st.checks.moves, ·⟩) } := by
  induction inputs generalizing st with
  | nil =>
    cases h
    simp
  | cons i inputs ih =>
    obtain ⟨t, hstep, hrest⟩ := foldlM_ok_cons h
    rw [length_cons] at hroom
    unfold collectInput at hstep
    split at hstep
    · cases hstep
    · next out hout =>
      split_ifs at hstep
      rw [GrowArray.reserve_of_lt (by omega)] at hstep
      cases hstep
      obtain ⟨hsome, rfl⟩ := ih hrest (by simp [GrowArray.push]; omega)
      refine ⟨?_, ?_⟩
      · rw [forall_mem_cons]
        exact ⟨by rw [hout]; rfl, hsome⟩
      · simp [GrowArray.push, GrowArray.nextRef, ownCheck, hout, range'_succ]

theorem prescan_concat (txs : List Transaction) (tx : Transaction) :
    prescan (txs ++ [tx]) = if transactionIsCoinbase tx then prescan txs
      else ((prescan txs).1 + tx.vin.length, (prescan txs).2 + 1) := by
  unfold prescan
  by_cases h : transactionIsCoinbase tx <;> simp [h]

theorem prescan_mono (txs txs' : List Transaction) :
    (prescan txs).1 ≤ (prescan (txs ++ txs')).1 ∧ (prescan txs).2 ≤ (prescan (txs ++ txs')).2 := by
  simp [prescan]

/-- `t` has the checks of `tx` behind those of `st`. -/
structure AddsChecks (branchId : UInt32) (tx : Transaction) (st t : ConnectState) : Prop where
  available : ∀ i ∈ tx.vin, (st.view.getOutputFor i.prevout).isSome
  checks : t.checks =
    { st.checks with
      items := st.checks.items ++
        tx.vin.zipIdx.map (ownCheck st.view branchId tx st.txdatas.nextRef) }
  ptrs : t.checkPtrs = st.checkPtrs ++
    (List.range' st.checks.items.length tx.vin.length).map (⟨st.checks.moves, ·⟩)
  txdatas : t.txdatas = st.txdatas.push tx

theorem connectInputs_ok {t : ConnectState} (hcb : ¬transactionIsCoinbase tx)
    (h : connectInputs nHeight branchId true tx st = .ok t)
    (hchecks : st.checks.items.length + tx.vin.length ≤ st.checks.cap)
    (htxdatas : st.txdatas.items.length < st.txdatas.cap) :
    t.view = st.view ∧ AddsChecks branchId tx st t := by
  unfold connectInputs at h
  rw [if_neg hcb] at h
  obtain ⟨_, -, h⟩ := bind_eq_ok h
  rw [refuseIf_bind_eq_ok, refuseIf_bind_eq_ok] at h
  obtain ⟨_, -, h⟩ := bind_eq_ok h.2.2
  obtain ⟨_, -, h⟩ := bind_eq_ok h
  rw [if_pos rfl, collectScripts] at h
  rw [GrowArray.reserve_of_lt htxdatas] at h
  obtain ⟨hsome, rfl⟩ := collectInputs_ok h (by simpa using hchecks)
  refine ⟨rfl, ?_, rfl, by rw [length_zipIdx], rfl⟩
  intro i hi
  obtain ⟨j, hj⟩ := mem_iff_getElem?.mp hi
  exact hsome (i, j) (mem_zipIdx_iff_getElem?.mpr hj)

/-- What the loop has collected when the transactions `done` are through: the pre-scan sized both
arrays for the whole block, so neither has moved. -/
structure Collected (nHeight : Int32) (branchId : UInt32) (view : CoinsViewCache)
    (all done : List Transaction) (st : ConnectState) : Prop where
  applied : ∃ undo, updateCoinsTxs nHeight done view = .ok (st.view, undo)
  checks : st.checks.cap = max 1 (prescan all).1 ∧ st.checks.moves = 0
  length : st.checks.items.length = (prescan done).1
  ptrs : st.checkPtrs = (List.range (prescan done).1).map (⟨0, ·⟩)
  txdatas : st.txdatas.cap = max 1 (prescan all).2 ∧ st.txdatas.moves = 0 ∧
    st.txdatas.items = done.filter fun tx => !transactionIsCoinbase tx
  own : ∀ pre tx post, done = pre ++ tx :: post → ¬transactionIsCoinbase tx →
    ∃ before undo, updateCoinsTxs nHeight pre view = .ok (before, undo) ∧
      (∀ i ∈ tx.vin, (before.getOutputFor i.prevout).isSome) ∧
      ∀ j txin, tx.vin[j]? = some txin → st.checks.items[(prescan pre).1 + j]? =
        some (ownCheck before branchId tx ⟨0, (prescan pre).2⟩ (txin, j))

theorem Collected.init (nHeight : Int32) (branchId : UInt32) (view : CoinsViewCache)
    (blk : Block) : Collected nHeight branchId view blk.vtx [] (.init view blk) where
  applied := ⟨[], rfl⟩
  checks := ⟨rfl, rfl⟩
  length := rfl
  ptrs := rfl
  txdatas := ⟨rfl, rfl, rfl⟩
  own pre tx post h := by simp at h

section Step

variable {all done todo : List Transaction} {st st' : ConnectState}

section

variable (h : Collected nHeight branchId view all done st)

include h

theorem Collected.txdatas_length : st.txdatas.items.length = (prescan done).2 := by
  rw [h.txdatas.2.2]
  rfl

theorem Collected.coinbase (hcb : transactionIsCoinbase tx = true)
    (happlied : ∃ undo, updateCoinsTxs nHeight (done ++ [tx]) view = .ok (st'.view, undo))
    (hchecks : st'.checks = st.checks) (hptrs : st'.checkPtrs = st.checkPtrs)
    (htxdatas : st'.txdatas = st.txdatas) :
    Collected nHeight branchId view all (done ++ [tx]) st' := by
  refine ⟨happlied, ?_, ?_, ?_, ?_, ?_⟩
  · rw [hchecks]
    exact h.checks
  · rw [hchecks, prescan_concat, if_pos hcb]
    exact h.length
  · rw [hptrs, prescan_concat, if_pos hcb]
    exact h.ptrs
  · rw [htxdatas, filter_append]
    simpa [hcb] using h.txdatas
  · intro pre t post hsplit ht
    rw [hchecks]
    rcases eq_nil_or_concat post with rfl | ⟨post, last, rfl⟩
    · obtain ⟨-, hlast⟩ := append_inj' hsplit rfl
      cases hlast
      exact absurd hcb ht
    · rw [concat_eq_append, ← cons_append, ← append_assoc] at hsplit
      obtain ⟨hdone, -⟩ := append_inj' hsplit rfl
      exact h.own pre t post hdone ht

theorem Collected.adds (hcb : ¬transactionIsCoinbase tx) (hadds : AddsChecks branchId tx st st')
    (happlied : ∃ undo, updateCoinsTxs nHeight (done ++ [tx]) view = .ok (v, undo)) :
    Collected nHeight branchId view all (done ++ [tx]) { st' with view := v } := by
  obtain ⟨undo, hview⟩ := h.applied
  refine ⟨happlied, ?_, ?_, ?_, ?_, ?_⟩
  · dsimp only
    rw [hadds.checks]
    exact h.checks
  · dsimp only
    rw [hadds.checks, prescan_concat, if_neg hcb]
    simp [h.length]
  · dsimp only
    rw [hadds.ptrs, prescan_concat, if_neg hcb, h.ptrs, h.length, h.checks.2, range_eq_range',
      range_eq_range', ← map_append, ← range'_append_1, Nat.zero_add]
  · dsimp only
    rw [hadds.txdatas, filter_append]
    exact ⟨h.txdatas.1, h.txdatas.2.1, by simp [GrowArray.push, hcb, h.txdatas.2.2]⟩
  · intro pre t post hsplit ht
    rw [hadds.checks]
    rcases eq_nil_or_concat post with rfl | ⟨post, last, rfl⟩
    · -- the transaction that was just added
      obtain ⟨rfl, hlast⟩ := append_inj' hsplit rfl
      cases hlast
      refine ⟨st.view, undo, hview, hadds.available, fun j txin hj => ?_⟩
      have hnext : st.txdatas.nextRef = ⟨0, (prescan done).2⟩ := by
        rw [GrowArray.nextRef, h.txdatas.2.1, h.txdatas_length]
      rw [getElem?_append_right (by rw [h.length]; omega), h.length, Nat.add_sub_cancel_left,
        getElem?_map, getElem?_zipIdx, hj, hnext]
      simp
    · -- an earlier one: its records keep their places
      rw [concat_eq_append, ← cons_append, ← append_assoc] at hsplit
      obtain ⟨hdone, -⟩ := append_inj' hsplit rfl
      obtain ⟨before, undo', hbefore, hsome', hown⟩ := h.own pre t post hdone ht
      refine ⟨before, undo', hbefore, hsome', fun j txin hj => ?_⟩
      have hj' := hown j txin hj
      rw [List.getElem?_append_left (List.getElem?_eq_some_iff.mp hj').1]
      exact hj'

theorem Collected.step
    (hall : all = done ++ tx :: todo) (hstep : connectTx nHeight branchId true st tx = .ok st') :
    Collected nHeight branchId view all (done ++ [tx]) st' := by
  obtain ⟨t, view', txundo, ht, hupdate, rfl⟩ := connectTx_ok hstep
  obtain ⟨undo, hview⟩ := h.applied
  by_cases hcb : transactionIsCoinbase tx
  · rw [connectInputs, if_pos hcb] at ht
    cases ht
    exact h.coinbase hcb ⟨_, updateCoinsTxs_concat hview hupdate⟩ rfl rfl rfl
  · -- the whole block's pre-scan counts the checks of `tx` on top of those before it
    have hmono := prescan_mono (done ++ [tx]) todo
    rw [prescan_concat, if_neg hcb, ← append_cons, ← hall] at hmono
    have hchecks : st.checks.items.length + tx.vin.length ≤ st.checks.cap := by
      rw [h.length, h.checks.1]
      exact hmono.1.trans (le_max_right _ _)
    have htxdatas : st.txdatas.items.length < st.txdatas.cap := by
      rw [h.txdatas_length, h.txdatas.1]
      exact lt_of_lt_of_le hmono.2 (le_max_right _ _)
    obtain ⟨hsame, hadds⟩ := connectInputs_ok hcb ht hchecks htxdatas
    rw [hsame] at hupdate
    exact h.adds hcb ⟨hadds.available, hadds.checks, hadds.ptrs, hadds.txdatas⟩
      ⟨_, updateCoinsTxs_concat hview hupdate⟩

end

end Step

theorem connectTxs_collected {env : ConnectEnv} {blk : Block}
    (hexpensive : expensiveChecks env nHeight = true)
    (h : connectTxs env nHeight blk view = .ok st) :
    Collected nHeight (consensusCurrentEpochBranchId nHeight.toInt env.params.consensus) view
      blk.vtx blk.vtx st := by
  unfold connectTxs at h
  rw [hexpensive] at h
  exact foldlM_invariant (fun done t => Collected nHeight _ view blk.vtx done t) h
    (Collected.init _ _ _ _) fun done tx todo t t' hall ht hstep => ht.step hall hstep

def CoinsViewCache.slotScript (v : CoinsViewCache) (op : Outpoint) : Option Script :=
  ((v.modify op.hash).vout[op.n.toNat]?).map (·.scriptPubKey)

def writtenScript (tx : Transaction) (pos : ℕ) : Option Script :=
  ((coinsFromTransaction tx 0).bind fun c => c.vout[pos]?).map (·.scriptPubKey)

/-- What `tx` leaves in a slot: its own output under its own txid, an empty script in the slots it
spends. -/
def slotAfterTx (op : Outpoint) (slot : Option Script) (tx : Transaction) : Option Script :=
  if op.hash = tx.hash then writtenScript tx op.n.toNat
  else if transactionIsCoinbase tx = false ∧ op ∈ tx.vin.map (·.prevout) then some { data := [] }
  else slot

def slotAfter (txs : List Transaction) (op : Outpoint) (slot : Option Script) : Option Script :=
  txs.foldl (slotAfterTx op) slot

theorem slotAfter_append (txs txs' : List Transaction) (op : Outpoint) (slot : Option Script) :
    slotAfter (txs ++ txs') op slot = slotAfter txs' op (slotAfter txs op slot) :=
  foldl_append

theorem getOutputFor_slotScript {v : CoinsViewCache} {op : Outpoint} {out : TxOut}
    (h : v.getOutputFor op = some out) : v.slotScript op = some out.scriptPubKey := by
  rw [slotScript, (Option.filter_eq_some_iff.mp h).1, Option.map_some]

theorem slotAfter_spent {txs : List Transaction} {op : Outpoint} {slot : Option Script}
    (hfresh : ∀ tx ∈ txs, op.hash ≠ tx.hash)
    (hslot : slot = some { data := [] } ∨
      ∃ tx ∈ txs, transactionIsCoinbase tx = false ∧ op ∈ tx.vin.map (·.prevout)) :
    slotAfter txs op slot = some { data := [] } := by
  induction txs generalizing slot with
  | nil => simpa [slotAfter] using hslot
  | cons tx txs ih =>
    rw [slotAfter, foldl_cons]
    rw [forall_mem_cons] at hfresh
    refine ih hfresh.2 ?_
    rw [slotAfterTx, if_neg hfresh.1]
    split_ifs with hspent
    · exact .inl rfl
    · refine hslot.imp_right ?_
      rintro ⟨t, ht, hspends⟩
      rcases mem_cons.mp ht with rfl | ht
      · exact absurd hspends hspent
      · exact ⟨t, ht, hspends⟩

theorem Spends.slotScript {i : TxIn} {u : TxInUndo} (h : Spends v v' i u) (op : Outpoint) :
    v'.slotScript op = if op = i.prevout then some { data := [] } else v.slotScript op := by
  rw [h.view, CoinsViewCache.slotScript, CoinsViewCache.modify_put]
  by_cases hhash : op.hash = i.prevout.hash
  · rw [if_pos hhash, getElem?_set]
    by_cases hn : i.prevout.n.toNat = op.n.toNat
    · have hop : op = i.prevout := by
        obtain ⟨hash, n⟩ := op
        rw [UInt32.toNat_inj] at hn
        subst hhash hn
        rfl
      rw [if_pos hn, if_pos h.lt, if_pos hop]
      rfl
    · have hop : op ≠ i.prevout := fun heq => hn (by rw [heq])
      rw [if_neg hn, if_neg hop, CoinsViewCache.slotScript, hhash]
  · have hop : op ≠ i.prevout := fun heq => hhash (by rw [heq])
    rw [if_neg hhash, if_neg hop, CoinsViewCache.slotScript]

theorem spendPrevouts_slotScript {vin : List TxIn} {s s' : CoinsViewCache × List TxInUndo}
    (h : vin.foldlM spendPrevout s = .ok s') (op : Outpoint) :
    s'.1.slotScript op =
      if op ∈ vin.map (·.prevout) then some { data := [] } else s.1.slotScript op := by
  refine foldlM_invariant (fun done t => t.1.slotScript op = if op ∈ done.map (·.prevout)
    then some { data := [] } else s.1.slotScript op) h (by simp) ?_
  intro done i todo t t' _ ht hstep
  obtain ⟨u, -, hspends⟩ := spendPrevout_spends hstep
  rw [hspends.slotScript, ht, map_append, map_singleton]
  by_cases hop : op = i.prevout <;> simp [hop]

variable {height : Int32}

theorem updateCoinsWithUndo_slotScript {undo : List TxInUndo}
    (h : updateCoinsWithUndo tx v height = .ok (v', undo)) (op : Outpoint) :
    v'.slotScript op = slotAfterTx op (v.slotScript op) tx := by
  obtain ⟨s, hin, h⟩ := bind_eq_ok h
  split at h
  · cases h
  · next c hc =>
    split_ifs at h
    cases h
    rw [slotScript, modify_put, slotAfterTx]
    by_cases hhash : op.hash = tx.hash
    · rw [if_pos hhash, if_pos hhash, writtenScript]
      unfold coinsFromTransaction at hc ⊢
      split at hc
      · cases hc
      · next hle =>
        cases hc
        rw [if_neg hle]
        rfl
    · rw [if_neg hhash, if_neg hhash]
      refine (spendPrevouts_slotScript hin op).trans ?_
      by_cases hcb : transactionIsCoinbase tx
      · simp [hcb]
      · simp [hcb]

theorem updateCoinsTxs_slotScript {txs : List Transaction} {undo : List (List TxInUndo)}
    (h : updateCoinsTxs height txs v = .ok (v', undo)) (op : Outpoint) :
    v'.slotScript op = slotAfter txs op (v.slotScript op) := by
  induction txs generalizing v undo with
  | nil =>
    cases h
    rfl
  | cons tx txs ih =>
    rw [updateCoinsTxs] at h
    obtain ⟨⟨v₁, u₁⟩, htx, h⟩ := bind_eq_ok h
    obtain ⟨⟨v₂, u₂⟩, htxs, h⟩ := bind_eq_ok h
    cases h
    rw [ih htxs, updateCoinsWithUndo_slotScript htx]
    rfl

/-- The check with this index in the script phase is the one of input `j` of `tx`: its own record,
with the transaction's own data behind it, and the script that the spent output had before `tx`. -/
structure RunsOwn (branchId : UInt32) (before : CoinsViewCache) (st : ConnectState) (index : ℕ)
    (tx : Transaction) (j : ℕ) (txin : TxIn) : Prop where
  record : ∃ ptr check, st.checkPtrs[index]? = some ptr ∧ st.checks.deref ptr = some check ∧
    check = ownCheck before branchId tx check.txdata (txin, j) ∧
    st.txdatas.deref check.txdata = some tx
  script : ∃ out, before.getOutputFor txin.prevout = some out ∧
    st.view.slotScript txin.prevout = some out.scriptPubKey

/-- From `tx` on, the slot keeps the script that it has after `pre`: the script is empty, or it is
written again under the same txid. -/
def KeepsScript (view : CoinsViewCache) (pre : List Transaction) (tx : Transaction)
    (post : List Transaction) (op : Outpoint) : Prop :=
  let script := slotAfter pre op (view.slotScript op)
  (op.hash ∈ (tx :: post).map (·.hash) → slotAfter (tx :: post) op script = script) ∧
    (op.hash ∉ (tx :: post).map (·.hash) → script = some { data := [] })

instance (view : CoinsViewCache) (pre : List Transaction) (tx : Transaction)
    (post : List Transaction) (op : Outpoint) : Decidable (KeepsScript view pre tx post op) :=
  inferInstanceAs (Decidable ((_ → _ = _) ∧ (_ → _ = _)))

theorem keepsScript_iff {pre post : List Transaction} {txin : TxIn}
    (hcb : ¬transactionIsCoinbase tx) (hmem : txin ∈ tx.vin) :
    KeepsScript view pre tx post txin.prevout ↔
      slotAfter (pre ++ tx :: post) txin.prevout (view.slotScript txin.prevout) =
        slotAfter pre txin.prevout (view.slotScript txin.prevout) := by
  unfold KeepsScript
  rw [slotAfter_append]
  by_cases hagain : txin.prevout.hash ∈ (tx :: post).map (·.hash)
  · simp only [hagain, not_true_eq_false, true_imp_iff, false_imp_iff, and_true]
  · -- nothing is written under the txid any more, and `tx` itself empties the slot
    rw [@slotAfter_spent (tx :: post)]
    · simp only [hagain, not_false_eq_true, true_imp_iff, false_imp_iff, true_and]
      exact eq_comm
    · intro t ht heq
      exact hagain (heq ▸ mem_map_of_mem ht)
    · exact .inr ⟨tx, mem_cons_self, by simpa using hcb, mem_map_of_mem hmem⟩

theorem Collected.runsOwn_iff {pre post : List Transaction}
    (h : Collected nHeight branchId view (pre ++ tx :: post) (pre ++ tx :: post) st)
    (hcb : ¬transactionIsCoinbase tx) :
    ∃ before undo, updateCoinsTxs nHeight pre view = .ok (before, undo) ∧
      ∀ j txin, tx.vin[j]? = some txin →
        (RunsOwn branchId before st ((prescan pre).1 + j) tx j txin ↔
          KeepsScript view pre tx post txin.prevout) := by
  obtain ⟨before, undo, hbefore, hsome, hown⟩ := h.own pre tx post rfl hcb
  refine ⟨before, undo, hbefore, fun j txin hj => ?_⟩
  have hmem : txin ∈ tx.vin := mem_of_getElem? hj
  obtain ⟨out, hout⟩ := Option.isSome_iff_exists.mp (hsome txin hmem)
  obtain ⟨allUndo, happlied⟩ := h.applied
  rw [keepsScript_iff hcb hmem, ← updateCoinsTxs_slotScript happlied,
    ← updateCoinsTxs_slotScript hbefore, getOutputFor_slotScript hout]
  constructor
  · rintro ⟨-, out', hout', hslot⟩
    rw [hout] at hout'
    cases hout'
    exact hslot
  · intro hslot
    refine ⟨?_, out, hout, hslot⟩
    have hitem := hown j txin hj
    have hlt := (List.getElem?_eq_some_iff.mp hitem).1
    rw [h.length] at hlt
    refine ⟨⟨0, (prescan pre).1 + j⟩, ownCheck before branchId tx ⟨0, (prescan pre).2⟩ (txin, j),
      ?_, ?_, rfl, ?_⟩
    · rw [h.ptrs, getElem?_map, getElem?_range hlt, Option.map_some]
    · rw [GrowArray.deref_of_moves_eq h.checks.2.symm]
      exact hitem
    · change st.txdatas.deref ⟨0, (prescan pre).2⟩ = some tx
      rw [GrowArray.deref_of_moves_eq h.txdatas.2.1.symm, h.txdatas.2.2, filter_append,
        filter_cons_of_pos (by simpa using hcb)]
      exact (getElem?_append_right le_rfl).trans (by rw [Nat.sub_self]; rfl)

/-- An accepted block's script checks all ran on their own records, and they read the spent scripts
exactly when those scripts were still in their slots after the last transaction. -/
theorem scriptChecks_iff {env : ConnectEnv} {header : BlockHeader} {blk : Block}
    {pindex : ConnectIndex} {view view' : CoinsViewCache} {justCheck : Bool} {pools : PoolValues}
    (hgenesis : pindex.hash ≠ env.params.hashGenesisBlock)
    (hexpensive : expensiveChecks env pindex.nHeight = true)
    (h : connectBlock env header blk pindex view justCheck = .ok (view', pools)) :
    ∃ st, connectTxs env pindex.nHeight blk view = .ok st ∧
      st.checkPtrs.all (scriptCheckFn env st) = true ∧
      ((∀ pre tx post, blk.vtx = pre ++ tx :: post → ¬transactionIsCoinbase tx →
          ∃ before undo, updateCoinsTxs pindex.nHeight pre view = .ok (before, undo) ∧
            ∀ j txin, tx.vin[j]? = some txin →
              RunsOwn (consensusCurrentEpochBranchId pindex.nHeight.toInt env.params.consensus)
                before st ((prescan pre).1 + j) tx j txin) ↔
        ∀ pre tx post, blk.vtx = pre ++ tx :: post → ¬transactionIsCoinbase tx →
          ∀ txin ∈ tx.vin, KeepsScript view pre tx post txin.prevout) := by
  obtain ⟨st, hconnected⟩ := connectBlock_ok hgenesis h
  have hcollected := connectTxs_collected hexpensive hconnected.txs
  refine ⟨st, hconnected.txs, hconnected.scripts, ?_⟩
  refine forall₃_congr fun pre tx post => forall₂_congr fun hsplit hcb => ?_
  rw [hsplit] at hcollected
  obtain ⟨before, undo, hbefore, hiff⟩ := hcollected.runsOwn_iff hcb
  constructor
  · rintro ⟨before', undo', hbefore', hruns⟩ txin hmem
    rw [hbefore] at hbefore'
    cases hbefore'
    obtain ⟨j, hj⟩ := mem_iff_getElem?.mp hmem
    exact (hiff j txin hj).mp (hruns j txin hj)
  · intro hkeeps
    refine ⟨before, undo, hbefore, fun j txin hj => ?_⟩
    exact (hiff j txin hj).mpr (hkeeps txin (mem_of_getElem? hj))

def scriptedCoinView (txid : UInt256) (value : Int64) (scriptPubKey : Script) :
    CoinsViewCache where
  base txid' :=
    if txid' = txid then some { vout := [{ value, scriptPubKey }] }
    else none

def spendWithTrue : Transaction :=
  { moveCoin ⟨9, 0⟩ 50 2 with vin := [{ prevout := ⟨9, 0⟩, scriptSig := trueScript }] }

/-- The block spends a coin behind `OP_CHECKSIG` without a signature; the check that runs for it
reads an empty script. -/
theorem checksig_readsEmpty :
    let view := scriptedCoinView 9 50 checksigScript
    let B : Block := ⟨[zeroCoinbase 1, spendWithTrue]⟩
    (verifyScript plainEnv connectFlags trueScript checksigScript).isOk = false ∧
      (connectBlock interpretingEnv (easyHeader 5 7) B ⟨7, 1, some ⟨some 0, some 0⟩⟩ view
        false).isOk ∧
      ∃ st, connectTxs interpretingEnv 1 B view = .ok st ∧
        view.slotScript ⟨9, 0⟩ = some checksigScript ∧
        st.view.slotScript ⟨9, 0⟩ = some { data := [] } := by
  intro view B
  have hconnected : (connectBlock interpretingEnv (easyHeader 5 7) B ⟨7, 1, some ⟨some 0, some 0⟩⟩
      view false).isOk = true := by decide +kernel
  obtain ⟨⟨view', pools⟩, hblk⟩ := exists_eq_ok hconnected
  obtain ⟨st, hst⟩ := connectBlock_ok (by decide) hblk
  refine ⟨by decide +kernel, hconnected, st, hst.txs, by decide, ?_⟩
  obtain ⟨undo, happlied⟩ := (connectTxs_collected (by decide) hst.txs).applied
  rw [updateCoinsTxs_slotScript happlied]
  decide

/-- A coin without a script is checked against that script. -/
theorem emptyScript_checked :
    let view := oneCoinView 9 50
    let B : Block := ⟨[zeroCoinbase 1, spendWithTrue]⟩
    ∃ st, connectTxs interpretingEnv 1 B view = .ok st ∧
      ∃ before undo, updateCoinsTxs 1 [zeroCoinbase 1] view = .ok (before, undo) ∧
        ∃ branchId, RunsOwn branchId before st 0 spendWithTrue 0
          { prevout := ⟨9, 0⟩, scriptSig := trueScript } := by
  intro view B
  have hconnected : (connectBlock interpretingEnv (easyHeader 5 7) B ⟨7, 1, some ⟨some 0, some 0⟩⟩
      view false).isOk = true := by decide +kernel
  obtain ⟨⟨view', pools⟩, hblk⟩ := exists_eq_ok hconnected
  obtain ⟨st, hst, -, hiff⟩ := scriptChecks_iff (by decide) (by decide) hblk
  refine ⟨st, hst, ?_⟩
  have hruns := hiff.mpr ?_ [zeroCoinbase 1] spendWithTrue [] rfl (by decide)
  · obtain ⟨before, undo, hbefore, hruns⟩ := hruns
    exact ⟨before, undo, hbefore, _, hruns 0 _ rfl⟩
  · intro pre tx post hsplit hcb
    match pre, hsplit with
    | [], hsplit =>
      cases hsplit
      exact absurd (by decide) hcb
    | [_], hsplit =>
      cases hsplit
      decide
    | _ :: _ :: _, hsplit => simp [B] at hsplit

end ZClassic
