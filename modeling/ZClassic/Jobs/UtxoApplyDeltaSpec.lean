import ZClassic.Jobs.UtxoApplyDelta
import ZClassic.Storage.CoinsKv

/-!
# What an accepted block did

Each pass of the delta loops is inverted once.
-/

namespace ZClassic

open List DeltaEntry

/-- The outpoints a transaction spends, in input order; a coinbase spends nothing. -/
def txInputs (tx : Transaction) : List Outpoint :=
  if transactionIsCoinbase tx then [] else tx.vin.map (·.prevout)

def addedEntry (tx : Transaction) (out : TxOut × ℕ) : DeltaEntry where
  txid := tx.hash
  vout := UInt32.ofNat out.2
  value := out.1.value
  script := out.1.scriptPubKey.data
  isCoinbase := transactionIsCoinbase tx

def txAdded (tx : Transaction) : List DeltaEntry :=
  (tx.vout.zipIdx.filter fun out => !txOutIsNull out.1).map (addedEntry tx)

variable {e : DeltaEntry} {tx : Transaction} {i : TxIn} {added : List DeltaEntry} {op : Outpoint}
  {txs : List Transaction} {out : TxOut × ℕ} {blk : Block} {params : ConsensusParams}
  {pre : UtxoApplyLookup} {st : DeltaState} {s : DeltaSummary}

theorem mem_txAdded :
    e ∈ txAdded tx ↔
      ∃ out i, tx.vout[i]? = some out ∧ txOutIsNull out = false ∧ e = addedEntry tx (out, i) := by
  simp only [txAdded, mem_map, mem_filter, Prod.exists, mem_zipIdx_iff_getElem?]
  constructor
  · rintro ⟨out, i, ⟨hget, hnull⟩, rfl⟩
    exact ⟨out, i, hget, by simpa using hnull, rfl⟩
  · rintro ⟨out, i, hget, hnull, rfl⟩
    exact ⟨out, i, ⟨hget, by simpa using hnull⟩, rfl⟩

def txOutputs (tx : Transaction) : List Outpoint := (txAdded tx).map DeltaEntry.outpoint

def spentBy (txs : List Transaction) : List Outpoint := txs.flatMap txInputs

def createdBy (txs : List Transaction) : List Outpoint := txs.flatMap txOutputs

@[simp]
theorem spentBy_nil : spentBy [] = [] := rfl

@[simp]
theorem createdBy_nil : createdBy [] = [] := rfl

@[simp]
theorem spentBy_append (txs txs' : List Transaction) :
    spentBy (txs ++ txs') = spentBy txs ++ spentBy txs' := flatMap_append

@[simp]
theorem createdBy_append (txs txs' : List Transaction) :
    createdBy (txs ++ txs') = createdBy txs ++ createdBy txs' := flatMap_append

@[simp]
theorem spentBy_cons (tx : Transaction) (txs : List Transaction) :
    spentBy (tx :: txs) = txInputs tx ++ spentBy txs := flatMap_cons

@[simp]
theorem createdBy_cons (tx : Transaction) (txs : List Transaction) :
    createdBy (tx :: txs) = txOutputs tx ++ createdBy txs := flatMap_cons

theorem flatMap_txAdded_outpoint (txs : List Transaction) :
    (txs.flatMap txAdded).map outpoint = createdBy txs :=
  map_flatMap

@[simp]
theorem addedEntry_outpoint (tx : Transaction) (out : TxOut × ℕ) :
    (addedEntry tx out).outpoint = ⟨tx.hash, UInt32.ofNat out.2⟩ := rfl

section Passes

variable {height : UInt32} {lookup : UtxoApplyLookupFn} {st' : DeltaState}

def spentEntry (op : Outpoint) (pre : UtxoApplyLookup) : DeltaEntry :=
  ⟨op.hash, op.n, pre.value, pre.script, pre.isCoinbase, pre.height⟩

@[simp]
theorem spentEntry_outpoint (op : Outpoint) (pre : UtxoApplyLookup) :
    (spentEntry op pre).outpoint = op := rfl

/-- A pre-image that passes every check of the input loop. -/
structure Spendable (height : UInt32) (pre : UtxoApplyLookup) : Prop where
  found : pre.found = true
  value_nonneg : 0 ≤ pre.value
  value_le : pre.value ≤ maxMoneyZat
  mature : pre.isCoinbase = true → coinbaseMaturity ≤ (height.toNat : ℤ) - pre.height.toNat
  script_le : pre.script.length ≤ utxoApplyScriptMax

/-- The record of an input whose pre-image passes them. -/
def SpendsFrom (height : UInt32) (lookup : UtxoApplyLookupFn) (added : List DeltaEntry)
    (e : DeltaEntry) : Prop :=
  ∃ pre, restorePreimage height lookup added e.outpoint = some pre ∧ Spendable height pre ∧
    e = spentEntry e.outpoint pre

def DeltaState.spend (st : DeltaState) (op : Outpoint) (pre : UtxoApplyLookup) : DeltaState :=
  { st with
    spent := st.spent ++ [spentEntry op pre]
    totalValueDelta := st.totalValueDelta - pre.value
    txInputValue := st.txInputValue + pre.value
    overflowed := st.overflowed || subOverflows st.totalValueDelta pre.value
      || addOverflows st.txInputValue pre.value }

def DeltaState.create (st : DeltaState) (e : DeltaEntry) : DeltaState :=
  { st with
    added := st.added ++ [e]
    totalValueDelta := st.totalValueDelta + e.value
    overflowed := st.overflowed || addOverflows st.totalValueDelta e.value }

theorem spendInput_ok (h : spendInput height lookup st i = .ok st') :
    ∃ pre, restorePreimage height lookup st.added i.prevout = some pre ∧ Spendable height pre ∧
      st' = st.spend i.prevout pre := by
  unfold spendInput at h
  dsimp only at h
  split at h
  · cases h
  · next pre hpre =>
    split_ifs at h with hfound hvalue hmature hscript
    refine ⟨pre, hpre, ?_, (Except.ok.inj h).symm⟩
    simp only [not_or, Int64.not_lt] at hvalue
    exact
      { found := by simpa using hfound
        value_nonneg := hvalue.1
        value_le := hvalue.2
        mature := fun hcb => not_lt.mp fun hlt => hmature ⟨hcb, hlt⟩
        script_le := not_lt.mp hscript }

/-- An output that passes every check of the output loop. -/
structure Creatable (lookup : UtxoApplyLookupFn) (added : List DeltaEntry) (e : DeltaEntry) :
    Prop where
  value_nonneg : 0 ≤ e.value
  value_le : e.value ≤ maxMoneyZat
  notAdded : e.outpoint ∉ added.map DeltaEntry.outpoint
  notFound : ∃ lk, lookup e.outpoint = some lk ∧ lk.found = false

theorem lookupAdded_eq_none : lookupAdded added op = none ↔ op ∉ added.map outpoint := by
  simp only [lookupAdded, find?_eq_none, mem_map, not_exists, not_and]
  refine forall₂_congr fun e _ => ?_
  cases op
  simp [outpoint, and_comm]

theorem lookupAdded_eq_some (h : lookupAdded added op = some e) : e ∈ added ∧ e.outpoint = op := by
  refine ⟨mem_of_find?_eq_some h, ?_⟩
  have := find?_some h
  cases op
  simp_all [outpoint]

theorem lookupAdded_created (hnodup : (createdBy txs).Nodup) (he : e ∈ txs.flatMap txAdded) :
    lookupAdded (txs.flatMap txAdded) e.outpoint = some e := by
  cases hadded : lookupAdded (txs.flatMap txAdded) e.outpoint with
  | none => exact absurd (mem_map_of_mem he) (lookupAdded_eq_none.mp hadded)
  | some e' =>
    obtain ⟨he', hout⟩ := lookupAdded_eq_some hadded
    rw [← flatMap_txAdded_outpoint] at hnodup
    rw [inj_on_of_nodup_map hnodup he' he hout]

theorem addOutput_ok (h : addOutput lookup tx st out = .ok st') :
    txOutIsNull out.1 = true ∧ st' = st ∨
    txOutIsNull out.1 = false ∧ Creatable lookup st.added (addedEntry tx out) ∧
      st' = st.create (addedEntry tx out) := by
  unfold addOutput at h
  dsimp only at h
  split_ifs at h with hnull hvalue hadded
  · exact .inl ⟨hnull, (Except.ok.inj h).symm⟩
  · split at h
    · cases h
    · next lk hlk =>
      split_ifs at h with hfound
      refine .inr ⟨by simpa using hnull, ?_, (Except.ok.inj h).symm⟩
      simp only [not_or, Int64.not_lt] at hvalue
      exact
        { value_nonneg := hvalue.1
          value_le := hvalue.2
          notAdded := lookupAdded_eq_none.mp (by simpa using hadded)
          notFound := ⟨lk, hlk, by simpa using hfound⟩ }

theorem addOutput_of_creatable (hnull : txOutIsNull out.1 = false)
    (h : Creatable lookup st.added (addedEntry tx out)) :
    addOutput lookup tx st out = .ok (st.create (addedEntry tx out)) := by
  obtain ⟨lk, hlk, hfound⟩ := h.notFound
  have hadded := lookupAdded_eq_none.mpr h.notAdded
  have hvalue : ¬(out.1.value < 0 ∨ maxMoneyZat < out.1.value) := by
    rw [not_or, Int64.not_lt, Int64.not_lt]
    exact ⟨h.value_nonneg, h.value_le⟩
  rw [addedEntry_outpoint] at hlk hadded
  unfold addOutput
  simp only [hnull, hvalue, hadded, hlk, hfound]
  rfl

theorem chargeFee_ok (h : chargeFee tx st = .ok st') :
    st'.spent = st.spent ∧ st'.added = st.added := by
  unfold chargeFee at h
  dsimp only at h
  split_ifs at h
  cases h
  exact ⟨rfl, rfl⟩

theorem checkCoinbase_ok (h : checkCoinbase params height blk st = .ok st') : st' = st := by
  unfold checkCoinbase at h
  split at h
  · cases h
  · split at h
    · exact (Except.ok.inj h).symm
    · dsimp only at h
      split_ifs at h <;> exact (Except.ok.inj h).symm

/-- The input loop appends one restore record for each input, each a spendable pre-image against
the outputs added so far. -/
theorem spendInputs_ok {vin : List TxIn} (h : vin.foldlM (spendInput height lookup) st = .ok st') :
    ∃ es, st'.spent = st.spent ++ es ∧ es.map outpoint = vin.map (·.prevout) ∧
      (∀ e ∈ es, SpendsFrom height lookup st.added e) ∧ st'.added = st.added := by
  refine foldlM_invariant (fun done t => ∃ es, t.spent = st.spent ++ es ∧
    es.map outpoint = done.map (·.prevout) ∧
    (∀ e ∈ es, SpendsFrom height lookup st.added e) ∧ t.added = st.added) h ⟨[], by simp⟩ ?_
  rintro done i todo t t' - ⟨es, hspent, hout, hpre, hadded⟩ hstep
  obtain ⟨pre, hres, hok, rfl⟩ := spendInput_ok hstep
  rw [hadded] at hres
  refine ⟨es ++ [spentEntry i.prevout pre], ?_, ?_, ?_, hadded⟩
  · rw [DeltaState.spend, hspent, append_assoc]
  · simp [hout]
  · intro e he
    rcases mem_append.mp he with he | he
    · exact hpre e he
    · rw [mem_singleton] at he
      subst he
      exact ⟨pre, hres, hok, rfl⟩

theorem addOutputs_ok (h : tx.vout.zipIdx.foldlM (addOutput lookup tx) st = .ok st') :
    st'.added = st.added ++ txAdded tx ∧ st'.spent = st.spent ∧
      (∀ e ∈ txAdded tx, 0 ≤ e.value ∧ e.value ≤ maxMoneyZat ∧
        ∃ lk, lookup e.outpoint = some lk ∧ lk.found = false) ∧
      ((st.added.map outpoint).Nodup → ((st.added ++ txAdded tx).map outpoint).Nodup) := by
  -- `entries` is `txAdded` of the outputs processed so far
  let entries := fun done : List (TxOut × ℕ) =>
    (done.filter fun out => !txOutIsNull out.1).map (addedEntry tx)
  refine foldlM_invariant (fun done t => t.added = st.added ++ entries done ∧ t.spent = st.spent ∧
    (∀ e ∈ entries done, 0 ≤ e.value ∧ e.value ≤ maxMoneyZat ∧
      ∃ lk, lookup e.outpoint = some lk ∧ lk.found = false) ∧
    ((st.added.map outpoint).Nodup →
      ((st.added ++ entries done).map outpoint).Nodup)) h (by simp [entries]) ?_
  rintro done out todo t t' - ⟨hadded, hspent, hok, hnodup⟩ hstep
  rcases addOutput_ok hstep with ⟨hnull, rfl⟩ | ⟨hnull, hc, rfl⟩
  · have hentries : entries (done ++ [out]) = entries done := by simp [entries, hnull]
    rw [hentries]
    exact ⟨hadded, hspent, hok, hnodup⟩
  · have hentries : entries (done ++ [out]) = entries done ++ [addedEntry tx out] := by
      simp [entries, hnull]
    rw [hentries, ← append_assoc, ← hadded]
    refine ⟨rfl, hspent, ?_, ?_⟩
    · intro e he
      rcases mem_append.mp he with he | he
      · exact hok e he
      · rw [mem_singleton] at he
        exact he ▸ ⟨hc.value_nonneg, hc.value_le, hc.notFound⟩
    · intro hst
      rw [map_append, nodup_append]
      refine ⟨hadded ▸ hnodup hst, nodup_singleton _, ?_⟩
      rintro op hop op' hop' rfl
      rw [map_singleton, mem_singleton] at hop'
      exact hc.notAdded (hop' ▸ hop)

theorem applyTx_eq (tx : Transaction) : applyTx height lookup st tx =
    ((if transactionIsCoinbase tx then [] else tx.vin).foldlM (spendInput height lookup)
        { st with txInputValue := 0 } >>= fun st₁ =>
      tx.vout.zipIdx.foldlM (addOutput lookup tx) st₁ >>= fun st₂ =>
      if transactionIsCoinbase tx then pure st₂ else chargeFee tx st₂) := by
  unfold applyTx
  by_cases hcb : transactionIsCoinbase tx = true <;> simp [hcb]

theorem applyTx_ok (h : applyTx height lookup st tx = .ok st') :
    ∃ st₁ st₂,
      (if transactionIsCoinbase tx then [] else tx.vin).foldlM (spendInput height lookup)
        { st with txInputValue := 0 } = .ok st₁ ∧
      tx.vout.zipIdx.foldlM (addOutput lookup tx) st₁ = .ok st₂ ∧
      (transactionIsCoinbase tx = true ∧ st' = st₂ ∨
        transactionIsCoinbase tx = false ∧ chargeFee tx st₂ = .ok st') := by
  rw [applyTx_eq] at h
  obtain ⟨st₁, hin, h⟩ := bind_eq_ok h
  obtain ⟨st₂, hout, h⟩ := bind_eq_ok h
  refine ⟨st₁, st₂, hin, hout, ?_⟩
  split at h
  · next hcb => exact .inl ⟨hcb, (Except.ok.inj h).symm⟩
  · next hcb => exact .inr ⟨by simpa using hcb, h⟩

theorem applyTx_of_passes {st₁ st₂ : DeltaState} (hcb : transactionIsCoinbase tx = false)
    (hin : tx.vin.foldlM (spendInput height lookup) { st with txInputValue := 0 } = .ok st₁)
    (hout : tx.vout.zipIdx.foldlM (addOutput lookup tx) st₁ = .ok st₂)
    (hfee : chargeFee tx st₂ = .ok st') : applyTx height lookup st tx = .ok st' := by
  rw [applyTx_eq, if_neg (by simp [hcb]), hin, ok_bind, hout, ok_bind, if_neg (by simp [hcb]), hfee]

theorem applyTx_spent (h : applyTx height lookup st tx = .ok st') :
    ∃ es, st'.spent = st.spent ++ es ∧ es.map outpoint = txInputs tx ∧
      ∀ e ∈ es, SpendsFrom height lookup st.added e := by
  obtain ⟨st₁, st₂, hin, hout, hfee⟩ := applyTx_ok h
  obtain ⟨es, hspent₁, hops, hpre, -⟩ := spendInputs_ok hin
  obtain ⟨-, hspent₂, -, -⟩ := addOutputs_ok hout
  refine ⟨es, ?_, ?_, hpre⟩
  · rw [← hspent₁, ← hspent₂]
    rcases hfee with ⟨-, rfl⟩ | ⟨-, hfee⟩
    · rfl
    · exact (chargeFee_ok hfee).1
  · rw [hops, txInputs]
    split <;> rfl

theorem applyTx_added (h : applyTx height lookup st tx = .ok st') :
    st'.added = st.added ++ txAdded tx ∧
      (∀ e ∈ txAdded tx, 0 ≤ e.value ∧ e.value ≤ maxMoneyZat ∧
        ∃ lk, lookup e.outpoint = some lk ∧ lk.found = false) ∧
      ((st.added.map outpoint).Nodup → ((st.added ++ txAdded tx).map outpoint).Nodup) := by
  obtain ⟨st₁, st₂, hin, hout, hfee⟩ := applyTx_ok h
  obtain ⟨es, -, -, -, hadded₁⟩ := spendInputs_ok hin
  obtain ⟨hadded₂, -, hnew, hnodup⟩ := addOutputs_ok hout
  rw [hadded₁] at hadded₂ hnodup
  refine ⟨?_, hnew, hnodup⟩
  rw [← hadded₂]
  rcases hfee with ⟨-, rfl⟩ | ⟨-, hfee⟩
  · rfl
  · exact (chargeFee_ok hfee).2

end Passes

section Whole

variable {height : UInt32} {lookup : UtxoApplyLookupFn}

/-- Where a restore record comes from: an output this block created, or the lookup. -/
inductive RestoreSource (height : UInt32) (lookup : UtxoApplyLookupFn) (added : List DeltaEntry)
    (e : DeltaEntry) : Prop where
  | intra (a : DeltaEntry) (mem : a ∈ added) (outpoint : a.outpoint = e.outpoint)
      (eq : e = { a with height })
  | found (lk : UtxoApplyLookup) (result : lookup e.outpoint = some lk) (found : lk.found = true)
      (eq : e = spentEntry e.outpoint lk)

/-- What every restore record satisfies on its own. -/
structure RestoreOk (height : UInt32) (e : DeltaEntry) : Prop where
  value_nonneg : 0 ≤ e.value
  value_le : e.value ≤ maxMoneyZat
  mature : e.isCoinbase = true → coinbaseMaturity ≤ (height.toNat : ℤ) - e.height.toNat
  script_le : e.script.length ≤ utxoApplyScriptMax

/-- What the loop has established after the transactions `txs`. -/
structure Accepted (height : UInt32) (lookup : UtxoApplyLookupFn) (txs : List Transaction)
    (st : DeltaState) : Prop where
  added : st.added = txs.flatMap txAdded
  spent : st.spent.map DeltaEntry.outpoint = spentBy txs
  created_nodup : (createdBy txs).Nodup
  added_value : ∀ e ∈ st.added, 0 ≤ e.value ∧ e.value ≤ maxMoneyZat
  added_fresh : ∀ e ∈ st.added, ∃ lk, lookup e.outpoint = some lk ∧ lk.found = false
  source : ∀ e ∈ st.spent, RestoreSource height lookup st.added e
  restore : ∀ e ∈ st.spent, RestoreOk height e

theorem RestoreSource.mono {added added' : List DeltaEntry}
    (h : RestoreSource height lookup added e) :
    RestoreSource height lookup (added ++ added') e := by
  cases h with
  | intra a mem outpoint eq => exact .intra a (mem_append_left _ mem) outpoint eq
  | found lk result found eq => exact .found lk result found eq

theorem restoreSource_of_preimage (hpre : restorePreimage height lookup added e.outpoint = some pre)
    (hok : Spendable height pre) (he : e = spentEntry e.outpoint pre) :
    RestoreSource height lookup added e := by
  unfold restorePreimage at hpre
  split at hpre
  · next a ha =>
    obtain ⟨hmem, hout⟩ := lookupAdded_eq_some ha
    refine .intra a hmem hout ?_
    rw [← Option.some.inj hpre, ← hout] at he
    exact he
  · exact .found pre hpre hok.found he

theorem restoreOk_of_preimage (hok : Spendable height pre) (he : e = spentEntry e.outpoint pre) :
    RestoreOk height e := by
  rw [he]
  exact ⟨hok.value_nonneg, hok.value_le, hok.mature, hok.script_le⟩

theorem Accepted.nil : Accepted height lookup [] {} := by
  constructor <;> simp

theorem Accepted.created (h : Accepted height lookup txs st) :
    st.added.map outpoint = createdBy txs := by
  rw [h.added, flatMap_txAdded_outpoint]

theorem Accepted.step {st st' : DeltaState} (h : Accepted height lookup txs st)
    (hstep : applyTx height lookup st tx = .ok st') : Accepted height lookup (txs ++ [tx]) st' := by
  obtain ⟨es, hspent, hinputs, hpre⟩ := applyTx_spent hstep
  obtain ⟨hadded, hnew, hnodup⟩ := applyTx_added hstep
  refine ⟨?_, ?_, ?_, ?_, ?_, ?_, ?_⟩
  · rw [hadded, h.added]
    simp
  · rw [hspent, map_append, h.spent, hinputs]
    simp
  · have := hnodup (h.created ▸ h.created_nodup)
    rw [map_append, h.created] at this
    simpa [txOutputs] using this
  · rw [hadded]
    intro e he
    rcases mem_append.mp he with he | he
    · exact h.added_value e he
    · exact ⟨(hnew e he).1, (hnew e he).2.1⟩
  · rw [hadded]
    intro e he
    rcases mem_append.mp he with he | he
    · exact h.added_fresh e he
    · exact (hnew e he).2.2
  · rw [hadded, hspent]
    intro e he
    rcases mem_append.mp he with he | he
    · exact (h.source e he).mono
    · obtain ⟨pre, hres, hok, heq⟩ := hpre e he
      exact (restoreSource_of_preimage hres hok heq).mono
  · rw [hspent]
    intro e he
    rcases mem_append.mp he with he | he
    · exact h.restore e he
    · obtain ⟨pre, -, hok, heq⟩ := hpre e he
      exact restoreOk_of_preimage hok heq

theorem accepted_of_loop (h : txs.foldlM (applyTx height lookup) {} = .ok st) :
    Accepted height lookup txs st :=
  foldlM_invariant (Accepted height lookup) h .nil fun _ _ _ _ _ _ hP hstep => hP.step hstep

theorem blockDelta_ok (h : blockDelta params height lookup blk = .ok st) :
    blk.vtx.foldlM (applyTx height lookup) {} = .ok st ∧
      checkCoinbase params height blk st = .ok st := by
  obtain ⟨st₁, hloop, h⟩ := bind_eq_ok h
  have hst : st = st₁ := checkCoinbase_ok h
  subst hst
  exact ⟨hloop, h⟩

/-- Every input of an accepted block names an output of an earlier transaction of the block, or
one that the lookup reports found. -/
theorem input_available {txs pre post : List Transaction}
    (h : txs.foldlM (applyTx height lookup) {} = .ok st) (htxs : txs = pre ++ tx :: post)
    (hop : op ∈ txInputs tx) :
    op ∈ createdBy pre ∨ ∃ lk, lookup op = some lk ∧ lk.found = true := by
  subst htxs
  obtain ⟨st₁, hpre, hrest⟩ := foldlM_ok_append h
  obtain ⟨st₂, htx, -⟩ := foldlM_ok_cons hrest
  obtain ⟨es, -, hinputs, hes⟩ := applyTx_spent htx
  rw [← hinputs] at hop
  obtain ⟨e, he, rfl⟩ := mem_map.mp hop
  obtain ⟨lk, hlk, hok, heq⟩ := hes e he
  cases restoreSource_of_preimage hlk hok heq with
  | intra a mem outpoint _ =>
    refine .inl ?_
    rw [← (accepted_of_loop hpre).created, ← outpoint]
    exact mem_map_of_mem mem
  | found lk result found _ => exact .inr ⟨lk, result, found⟩

/-- The lookup that answers from the coin set `S`. -/
def coinLookup (S : CoinSet) : UtxoApplyLookupFn := fun op =>
  some <| match S.lookup op with
    | none => {}
    | some c => ⟨true, c.value, c.height.toUInt32, c.isCoinbase, c.script⟩

/-- The lookup finds exactly the outpoints of `S`; what else it reports about them is open. -/
def ReportsFound (lookup : UtxoApplyLookupFn) (S : CoinSet) : Prop :=
  ∀ op lk, lookup op = some lk → (lk.found = true ↔ op ∈ S)

/-- Every answer of the lookup is the one `S` gives. -/
def ReportsCoins (lookup : UtxoApplyLookupFn) (S : CoinSet) : Prop :=
  ∀ op lk, lookup op = some lk → coinLookup S op = some lk

theorem coinLookup_reportsCoins (S : CoinSet) : ReportsCoins (coinLookup S) S :=
  fun _ _ h => h

theorem ReportsCoins.found {S : CoinSet} (h : ReportsCoins lookup S) : ReportsFound lookup S := by
  intro op lk hlk
  have hS := h op lk hlk
  unfold coinLookup at hS
  cases hc : S.lookup op with
  | none =>
    rw [hc, Option.some.injEq] at hS
    rw [← hS, ← Finmap.lookup_isSome, hc]
    simp
  | some c =>
    rw [hc, Option.some.injEq] at hS
    rw [← hS, ← Finmap.lookup_isSome, hc]
    simp

theorem spendInput_error (h : spendInput height lookup st i = .error s) : s.ok = false := by
  unfold spendInput at h
  dsimp only at h
  split at h
  · cases h; rfl
  · split_ifs at h <;> (cases h; rfl)

theorem addOutput_error (h : addOutput lookup tx st out = .error s) : s.ok = false := by
  unfold addOutput at h
  dsimp only at h
  split_ifs at h
  · cases h; rfl
  · cases h; rfl
  · split at h
    · cases h; rfl
    · split_ifs at h
      cases h; rfl

theorem chargeFee_error (h : chargeFee tx st = .error s) : s.ok = false := by
  unfold chargeFee at h
  dsimp only at h
  split_ifs at h <;> (cases h; rfl)

theorem applyTx_error (h : applyTx height lookup st tx = .error s) : s.ok = false := by
  rw [applyTx_eq] at h
  rcases bind_eq_error h with hin | ⟨st₁, -, h⟩
  · obtain ⟨t, x, hx⟩ := foldlM_error hin
    exact spendInput_error hx
  rcases bind_eq_error h with hout | ⟨st₂, -, h⟩
  · obtain ⟨t, x, hx⟩ := foldlM_error hout
    exact addOutput_error hx
  split at h
  · cases h
  · exact chargeFee_error h

theorem checkCoinbase_error (h : checkCoinbase params height blk st = .error s) : s.ok = false := by
  unfold checkCoinbase at h
  split at h
  · cases h; rfl
  · split at h
    · cases h
    · dsimp only at h
      split_ifs at h <;> (cases h; rfl)

theorem computeBlockDelta_ok
    (h : (utxoApplyComputeBlockDelta params (some blk) height lookup).ok = true) :
    ∃ st, blockDelta params height lookup blk = .ok st ∧
      utxoApplyComputeBlockDelta params (some blk) height lookup = st.accept := by
  unfold utxoApplyComputeBlockDelta at h ⊢
  cases hd : blockDelta params height lookup blk with
  | ok st => exact ⟨st, rfl, by simp only [hd]⟩
  | error s =>
    simp only [hd] at h
    have hs : s.ok = false := by
      rcases bind_eq_error hd with hloop | ⟨st, -, hcb⟩
      · obtain ⟨t, x, hx⟩ := foldlM_error hloop
        exact applyTx_error hx
      · exact checkCoinbase_error hcb
    rw [hs] at h
    cases h

end Whole

end ZClassic
