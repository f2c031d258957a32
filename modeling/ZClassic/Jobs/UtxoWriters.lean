import ZClassic.Jobs.DoubleSpend
import ZClassic.Jobs.ValueTotals
import ZClassic.Validation.UpdateCoins

/-!
# The two coin writers

The reducer writes one row for each output of a block at once; the coins view replaces one record
for each transaction in turn.
-/

namespace ZClassic

open List

def HoldsCoins (v : CoinsViewCache) (S : CoinSet) : Prop := ∀ op, v.coin op = S.lookup op

def updateCoinsBlock (v : CoinsViewCache) (txs : List Transaction) (height : Int32) :
    Except UpdateCoinsError CoinsViewCache :=
  txs.foldlM (fun v tx => Prod.fst <$> updateCoinsWithUndo tx v height) v

/-- No output that could be stored has a script that can never be spent. -/
def NoUnspendable (txs : List Transaction) : Prop :=
  ∀ tx ∈ txs, ∀ out ∈ tx.vout,
    txOutIsNull out = false → scriptIsUnspendable out.scriptPubKey = false

/-- Whenever a transaction's record is written, every coin already there under the same txid has
been spent. -/
def NoStaleRecord (S : CoinSet) (txs : List Transaction) : Prop :=
  ∀ pre tx post, txs = pre ++ tx :: post → ∀ op : Outpoint, op.hash = tx.hash →
    (op ∈ S ∨ op ∈ createdBy pre) → op ∈ spentBy (pre ++ [tx])

/-- What the reducer's table holds at `op` after the transactions `txs`. -/
def appliedCoin (S : CoinSet) (height : UInt32) (txs : List Transaction) (op : Outpoint) :
    Option Coin :=
  if op ∈ spentBy txs then none
  else match lookupAdded (txs.flatMap txAdded) op with
    | some e => some (addedCoin height e)
    | none => S.lookup op

variable {tx : Transaction} {height : UInt32} {lookup : UtxoApplyLookupFn} {S : CoinSet}
  {txs : List Transaction} {st : DeltaState}

variable {op : Outpoint} {pre post : List Transaction} {v v' : CoinsViewCache}

section Reducer

theorem lookup_applyCoinsKv_eq (h : Accepted height lookup txs st) (op : Outpoint) :
    (applyCoinsKv S st.accept height).lookup op = appliedCoin S height txs op := by
  unfold appliedCoin
  rw [applyCoinsKv_eq, Table.lookup_delAll]
  change (if op ∈ st.spent.map DeltaEntry.outpoint then none else _) = _
  rw [h.spent]
  split
  · rfl
  · cases hadded : lookupAdded (txs.flatMap txAdded) op with
    | none =>
      apply Table.lookup_putAll_of_notMem
      rw [map_map]
      change op ∉ st.added.map DeltaEntry.outpoint
      rw [h.added]
      exact lookupAdded_eq_none.mp hadded
    | some e =>
      obtain ⟨he, rfl⟩ := lookupAdded_eq_some hadded
      apply Table.lookup_putAll_of_nodup
      · rw [map_map]
        exact h.created ▸ h.created_nodup
      · exact mem_map_of_mem (f := fun e => (e.outpoint, addedCoin height e))
          (h.added ▸ he)

theorem output_fresh (h : txs.foldlM (applyTx height lookup) {} = .ok st)
    (hS : ReportsFound lookup S) (htxs : txs = pre ++ tx :: post) (hop : op ∈ txOutputs tx) :
    op ∉ S ∧ op ∉ createdBy pre ∧ op ∉ spentBy (pre ++ [tx]) := by
  have hacc := accepted_of_loop h
  have hS' : op ∉ S := by
    apply hacc.created_notMem hS
    rw [htxs]
    simp [hop]
  have hpre : op ∉ createdBy pre := by
    have hnodup := hacc.created_nodup
    rw [htxs, createdBy_append, createdBy_cons] at hnodup
    intro hmem
    exact disjoint_of_nodup_append hnodup hmem (mem_append_left _ hop)
  refine ⟨hS', hpre, ?_⟩
  intro hspent
  obtain ⟨tx', htx', hin⟩ := mem_flatMap.mp hspent
  -- the spending transaction is `tx` or stands before it, so its inputs come from before `tx`
  obtain ⟨pre', post', hsplit⟩ := append_of_mem htx'
  have hpre' : createdBy pre' ⊆ createdBy pre := by
    have hle : pre' <+: pre := by
      have hprefix : pre' ++ [tx'] <+: pre ++ [tx] := ⟨post', by rw [hsplit]; simp⟩
      exact (prefix_concat_iff.mp hprefix).elim
        (fun heq => by rw [(append_inj' heq rfl).1])
        (fun hle => (prefix_append _ _).trans hle)
    obtain ⟨rest, rfl⟩ := hle
    rw [createdBy_append]
    exact subset_append_left _ _
  have htxs' : txs = pre' ++ tx' :: (post' ++ post) := by
    rw [htxs, show pre ++ tx :: post = (pre ++ [tx]) ++ post by simp, hsplit]
    simp
  rcases input_available h htxs' hin with hc | ⟨lk, hlk, hfound⟩
  · exact hpre (hpre' hc)
  · exact hS' ((hS _ lk hlk).mp hfound)

end Reducer

section Record

variable (hlen : tx.vout.length ≤ maxCoinsOutputs)
include hlen

theorem txCoin_of_mem {out : TxOut} {i : ℕ} (hget : tx.vout[i]? = some out) :
    txCoin tx height.toInt32 (addedEntry tx (out, i)).vout.toNat =
      if txOutIsNull out || scriptIsUnspendable out.scriptPubKey then none
      else some (addedCoin height (addedEntry tx (out, i))) := by
  have hi : (addedEntry tx (out, i)).vout.toNat = i := by
    have := (List.getElem?_eq_some_iff.mp hget).1
    unfold maxCoinsOutputs at hlen
    exact UInt32.toNat_ofNat_of_lt' (by rw [UInt32.size]; omega)
  rw [hi, txCoin, hget]
  by_cases hnull : txOutIsNull out <;> by_cases hscript : scriptIsUnspendable out.scriptPubKey <;>
    simp [hnull, hscript, Option.filter, addedCoin, addedEntry]

omit hlen in
theorem txCoin_eq_none (hhash : op.hash = tx.hash) (hnot : op ∉ txOutputs tx) :
    txCoin tx height.toInt32 op.n.toNat = none := by
  rw [txCoin, Option.map_eq_none_iff, Option.filter_eq_none_iff]
  intro out hget hout
  rw [Bool.and_eq_true, Bool.not_eq_true'] at hout
  refine hnot (mem_map.mpr ⟨addedEntry tx (out, op.n.toNat), ?_, ?_⟩)
  · exact mem_txAdded.mpr ⟨out, _, hget, hout.1, rfl⟩
  · rw [addedEntry_outpoint, UInt32.ofNat_toNat, ← hhash]

end Record

section Block

theorem updateCoins_step (h : Prod.fst <$> updateCoinsWithUndo tx v height.toInt32 = .ok v') :
    tx.vout.length ≤ maxCoinsOutputs ∧ (∀ op ∈ txInputs tx, (v.coin op).isSome) ∧
      ∀ op, v'.coin op =
        if op.hash = tx.hash then txCoin tx height.toInt32 op.n.toNat
        else if op ∈ txInputs tx then none else v.coin op := by
  have hinputs : (if transactionIsCoinbase tx then [] else tx.vin).map (·.prevout) =
      txInputs tx := by
    rw [txInputs]
    split <;> rfl
  cases hu : updateCoinsWithUndo tx v height.toInt32 with
  | error e =>
    rw [hu] at h
    cases h
  | ok s =>
    rw [hu] at h
    cases h
    rw [← hinputs]
    exact updateCoinsWithUndo_ok hu

/-- A coin that the reducer's table holds and the view does not. -/
structure LostCoin (S : CoinSet) (txs : List Transaction) (v : CoinsViewCache) (op : Outpoint) :
    Prop where
  there : op ∈ S ∨ op ∈ createdBy txs
  unspent : op ∉ spentBy txs
  missing : v.coin op = none

theorem LostCoin.ne {v : CoinsViewCache} (h : LostCoin S txs v op) :
    v.coin op ≠ appliedCoin S height txs op := by
  rw [h.missing, appliedCoin, if_neg h.unspent]
  cases hadded : lookupAdded (txs.flatMap txAdded) op with
  | some e => exact (Option.some_ne_none _).symm
  | none =>
    have hnot := lookupAdded_eq_none.mp hadded
    rw [flatMap_txAdded_outpoint] at hnot
    intro heq
    exact Finmap.lookup_eq_none.mp heq.symm (h.there.resolve_right hnot)

section

variable (h : LostCoin S pre v op) (hloop : txs.foldlM (applyTx height lookup) {} = .ok st)
  (hS : ReportsFound lookup S)

include h hloop hS

theorem LostCoin.step
    (htxs : txs = pre ++ tx :: post)
    (hstep : Prod.fst <$> updateCoinsWithUndo tx v height.toInt32 = .ok v') :
    LostCoin S (pre ++ [tx]) v' op := by
  obtain ⟨-, hsome, hcoin⟩ := updateCoins_step hstep
  have hin : op ∉ txInputs tx := by
    intro hop
    have := hsome op hop
    rw [h.missing] at this
    cases this
  refine ⟨?_, ?_, ?_⟩
  · rw [createdBy_append]
    exact h.there.imp_right (mem_append_left _)
  · rw [spentBy_append, mem_append, not_or]
    exact ⟨h.unspent, by simpa using hin⟩
  · rw [hcoin, if_neg hin]
    split
    · next hhash =>
      refine txCoin_eq_none hhash fun hout => ?_
      obtain ⟨hnotS, hnotPre, -⟩ := output_fresh hloop hS htxs hout
      exact h.there.elim hnotS hnotPre
    · exact h.missing

theorem LostCoin.run
    (htxs : txs = pre ++ post) (hrun : updateCoinsBlock v post height.toInt32 = .ok v') :
    LostCoin S txs v' op := by
  have hend : LostCoin S (pre ++ post) v' op := by
    refine foldlM_invariant (fun done t => LostCoin S (pre ++ done) t op) hrun (by simpa using h) ?_
    rintro done tx todo t t' hpost hinv hstep
    have := hinv.step hloop hS (by rw [htxs, hpost, append_assoc]) hstep
    rwa [append_assoc] at this
  rwa [htxs]

end

section

variable (hloop : txs.foldlM (applyTx height lookup) {} = .ok st) (hS : ReportsFound lookup S)
  (htxs : txs = pre ++ tx :: post)

include hloop hS htxs

/-- The views agree after one more transaction if they agreed before it and its record loses
nothing. -/
theorem agree_step
    (hstep : Prod.fst <$> updateCoinsWithUndo tx v height.toInt32 = .ok v')
    (hunspendable : ∀ out ∈ tx.vout, txOutIsNull out = false →
      scriptIsUnspendable out.scriptPubKey = false)
    (hstale : ∀ op : Outpoint, op.hash = tx.hash → (op ∈ S ∨ op ∈ createdBy pre) →
      op ∈ spentBy (pre ++ [tx]))
    (hagree : ∀ op, v.coin op = appliedCoin S height pre op) (op : Outpoint) :
    v'.coin op = appliedCoin S height (pre ++ [tx]) op := by
  obtain ⟨hlen, -, hcoin⟩ := updateCoins_step hstep
  have hnodup : (createdBy (pre ++ [tx])).Nodup := by
    have := (accepted_of_loop hloop).created_nodup
    rw [htxs, show pre ++ tx :: post = (pre ++ [tx]) ++ post by simp, createdBy_append] at this
    exact (nodup_append.mp this).1
  rw [hcoin]
  by_cases hout : op ∈ txOutputs tx
  · -- a new output: fresh for the reducer, and stored by the record because it can be spent
    obtain ⟨-, -, hnotSpent⟩ := output_fresh hloop hS htxs hout
    obtain ⟨e, he, rfl⟩ := mem_map.mp hout
    have hadded := lookupAdded_created hnodup (e := e) (by simp [he])
    obtain ⟨out, i, hget, hnull, rfl⟩ := mem_txAdded.mp he
    rw [appliedCoin, if_neg hnotSpent, hadded, if_pos (by simp)]
    change txCoin tx height.toInt32 (addedEntry tx (out, i)).vout.toNat = _
    rw [txCoin_of_mem hlen hget,
      if_neg (by simp [hnull, hunspendable out (mem_of_getElem? hget) hnull])]
  · by_cases hhash : op.hash = tx.hash
    · -- nothing else may remain under this txid
      rw [if_pos hhash]
      rw [txCoin_eq_none hhash hout, eq_comm, appliedCoin]
      split
      · rfl
      · next hnotSpent =>
        have hnot : ¬(op ∈ S ∨ op ∈ createdBy pre) := fun h => hnotSpent (hstale op hhash h)
        rw [not_or] at hnot
        have hadded : lookupAdded ((pre ++ [tx]).flatMap txAdded) op = none := by
          rw [lookupAdded_eq_none, flatMap_txAdded_outpoint, createdBy_append]
          simp [hnot.2, hout]
        rw [hadded]
        exact Finmap.lookup_eq_none.mpr hnot.1
    · -- untouched by the record
      have hadded : lookupAdded ((pre ++ [tx]).flatMap txAdded) op =
          lookupAdded (pre.flatMap txAdded) op := by
        have hnone : lookupAdded (txAdded tx) op = none := lookupAdded_eq_none.mpr hout
        rw [flatMap_append, lookupAdded, find?_append, ← lookupAdded, ← lookupAdded]
        simp [hnone]
      rw [if_neg hhash, hagree, appliedCoin, appliedCoin, hadded]
      by_cases hin : op ∈ txInputs tx <;> by_cases hpre : op ∈ spentBy pre <;> simp [hin, hpre]

theorem LostCoin.of_step
    (hrun : updateCoinsBlock v txs height.toInt32 = .ok v') (hhash : op.hash = tx.hash)
    (hthere : op ∈ S ∨ op ∈ createdBy (pre ++ [tx])) (hunspent : op ∉ spentBy (pre ++ [tx]))
    (hmissing : tx.vout.length ≤ maxCoinsOutputs → txCoin tx height.toInt32 op.n.toNat = none) :
    LostCoin S txs v' op := by
  rw [htxs] at hrun
  obtain ⟨v₁, -, hrest⟩ := foldlM_ok_append hrun
  obtain ⟨v₂, hstep, hpost⟩ := foldlM_ok_cons hrest
  obtain ⟨hlen, -, hcoin⟩ := updateCoins_step hstep
  have hlost : LostCoin S (pre ++ [tx]) v₂ op :=
    ⟨hthere, hunspent, by rw [hcoin, if_pos hhash, hmissing hlen]⟩
  exact hlost.run hloop hS (by rw [htxs]; simp) hpost

end

/-- The two writers leave the same coins exactly when the block stores no unspendable output and
no record is written over unspent coins of its own txid. -/
theorem updateCoinsBlock_agrees_iff (params : ConsensusParams) (B : Block) (height : UInt32)
    (lookup : UtxoApplyLookupFn) (S : CoinSet) (v v' : CoinsViewCache)
    (hS : ReportsFound lookup S) (hview : HoldsCoins v S)
    (hok : (utxoApplyComputeBlockDelta params (some B) height lookup).ok = true)
    (hrun : updateCoinsBlock v B.vtx height.toInt32 = .ok v') :
    HoldsCoins v' (applyCoinsKv S (utxoApplyComputeBlockDelta params (some B) height lookup) height)
      ↔ NoUnspendable B.vtx ∧ NoStaleRecord S B.vtx := by
  obtain ⟨st, hst, hsum⟩ := computeBlockDelta_ok hok
  obtain ⟨hloop, -⟩ := blockDelta_ok hst
  have happlied := lookup_applyCoinsKv_eq (S := S) (accepted_of_loop hloop)
  rw [hsum]
  constructor
  · intro hagree
    have hnotLost : ∀ op, ¬LostCoin S B.vtx v' op := by
      intro op hlost
      exact hlost.ne (by rw [hagree op, happlied])
    constructor
    · intro tx htx out hout hnull
      by_contra hscript
      obtain ⟨pre, post, hsplit⟩ := append_of_mem htx
      obtain ⟨i, hget⟩ := getElem?_of_mem hout
      have hmem : (addedEntry tx (out, i)).outpoint ∈ txOutputs tx :=
        mem_map_of_mem (mem_txAdded.mpr ⟨out, i, hget, hnull, rfl⟩)
      obtain ⟨-, -, hunspent⟩ := output_fresh hloop hS hsplit hmem
      have hcreated : (addedEntry tx (out, i)).outpoint ∈ createdBy (pre ++ [tx]) := by
        rw [createdBy_append, createdBy_cons]
        exact mem_append_right _ (mem_append_left _ hmem)
      refine hnotLost _ (.of_step hloop hS hsplit hrun rfl (.inr hcreated) hunspent ?_)
      intro hlen
      change txCoin tx height.toInt32 (addedEntry tx (out, i)).vout.toNat = none
      rw [txCoin_of_mem hlen hget, if_pos (by simp [hscript])]
    · intro pre tx post hsplit op hhash hthere
      by_contra hunspent
      have hthere' : op ∈ S ∨ op ∈ createdBy (pre ++ [tx]) := by
        rw [createdBy_append]
        exact hthere.imp_right (mem_append_left _)
      refine hnotLost op (.of_step hloop hS hsplit hrun hhash hthere' hunspent fun _ => ?_)
      refine txCoin_eq_none hhash fun hout => ?_
      obtain ⟨hnotS, hnotPre, -⟩ := output_fresh hloop hS hsplit hout
      exact hthere.elim hnotS hnotPre
  · rintro ⟨hunspendable, hstale⟩ op
    rw [happlied]
    refine foldlM_invariant (fun done t => ∀ op, t.coin op = appliedCoin S height done op) hrun
      (fun op => by simpa [appliedCoin, lookupAdded] using hview op) ?_ op
    intro done tx todo t t' hsplit hagree hstep
    exact agree_step hloop hS hsplit hstep
      (fun out => hunspendable tx (by simp [hsplit]) out) (hstale done tx todo hsplit) hagree

end Block

def burnCoin (op : Outpoint) (value : Int64) (hash : UInt256) : Transaction where
  vin := [{ prevout := op }]
  vout := [{ value, scriptPubKey := { data := [opReturn] } }]
  hash

theorem oneCoinView_holds {txid : UInt256} {value : Int64} (h : value ≠ -1) :
    HoldsCoins (oneCoinView txid value) (oneCoin ⟨txid, 0⟩ value) := by
  intro op
  have hcoin : (oneCoinView txid value).coin op =
      if op = ⟨txid, 0⟩ then some { value } else none := by
    obtain ⟨hash, n⟩ := op
    unfold CoinsViewCache.coin CoinsViewCache.modify oneCoinView
    rw [Finmap.lookup_empty, Option.getD_none]
    by_cases hhash : hash = txid
    · by_cases hn : n = 0
      · simp [hhash, hn, Coins.coin, coinsOutput, Option.filter, txOutIsNull, h]
      · have hpos : 0 < n.toNat := by
          rw [Nat.pos_iff_ne_zero, ← UInt32.toNat_zero, Ne, UInt32.toNat_inj]
          exact hn
        have hget : [({ value } : TxOut)][n.toNat]? = none :=
          getElem?_eq_none hpos
        simp [hhash, hn, Coins.coin, coinsOutput, hget]
    · simp [hhash, Coins.coin, coinsOutput]
  rw [hcoin]
  split
  · next heq => rw [heq, oneCoin, Finmap.lookup_singleton_eq]
  · next hne => rw [eq_comm, Finmap.lookup_eq_none, oneCoin, Finmap.mem_singleton]; exact hne

/-- The reducer stores the burnt output, the view does not. -/
theorem burnCoin_disagrees :
    let S := oneCoin ⟨9, 0⟩ 50
    let B : Block := ⟨[emptyCoinbase 1, burnCoin ⟨9, 0⟩ 50 2]⟩
    let s := utxoApplyComputeBlockDelta mainParams (some B) 1000 (coinLookup S)
    HoldsCoins (oneCoinView 9 50) S ∧ B.vtx.map transactionIsCoinbase = [true, false] ∧
      s.ok = true ∧ (s.spent.map DeltaEntry.outpoint).Nodup ∧
      (updateCoinsBlock (oneCoinView 9 50) B.vtx 1000).toOption.map (·.coin ⟨2, 0⟩) = some none ∧
      (applyCoinsKv S s 1000).lookup ⟨2, 0⟩ =
        some { value := 50, height := 1000, script := [opReturn] } := by
  refine ⟨oneCoinView_holds (by decide), ?_⟩
  decide

theorem moveCoin_agrees :
    let S := oneCoin ⟨9, 0⟩ 50
    let B : Block := ⟨[emptyCoinbase 1, moveCoin ⟨9, 0⟩ 50 2]⟩
    let s := utxoApplyComputeBlockDelta mainParams (some B) 1000 (coinLookup S)
    ∃ v', updateCoinsBlock (oneCoinView 9 50) B.vtx (1000 : UInt32).toInt32 = .ok v' ∧
      HoldsCoins v' (applyCoinsKv S s 1000) := by
  intro S B s
  obtain ⟨v', hrun⟩ : ∃ v', updateCoinsBlock (oneCoinView 9 50) B.vtx (1000 : UInt32).toInt32 =
      .ok v' := ⟨_, rfl⟩
  refine ⟨v', hrun, (updateCoinsBlock_agrees_iff mainParams B 1000 (coinLookup S) S
    (oneCoinView 9 50) v' (coinLookup_reportsCoins S).found (oneCoinView_holds (by decide))
    (by decide) hrun).mpr ⟨?_, ?_⟩⟩
  · unfold NoUnspendable
    decide
  · intro pre tx post hsplit op hhash hthere
    -- the only coin has txid 9, and nothing is created before the last transaction
    have htx : tx.hash ≠ 9 ∧ createdBy pre = [] := by
      rcases pre with _ | ⟨a, _ | ⟨b, pre⟩⟩
      · obtain ⟨rfl, -⟩ := cons.inj hsplit
        decide
      · obtain ⟨rfl, hrest⟩ := cons.inj hsplit
        obtain ⟨rfl, -⟩ := cons.inj hrest
        decide
      · simp [B] at hsplit
    rcases hthere with hmem | hmem
    · have hop : op = ⟨9, 0⟩ := (Finmap.mem_singleton op ⟨9, 0⟩ _).mp hmem
      rw [hop] at hhash
      exact absurd hhash.symm htx.1
    · rw [htx.2] at hmem
      cases hmem

end ZClassic
