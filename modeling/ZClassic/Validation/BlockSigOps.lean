import ZClassic.Validation.ConnectBlock

/-!
# Signature operations of a block

The count behind `MAX_BLOCK_SIGOPS`: the legacy operations of every transaction, and the operations
of the redeem scripts for the outputs it spends. `connect_block` adds up both.
-/

namespace ZClassic

open List Option

def legacySigOps (txs : List Transaction) : ℕ :=
  (txs.map fun tx => getLegacySigOpCount tx connectFlags).sum

def Coin.txOut (c : Coin) : TxOut where
  value := c.value
  scriptPubKey := Script.truncate c.script

def namedOutput (tx : Transaction) (op : Outpoint) : Option TxOut :=
  if tx.hash = op.hash then (tx.vout[op.n.toNat]?).filter fun o => !txOutIsNull o else none

/-- The output that an input behind the transactions `pre` spends: the last one they name so, else
the coin of the table. -/
def spentOutput (S : CoinSet) (pre : List Transaction) (op : Outpoint) : Option TxOut :=
  pre.foldl (fun found tx => (namedOutput tx op).or found) ((S.lookup op).map Coin.txOut)

/-- The P2SH operations of the transactions, which follow `pre` in their block. -/
def p2shSigOps (S : CoinSet) : List Transaction → List Transaction → ℕ
  | _, [] => 0
  | pre, tx :: txs =>
    getP2shSigOpCount tx (spentOutput S pre) connectFlags + p2shSigOps S (pre ++ [tx]) txs

def blockSigOps (S : CoinSet) (blk : Block) : ℕ := legacySigOps blk.vtx + p2shSigOps S [] blk.vtx

/-- What the redeem script of an input counts for: the last push of its signature script. -/
def redeemSigOps (i : TxIn) : ℕ :=
  match lastPush i.scriptSig.size [] i.scriptSig.data with
  | none => 0
  | some redeem => scriptGetSigOpCount redeem connectFlags true

/-- The inputs of the transactions, which follow `pre` in their block, that spend P2SH outputs. -/
def p2shInputs (S : CoinSet) : List Transaction → List Transaction → List TxIn
  | _, [] => []
  | pre, tx :: txs =>
    (if transactionIsCoinbase tx then [] else tx.vin.filter fun i =>
      (spentOutput S pre i.prevout).any fun o => scriptIsPayToScriptHash o.scriptPubKey) ++
      p2shInputs S (pre ++ [tx]) txs

theorem sum_ofNat {α : Type*} (f : α → ℕ) (l : List α) :
    (l.map fun a => UInt32.ofNat (f a)).sum = UInt32.ofNat (l.map f).sum := by
  induction l with
  | nil => rfl
  | cons a l ih => rw [map_cons, sum_cons, ih, map_cons, sum_cons, UInt32.ofNat_add]

theorem legacySigOps_le {env : CheckEnv} {header : BlockHeader} {blk : Block}
    {checkPow checkMerkleRoot : Bool}
    (h : checkBlock env header blk checkPow checkMerkleRoot true = .ok ())
    (hfits : legacySigOps blk.vtx < 2 ^ 32) : legacySigOps blk.vtx ≤ maxBlockSigops := by
  obtain ⟨-, -, hsigops⟩ := checkBlock_sizeLimits h
  have hle := not_lt.mp (refuseIf_eq_ok_iff.mp hsigops)
  -- neither path counts OP_CHECKDATASIG, so the flags make no difference
  have hflags : ∀ tx, getLegacySigOpCount tx scriptVerifyNone =
      getLegacySigOpCount tx connectFlags := fun tx => getLegacySigOpCount_congr tx (by decide)
  rw [sum_ofNat fun tx => getLegacySigOpCount tx scriptVerifyNone] at hle
  simp only [hflags] at hle
  rwa [← legacySigOps, UInt32.toNat_ofNat_of_lt' hfits] at hle

theorem namedOutput_mem {tx : Transaction} {op : Outpoint} {o : TxOut}
    (h : namedOutput tx op = some o) : o ∈ tx.vout := by
  unfold namedOutput at h
  split_ifs at h
  exact mem_of_getElem? (Option.filter_eq_some_iff.mp h).1

section Inputs

variable {tx : Transaction} {prevout prevout' : Outpoint → Option TxOut}

theorem getP2shSigOpCount_coinbase (h : transactionIsCoinbase tx = true)
    (prevout : Outpoint → Option TxOut) (flags : UInt32) : getP2shSigOpCount tx prevout flags = 0 :=
  if_pos (.inr h)

/-- Only the P2SH outputs that are found count. -/
theorem getP2shSigOpCount_le (h : ∀ i ∈ tx.vin, ∀ o, prevout i.prevout = some o →
      scriptIsPayToScriptHash o.scriptPubKey = true → prevout' i.prevout = some o)
    (flags : UInt32) :
    getP2shSigOpCount tx prevout flags ≤ getP2shSigOpCount tx prevout' flags := by
  unfold getP2shSigOpCount
  split_ifs
  · exact le_rfl
  · apply sum_le_sum
    intro i hi
    cases hout : prevout i.prevout with
    | none => exact Nat.zero_le _
    | some o =>
      dsimp only
      by_cases hp2sh : scriptIsPayToScriptHash o.scriptPubKey = true
      · rw [h i hi o hout hp2sh]
      · rw [if_neg hp2sh]
        exact Nat.zero_le _

theorem getP2shSigOpCount_eq (prevout : Outpoint → Option TxOut) :
    getP2shSigOpCount tx prevout connectFlags =
      ((if transactionIsCoinbase tx then [] else tx.vin.filter fun i =>
        (prevout i.prevout).any fun o => scriptIsPayToScriptHash o.scriptPubKey).map
          redeemSigOps).sum := by
  by_cases hcb : transactionIsCoinbase tx = true
  · rw [getP2shSigOpCount_coinbase hcb, if_pos hcb]
    rfl
  have hflag : connectFlags &&& scriptVerifyP2sh ≠ 0 := by decide
  rw [getP2shSigOpCount, if_neg (by simp [hcb, hflag]), if_neg hcb]
  induction tx.vin with
  | nil => rfl
  | cons i vin ih =>
    rw [map_cons, sum_cons, ih, filter_cons]
    cases prevout i.prevout with
    | none => simp
    | some o =>
      by_cases hp2sh : scriptIsPayToScriptHash o.scriptPubKey = true
      · have hcount : scriptGetSigOpCountP2sh o.scriptPubKey i.scriptSig connectFlags =
            redeemSigOps i := if_neg (by simp [hp2sh, hflag])
        simp [hp2sh, hcount]
      · simp [hp2sh]

theorem p2shSigOps_eq (S : CoinSet) (pre txs : List Transaction) :
    p2shSigOps S pre txs = ((p2shInputs S pre txs).map redeemSigOps).sum := by
  induction txs generalizing pre with
  | nil => rfl
  | cons tx txs ih =>
    rw [p2shSigOps, p2shInputs, map_append, sum_append, ih, getP2shSigOpCount_eq]

end Inputs

section Concat

variable (S : CoinSet) (pre txs : List Transaction) (tx : Transaction)

theorem legacySigOps_concat :
    legacySigOps (txs ++ [tx]) = legacySigOps txs + getLegacySigOpCount tx connectFlags := by
  simp [legacySigOps]

theorem spentOutput_concat (op : Outpoint) :
    spentOutput S (pre ++ [tx]) op = (namedOutput tx op).or (spentOutput S pre op) := by
  rw [spentOutput, foldl_append]
  rfl

theorem p2shSigOps_concat : p2shSigOps S pre (txs ++ [tx]) =
    p2shSigOps S pre txs + getP2shSigOpCount tx (spentOutput S (pre ++ txs)) connectFlags := by
  induction txs generalizing pre with
  | nil => simp [p2shSigOps]
  | cons t txs ih =>
    rw [cons_append, p2shSigOps, ih, p2shSigOps, ← append_cons, Nat.add_assoc]

end Concat

/-- A P2SH output that none of the transactions in front makes is in the table. -/
theorem spentOutput_of_p2sh {S : CoinSet} {pre : List Transaction} {op : Outpoint} {o : TxOut}
    (hpre : ∀ parent ∈ pre, ∀ o, namedOutput parent op = some o →
      scriptIsPayToScriptHash o.scriptPubKey = false)
    (hout : spentOutput S pre op = some o) (hp2sh : scriptIsPayToScriptHash o.scriptPubKey = true) :
    spentOutput S [] op = some o := by
  induction pre using reverseRecOn with
  | nil => exact hout
  | append_singleton pre parent ih =>
    rw [spentOutput_concat, or_eq_some_iff] at hout
    rcases hout with hnamed | ⟨-, hearlier⟩
    · rw [hpre parent (by simp) o hnamed] at hp2sh
      cases hp2sh
    · exact ih (fun t ht => hpre t (mem_append_left _ ht)) hearlier

theorem p2shSigOps_le {S : CoinSet} {k : ℕ} (pre txs : List Transaction)
    (hredeem : ∀ tx ∈ txs, getP2shSigOpCount tx (spentOutput S []) connectFlags ≤ k)
    (hparents : ∀ parent ∈ pre ++ txs, ∀ tx ∈ txs, ∀ i ∈ tx.vin, ∀ o,
      namedOutput parent i.prevout = some o → scriptIsPayToScriptHash o.scriptPubKey = false) :
    p2shSigOps S pre txs ≤ txs.length * k := by
  induction txs generalizing pre with
  | nil => exact Nat.zero_le _
  | cons tx txs ih =>
    obtain ⟨htx, hrest⟩ := forall_mem_cons.mp hredeem
    have hfirst : getP2shSigOpCount tx (spentOutput S pre) connectFlags ≤ k := by
      refine (getP2shSigOpCount_le (fun i hi o hout hp2sh => ?_) connectFlags).trans htx
      exact spentOutput_of_p2sh (fun parent hp => hparents parent (mem_append_left _ hp) tx
        mem_cons_self i hi) hout hp2sh
    have hlast := ih (pre ++ [tx]) hrest fun parent hp t ht =>
      hparents parent (by rwa [append_cons]) t (mem_cons_of_mem _ ht)
    rw [p2shSigOps, length_cons, Nat.succ_mul, Nat.add_comm]
    exact Nat.add_le_add hlast hfirst

section Connect

variable {tx : Transaction} {st st' : ConnectState} {nHeight : Int32} {branchId : UInt32}
  {expensive : Bool}

theorem collectScripts_same (h : collectScripts branchId tx st = .ok st') :
    st'.view = st.view ∧ st'.sigOps = st.sigOps := by
  unfold collectScripts at h
  refine foldlM_invariant (fun _ t => t.view = st.view ∧ t.sigOps = st.sigOps) h ⟨rfl, rfl⟩ ?_
  intro _ i _ t t' _ hsame hstep
  unfold collectInput at hstep
  split at hstep
  · cases hstep
  · split_ifs at hstep
    cases hstep
    exact hsame

/-- A transaction that is not a coinbase finds all its outputs and adds their P2SH operations. -/
theorem connectInputs_sigOps (h : connectInputs nHeight branchId expensive tx st = .ok st') :
    st'.view = st.view ∧ st'.sigOps =
        st.sigOps + UInt32.ofNat (getP2shSigOpCount tx st.view.getOutputFor connectFlags) ∧
      (¬transactionIsCoinbase tx → ∀ i ∈ tx.vin, (st.view.getOutputFor i.prevout).isSome) := by
  unfold connectInputs at h
  by_cases hcb : transactionIsCoinbase tx
  · rw [if_pos hcb] at h
    cases h
    rw [getP2shSigOpCount_coinbase hcb]
    exact ⟨rfl, (UInt32.add_zero _).symm, absurd hcb⟩
  rw [if_neg hcb] at h
  obtain ⟨_, -, h⟩ := bind_eq_ok h
  rw [refuseIf_bind_eq_ok, refuseIf_bind_eq_ok] at h
  obtain ⟨hinputs, -, h⟩ := h
  obtain ⟨sigOps, hsigOps, h⟩ := bind_eq_ok h
  obtain ⟨fees, -, h⟩ := bind_eq_ok h
  have hfound : ∀ i ∈ tx.vin, (st.view.getOutputFor i.prevout).isSome := by
    simpa [CoinsViewCache.haveInputs, hcb, isSome_iff_ne_none] using hinputs
  rw [← addSigOps_ok hsigOps]
  split_ifs at h
  · obtain ⟨hview, hsame⟩ := collectScripts_same h
    exact ⟨hview, hsame, fun _ => hfound⟩
  · cases h
    exact ⟨rfl, rfl, fun _ => hfound⟩

theorem Coin.txOut_eq {o : TxOut} {height : Int32} {isCoinbase : Bool} :
    Coin.txOut ⟨o.value, height, isCoinbase, o.scriptPubKey.data⟩ = o := by
  obtain ⟨value, data, hsize⟩ := o
  simp only [Coin.txOut, Script.truncate, take_of_length_le hsize]

/-- After the transactions `done` the view shows only outputs that a later input would spend, and
the running total is their count. -/
structure CountsSigOps (S : CoinSet) (done : List Transaction) (st : ConnectState) : Prop where
  coin : ∀ op c, st.view.coin op = some c → spentOutput S done op = some c.txOut
  sigOps : st.sigOps = UInt32.ofNat (legacySigOps done + p2shSigOps S [] done)

variable {S : CoinSet} {done : List Transaction}

theorem CountsSigOps.output (h : CountsSigOps S done st) {op : Outpoint}
    (hop : (st.view.getOutputFor op).isSome) :
    st.view.getOutputFor op = spentOutput S done op := by
  obtain ⟨o, ho⟩ := Option.isSome_iff_exists.mp hop
  have hcoin : st.view.coin op = some ⟨o.value, (st.view.modify op.hash).height,
      (st.view.modify op.hash).isCoinbase, o.scriptPubKey.data⟩ := by
    rw [CoinsViewCache.coin, Coins.coin]
    exact congrArg (Option.map _) ho
  rw [h.coin op _ hcoin, Coin.txOut_eq, ho]

theorem CountsSigOps.step (h : CountsSigOps S done st)
    (hstep : connectTx nHeight branchId expensive st tx = .ok st') :
    CountsSigOps S (done ++ [tx]) st' := by
  obtain ⟨t, view', undo, ht, hupdate, rfl⟩ := connectTx_ok hstep
  obtain ⟨hview, hsum, hfound⟩ := connectInputs_sigOps ht
  rw [hview] at hupdate
  refine ⟨?_, ?_⟩
  · intro op c hc
    obtain ⟨-, -, hcoins⟩ := updateCoinsWithUndo_ok hupdate
    rw [hcoins] at hc
    rw [spentOutput_concat, namedOutput]
    by_cases hhash : op.hash = tx.hash
    · -- the record of the transaction replaces whatever was under its hash
      rw [if_pos hhash, txCoin] at hc
      obtain ⟨o, ho, rfl⟩ := Option.map_eq_some_iff.mp hc
      obtain ⟨hget, hkeep⟩ := Option.filter_eq_some_iff.mp ho
      rw [if_pos hhash.symm, hget, filter_some, if_pos (by simp_all), Coin.txOut_eq,
        some_or]
    · rw [if_neg hhash] at hc
      rw [if_neg (Ne.symm hhash), none_or]
      exact h.coin op c (Option.ite_none_left_eq_some.mp hc).2
  · have hp2sh : getP2shSigOpCount tx st.view.getOutputFor connectFlags =
        getP2shSigOpCount tx (spentOutput S done) connectFlags := by
      by_cases hcb : transactionIsCoinbase tx
      · rw [getP2shSigOpCount_coinbase hcb, getP2shSigOpCount_coinbase hcb]
      · unfold getP2shSigOpCount
        rw [map_congr_left fun i hi => by rw [h.output (hfound hcb i hi)]]
    rw [hsum, h.sigOps, hp2sh, legacySigOps_concat, p2shSigOps_concat, nil_append,
      ← UInt32.ofNat_add, ← UInt32.ofNat_add]
    congr 1
    omega

/-- What `connect_block` has added up over a view of the coins `S` is the count of the block. -/
theorem connectTxs_sigOps {env : ConnectEnv} {blk : Block} {view : CoinsViewCache}
    (hview : ∀ op c, view.coin op = some c → S.lookup op = some c)
    (h : connectTxs env nHeight blk view = .ok st) :
    st.sigOps = UInt32.ofNat (blockSigOps S blk) := by
  have hinit : CountsSigOps S [] (.init view blk) := by
    refine ⟨?_, rfl⟩
    intro op c hc
    rw [spentOutput, foldl_nil, hview op c hc, map_some]
  have hcounts : CountsSigOps S blk.vtx st :=
    foldlM_invariant (CountsSigOps S) h hinit fun _ _ _ _ _ _ hdone hstep => hdone.step hstep
  exact hcounts.sigOps

end Connect

end ZClassic
