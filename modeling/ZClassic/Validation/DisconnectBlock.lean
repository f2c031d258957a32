import ZClassic.Validation.UpdateCoins

/-!
# Disconnecting a block

`disconnect_block` of `lib/validation/src/connect_block.c`: transactions and inputs are taken back
in reverse order.
-/

namespace ZClassic

open List CoinsViewCache

inductive DisconnectError where
  | undoSizeMismatch (undo vtx : ℕ)
  | prevoutMismatch (prevout vin : ℕ)
  | prevoutOutOfRange (op : Outpoint)
  deriving DecidableEq

/-- Appends null outputs until `pos` is inside. -/
def growVout (vout : List TxOut) (pos : ℕ) : List TxOut :=
  vout ++ List.replicate (pos + 1 - vout.length) txOutNull

/-- One pass of the input loop. An undo record without a height carries no metadata. -/
def restorePrevout (v : CoinsViewCache) (txin : TxIn) (undo : TxInUndo) :
    Except DisconnectError CoinsViewCache :=
  let entry := v.modify txin.prevout.hash
  let pos := txin.prevout.n.toNat
  if entry.vout.length ≤ pos ∧ maxBlockSize ≤ pos then .error (.prevoutOutOfRange txin.prevout)
  else
    let entry :=
      if 0 < undo.height then
        { entry with
          isCoinbase := undo.coinbase, height := undo.height.toInt32, version := undo.version }
      else entry
    .ok (v.put txin.prevout.hash
      { entry with vout := (growVout entry.vout pos).set pos undo.txout })

/-- The record of a disconnected transaction stays in the cache as an empty one. -/
def removeOutputs (v : CoinsViewCache) (tx : Transaction) : CoinsViewCache := v.put tx.hash {}

def disconnectTx (tx : Transaction) (txundo : List TxInUndo) (v : CoinsViewCache) :
    Except DisconnectError CoinsViewCache :=
  if txundo.length ≠ tx.vin.length then .error (.prevoutMismatch txundo.length tx.vin.length)
  else do
    let v ← (tx.vin.zip txundo).foldrM (fun i v => restorePrevout v i.1 i.2) v
    .ok (removeOutputs v tx)

/-- `pprev` is the parent's hash. There is no undo data for the first transaction, whose inputs are
not looked at. -/
def disconnectBlock (blk : Block) (pprev : Option UInt256) (blockundo : List (List TxInUndo))
    (view : CoinsViewCache) : Except DisconnectError CoinsViewCache :=
  match blk.vtx with
  | [] => .error (.undoSizeMismatch blockundo.length 0)
  | first :: rest =>
    if blockundo.length ≠ rest.length then
      .error (.undoSizeMismatch blockundo.length (rest.length + 1))
    else do
      let v ← (rest.zip blockundo).foldrM (fun t v => disconnectTx t.1 t.2 v) view
      let v := removeOutputs v first
      .ok { v with bestBlock := pprev.getD v.bestBlock }

/-- `update_coins_with_undo` on the transactions in order, with the undo data of each. -/
def updateCoinsTxs (height : Int32) :
    List Transaction → CoinsViewCache →
      Except UpdateCoinsError (CoinsViewCache × List (List TxInUndo))
  | [], v => .ok (v, [])
  | tx :: txs, v => do
    let (v, txundo) ← updateCoinsWithUndo tx v height
    let (v, undo) ← updateCoinsTxs height txs v
    .ok (v, txundo :: undo)

variable {height : Int32} {tx : Transaction} {txs : List Transaction} {undo : List (List TxInUndo)}
  {i : TxIn} {dead : List UInt256} {v v' : CoinsViewCache}

theorem updateCoinsTxs_concat {v v' v'' : CoinsViewCache} {txundo : List TxInUndo}
    (htxs : updateCoinsTxs height txs v = .ok (v', undo))
    (htx : updateCoinsWithUndo tx v' height = .ok (v'', txundo)) :
    updateCoinsTxs height (txs ++ [tx]) v = .ok (v'', undo ++ [txundo]) := by
  induction txs generalizing v undo with
  | nil =>
    cases htxs
    rw [nil_append, updateCoinsTxs, htx]
    rfl
  | cons t txs ih =>
    rw [updateCoinsTxs] at htxs
    obtain ⟨⟨v₁, u₁⟩, ht, htxs⟩ := bind_eq_ok htxs
    obtain ⟨⟨v₂, u₂⟩, hrest, htxs⟩ := bind_eq_ok htxs
    cases htxs
    have hlast := ih hrest
    rw [cons_append, updateCoinsTxs, ht]
    dsimp only [ok_bind]
    rw [hlast]
    rfl

/-- The two views have the same record for every txid outside `dead`. -/
def SameRecords (dead : List UInt256) (v v' : CoinsViewCache) : Prop :=
  ∀ txid, txid ∉ dead → v'.modify txid = v.modify txid

theorem growVout_of_lt {vout : List TxOut} {pos : ℕ} (h : pos < vout.length) :
    growVout vout pos = vout := by
  rw [growVout, show pos + 1 - vout.length = 0 by omega]
  simp

/-- What a spend leaves behind in the record and in the undo data. -/
structure Spends (v v' : CoinsViewCache) (i : TxIn) (u : TxInUndo) : Prop where
  lt : i.prevout.n.toNat < (v.modify i.prevout.hash).vout.length
  out : (v.modify i.prevout.hash).vout[i.prevout.n.toNat]? = some u.txout
  view : v' = v.put i.prevout.hash { v.modify i.prevout.hash with
    vout := (v.modify i.prevout.hash).vout.set i.prevout.n.toNat txOutNull }
  metadata : 0 < u.height → u.coinbase = (v.modify i.prevout.hash).isCoinbase ∧
    u.height.toInt32 = (v.modify i.prevout.hash).height ∧
    u.version = (v.modify i.prevout.hash).version

theorem spendPrevout_spends {s s' : CoinsViewCache × List TxInUndo}
    (h : spendPrevout s i = .ok s') :
    ∃ u, s'.2 = s.2 ++ [u] ∧ Spends s.1 s'.1 i u := by
  unfold spendPrevout at h
  dsimp only at h
  split at h
  · cases h
  · next out hout =>
    split_ifs at h
    cases h
    have hget : (s.1.modify i.prevout.hash).vout[i.prevout.n.toNat]? = some out :=
      (Option.filter_eq_some_iff.mp hout).1
    refine ⟨_, rfl, (List.getElem?_eq_some_iff.mp hget).1, ?_, rfl, ?_⟩
    · unfold coinsMathCaptureUndo
      dsimp only
      split
      · exact hget
      · exact hget
    · unfold coinsMathCaptureUndo
      dsimp only
      split
      · intro _
        exact ⟨rfl, by simp, rfl⟩
      · intro hpos
        simp at hpos

theorem Spends.restore {v v' v₁ : CoinsViewCache} {u : TxInUndo} (h : Spends v v' i u)
    (hsame : SameRecords dead v' v₁) (hi : i.prevout.hash ∉ dead) :
    restorePrevout v₁ i u = .ok (v₁.put i.prevout.hash (v.modify i.prevout.hash)) := by
  have hentry : v₁.modify i.prevout.hash = { v.modify i.prevout.hash with
      vout := (v.modify i.prevout.hash).vout.set i.prevout.n.toNat txOutNull } := by
    rw [hsame _ hi, h.view, modify_put, if_pos rfl]
  unfold restorePrevout
  dsimp only
  rw [hentry]
  rw [length_set, if_neg (by have := h.lt; omega)]
  have hvout : (growVout ((v.modify i.prevout.hash).vout.set i.prevout.n.toNat txOutNull)
      i.prevout.n.toNat).set i.prevout.n.toNat u.txout = (v.modify i.prevout.hash).vout := by
    rw [growVout_of_lt (by rw [List.length_set]; exact h.lt), List.set_set]
    obtain ⟨hlt, hget⟩ := List.getElem?_eq_some_iff.mp h.out
    rw [← hget]
    exact set_getElem_self hlt
  by_cases hpos : 0 < u.height
  · obtain ⟨hcoinbase, hheight, hversion⟩ := h.metadata hpos
    rw [if_pos hpos]
    rw [hvout, hcoinbase, hheight, hversion]
  · rw [if_neg hpos]
    rw [hvout]

/-- The input loop of `disconnect_block` after the input loop of `update_coins_with_undo`. Records
in `dead` are neither looked at nor changed. -/
theorem restorePrevouts_spendPrevouts {vin : List TxIn} {undo undo' : List TxInUndo}
    (h : vin.foldlM spendPrevout (v, undo) = .ok (v', undo'))
    (hdead : ∀ i ∈ vin, i.prevout.hash ∉ dead) :
    ∃ us, undo' = undo ++ us ∧ us.length = vin.length ∧ ∀ v₁, SameRecords dead v' v₁ →
      ∃ v₂, (vin.zip us).foldrM (fun i v => restorePrevout v i.1 i.2) v₁ = .ok v₂ ∧
        SameRecords dead v v₂ ∧ ∀ txid ∈ dead, v₂.modify txid = v₁.modify txid := by
  induction vin generalizing v undo with
  | nil =>
    cases h
    exact ⟨[], by simp, rfl, fun v₁ hsame => ⟨v₁, rfl, hsame, fun _ _ => rfl⟩⟩
  | cons i vin ih =>
    rw [foldlM_cons] at h
    obtain ⟨⟨vmid, undomid⟩, hstep, hrest⟩ := bind_eq_ok h
    obtain ⟨u, hu, hspends⟩ := spendPrevout_spends hstep
    obtain ⟨us, hus, hlen, hrestore⟩ := ih hrest fun j hj => hdead j (by simp [hj])
    dsimp only at hu hspends
    refine ⟨u :: us, by rw [hus, hu, append_assoc, singleton_append],
      by rw [length_cons, length_cons, hlen], ?_⟩
    intro v₁ hsame
    obtain ⟨v₂, hfold, hsame₂, hkeep₂⟩ := hrestore v₁ hsame
    have hi : i.prevout.hash ∉ dead := hdead i (by simp)
    refine ⟨v₂.put i.prevout.hash (v.modify i.prevout.hash), ?_, ?_, ?_⟩
    · rw [zip_cons_cons, foldrM_cons, hfold]
      exact hspends.restore hsame₂ hi
    · intro txid htxid
      rw [modify_put]
      split_ifs with heq
      · rw [heq]
      · rw [hsame₂ txid htxid, hspends.view, modify_put, if_neg heq]
    · intro txid htxid
      rw [modify_put, if_neg (ne_of_mem_of_not_mem htxid hi), hkeep₂ txid htxid]

/-- `v'` is `v` with the records of the transactions `dead` emptied. -/
def Without (dead : List UInt256) (v v' : CoinsViewCache) : Prop :=
  ∀ txid, v'.modify txid = if txid ∈ dead then {} else v.modify txid

theorem Without.removeOutputs (hsame : SameRecords (tx.hash :: dead) v v')
    (hempty : ∀ txid ∈ dead, v'.modify txid = {}) :
    Without (tx.hash :: dead) v (removeOutputs v' tx) := by
  intro txid
  rw [ZClassic.removeOutputs, modify_put]
  by_cases heq : txid = tx.hash
  · rw [if_pos heq, if_pos (by simp [heq])]
  · rw [if_neg heq]
    by_cases hmem : txid ∈ dead
    · rw [if_pos (by simp [hmem]), hempty txid hmem]
    · rw [if_neg (by simp [heq, hmem]), hsame txid (by simp [heq, hmem])]

/-- A view in which the records of the coins spent are those before `tx`, apart from `tx`'s own. -/
theorem updateCoinsWithUndo_view {undo : List TxInUndo}
    (h : updateCoinsWithUndo tx v height = .ok (v', undo)) :
    ∃ s c, (if transactionIsCoinbase tx then [] else tx.vin).foldlM spendPrevout (v, []) =
      .ok (s, undo) ∧ v' = s.put tx.hash c := by
  obtain ⟨⟨s, us⟩, hin, h⟩ := bind_eq_ok h
  split at h
  · cases h
  · next c _ =>
    split_ifs at h
    cases h
    exact ⟨s, c, hin, rfl⟩

theorem disconnectTx_updateCoinsWithUndo {v v' v₁ : CoinsViewCache} {undo : List TxInUndo}
    (hcoinbase : ¬transactionIsCoinbase tx) (hdead : ∀ i ∈ tx.vin, i.prevout.hash ∉ tx.hash :: dead)
    (h : updateCoinsWithUndo tx v height = .ok (v', undo)) (hwithout : Without dead v' v₁) :
    ∃ v₂, disconnectTx tx undo v₁ = .ok v₂ ∧ Without (tx.hash :: dead) v v₂ := by
  obtain ⟨s, c, hin, rfl⟩ := updateCoinsWithUndo_view h
  rw [if_neg hcoinbase] at hin
  obtain ⟨us, hundo, hlen, hrestore⟩ := restorePrevouts_spendPrevouts hin hdead
  rw [nil_append] at hundo
  subst hundo
  have hsame : SameRecords (tx.hash :: dead) s v₁ := by
    intro txid htxid
    rw [mem_cons, not_or] at htxid
    rw [hwithout txid, if_neg htxid.2, modify_put, if_neg htxid.1]
  obtain ⟨v₂, hfold, hsame₂, hkeep⟩ := hrestore v₁ hsame
  refine ⟨removeOutputs v₂ tx, ?_, Without.removeOutputs hsame₂ ?_⟩
  · rw [disconnectTx, if_neg (not_ne_iff.mpr hlen), hfold]
    rfl
  · intro txid htxid
    rw [hkeep txid (by simp [htxid]), hwithout txid, if_pos htxid]

theorem disconnectTxs_updateCoinsTxs (hcoinbase : ∀ tx ∈ txs, ¬transactionIsCoinbase tx)
    (hnodup : (txs.map (·.hash)).Nodup)
    (hfresh : ∀ op : Outpoint, op.hash ∈ txs.map (·.hash) → v.coin op = none)
    (h : updateCoinsTxs height txs v = .ok (v', undo)) :
    undo.length = txs.length ∧
      ∃ v₂, (txs.zip undo).foldrM (fun t v => disconnectTx t.1 t.2 v) v' = .ok v₂ ∧
        Without (txs.map (·.hash)) v v₂ := by
  induction txs generalizing v undo with
  | nil =>
    cases h
    exact ⟨rfl, v', rfl, fun txid => by simp⟩
  | cons tx txs ih =>
    rw [updateCoinsTxs] at h
    obtain ⟨⟨vmid, txundo⟩, htx, h⟩ := bind_eq_ok h
    obtain ⟨⟨vend, undo'⟩, htxs, h⟩ := bind_eq_ok h
    cases h
    rw [map_cons, nodup_cons] at hnodup
    obtain ⟨-, hspent, hcoin⟩ := updateCoinsWithUndo_ok htx
    rw [if_neg (hcoinbase tx (by simp))] at hspent hcoin
    -- the transactions after `tx` are still fresh: `tx` creates coins of its own txid only
    have hfresh' : ∀ op : Outpoint, op.hash ∈ txs.map (·.hash) → vmid.coin op = none := by
      intro op hop
      have hne : op.hash ≠ tx.hash := fun heq => hnodup.1 (heq ▸ hop)
      rw [hcoin op, if_neg hne, hfresh op (by simp [hop]), ite_self]
    obtain ⟨hlen, v₁, hfold, hwithout⟩ :=
      ih (fun t ht => hcoinbase t (by simp [ht])) hnodup.2 hfresh' htxs
    -- a coin that `tx` spends is one of `v`, so it belongs to no transaction of the block
    have hdead : ∀ i ∈ tx.vin, i.prevout.hash ∉ tx.hash :: txs.map (·.hash) := by
      intro i hi hmem
      have hsome := hspent i.prevout (mem_map_of_mem hi)
      rw [hfresh i.prevout (by simpa using hmem)] at hsome
      cases hsome
    obtain ⟨v₂, hdis, hwithout₂⟩ :=
      disconnectTx_updateCoinsWithUndo (hcoinbase tx (by simp)) hdead htx hwithout
    refine ⟨by rw [length_cons, length_cons, hlen], v₂, ?_, hwithout₂⟩
    rw [zip_cons_cons, foldrM_cons, hfold]
    exact hdis

/-- Connecting and disconnecting a block is the identity on what the view shows. -/
theorem disconnectBlock_updateCoinsTxs {blk : Block} {cb : Transaction} {rest : List Transaction}
    {v v' : CoinsViewCache} {height : Int32} {undo : List (List TxInUndo)}
    (pprev : Option UInt256) (hvtx : blk.vtx = cb :: rest) (hcb : transactionIsCoinbase cb)
    (hrest : ∀ tx ∈ rest, ¬transactionIsCoinbase tx) (hnodup : (blk.vtx.map (·.hash)).Nodup)
    (hfresh : ∀ op : Outpoint, op.hash ∈ blk.vtx.map (·.hash) → v.coin op = none)
    (h : updateCoinsTxs height blk.vtx v = .ok (v', undo)) :
    ∃ v'', disconnectBlock blk pprev undo.tail v' = .ok v'' ∧ ∀ op, v''.coin op = v.coin op := by
  rw [hvtx] at hnodup hfresh h
  rw [updateCoinsTxs] at h
  obtain ⟨⟨v₀, cbundo⟩, hfirst, h⟩ := bind_eq_ok h
  obtain ⟨⟨vend, undo'⟩, htxs, h⟩ := bind_eq_ok h
  cases h
  obtain ⟨s, c, hin, rfl⟩ := updateCoinsWithUndo_view hfirst
  rw [if_pos hcb] at hin
  cases hin
  rw [map_cons, nodup_cons] at hnodup
  have hfresh₀ : ∀ op : Outpoint, op.hash ∈ rest.map (·.hash) →
      (v.put cb.hash c).coin op = none := by
    intro op hop
    have hne : op.hash ≠ cb.hash := fun heq => hnodup.1 (heq ▸ hop)
    rw [coin_put, if_neg hne, hfresh op (by simp [hop])]
  obtain ⟨hlen, v₂, hfold, hwithout⟩ := disconnectTxs_updateCoinsTxs hrest hnodup.2 hfresh₀ htxs
  have hend : Without (cb.hash :: rest.map (·.hash)) v (removeOutputs v₂ cb) := by
    apply Without.removeOutputs
    · intro txid htxid
      rw [mem_cons, not_or] at htxid
      rw [hwithout txid, if_neg htxid.2, modify_put, if_neg htxid.1]
    · intro txid htxid
      rw [hwithout txid, if_pos htxid]
  refine ⟨{ removeOutputs v₂ cb with bestBlock := pprev.getD (removeOutputs v₂ cb).bestBlock },
    ?_, ?_⟩
  · unfold disconnectBlock
    rw [hvtx]
    refine (if_neg (not_ne_iff.mpr hlen)).trans ?_
    rw [tail_cons, hfold]
    rfl
  · intro op
    change ((removeOutputs v₂ cb).modify op.hash).coin op.n.toNat = v.coin op
    rw [hend op.hash]
    split_ifs with hmem
    · rw [hfresh op (by simpa using hmem)]
      rfl
    · rfl

/-- A coin is moved and moved again inside the block: disconnecting brings it back. -/
theorem chainedSpend_disconnected :
    let v := oneCoinView 9 50
    let B : Block := ⟨[emptyCoinbase 1, moveCoin ⟨9, 0⟩ 50 2, moveCoin ⟨2, 0⟩ 50 3]⟩
    ∃ v' undo v'', updateCoinsTxs 1000 B.vtx v = .ok (v', undo) ∧
      v'.coin ⟨9, 0⟩ = none ∧
      disconnectBlock B (some 7) undo.tail v' = .ok v'' ∧ ∀ op, v''.coin op = v.coin op := by
  intro v B
  obtain ⟨v', undo, hrun, hspent⟩ : ∃ v' undo, updateCoinsTxs 1000 B.vtx v = .ok (v', undo) ∧
      v'.coin ⟨9, 0⟩ = none := ⟨_, _, rfl, by decide⟩
  have hfresh : ∀ op : Outpoint, op.hash ∈ B.vtx.map (·.hash) → v.coin op = none := fun op hop =>
    oneCoinView_coin_of_ne (ne_of_mem_of_not_mem hop (by decide))
  obtain ⟨v'', hdis, hcoin⟩ := disconnectBlock_updateCoinsTxs (some 7) rfl (by decide) (by decide)
    (by decide) hfresh hrun
  exact ⟨v', undo, v'', hrun, hspent, hdis, hcoin⟩

/-- With a second coinbase in the block there is no undo record for its null input. -/
theorem secondCoinbase_not_disconnected :
    let v := oneCoinView 9 50
    let B : Block := ⟨[emptyCoinbase 1, emptyCoinbase 2]⟩
    (B.vtx.map (·.hash)).Nodup ∧
      (∀ op : Outpoint, op.hash ∈ B.vtx.map (·.hash) → v.coin op = none) ∧
      ∃ v' undo, updateCoinsTxs 1000 B.vtx v = .ok (v', undo) ∧
        (disconnectBlock B (some 7) undo.tail v').toOption.isNone := by
  intro v B
  refine ⟨by decide, ?_, _, _, rfl, by decide⟩
  intro op hop
  exact oneCoinView_coin_of_ne (ne_of_mem_of_not_mem hop (by decide))

end ZClassic
