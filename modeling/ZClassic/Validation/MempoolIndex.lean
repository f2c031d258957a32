import Mathlib.Algebra.BigOperators.Ring.List
import ZClassic.Validation.TxMempool

/-!
# The index of the memory pool

In every pool that is reached from the empty one, the table of spent outpoints tells for exactly the
outpoints that the entries spend which entry and which input spends them, and the counters are those
of the entries.
-/

namespace ZClassic

open List Function LinearProbing

variable {op : Outpoint} {ops : List Outpoint} {e entry : MempoolEntry} {ip : Inpoint} {j : ℕ}
  {pool' : TxMempool}

variable {m : OutpointMap} {pool : TxMempool} {idx : ℕ}

namespace OutpointMap

theorem nextSlot_round (i j : Fin m.cap) : ∃ n < m.cap, m.nextSlot^[n] i = j :=
  succSlot_round i j

def Sound (m : OutpointMap) : Prop := LinearProbing.Probed m.nextSlot m.homeSlot m.slots

def HasRoom (m : OutpointMap) : Prop := ∃ e, m.slots e = none

def Holds (m : OutpointMap) (op : Outpoint) (ip : Inpoint) : Prop :=
  LinearProbing.Holds m.slots op ip

theorem Sound.once (h : m.Sound) {ip ip' : Inpoint} (hip : m.Holds op ip) (hip' : m.Holds op ip') :
    ip = ip' := by
  obtain ⟨i, hi⟩ := hip
  obtain ⟨j, hj⟩ := hip'
  rw [h.unique i j op ip ip' hi hj, hj, Option.some.injEq, Prod.mk.injEq] at hi
  exact hi.2.symm

theorem Sound.hasRoom (h : m.Sound) (ops : List Outpoint) (hops : ∀ op ip, m.Holds op ip → op ∈ ops)
    (hlen : ops.length < m.cap) : m.HasRoom := by
  apply Probed.exists_free h ops.toFinset
  · intro op ip hip
    exact mem_toFinset.mpr (hops op ip hip)
  · rw [Fintype.card_fin]
    exact (toFinset_card_le ops).trans_lt hlen

theorem Sound.outpointFind_isSome (h : m.Sound) (hroom : m.HasRoom) (op : Outpoint) :
    (m.outpointFind op).isSome = true ↔ ∃ ip, m.Holds op ip := by
  obtain ⟨e, he⟩ := hroom
  rw [Option.isSome_iff_exists]
  constructor
  · rintro ⟨i, hi⟩
    obtain ⟨ip, hip⟩ := find_sound hi
    exact ⟨ip, i, hip⟩
  · rintro ⟨ip, i, hi⟩
    exact ⟨i, (h.find_iff nextSlot_round he).mpr ⟨ip, hi⟩⟩

theorem Sound.lookup_iff (h : m.Sound) (hroom : m.HasRoom) (op : Outpoint) (ip : Inpoint) :
    m.lookup op = some ip ↔ m.Holds op ip := by
  obtain ⟨e, he⟩ := hroom
  rw [lookup, Option.bind_eq_some_iff]
  constructor
  · rintro ⟨i, hi, hip⟩
    obtain ⟨ip', hip'⟩ := find_sound hi
    rw [hip', Option.map_some, Option.some.injEq] at hip
    exact ⟨i, hip ▸ hip'⟩
  · rintro ⟨i, hi⟩
    exact ⟨i, (h.find_iff nextSlot_round he).mpr ⟨ip, hi⟩, by rw [hi]; rfl⟩

theorem empty_sound (cap : ℕ) (hcap : 0 < cap) : (empty cap hcap).Sound :=
  ⟨fun _ _ _ h => (nomatch h), fun _ _ _ _ _ h => (nomatch h)⟩

theorem empty_holds (cap : ℕ) (hcap : 0 < cap) (op : Outpoint) (ip : Inpoint) :
    ¬(empty cap hcap).Holds op ip :=
  fun ⟨_, h⟩ => nomatch h

theorem Sound.outpointRemove (h : m.Sound) (hroom : m.HasRoom) (op : Outpoint) :
    let out := m.outpointRemove op
    out.1.Sound ∧ out.1.HasRoom ∧ (out.2 = true ↔ ∃ ip, m.Holds op ip) ∧
      ∀ op' ip', out.1.Holds op' ip' ↔ m.Holds op' ip' ∧ op' ≠ op := by
  obtain ⟨e, he⟩ := hroom
  have hremove := Probed.remove nextSlot_round h he op
  exact ⟨hremove.1, ⟨e, hremove.2.1⟩, hremove.2.2⟩

theorem Sound.setTxIndex (h : m.Sound) (hroom : m.HasRoom) (op : Outpoint) (idx : ℕ) :
    (m.setTxIndex op idx).Sound ∧ (m.setTxIndex op idx).HasRoom ∧
      ∀ op' ip', (m.setTxIndex op idx).Holds op' ip' ↔
        op' = op ∧ (∃ ip, m.Holds op ip ∧ ip' = { ip with txIndex := idx }) ∨
          op' ≠ op ∧ m.Holds op' ip' := by
  obtain ⟨e, he⟩ := hroom
  cases hfind : m.outpointFind op with
  | none =>
    have habsent : ∀ ip, ¬m.Holds op ip := (h.find_eq_none nextSlot_round he).mp hfind
    have hsame : m.setTxIndex op idx = m := by rw [OutpointMap.setTxIndex, hfind]
    rw [hsame]
    refine ⟨h, ⟨e, he⟩, ?_⟩
    intro op' ip'
    constructor
    · intro hip'
      refine .inr ⟨?_, hip'⟩
      intro hop
      rw [hop] at hip'
      exact habsent ip' hip'
    · rintro (⟨-, ip, hip, -⟩ | ⟨-, hip'⟩)
      · exact absurd hip (habsent ip)
      · exact hip'
  | some i =>
    obtain ⟨ip, hip⟩ := find_sound hfind
    have hset : m.setTxIndex op idx =
        { m with slots := update m.slots i (some (op, { ip with txIndex := idx })) } := by
      rw [OutpointMap.setTxIndex, hfind]
      dsimp only
      rw [hip]
      rfl
    rw [hset]
    refine ⟨h.update_value hip, ⟨e, ?_⟩, ?_⟩
    · dsimp only
      rw [update_of_ne, he]
      intro heq
      rw [heq, hip] at he
      exact nomatch he
    · intro op' ip'
      refine (holds_update_value h.unique hip op' ip').trans (or_congr_left ?_)
      apply and_congr_right
      intro _
      constructor
      · intro hip'
        exact ⟨ip, ⟨i, hip⟩, hip'⟩
      · rintro ⟨ip₀, hip₀, hip'⟩
        rw [hip', h.once ⟨i, hip⟩ hip₀]

theorem mem_pairs (m : OutpointMap) (op : Outpoint) (ip : Inpoint) :
    (op, ip) ∈ m.pairs ↔ m.Holds op ip := by
  simp [pairs, Holds, LinearProbing.Holds]

theorem Sound.pairs_nodup (h : m.Sound) : (m.pairs.map Prod.fst).Nodup := by
  rw [pairs, map_filterMap]
  apply Nodup.filterMap _ (nodup_finRange m.cap)
  intro i j op hi hj
  obtain ⟨x, hx, hop⟩ := Option.map_eq_some_iff.mp hi
  obtain ⟨y, hy, hop'⟩ := Option.map_eq_some_iff.mp hj
  apply h.unique i j op x.2 y.2
  · rw [hx, ← hop]
  · rw [hy, ← hop']

theorem Sound.outpointMapGrow (h : m.Sound) {newcap : ℕ} (hcap : 0 < newcap) (ops : List Outpoint)
    (hops : ∀ op ip, m.Holds op ip → op ∈ ops) (hlen : ops.length ≤ newcap) :
    ∃ m', m.outpointMapGrow newcap hcap = some m' ∧ m'.cap = newcap ∧ m'.Sound ∧
      ∀ op ip, m'.Holds op ip ↔ m.Holds op ip := by
  have hcard : ops.toFinset.card ≤ Fintype.card (Fin newcap) := by
    rw [Fintype.card_fin]
    exact (toFinset_card_le ops).trans hlen
  obtain ⟨slots, hall, -, hprobed, hholds⟩ := Probed.insertAll
    (nextSlot_round (m := empty newcap hcap)) (empty_sound newcap hcap) h.pairs_nodup
    (fun p _ ip => empty_holds newcap hcap p.1 ip) ops.toFinset
    (fun op ip hip => absurd hip (empty_holds newcap hcap op ip))
    (fun p hp => mem_toFinset.mpr (hops p.1 p.2 ((mem_pairs m p.1 p.2).mp hp))) hcard 0
  refine ⟨{ empty newcap hcap with slots }, ?_, rfl, hprobed, ?_⟩
  · rw [OutpointMap.outpointMapGrow]
    exact congrArg (Option.map _) hall
  · intro op ip
    refine (hholds op ip).trans ?_
    rw [mem_pairs]
    exact or_iff_left (empty_holds newcap hcap op ip)

theorem Sound.insertInputs (h : m.Sound) (hnodup : ops.Nodup)
    (habsent : ∀ op ∈ ops, ∀ ip, ¬m.Holds op ip) (held : List Outpoint)
    (hheld : ∀ op ip, m.Holds op ip → op ∈ held) (hlen : held.length + ops.length ≤ m.cap)
    (used idx : ℕ) :
    let out := insertInputs m used idx ops
    out.1.cap = m.cap ∧ out.1.Sound ∧ out.2 = used + ops.length ∧ ∀ op ip, out.1.Holds op ip ↔
      (∃ i, ops[i]? = some op ∧ ip = ⟨idx, UInt32.ofNat i⟩) ∨ m.Holds op ip := by
  have hfst : (ops.zipIdx.map fun p => (p.1, Inpoint.mk idx (UInt32.ofNat p.2))).map Prod.fst =
      ops := by
    rw [map_map]
    exact zipIdx_map_fst 0 ops
  have hmem : ∀ p ∈ ops.zipIdx.map fun p => (p.1, Inpoint.mk idx (UInt32.ofNat p.2)),
      p.1 ∈ ops := by
    intro p hp
    rw [← hfst]
    exact mem_map_of_mem hp
  have hcard : (held ++ ops).toFinset.card ≤ Fintype.card (Fin m.cap) := by
    rw [Fintype.card_fin]
    exact (toFinset_card_le _).trans (by rwa [length_append])
  obtain ⟨slots, -, hcounted, hprobed, hholds⟩ := Probed.insertAll
    nextSlot_round h (hfst.symm ▸ hnodup) (fun p hp => habsent p.1 (hmem p hp))
    (held ++ ops).toFinset
    (fun op ip hip => mem_toFinset.mpr (mem_append_left _ (hheld op ip hip)))
    (fun p hp => mem_toFinset.mpr (mem_append_right _ (hmem p hp))) hcard used
  have hresult : ZClassic.insertInputs m used idx ops =
      ({ m with slots }, used + ops.length) := by
    rw [ZClassic.insertInputs, hcounted, length_map, length_zipIdx]
  rw [hresult]
  refine ⟨rfl, hprobed, rfl, ?_⟩
  intro op ip
  refine (hholds op ip).trans (or_congr_left ?_)
  rw [mem_map]
  constructor
  · rintro ⟨p, hp, heq⟩
    rw [Prod.mk.injEq] at heq
    exact ⟨p.2, by rw [← heq.1]; exact mem_zipIdx_iff_getElem?.mp hp, heq.2.symm⟩
  · rintro ⟨i, hi, hip⟩
    exact ⟨(op, i), mem_zipIdx_iff_getElem?.mpr hi, by rw [hip]⟩

end OutpointMap

theorem inputs_le_serialize (tx : WireTransaction) :
    41 * tx.vin.length ≤ (transactionSerialize tx).length := by
  have hsum : (tx.vin.map fun _ => 41).sum ≤ (tx.vin.map txInSize).sum := by
    apply sum_le_sum
    intro i _
    have hpos : 1 ≤ compactSizeLength i.scriptSig.size := by
      unfold compactSizeLength
      split_ifs <;> omega
    unfold txInSize
    omega
  rw [map_const', sum_replicate_nat] at hsum
  rw [serialize_length, transactionSerializeSize]
  simp only [WireTransaction.toTransaction]
  omega

theorem transactionCopy_idem (tx : WireTransaction) :
    transactionCopy (transactionCopy tx) = transactionCopy tx := by
  by_cases h : tx.vin.length ≤ maxTxInputs ∧ tx.vout.length ≤ maxTxOutputs
  · rw [show transactionCopy tx = tx from if_pos h, transactionCopy, if_pos h]
  · rw [show transactionCopy tx = _ from if_neg h]
    exact if_pos ⟨Nat.zero_le _, Nat.zero_le _⟩

/-- What `mempool_entry_init` has filled in stays the same if it is copied once more. -/
structure MempoolEntry.Initialised (e : MempoolEntry) : Prop where
  copied : transactionCopy e.tx = e.tx
  size : e.txSize = (transactionSerialize e.tx).length

theorem mempoolEntryInit_initialised (tx : WireTransaction) (fee time : Int64) (height : UInt32)
    (poolHasNoInputsOf spendsCoinbase : Bool) (branchId : UInt32) :
    (mempoolEntryInit tx fee time height poolHasNoInputsOf spendsCoinbase branchId).Initialised :=
  ⟨transactionCopy_idem tx, rfl⟩

theorem MempoolEntry.Initialised.init_eq (h : e.Initialised) :
    mempoolEntryInit e.tx e.fee e.time e.height e.hadNoDeps e.spendsCoinbase e.branchId = e := by
  rw [mempoolEntryInit, h.copied, ← h.size]

namespace TxMempool

def SpendsAt (pool : TxMempool) (op : Outpoint) (ip : Inpoint) : Prop :=
  ∃ e, pool.entries[ip.txIndex]? = some e ∧ e.tx.outpoints[ip.n.toNat]? = some op

def numInputs (pool : TxMempool) : ℕ := (pool.entries.map (·.tx.vin.length)).sum

structure Indexed (pool : TxMempool) : Prop where
  sound : pool.nextTx.Sound
  holds : ∀ op ip, pool.nextTx.Holds op ip ↔ pool.SpendsAt op ip
  used : pool.nextTxUsed = pool.numInputs
  load : pool.nextTxUsed * 10 ≤ pool.nextTx.cap * 7
  cap_lt : pool.nextTx.cap < 2 ^ 32
  total : pool.totalTxSize = (pool.entries.map (·.txSize)).sum
  limit : pool.totalTxSize ≤ maxMempoolSize
  measured : ∀ e ∈ pool.entries, e.txSize = (transactionSerialize e.tx).length

def spent (pool : TxMempool) : List Outpoint := pool.entries.flatMap (·.tx.outpoints)

theorem spent_length (pool : TxMempool) : pool.spent.length = pool.numInputs := by
  simp [spent, numInputs, length_flatMap, WireTransaction.outpoints]

theorem SpendsAt.mem_spent (h : pool.SpendsAt op ip) : op ∈ pool.spent := by
  obtain ⟨e, he, hop⟩ := h
  exact mem_flatMap.mpr ⟨e, mem_of_getElem? he, mem_of_getElem? hop⟩

namespace Indexed

variable (h : pool.Indexed)

include h

theorem inputs_le : 41 * pool.numInputs ≤ pool.totalTxSize := by
  rw [h.total, numInputs, ← sum_map_mul_left]
  apply sum_le_sum
  intro e he
  rw [h.measured e he]
  exact inputs_le_serialize e.tx

theorem hasRoom : pool.nextTx.HasRoom := by
  apply h.sound.hasRoom pool.spent
  · intro op ip hip
    exact ((h.holds op ip).mp hip).mem_spent
  · have hpos := pool.nextTx.cap_pos
    have hload := h.load
    rw [spent_length, ← h.used]
    omega

theorem once {ip ip' : Inpoint} (hip : pool.SpendsAt op ip) (hip' : pool.SpendsAt op ip') :
    ip = ip' :=
  h.sound.once ((h.holds op ip).mpr hip) ((h.holds op ip').mpr hip')

theorem vin_length_lt (he : e ∈ pool.entries) : e.tx.vin.length < 2 ^ 32 := by
  have hle : e.txSize ≤ (pool.entries.map (·.txSize)).sum :=
    le_sum_of_mem (mem_map_of_mem he)
  have hsize := inputs_le_serialize e.tx
  have hlimit := h.limit
  rw [← h.measured e he] at hsize
  rw [← h.total] at hle
  unfold maxMempoolSize at hlimit
  omega

theorem mem_outpoints (hj : pool.entries[j]? = some e) (op : Outpoint) :
    op ∈ e.tx.outpoints ↔ ∃ n, pool.SpendsAt op ⟨j, n⟩ := by
  constructor
  · intro hop
    obtain ⟨i, hi⟩ := List.mem_iff_getElem?.mp hop
    have hlt : i < e.tx.outpoints.length := (List.getElem?_eq_some_iff.mp hi).1
    have hlen := h.vin_length_lt (List.mem_of_getElem? hj)
    rw [WireTransaction.outpoints, length_map] at hlt
    refine ⟨UInt32.ofNat i, e, hj, ?_⟩
    rwa [UInt32.toNat_ofNat_of_lt' (hlt.trans hlen)]
  · rintro ⟨n, e', he', hop⟩
    rw [hj, Option.some.injEq] at he'
    rw [he']
    exact mem_of_getElem? hop

theorem outpoints_nodup (hj : pool.entries[j]? = some e) : e.tx.outpoints.Nodup := by
  have hlen := h.vin_length_lt (mem_of_getElem? hj)
  have hnat : ∀ i < e.tx.outpoints.length, (UInt32.ofNat i).toNat = i := by
    intro i hi
    rw [WireTransaction.outpoints, length_map] at hi
    exact UInt32.toNat_ofNat_of_lt' (hi.trans hlen)
  have hspends : ∀ i < e.tx.outpoints.length, ∀ op, e.tx.outpoints[i]? = some op →
      pool.SpendsAt op ⟨j, UInt32.ofNat i⟩ := by
    intro i hi op hop
    exact ⟨e, hj, by rw [hnat i hi, hop]⟩
  rw [nodup_iff_getElem?_ne_getElem?]
  intro i k hik hk heq
  have hop := getElem?_eq_getElem hk
  have hsame := h.once (hspends i (hik.trans hk) _ (heq.trans hop)) (hspends k hk _ hop)
  rw [Inpoint.mk.injEq] at hsame
  have hindex := congrArg UInt32.toNat hsame.2
  rw [hnat i (hik.trans hk), hnat k hk] at hindex
  omega

end Indexed

theorem txMempoolInit_indexed (minRelayFee : Int64) : (txMempoolInit minRelayFee).Indexed where
  sound := OutpointMap.empty_sound _ _
  holds op ip := by
    refine iff_of_false (OutpointMap.empty_holds _ _ op ip) ?_
    rintro ⟨e, he, -⟩
    exact nomatch he
  used := rfl
  load := Nat.zero_le _
  cap_lt := show outpointMapCap < 2 ^ 32 by decide
  total := rfl
  limit := Nat.zero_le _
  measured e he := absurd he not_mem_nil

theorem Indexed.reserve (h : pool.Indexed) {more : ℕ}
    (hmore : pool.totalTxSize + 41 * more ≤ maxMempoolSize) :
    ∃ m, reserveOutpoints pool more = some m ∧ m.Sound ∧
      (∀ op ip, m.Holds op ip ↔ pool.nextTx.Holds op ip) ∧
      (pool.nextTxUsed + more) * 10 ≤ m.cap * 7 ∧ m.cap < 2 ^ 32 := by
  have hinputs := h.inputs_le
  have hcap := h.cap_lt
  rw [← h.used] at hinputs
  unfold maxMempoolSize at hmore
  unfold reserveOutpoints
  dsimp only
  split_ifs with hfull
  · obtain ⟨m, hgrow, hnewcap, hsound, hholds⟩ := h.sound.outpointMapGrow
      (Nat.zero_lt_of_lt (growTarget_gt pool.nextTx.cap_pos (pool.nextTxUsed + more)))
      pool.spent (fun op ip hip => ((h.holds op ip).mp hip).mem_spent)
      (by
        have hload := h.load
        have hgt := growTarget_gt pool.nextTx.cap_pos (pool.nextTxUsed + more)
        rw [spent_length, ← h.used]
        omega)
    refine ⟨m, hgrow, hsound, hholds, ?_⟩
    rw [hnewcap]
    unfold growTarget outpointMapCap
    dsimp only
    split_ifs <;> omega
  · exact ⟨pool.nextTx, rfl, h.sound, fun _ _ => Iff.rfl, by omega, hcap⟩

theorem addUnchecked_inv (hentry : entry.Initialised)
    (hadd : txMempoolAddUnchecked pool entry = some pool') :
    pool.totalTxSize + entry.txSize ≤ maxMempoolSize ∧ txMempoolHasConflict pool entry.tx = false ∧
      ∃ m, reserveOutpoints pool entry.tx.vin.length = some m ∧
        pool' = { pool with
          entries := pool.entries ++ [entry]
          nextTx := (insertInputs m pool.nextTxUsed pool.entries.length entry.tx.outpoints).1
          nextTxUsed := (insertInputs m pool.nextTxUsed pool.entries.length entry.tx.outpoints).2
          totalTxSize := pool.totalTxSize + entry.txSize } := by
  unfold txMempoolAddUnchecked at hadd
  split_ifs at hadd with hsize hconflict
  obtain ⟨m, hreserve, hadd⟩ := Option.bind_eq_some_iff.mp hadd
  rw [hentry.init_eq] at hadd
  exact ⟨Nat.not_lt.mp hsize, Bool.eq_false_iff.mpr hconflict, m, hreserve,
    (Option.some.inj hadd).symm⟩

theorem spendsAt_concat (hentries : pool'.entries = pool.entries ++ [entry]) (op : Outpoint)
    (ip : Inpoint) :
    pool'.SpendsAt op ip ↔ pool.SpendsAt op ip ∨
      ip.txIndex = pool.entries.length ∧ entry.tx.outpoints[ip.n.toNat]? = some op := by
  unfold SpendsAt
  rw [hentries]
  rcases lt_trichotomy ip.txIndex pool.entries.length with hlt | heq | hgt
  · rw [getElem?_append_left hlt]
    simp [hlt.ne]
  · rw [heq, getElem?_concat_length]
    simp
  · rw [getElem?_eq_none (by rw [length_append]; simp; omega),
      getElem?_eq_none hgt.le]
    simp [hgt.ne']

theorem Indexed.not_conflict (h : pool.Indexed) {tx : WireTransaction} :
    txMempoolHasConflict pool tx = false ↔ ∀ op ∈ tx.outpoints, ∀ ip, ¬pool.SpendsAt op ip := by
  rw [txMempoolHasConflict, any_eq_false]
  apply forall₂_congr
  intro op _
  rw [h.sound.outpointFind_isSome h.hasRoom, not_exists]
  simp only [h.holds]

/-- An entry that `mempool_entry_init` has filled in, of a transaction without repeated inputs. -/
theorem Indexed.addUnchecked (h : pool.Indexed) (hentry : entry.Initialised)
    (hnodup : entry.tx.outpoints.Nodup) (hadd : txMempoolAddUnchecked pool entry = some pool') :
    pool'.Indexed := by
  obtain ⟨hsize, hconflict, m, hreserve, rfl⟩ := addUnchecked_inv hentry hadd
  have hinputs := inputs_le_serialize entry.tx
  rw [← hentry.size] at hinputs
  have hlen : entry.tx.outpoints.length = entry.tx.vin.length := length_map _
  obtain ⟨m', hreserve', hsound, hholds, hload, hcap⟩ :=
    h.reserve (show pool.totalTxSize + 41 * entry.tx.vin.length ≤ maxMempoolSize by omega)
  have hm : m = m' := Option.some.inj (hreserve.symm.trans hreserve')
  subst hm
  have hinsert := hsound.insertInputs hnodup
    (fun op hop ip hip => h.not_conflict.mp hconflict op hop ip
      ((h.holds op ip).mp ((hholds op ip).mp hip)))
    pool.spent (fun op ip hip => ((h.holds op ip).mp ((hholds op ip).mp hip)).mem_spent)
    (by
      rw [spent_length, ← h.used, hlen]
      omega)
    pool.nextTxUsed pool.entries.length
  constructor
  · exact hinsert.2.1
  · intro op ip
    rw [spendsAt_concat rfl, ← h.holds, ← hholds]
    refine (hinsert.2.2.2 op ip).trans (or_comm.trans (or_congr_right ?_))
    -- an input number fits 32 bits
    constructor
    · rintro ⟨i, hi, hip⟩
      have hlt : i < entry.tx.outpoints.length := (List.getElem?_eq_some_iff.mp hi).1
      rw [hip]
      refine ⟨rfl, ?_⟩
      rwa [UInt32.toNat_ofNat_of_lt' (show i < 2 ^ 32 by omega)]
    · rintro ⟨hidx, hop⟩
      refine ⟨ip.n.toNat, hop, ?_⟩
      rw [UInt32.ofNat_toNat, ← hidx]
  · simp only [numInputs, map_append, sum_append, map_singleton, sum_singleton]
    rw [hinsert.2.2.1, h.used, hlen]
    rfl
  · rw [hinsert.1, hinsert.2.2.1, hlen]
    exact hload
  · rw [hinsert.1]
    exact hcap
  · simp only [map_append, sum_append, map_singleton, sum_singleton, h.total]
  · exact hsize
  · intro e he
    rw [mem_append, mem_singleton] at he
    rcases he with he | rfl
    · exact h.measured e he
    · exact hentry.size

end TxMempool

section MoveLast

variable {α : Type} {l : List α} {e last : α}

theorem getElem?_moveLast (j : ℕ) :
    (l.set idx last).dropLast[j]? =
      if j + 1 < l.length then if j = idx then some last else l[j]? else none := by
  rw [getElem?_dropLast, length_set, getElem?_set]
  by_cases hj : j + 1 < l.length
  · rw [if_pos (by omega), if_pos hj]
    by_cases hidx : j = idx
    · rw [if_pos hidx, if_pos hidx.symm, if_pos (by omega)]
    · rw [if_neg hidx, if_neg (Ne.symm hidx)]
  · rw [if_neg (by omega), if_neg hj]

theorem perm_moveLast (he : l[idx]? = some e) (hlast : l.getLast? = some last) :
    l.Perm (e :: (l.set idx last).dropLast) := by
  obtain ⟨init, rfl⟩ := getLast?_eq_some_iff.mp hlast
  rcases Nat.lt_or_ge idx init.length with hlt | hge
  · rw [getElem?_append_left hlt, getElem?_eq_getElem hlt, Option.some.injEq] at he
    obtain ⟨before, after, hinit, -, hset⟩ :
        ∃ before after, init = before ++ init[idx] :: after ∧ before.length = idx ∧
          init.set idx last = before ++ last :: after := exists_of_set hlt
    rw [set_append_left _ _ hlt, dropLast_concat, hset]
    rw [he] at hinit
    rw [hinit, append_assoc, cons_append]
    refine perm_middle.trans (Perm.cons e ?_)
    rw [← append_assoc]
    exact (perm_append_singleton _ _).trans perm_middle.symm
  · have hidx : idx = init.length := by
      have hlen := (List.getElem?_eq_some_iff.mp he).1
      rw [List.length_append, List.length_singleton] at hlen
      omega
    rw [hidx, getElem?_concat_length, Option.some.injEq] at he
    rw [hidx, set_append_right _ _ le_rfl, Nat.sub_self, set_cons_zero, dropLast_concat, he]
    exact perm_append_singleton e init

end MoveLast

namespace OutpointMap

theorem Sound.foldl_removeInput (h : m.Sound) (hroom : m.HasRoom) (hnodup : ops.Nodup)
    (hheld : ∀ op ∈ ops, ∃ ip, m.Holds op ip) {used : ℕ} (hused : ops.length ≤ used) :
    let out := ops.foldl removeInput (m, used)
    out.1.cap = m.cap ∧ out.1.Sound ∧ out.1.HasRoom ∧ out.2 + ops.length = used ∧
      ∀ op ip, out.1.Holds op ip ↔ m.Holds op ip ∧ op ∉ ops := by
  induction ops generalizing m used with
  | nil => exact ⟨rfl, h, hroom, rfl, fun op ip => by simp⟩
  | cons op ops ih =>
    rw [nodup_cons] at hnodup
    rw [length_cons] at hused
    have hremove := h.outpointRemove hroom op
    have hstep : removeInput (m, used) op = ((m.outpointRemove op).1, used - 1) := by
      change ((m.outpointRemove op).1,
        if ((m.outpointRemove op).2 && decide (0 < used)) = true then used - 1 else used) = _
      rw [hremove.2.2.1.mpr (hheld op mem_cons_self), Bool.true_and,
        if_pos (decide_eq_true (by omega : 0 < used))]
    have hrest := ih hremove.1 hremove.2.1 hnodup.2
      (fun op' hop' => by
        obtain ⟨ip, hip⟩ := hheld op' (mem_cons_of_mem op hop')
        refine ⟨ip, (hremove.2.2.2 op' ip).mpr ⟨hip, ?_⟩⟩
        intro heq
        rw [heq] at hop'
        exact hnodup.1 hop')
      (show ops.length ≤ used - 1 by omega)
    rw [foldl_cons, hstep]
    refine ⟨hrest.1, hrest.2.1, hrest.2.2.1, ?_, ?_⟩
    · rw [length_cons]
      omega
    · intro op' ip'
      rw [hrest.2.2.2.2, hremove.2.2.2, mem_cons, not_or, and_assoc]

theorem Sound.foldl_setTxIndex (h : m.Sound) (hroom : m.HasRoom) (ops : List Outpoint) (idx : ℕ) :
    let out := ops.foldl (fun m op => m.setTxIndex op idx) m
    out.cap = m.cap ∧ out.Sound ∧ ∀ op ip, out.Holds op ip ↔
      op ∈ ops ∧ (∃ ip₀, m.Holds op ip₀ ∧ ip = { ip₀ with txIndex := idx }) ∨
        op ∉ ops ∧ m.Holds op ip := by
  induction ops generalizing m with
  | nil => exact ⟨rfl, h, fun op ip => by simp⟩
  | cons op ops ih =>
    have hset := h.setTxIndex hroom op idx
    have hcap : (m.setTxIndex op idx).cap = m.cap := by
      unfold OutpointMap.setTxIndex
      split <;> rfl
    have hrest := ih hset.1 hset.2.1
    rw [foldl_cons]
    refine ⟨hrest.1.trans hcap, hrest.2.1, ?_⟩
    intro op' ip'
    rw [hrest.2.2]
    simp only [hset.2.2, mem_cons]
    by_cases heq : op' = op
    · by_cases hmem : op ∈ ops
      · simp [heq, hmem]
      · simp [heq, hmem]
    · simp [heq]

end OutpointMap

namespace TxMempool

variable {last : MempoolEntry}

theorem spendsAt_moveLast (hentries : pool'.entries = (pool.entries.set idx last).dropLast)
    (op : Outpoint) (ip : Inpoint) :
    pool'.SpendsAt op ip ↔ ip.txIndex + 1 < pool.entries.length ∧
      (ip.txIndex = idx ∧ last.tx.outpoints[ip.n.toNat]? = some op ∨
        ip.txIndex ≠ idx ∧ pool.SpendsAt op ip) := by
  unfold SpendsAt
  rw [hentries, getElem?_moveLast]
  by_cases hlt : ip.txIndex + 1 < pool.entries.length
  · by_cases hidx : ip.txIndex = idx
    · simp [← hidx, hlt]
    · simp [hlt, hidx]
  · simp [hlt]

theorem Indexed.length_le_used (h : pool.Indexed) (he : pool.entries[idx]? = some e) :
    e.tx.outpoints.length ≤ pool.nextTxUsed := by
  rw [h.used, WireTransaction.outpoints, length_map]
  exact le_sum_of_mem (mem_map_of_mem (mem_of_getElem? he))

theorem SpendsAt.lt (h : pool.SpendsAt op ip) : ip.txIndex < pool.entries.length := by
  obtain ⟨e, he, -⟩ := h
  exact (List.getElem?_eq_some_iff.mp he).1

theorem Indexed.mem_outpoints_iff_index (h : pool.Indexed) (he : pool.entries[idx]? = some e)
    (hip : pool.SpendsAt op ip) : op ∈ e.tx.outpoints ↔ ip.txIndex = idx := by
  constructor
  · intro hop
    obtain ⟨n, hn⟩ := (h.mem_outpoints he op).mp hop
    rw [h.once hip hn]
  · intro hidx
    obtain ⟨e', he', hop⟩ := hip
    rw [hidx, he, Option.some.injEq] at he'
    rw [he']
    exact mem_of_getElem? hop

section Removed

variable (h : pool.Indexed) (he : pool.entries[idx]? = some e)
  (hlast : pool.entries.getLast? = some last)
  (hentries : pool'.entries = (pool.entries.set idx last).dropLast)
  (hm : ∀ op ip, m.Holds op ip ↔ pool.SpendsAt op ip ∧ op ∉ e.tx.outpoints)

include h he hentries hm

theorem holds_removeLast (hidx : idx + 1 = pool.entries.length) (op : Outpoint) (ip : Inpoint) :
    m.Holds op ip ↔ pool'.SpendsAt op ip := by
  rw [hm, spendsAt_moveLast hentries]
  constructor
  · rintro ⟨hip, hop⟩
    rw [h.mem_outpoints_iff_index he hip] at hop
    have hlt := hip.lt
    exact ⟨by omega, .inr ⟨hop, hip⟩⟩
  · rintro ⟨hlt, ⟨heq, -⟩ | ⟨hne, hip⟩⟩
    · omega
    · rw [h.mem_outpoints_iff_index he hip]
      exact ⟨hip, hne⟩

include hlast

theorem holds_removeMoved (hidx : idx + 1 < pool.entries.length) (op : Outpoint) (ip : Inpoint) :
    (op ∈ last.tx.outpoints ∧ (∃ ip₀, m.Holds op ip₀ ∧ ip = { ip₀ with txIndex := idx }) ∨
      op ∉ last.tx.outpoints ∧ m.Holds op ip) ↔ pool'.SpendsAt op ip := by
  have hend : pool.entries[pool.entries.length - 1]? = some last := by
    rw [← getLast?_eq_getElem?, hlast]
  rw [spendsAt_moveLast hentries]
  constructor
  · rintro (⟨hop, ip₀, hip₀, rfl⟩ | ⟨hop, hip⟩)
    · have hspends := ((hm op ip₀).mp hip₀).1
      have hindex := (h.mem_outpoints_iff_index hend hspends).mp hop
      obtain ⟨e', he', hn⟩ := hspends
      rw [hindex, hend, Option.some.injEq] at he'
      rw [← he'] at hn
      exact ⟨hidx, .inl ⟨rfl, hn⟩⟩
    · obtain ⟨hspends, hne⟩ := (hm op ip).mp hip
      rw [h.mem_outpoints_iff_index he hspends] at hne
      rw [h.mem_outpoints_iff_index hend hspends] at hop
      have hlt := hspends.lt
      exact ⟨by omega, .inr ⟨hne, hspends⟩⟩
  · rintro ⟨hlt, ⟨heq, hn⟩ | ⟨hne, hspends⟩⟩
    · have hspends : pool.SpendsAt op ⟨pool.entries.length - 1, ip.n⟩ := ⟨last, hend, hn⟩
      refine .inl ⟨mem_of_getElem? hn, ⟨pool.entries.length - 1, ip.n⟩, ?_, ?_⟩
      · rw [hm, h.mem_outpoints_iff_index he hspends]
        exact ⟨hspends, fun hindex => by dsimp only at hindex; omega⟩
      · rw [← heq]
    · rw [hm, h.mem_outpoints_iff_index he hspends, h.mem_outpoints_iff_index hend hspends]
      exact .inr ⟨by omega, hspends, hne⟩

end Removed

theorem removeEntryAt_of_none (he : pool.entries[idx]? = none) : removeEntryAt pool idx = pool := by
  rw [removeEntryAt, he]

theorem removeEntryAt_eq (he : pool.entries[idx]? = some e)
    (hlast : pool.entries.getLast? = some last) :
    removeEntryAt pool idx = { pool with
      entries := (pool.entries.set idx last).dropLast
      nextTx :=
        let m := (e.tx.outpoints.foldl removeInput (pool.nextTx, pool.nextTxUsed)).1
        if idx + 1 < pool.entries.length then
          last.tx.outpoints.foldl (fun m op => m.setTxIndex op idx) m
        else m
      nextTxUsed := (e.tx.outpoints.foldl removeInput (pool.nextTx, pool.nextTxUsed)).2
      totalTxSize := pool.totalTxSize - e.txSize } := by
  have hmoved : (pool.entries.set idx last).dropLast[idx]? =
      if idx + 1 < pool.entries.length then some last else none := by
    rw [getElem?_moveLast, if_pos rfl]
  rw [removeEntryAt, he, hlast]
  dsimp only
  rw [hmoved]
  by_cases hidx : idx + 1 < pool.entries.length
  · rw [if_pos hidx, if_pos hidx]
  · rw [if_neg hidx, if_neg hidx]

theorem exists_getLast (he : pool.entries[idx]? = some e) :
    ∃ last, pool.entries.getLast? = some last := by
  have hidx : idx < pool.entries.length := (List.getElem?_eq_some_iff.mp he).1
  rw [List.getLast?_eq_getElem?]
  exact ⟨_, getElem?_eq_getElem (by omega)⟩

theorem Indexed.removeEntryAt (h : pool.Indexed) (idx : ℕ) : (removeEntryAt pool idx).Indexed := by
  cases he : pool.entries[idx]? with
  | none =>
    rw [removeEntryAt_of_none he]
    exact h
  | some e =>
    obtain ⟨last, hlast⟩ := exists_getLast he
    have hidx : idx < pool.entries.length := (List.getElem?_eq_some_iff.mp he).1
    have hheld : ∀ op ∈ e.tx.outpoints, ∃ ip, pool.nextTx.Holds op ip := by
      intro op hop
      obtain ⟨n, hn⟩ := (h.mem_outpoints he op).mp hop
      exact ⟨_, (h.holds _ _).mpr hn⟩
    have hout := h.sound.foldl_removeInput h.hasRoom (h.outpoints_nodup he) hheld
      (h.length_le_used he)
    have hm : ∀ op ip,
        (e.tx.outpoints.foldl removeInput (pool.nextTx, pool.nextTxUsed)).1.Holds op ip ↔
          pool.SpendsAt op ip ∧ op ∉ e.tx.outpoints := by
      intro op ip
      rw [hout.2.2.2.2, h.holds]
    have hset := hout.2.1.foldl_setTxIndex hout.2.2.1 last.tx.outpoints idx
    have hperm := perm_moveLast he hlast
    have hsize := (hperm.map (·.txSize)).sum_eq
    have hinputs := (hperm.map (·.tx.vin.length)).sum_eq
    rw [map_cons, sum_cons] at hsize hinputs
    have htotal := h.total
    have hused := h.used
    have hlen : e.tx.outpoints.length = e.tx.vin.length := length_map _
    have hload := h.load
    have hlimit := h.limit
    rw [removeEntryAt_eq he hlast]
    constructor
    · dsimp only
      split_ifs
      · exact hset.2.1
      · exact hout.2.1
    · intro op ip
      dsimp only
      split_ifs with hmoves
      · rw [hset.2.2]
        exact holds_removeMoved h he hlast rfl hm hmoves op ip
      · exact holds_removeLast h he rfl hm (by omega) op ip
    · unfold numInputs at hused ⊢
      dsimp only
      omega
    · dsimp only
      split_ifs
      · rw [hset.1, hout.1]
        omega
      · rw [hout.1]
        omega
    · dsimp only
      split_ifs
      · exact (hset.1.trans hout.1).trans_lt h.cap_lt
      · exact hout.1.trans_lt h.cap_lt
    · dsimp only
      omega
    · dsimp only
      omega
    · intro e' he'
      exact h.measured e' (hperm.mem_iff.mpr (mem_cons_of_mem e he'))

end TxMempool

inductive PoolAction where
  | addUnchecked (tx : WireTransaction) (fee time : Int64) (height : UInt32)
    (poolHasNoInputsOf spendsCoinbase : Bool) (branchId : UInt32)
  | remove (hash : UInt256)
  | removeExpired (blockHeight : UInt32)
  | removeWithoutBranchId (branchId : UInt32)
  | removeForBlock (txs : List WireTransaction)

def poolStep (pool : TxMempool) : PoolAction → TxMempool
  | .addUnchecked tx fee time height poolHasNoInputsOf spendsCoinbase branchId =>
    (txMempoolAddUnchecked pool (mempoolEntryInit tx fee time height poolHasNoInputsOf
      spendsCoinbase branchId)).getD pool
  | .remove hash => txMempoolRemove pool hash
  | .removeExpired blockHeight => txMempoolRemoveExpired pool blockHeight
  | .removeWithoutBranchId branchId => txMempoolRemoveWithoutBranchId pool branchId
  | .removeForBlock txs => txMempoolRemoveForBlock pool txs

def PoolAction.NoRepeatedInputs : PoolAction → Prop
  | .addUnchecked tx _ _ _ _ _ _ => tx.outpoints.Nodup
  | _ => True

namespace TxMempool.Indexed

section

variable (h : pool.Indexed)

include h

theorem remove (hash : UInt256) : (txMempoolRemove pool hash).Indexed := by
  unfold txMempoolRemove
  split
  · exact h
  · exact h.removeEntryAt _

theorem removeIf (p : MempoolEntry → Bool) (fuel i : ℕ) :
    (removeIf p fuel i pool).Indexed := by
  induction fuel generalizing i pool with
  | zero => exact h
  | succ fuel ih =>
    unfold ZClassic.removeIf
    split
    · exact h
    · split_ifs
      · exact ih (h.removeEntryAt i) i
      · exact ih h (i + 1)

theorem removeForBlock (txs : List WireTransaction) :
    (txMempoolRemoveForBlock pool txs).Indexed := by
  induction txs generalizing pool with
  | nil => exact h
  | cons tx txs ih => exact ih (h.remove tx.hash)

theorem step {a : PoolAction} (ha : a.NoRepeatedInputs) :
    (poolStep pool a).Indexed := by
  cases a with
  | addUnchecked tx fee time height poolHasNoInputsOf spendsCoinbase branchId =>
    have hnodup : (transactionCopy tx).outpoints.Nodup := by
      unfold transactionCopy
      split_ifs
      · exact ha
      · exact nodup_nil
    rw [poolStep]
    cases hadd : txMempoolAddUnchecked pool (mempoolEntryInit tx fee time height poolHasNoInputsOf
        spendsCoinbase branchId) with
    | none => exact h
    | some pool' => exact h.addUnchecked (mempoolEntryInit_initialised ..) hnodup hadd
  | remove hash => exact h.remove hash
  | removeExpired blockHeight => exact h.removeIf _ _ 0
  | removeWithoutBranchId branchId => exact h.removeIf _ _ 0
  | removeForBlock txs => exact h.removeForBlock txs

end

end TxMempool.Indexed

theorem TxMempool.indexed_of_run (minRelayFee : Int64) {acts : List PoolAction}
    (hacts : ∀ a ∈ acts, a.NoRepeatedInputs) :
    (run poolStep (txMempoolInit minRelayFee) acts).Indexed := by
  apply run_invariant TxMempool.Indexed (fun _ _ h ha => h.step ha)
    (txMempoolInit_indexed minRelayFee)
  exact meetsAll_of_forall (fun a ha _ => hacts a ha) _

/-- In every pool of a run the table looks up exactly the spent outpoints with the place of their
spender, no two entries spend the same outpoint, and the counters are those of the entries. -/
theorem mempool_indexed (minRelayFee : Int64) (acts : List PoolAction)
    (hacts : ∀ a ∈ acts, a.NoRepeatedInputs) (pool : TxMempool)
    (hpool : run poolStep (txMempoolInit minRelayFee) acts = pool) :
    (∀ op ip, pool.nextTx.lookup op = some ip ↔
      ∃ e, pool.entries[ip.txIndex]? = some e ∧ e.tx.outpoints[ip.n.toNat]? = some op) ∧
    (∀ (i j : ℕ) (e e' : MempoolEntry), pool.entries[i]? = some e → pool.entries[j]? = some e' →
      i ≠ j → e.tx.outpoints.Disjoint e'.tx.outpoints) ∧
    (∀ e ∈ pool.entries, e.tx.outpoints.Nodup ∧ e.tx.vin.length < 2 ^ 32) ∧
    pool.nextTxUsed = (pool.entries.map (·.tx.vin.length)).sum ∧
    pool.totalTxSize = (pool.entries.map (·.txSize)).sum := by
  have h : pool.Indexed := hpool ▸ TxMempool.indexed_of_run minRelayFee hacts
  refine ⟨?_, ?_, ?_, h.used, h.total⟩
  · intro op ip
    rw [h.sound.lookup_iff h.hasRoom, h.holds]
    rfl
  · intro i j e e' he he' hne op hop hop'
    obtain ⟨n, hn⟩ := (h.mem_outpoints he op).mp hop
    exact hne ((h.mem_outpoints_iff_index he' hn).mp hop')
  · intro e he
    obtain ⟨j, hj⟩ := mem_iff_getElem?.mp he
    exact ⟨h.outpoints_nodup hj, h.vin_length_lt he⟩

def spendAndLeave : List PoolAction :=
  [.addUnchecked { vin := [{ prevout := ⟨7, 0⟩ }, { prevout := ⟨7, 1⟩ }], hash := 1 } 0 0 0 true
      false 0,
    .addUnchecked { vin := [{ prevout := ⟨8, 0⟩ }], hash := 2 } 0 0 0 true false 0,
    .remove 1]

theorem mempool_indexed_spendAndLeave :
    let pool := run poolStep (txMempoolInit 0) spendAndLeave
    (∀ op ip, pool.nextTx.lookup op = some ip ↔
      ∃ e, pool.entries[ip.txIndex]? = some e ∧ e.tx.outpoints[ip.n.toNat]? = some op) ∧
    pool.nextTxUsed = (pool.entries.map (·.tx.vin.length)).sum ∧
    pool.nextTx.lookup ⟨8, 0⟩ = some ⟨0, 0⟩ ∧ pool.nextTx.lookup ⟨7, 0⟩ = none := by
  have hacts : ∀ a ∈ spendAndLeave, a.NoRepeatedInputs := by
    simp [spendAndLeave, PoolAction.NoRepeatedInputs, WireTransaction.outpoints]
  have h := mempool_indexed 0 spendAndLeave hacts _ rfl
  exact ⟨h.1, h.2.2.2.1, by decide +kernel, by decide +kernel⟩

end ZClassic
