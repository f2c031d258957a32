import Mathlib.Data.BitVec
import Mathlib.Data.List.Nodup
import ZClassic.Primitives.BlockWire
import ZClassic.Primitives.TransactionCodec

/-!
# Compact block relay

`lib/net/src/compact_blocks.c`: a block is announced by its header, some of its transactions and the
six-byte ids of the others, which the receiver looks up in its memory pool.
-/

namespace ZClassic

open List hiding Vector

structure SipState where
  v0 : UInt64
  v1 : UInt64
  v2 : UInt64
  v3 : UInt64

def rotl64 (x b : UInt64) : UInt64 := (x <<< b) ||| (x >>> (64 - b))

def sipround (s : SipState) : SipState :=
  let v0 := s.v0 + s.v1
  let v1 := rotl64 s.v1 13 ^^^ v0
  let v0 := rotl64 v0 32
  let v2 := s.v2 + s.v3
  let v3 := rotl64 s.v3 16 ^^^ v2
  let v0 := v0 + v3
  let v3 := rotl64 v3 21 ^^^ v0
  let v2 := v2 + v1
  let v1 := rotl64 v1 17 ^^^ v2
  let v2 := rotl64 v2 32
  ⟨v0, v1, v2, v3⟩

def sipWord (s : SipState) (m : UInt64) : SipState :=
  let s := sipround (sipround { s with v3 := s.v3 ^^^ m })
  { s with v0 := s.v0 ^^^ m }

def siphash24 (key : Vector UInt8 16) (data : List UInt8) : UInt64 :=
  let k0 := UInt64.ofNat (leNat (key.toList.take 8))
  let k1 := UInt64.ofNat (leNat (key.toList.drop 8))
  let s : SipState :=
    ⟨0x736f6d6570736575 ^^^ k0, 0x646f72616e646f6d ^^^ k1, 0x6c7967656e657261 ^^^ k0,
      0x7465646279746573 ^^^ k1⟩
  let words := data.length / 8
  let s := (range words).foldl
    (fun s i => sipWord s (UInt64.ofNat (leNat ((data.drop (8 * i)).take 8)))) s
  -- the bytes that do not fill a word, below the length
  let b := (UInt64.ofNat data.length <<< 56) ||| UInt64.ofNat (leNat (data.drop (8 * words)))
  let s := sipWord s b
  let s := sipround (sipround (sipround (sipround { s with v2 := s.v2 ^^^ 0xff })))
  s.v0 ^^^ s.v1 ^^^ s.v2 ^^^ s.v3

example : siphash24 ⟨#[0, 1, 2, 3, 4, 5, 6, 7, 8, 9, 10, 11, 12, 13, 14, 15], rfl⟩
    [0, 1, 2, 3, 4, 5, 6, 7, 8, 9, 10, 11, 12, 13, 14] = 0xa129ca6149be45e5 := by decide +kernel

def maxCompactBlockTxns : ℕ := 50000

abbrev ShortTxid := Vector UInt8 6

structure PrefilledTx where
  index : UInt16
  tx : WireTransaction

structure CompactBlockMsg where
  header : BlockHeader
  nonce : UInt64
  shortTxids : List ShortTxid
  prefilled : List PrefilledTx
  siphashKey : Vector UInt8 16

def compactBlockDeriveKey (hash256 : List UInt8 → UInt256) (header : BlockHeader) (nonce : UInt64) :
    Vector UInt8 16 :=
  ⟨(leBytes 16 (hash256 (blockHeaderSerialize header ++ leBytes 8 nonce.toNat)).toNat).toArray,
    leBytes_length ..⟩

def compactBlockShortTxid (siphashKey : Vector UInt8 16) (txhash : UInt256) : ShortTxid :=
  ⟨(leBytes 6 (siphash24 siphashKey (writeU256 txhash)).toNat).toArray, leBytes_length ..⟩

def copyTransaction (tx : WireTransaction) : Option WireTransaction :=
  if tx.vin.length ≤ maxTxInputs ∧ tx.vout.length ≤ maxTxOutputs then some tx else none

section Wire

variable (hash256 : List UInt8 → UInt256)

/-- The id is computed where a transaction does not carry one. -/
def txHashOf (tx : WireTransaction) : UInt256 :=
  if tx.hash = 0 then (transactionComputeHash hash256 tx).hash else tx.hash

def compactBlockFromBlock (blk : WireBlock) (nonce : UInt64) : Option CompactBlockMsg :=
  match blk.vtx with
  | [] => none
  | coinbase :: txs =>
    let key := compactBlockDeriveKey hash256 blk.header nonce
    (copyTransaction coinbase).map fun coinbase =>
      { header := blk.header
        nonce
        shortTxids := txs.map fun tx => compactBlockShortTxid key (txHashOf hash256 tx)
        prefilled := [⟨0, coinbase⟩]
        siphashKey := key }

/-- The distance of a position from the one before, as a difference of `uint64_t`. -/
def prefilledDiff (lastAbs : Option UInt64) (abs : UInt64) : UInt64 :=
  match lastAbs with
  | none => abs
  | some last => abs - last - 1

def writePrefilled (lastAbs : Option UInt64) : List PrefilledTx → List UInt8
  | [] => []
  | p :: prefilled =>
    writeCompactSize (prefilledDiff lastAbs p.index.toUInt64).toNat ++
      (transactionSerialize p.tx ++ writePrefilled (some p.index.toUInt64) prefilled)

def compactBlockMsgSerialize (cb : CompactBlockMsg) : List UInt8 :=
  blockHeaderSerialize cb.header ++ (leBytes 8 cb.nonce.toNat ++
    (writeList Vector.toList cb.shortTxids ++
      (writeCompactSize cb.prefilled.length ++ writePrefilled none cb.prefilled)))

def prefilledAbs (lastAbs : Option UInt64) (diff : UInt64) : UInt64 :=
  match lastAbs with
  | none => diff
  | some last => last + diff + 1

def readPrefilled (lastAbs : Option UInt64) : ℕ → Reader (List PrefilledTx)
  | 0 => pure []
  | n + 1 => do
    let diff ← readCompactSize
    let absIdx := prefilledAbs lastAbs (UInt64.ofNat diff)
    let tx ← transactionDeserialize hash256
    let prefilled ← readPrefilled (some absIdx) n
    return ⟨absIdx.toUInt16, tx⟩ :: prefilled

def compactBlockMsgDeserialize : Reader CompactBlockMsg := do
  let header ← blockHeaderDeserialize
  let nonce ← readU64
  let shortTxids ← readList maxCompactBlockTxns (readArray 6)
  let numPrefilled ← readCompactSize
  guard (numPrefilled ≤ maxCompactBlockTxns)
  let prefilled ← readPrefilled hash256 none numPrefilled
  return { header, nonce, shortTxids, prefilled,
           siphashKey := compactBlockDeriveKey hash256 header nonce }

end Wire

/-- The slots of the block, empty where `filled` is not set. The index of a prefilled transaction is
added to the position before it. -/
def placePrefilled : Option ℕ → List PrefilledTx → List (Option WireTransaction) →
    Option (List (Option WireTransaction))
  | _, [], slots => some slots
  | lastAbs, p :: prefilled, slots =>
    let absIdx := match lastAbs with
      | none => p.index.toNat
      | some last => last + p.index.toNat + 1
    if slots.length ≤ absIdx then none
    else
      (copyTransaction p.tx).bind fun tx =>
        placePrefilled (some absIdx) prefilled (slots.set absIdx (some tx))

/-- The first transaction with the id, from the memory pool before the others; `none` if it cannot
be copied. -/
def findShort (siphashKey : Vector UInt8 16) (mempoolTxs extraTxs : List WireTransaction)
    (target : ShortTxid) : Option (Option WireTransaction) :=
  match (mempoolTxs ++ extraTxs).find? fun tx =>
    compactBlockShortTxid siphashKey tx.hash == target with
  | none => some none
  | some tx => (copyTransaction tx).map some

/-- Every empty slot takes the next id; there have to be enough of them. -/
def fillByShortTxid (find : ShortTxid → Option (Option WireTransaction)) :
    List (Option WireTransaction) → List ShortTxid → Option (List (Option WireTransaction))
  | [], _ => some []
  | some tx :: slots, ids => (fillByShortTxid find slots ids).map (some tx :: ·)
  | none :: _, [] => none
  | none :: slots, target :: ids =>
    (find target).bind fun found => (fillByShortTxid find slots ids).map (found :: ·)

/-- `out_block` and `missing_indices`; the source returns true when there are none of them. -/
structure Reconstruction where
  block : WireBlock
  missing : List ℕ

def compactBlockReconstruct (cb : CompactBlockMsg) (mempoolTxs extraTxs : List WireTransaction) :
    Option Reconstruction := do
  let total := cb.prefilled.length + cb.shortTxids.length
  guard (total ≠ 0 ∧ total ≤ maxCompactBlockTxns)
  let slots ← placePrefilled none cb.prefilled (replicate total none)
  let slots ← fillByShortTxid (findShort cb.siphashKey mempoolTxs extraTxs) slots cb.shortTxids
  return { block := ⟨cb.header, slots.map (·.getD {})⟩
           missing := slots.zipIdx.filterMap fun p => if p.1.isNone then some p.2 else none }

/-- A transaction as it is read off the wire: nothing in the fields that are not written, and the
hash of its bytes. -/
structure WireTransaction.OnWire (hash256 : List UInt8 → UInt256) (tx : WireTransaction) :
    Prop where
  canonical : tx.Canonical
  hash : tx.hash = hash256 (transactionSerialize tx)

structure CompactBlockMsg.OnWire (hash256 : List UInt8 → UInt256) (cb : CompactBlockMsg) :
    Prop where
  solution : cb.header.nSolutionSize ≤ maxSolutionSize
  shortTxids : cb.shortTxids.length ≤ maxCompactBlockTxns
  prefilled : cb.prefilled.length ≤ maxCompactBlockTxns
  txs : ∀ p ∈ cb.prefilled, p.tx.OnWire hash256
  key : cb.siphashKey = compactBlockDeriveKey hash256 cb.header cb.nonce

section ReadBack

variable {hash256 : List UInt8 → UInt256}

theorem transactionComputeHash_hash (hash256 : List UInt8 → UInt256) (tx : WireTransaction) :
    (transactionComputeHash hash256 tx).hash =
      hash256 (transactionSerialize (transactionComputeHash hash256 tx)) := rfl

variable {tx : WireTransaction}

theorem WireTransaction.OnWire.reads (h : tx.OnWire hash256) :
    Reads (transactionDeserialize hash256) (transactionSerialize tx) tx := by
  have hread := reads_transactionDeserialize hash256 h.canonical.wellFormed
  rwa [h.canonical.written, ← h.hash] at hread

theorem WireTransaction.OnWire.copied (h : tx.OnWire hash256) : copyTransaction tx = some tx :=
  if_pos ⟨h.canonical.wellFormed.vin_le, h.canonical.wellFormed.vout_le⟩

theorem prefilledAbs_diff (lastAbs : Option UInt64) (abs : UInt64) :
    prefilledAbs lastAbs (prefilledDiff lastAbs abs) = abs := by
  cases lastAbs with
  | none => rfl
  | some last =>
    change last + (abs - last - 1) + 1 = abs
    grind

theorem reads_prefilled (lastAbs : Option UInt64) {prefilled : List PrefilledTx}
    (h : ∀ p ∈ prefilled, p.tx.OnWire hash256) :
    Reads (readPrefilled hash256 lastAbs prefilled.length) (writePrefilled lastAbs prefilled)
      prefilled := by
  induction prefilled generalizing lastAbs with
  | nil => exact reads_pure []
  | cons p prefilled ih =>
    rw [forall_mem_cons] at h
    apply (reads_compactSize (UInt64.toNat_lt _)).bind
    apply h.1.reads.bind
    rw [UInt64.ofNat_toNat, prefilledAbs_diff, UInt16.toUInt16_toUInt64]
    exact (ih _ h.2).bind_pure

theorem CompactBlockMsg.OnWire.reads {cb : CompactBlockMsg} (h : cb.OnWire hash256) :
    Reads (compactBlockMsgDeserialize hash256) (compactBlockMsgSerialize cb) cb := by
  apply (reads_blockHeader h.solution).bind
  apply (reads_u64 cb.nonce).bind
  apply (reads_list h.shortTxids (by decide) reads_array).bind
  apply (reads_compactSize (h.prefilled.trans_lt (by decide))).bind
  apply Reads.guard_bind h.prefilled
  have hcb : (⟨cb.header, cb.nonce, cb.shortTxids, cb.prefilled,
      compactBlockDeriveKey hash256 cb.header cb.nonce⟩ : CompactBlockMsg) = cb := by
    rw [← h.key]
  exact (congrArg (Reads _ _) hcb).mp (reads_prefilled none h.txs).bind_pure

end ReadBack

section Relay

variable (hash256 : List UInt8 → UInt256)

/-- The compact block that carries the transactions at `positions`, and the ids of the others. -/
def compactBlockWith (blk : WireBlock) (nonce : UInt64) (positions : List ℕ) : CompactBlockMsg :=
  let key := compactBlockDeriveKey hash256 blk.header nonce
  { header := blk.header
    nonce
    shortTxids := (blk.vtx.zipIdx.filter fun p => p.2 ∉ positions).map fun p =>
      compactBlockShortTxid key p.1.hash
    prefilled := positions.filterMap fun i => blk.vtx[i]?.map (PrefilledTx.mk (UInt16.ofNat i))
    siphashKey := key }

theorem shortTxids_coinbase (header : BlockHeader) (coinbase : WireTransaction)
    (txs : List WireTransaction) (nonce : UInt64) :
    (compactBlockWith hash256 ⟨header, coinbase :: txs⟩ nonce [0]).shortTxids = txs.map fun tx =>
      compactBlockShortTxid (compactBlockDeriveKey hash256 header nonce) tx.hash := by
  have hothers : (txs.zipIdx 1).filter (fun p => p.2 ∉ [0]) = txs.zipIdx 1 := by
    rw [filter_eq_self]
    intro p hp
    have hle := le_snd_of_mem_zipIdx hp
    apply decide_eq_true
    rw [mem_singleton]
    omega
  rw [compactBlockWith, zipIdx_cons, filter_cons_of_neg (by simp), hothers]
  conv => rhs; rw [← zipIdx_map_fst 1 txs, map_map]
  rfl

def compactBlockRelay (cb : CompactBlockMsg) (mempoolTxs extraTxs : List WireTransaction) :
    Option Reconstruction :=
  ((compactBlockMsgDeserialize hash256).run (compactBlockMsgSerialize cb)).bind fun read =>
    compactBlockReconstruct read.1 mempoolTxs extraTxs

end Relay

theorem placePrefilled_keep {last : ℕ} {prefilled : List PrefilledTx}
    {slots slots' : List (Option WireTransaction)}
    (h : placePrefilled (some last) prefilled slots = some slots') {j : ℕ} (hj : j ≤ last) :
    slots'[j]? = slots[j]? := by
  induction prefilled generalizing last slots with
  | nil =>
    cases h
    rfl
  | cons p prefilled ih =>
    rw [placePrefilled] at h
    split_ifs at h
    obtain ⟨tx, -, h⟩ := Option.bind_eq_some_iff.mp h
    rw [ih h (by omega), getElem?_set_ne (by omega)]

variable {find : ShortTxid → Option (Option WireTransaction)}

theorem fillByShortTxid_keep {slots slots' : List (Option WireTransaction)} {ids : List ShortTxid}
    (h : fillByShortTxid find slots ids = some slots') {j : ℕ} {tx : WireTransaction}
    (hj : slots[j]? = some (some tx)) : slots'[j]? = some (some tx) := by
  induction slots generalizing slots' ids j with
  | nil => cases hj
  | cons slot slots ih =>
    cases slot with
    | some tx' =>
      obtain ⟨rest, hrest, hcons⟩ := Option.map_eq_some_iff.mp h
      rw [← hcons]
      cases j with
      | zero => exact hj
      | succ j => exact ih hrest hj
    | none =>
      cases ids with
      | nil => cases h
      | cons target ids =>
        obtain ⟨found, -, h⟩ := Option.bind_eq_some_iff.mp h
        obtain ⟨rest, hrest, hcons⟩ := Option.map_eq_some_iff.mp h
        rw [← hcons]
        cases j with
        | zero => cases hj
        | succ j => exact ih hrest hj

theorem fillByShortTxid_all {txs : List WireTransaction} {id : WireTransaction → ShortTxid}
    (h : ∀ tx ∈ txs, find (id tx) = some (some tx)) :
    fillByShortTxid find (replicate txs.length none) (txs.map id) = some (txs.map some) := by
  induction txs with
  | nil => rfl
  | cons tx txs ih =>
    rw [forall_mem_cons] at h
    rw [length_cons, replicate_succ, map_cons, fillByShortTxid, h.1, ih h.2]
    rfl

theorem getD_map_some (txs : List WireTransaction) : (txs.map some).map (·.getD {}) = txs := by
  rw [map_map]
  exact map_id txs

theorem missing_map_some (txs : List WireTransaction) :
    ((txs.map some).zipIdx.filterMap fun p => if p.1.isNone then some p.2 else none) = [] := by
  rw [filterMap_eq_nil_iff]
  intro p hp
  obtain ⟨tx, -, htx⟩ := mem_map.mp (fst_mem_of_mem_zipIdx hp)
  rw [← htx]
  rfl

theorem reconstruct_eq {cb : CompactBlockMsg} {n : ℕ}
    (htotal : cb.prefilled.length + cb.shortTxids.length = n) (hpos : n ≠ 0)
    (hcount : n ≤ maxCompactBlockTxns) (mempoolTxs extraTxs : List WireTransaction) :
    compactBlockReconstruct cb mempoolTxs extraTxs =
      (placePrefilled none cb.prefilled (replicate n none)).bind fun slots =>
        (fillByShortTxid (findShort cb.siphashKey mempoolTxs extraTxs) slots cb.shortTxids).map
          fun slots =>
            ⟨⟨cb.header, slots.map (·.getD {})⟩,
              slots.zipIdx.filterMap fun p => if p.1.isNone then some p.2 else none⟩ := by
  rw [compactBlockReconstruct, htotal, guard, if_pos ⟨hpos, hcount⟩]
  simp only [Option.map_eq_bind]
  rfl

/-- A block that can be relayed, with the positions that are sent along and the memory pool of the
receiver. -/
structure Relayable (hash256 : List UInt8 → UInt256) (blk : WireBlock) (nonce : UInt64)
    (positions : List ℕ) (mempoolTxs : List WireTransaction) : Prop where
  solution : blk.header.nSolutionSize ≤ maxSolutionSize
  txs : ∀ tx ∈ blk.vtx, tx.OnWire hash256
  /-- the number of transactions is a `size_t` -/
  count : blk.vtx.length < 2 ^ 64
  increasing : positions.Pairwise (· < ·)
  coinbase : 0 ∈ positions
  inBlock : ∀ i ∈ positions, i < blk.vtx.length
  known : ∀ i tx, blk.vtx[i]? = some tx → i ∉ positions → tx ∈ mempoolTxs
  /-- no two transactions of the block have the same id, and no other one of the pool has it -/
  idsOfBlock : (blk.vtx.map fun tx =>
    compactBlockShortTxid (compactBlockDeriveKey hash256 blk.header nonce) tx.hash).Nodup
  idsOfPool : ∀ tx ∈ blk.vtx, ∀ tx' ∈ mempoolTxs,
    compactBlockShortTxid (compactBlockDeriveKey hash256 blk.header nonce) tx'.hash =
      compactBlockShortTxid (compactBlockDeriveKey hash256 blk.header nonce) tx.hash → tx' = tx

namespace Relayable

variable {hash256 : List UInt8 → UInt256} {blk : WireBlock} {nonce : UInt64} {positions : List ℕ}
  {mempoolTxs extraTxs : List WireTransaction}

section

variable (h : Relayable hash256 blk nonce positions mempoolTxs)

include h

theorem positions_eq : ∃ rest, positions = 0 :: rest := by
  have hmem := h.coinbase
  have hsorted := h.increasing
  cases positions with
  | nil => cases hmem
  | cons p rest =>
    rcases mem_cons.mp hmem with rfl | h0
    · exact ⟨rest, rfl⟩
    · exact absurd ((pairwise_cons.mp hsorted).1 0 h0) (Nat.not_lt_zero p)

theorem prefilled_eq :
    (compactBlockWith hash256 blk nonce positions).prefilled =
      positions.map fun i => ⟨UInt16.ofNat i, blk.vtx[i]?.getD {}⟩ := by
  apply filterMap_eq_map_iff_forall_eq_some.mpr
  intro i hi
  rw [getElem?_eq_getElem (h.inBlock i hi)]
  rfl

theorem prefilled_length :
    (compactBlockWith hash256 blk nonce positions).prefilled.length = positions.length := by
  rw [h.prefilled_eq, length_map]

theorem total_eq :
    (compactBlockWith hash256 blk nonce positions).prefilled.length +
      (compactBlockWith hash256 blk nonce positions).shortTxids.length = blk.vtx.length := by
  have hindices : blk.vtx.zipIdx.map Prod.snd = range blk.vtx.length := by
    rw [zipIdx_map_snd, range_eq_range']
  have hsent : ((range blk.vtx.length).filter (· ∈ positions)).Perm positions := by
    rw [perm_ext_iff_of_nodup (nodup_range.filter _) (h.increasing.imp Nat.ne_of_lt)]
    intro i
    simp only [mem_filter, mem_range, decide_eq_true_eq]
    exact ⟨fun hi => hi.2, fun hi => ⟨h.inBlock i hi, hi⟩⟩
  have hothers : (compactBlockWith hash256 blk nonce positions).shortTxids.length =
      ((range blk.vtx.length).filter fun i => !decide (i ∈ positions)).length := by
    rw [← hindices, filter_map, length_map]
    simp [compactBlockWith, Function.comp_def]
  have hsplit := length_eq_length_filter_add (l := range blk.vtx.length)
    fun i => decide (i ∈ positions)
  rw [length_range, hsent.length_eq] at hsplit
  rw [h.prefilled_length, hothers, ← hsplit]

theorem prefilled_onWire :
    ∀ p ∈ (compactBlockWith hash256 blk nonce positions).prefilled, p.tx.OnWire hash256 := by
  intro p hp
  obtain ⟨i, -, hi⟩ := mem_filterMap.mp hp
  obtain ⟨tx, htx, hp⟩ := Option.map_eq_some_iff.mp hi
  rw [← hp]
  exact h.txs tx (mem_of_getElem? htx)

theorem onWire
    (hcount : blk.vtx.length ≤ maxCompactBlockTxns) :
    (compactBlockWith hash256 blk nonce positions).OnWire hash256 where
  solution := h.solution
  shortTxids := (Nat.le_add_left ..).trans (h.total_eq.le.trans hcount)
  prefilled := (Nat.le_add_right ..).trans (h.total_eq.le.trans hcount)
  txs := h.prefilled_onWire
  key := rfl

theorem relay_eq (hcount : blk.vtx.length ≤ maxCompactBlockTxns) :
    compactBlockRelay hash256 (compactBlockWith hash256 blk nonce positions) mempoolTxs extraTxs =
      compactBlockReconstruct (compactBlockWith hash256 blk nonce positions) mempoolTxs
        extraTxs := by
  have hread := (h.onWire hcount).reads []
  rw [append_nil] at hread
  rw [compactBlockRelay, hread]
  rfl

theorem relay_eq_none (hcount : maxCompactBlockTxns < blk.vtx.length) :
    compactBlockRelay hash256 (compactBlockWith hash256 blk nonce positions) mempoolTxs extraTxs =
      none := by
  have htotal := h.total_eq
  have hsize := h.count
  set cb := compactBlockWith hash256 blk nonce positions
  have hsolution : cb.header.nSolutionSize ≤ maxSolutionSize := h.solution
  have hfails (hrest : FailsOn (compactBlockMsgDeserialize hash256) (compactBlockMsgSerialize cb)) :
      compactBlockRelay hash256 cb mempoolTxs extraTxs = none := by
    have hnone := hrest []
    rw [append_nil] at hnone
    rw [compactBlockRelay, hnone]
    rfl
  rcases Nat.lt_or_ge maxCompactBlockTxns cb.shortTxids.length with hshort | hshort
  · apply hfails
    apply (reads_blockHeader hsolution).bind_failsOn
    apply (reads_u64 cb.nonce).bind_failsOn
    exact (failsOn_list hshort (by omega)).bind.append _
  rcases Nat.lt_or_ge maxCompactBlockTxns cb.prefilled.length with hprefilled | hprefilled
  · apply hfails
    apply (reads_blockHeader hsolution).bind_failsOn
    apply (reads_u64 cb.nonce).bind_failsOn
    apply (reads_list hshort (by decide) reads_array).bind_failsOn
    apply (reads_compactSize (by omega)).bind_failsOn
    exact failsOn_guard_bind (Nat.not_le.mpr hprefilled)
  · have honWire : cb.OnWire hash256 := ⟨h.solution, hshort, hprefilled, h.prefilled_onWire, rfl⟩
    have hread := honWire.reads []
    rw [append_nil] at hread
    rw [compactBlockRelay, hread, Option.bind_some, compactBlockReconstruct, guard,
      if_neg fun htotal' => (htotal'.2.trans_lt hcount).ne htotal]
    rfl

end

theorem findShort_eq (h : Relayable hash256 blk nonce positions mempoolTxs) {tx : WireTransaction}
    (hblk : tx ∈ blk.vtx) (hpool : tx ∈ mempoolTxs) :
    findShort (compactBlockDeriveKey hash256 blk.header nonce) mempoolTxs extraTxs
      (compactBlockShortTxid (compactBlockDeriveKey hash256 blk.header nonce) tx.hash) =
      some (some tx) := by
  have hfind : (mempoolTxs ++ extraTxs).find? (fun tx' =>
      compactBlockShortTxid (compactBlockDeriveKey hash256 blk.header nonce) tx'.hash ==
        compactBlockShortTxid (compactBlockDeriveKey hash256 blk.header nonce) tx.hash) =
          some tx := by
    rw [find?_append]
    cases hfound : mempoolTxs.find? _ with
    | none => exact absurd (beq_self_eq_true _) (find?_eq_none.mp hfound tx hpool)
    | some tx' =>
      have hid := find?_some hfound
      rw [beq_iff_eq] at hid
      rw [h.idsOfPool tx hblk tx' (mem_of_find?_eq_some hfound) hid]
      rfl
  rw [findShort, hfind]
  dsimp only
  rw [(h.txs tx hblk).copied]
  rfl

theorem reconstruct_coinbase (h : Relayable hash256 blk nonce [0] mempoolTxs)
    (hcount : blk.vtx.length ≤ maxCompactBlockTxns) :
    compactBlockReconstruct (compactBlockWith hash256 blk nonce [0]) mempoolTxs extraTxs =
      some ⟨blk, []⟩ := by
  obtain ⟨header, vtx⟩ := blk
  cases vtx with
  | nil => exact absurd (h.inBlock 0 h.coinbase) (Nat.not_lt_zero 0)
  | cons coinbase txs =>
    have hcopied := (h.txs coinbase mem_cons_self).copied
    have hplace : placePrefilled none
        (compactBlockWith hash256 ⟨header, coinbase :: txs⟩ nonce [0]).prefilled
        (replicate (txs.length + 1) none) = some (some coinbase :: replicate txs.length none) := by
      rw [h.prefilled_eq]
      simp only [map_cons, map_nil, placePrefilled, getElem?_cons_zero, Option.getD_some, hcopied]
      rfl
    have hfill : fillByShortTxid
        (findShort (compactBlockDeriveKey hash256 header nonce) mempoolTxs extraTxs)
        (replicate txs.length none) (txs.map fun tx =>
          compactBlockShortTxid (compactBlockDeriveKey hash256 header nonce) tx.hash) =
        some (txs.map some) := by
      apply fillByShortTxid_all
      intro tx htx
      obtain ⟨i, hi⟩ := mem_iff_getElem?.mp htx
      exact h.findShort_eq (mem_cons_of_mem _ htx) (h.known (i + 1) tx hi (by simp))
    rw [reconstruct_eq h.total_eq (Nat.succ_ne_zero _) hcount, shortTxids_coinbase]
    rw [show (⟨header, coinbase :: txs⟩ : WireBlock).vtx.length = txs.length + 1 from rfl, hplace,
      Option.bind_some, fillByShortTxid]
    rw [show (compactBlockWith hash256 ⟨header, coinbase :: txs⟩ nonce [0]).siphashKey =
      compactBlockDeriveKey hash256 header nonce from rfl, hfill]
    rw [Option.map_some, Option.map_some, ← map_cons, getD_map_some, missing_map_some]
    rfl

theorem reconstruct_ne (h : Relayable hash256 blk nonce positions mempoolTxs)
    (hsmall : blk.vtx.length ≤ maxCompactBlockTxns) {p : ℕ} {rest : List ℕ}
    (hpositions : positions = 0 :: p :: rest) :
    compactBlockReconstruct (compactBlockWith hash256 blk nonce positions) mempoolTxs extraTxs ≠
      some ⟨blk, []⟩ := by
  intro heq
  have hp : p < blk.vtx.length := h.inBlock p (by simp [hpositions])
  have hindex : (UInt16.ofNat p).toNat = p :=
    UInt16.toNat_ofNat_of_lt' (show p < 65536 by unfold maxCompactBlockTxns at hsmall; omega)
  rw [reconstruct_eq h.total_eq (by omega) hsmall] at heq
  obtain ⟨slots, hplace, heq⟩ := Option.bind_eq_some_iff.mp heq
  obtain ⟨slots', hfill, heq⟩ := Option.map_eq_some_iff.mp heq
  have hvtx : slots'.map (·.getD {}) = blk.vtx := congrArg (·.block.vtx) heq
  -- the first two placements
  rw [h.prefilled_eq, hpositions, map_cons, map_cons, placePrefilled] at hplace
  split_ifs at hplace
  obtain ⟨coinbase, -, hplace⟩ := Option.bind_eq_some_iff.mp hplace
  rw [placePrefilled] at hplace
  split_ifs at hplace with hlen
  obtain ⟨tx, htx, hplace⟩ := Option.bind_eq_some_iff.mp hplace
  rw [hindex, show (UInt16.ofNat 0).toNat = 0 from rfl, Nat.zero_add] at hplace hlen
  rw [length_set, length_replicate] at hlen
  have hslot : slots[p + 1]? = some (some tx) := by
    rw [placePrefilled_keep hplace le_rfl, getElem?_set_self (by simpa using hlen)]
  have hnext : blk.vtx[p + 1]? = some tx := by
    rw [← hvtx, getElem?_map, fillByShortTxid_keep hfill hslot]
    rfl
  have hsent : blk.vtx[p]? = some tx := by
    rw [getElem?_eq_getElem hp, Option.getD_some, (h.txs _ (getElem_mem hp)).copied] at htx
    rw [getElem?_eq_getElem hp, ← htx]
  -- so two neighbours have the same id
  have hids := nodup_iff_getElem?_ne_getElem?.mp h.idsOfBlock p (p + 1) (Nat.lt_succ_self p)
    (by rw [length_map]; omega)
  rw [getElem?_map, getElem?_map, hnext, hsent] at hids
  exact hids rfl

theorem fromBlock_eq (h : Relayable hash256 blk nonce [0] mempoolTxs) :
    compactBlockFromBlock hash256 blk nonce = some (compactBlockWith hash256 blk nonce [0]) := by
  obtain ⟨header, vtx⟩ := blk
  cases vtx with
  | nil => exact absurd (h.inBlock 0 h.coinbase) (Nat.not_lt_zero 0)
  | cons coinbase txs =>
    have htxs := forall_mem_cons.mp h.txs
    have hhash : ∀ tx ∈ txs, txHashOf hash256 tx = tx.hash := by
      intro tx htx
      rw [txHashOf, transactionComputeHash, ← (htxs.2 tx htx).hash, ite_self]
    rw [compactBlockFromBlock]
    dsimp only
    rw [htxs.1.copied, Option.map_some, map_congr_left fun tx htx => congrArg _ (hhash tx htx),
      ← shortTxids_coinbase]
    rfl

end Relayable

/-- A block with its memory pool comes through as it was exactly if only the coinbase is sent along,
and the transactions are not too many for a message. -/
theorem compactBlockRelay_eq_iff {hash256 : List UInt8 → UInt256} {blk : WireBlock} {nonce : UInt64}
    {positions : List ℕ} {mempoolTxs : List WireTransaction}
    (h : Relayable hash256 blk nonce positions mempoolTxs) (extraTxs : List WireTransaction) :
    compactBlockRelay hash256 (compactBlockWith hash256 blk nonce positions) mempoolTxs extraTxs =
        some ⟨blk, []⟩ ↔
      positions = [0] ∧ blk.vtx.length ≤ maxCompactBlockTxns := by
  rcases Nat.lt_or_ge maxCompactBlockTxns blk.vtx.length with hbig | hsmall
  · rw [h.relay_eq_none hbig]
    constructor
    · intro heq
      cases heq
    · intro heq
      omega
  · rw [h.relay_eq hsmall, and_iff_left hsmall]
    constructor
    · intro heq
      obtain ⟨rest, hpositions⟩ := h.positions_eq
      cases rest with
      | nil => exact hpositions
      | cons p rest => exact absurd heq (h.reconstruct_ne hsmall hpositions)
    · rintro rfl
      exact h.reconstruct_coinbase hsmall

/-- The node's own message gives the block back. -/
theorem compactBlockFromBlock_relays {hash256 : List UInt8 → UInt256} {blk : WireBlock}
    {nonce : UInt64} {mempoolTxs : List WireTransaction}
    (h : Relayable hash256 blk nonce [0] mempoolTxs) (hcount : blk.vtx.length ≤ maxCompactBlockTxns)
    (extraTxs : List WireTransaction) :
    (compactBlockFromBlock hash256 blk nonce).bind
      (compactBlockRelay hash256 · mempoolTxs extraTxs) = some ⟨blk, []⟩ := by
  rw [h.fromBlock_eq, Option.bind_some, h.relay_eq hcount]
  exact h.reconstruct_coinbase hcount

def byteSum (bs : List UInt8) : UInt256 := (bs.map (·.toNat)).sum

/-- The transactions of the samples differ in their lock time. -/
def lockedTransaction (lockTime : UInt32) : WireTransaction :=
  transactionComputeHash byteSum { lockTime }

def lockedBlock (n : ℕ) : WireBlock where
  header := {}
  vtx := (range n).map fun i => lockedTransaction (UInt32.ofNat i)

theorem lockedTransaction_onWire (lockTime : UInt32) :
    (lockedTransaction lockTime).OnWire byteSum where
  canonical := by
    refine ⟨.of_transparent (show (0 : Int32) ≤ 1 by decide) rfl (Nat.zero_le _) (Nat.zero_le _) rfl
      rfl rfl, ?_⟩
    apply WireTransaction.written_eq_self <;> simp [lockedTransaction, transactionComputeHash]
  hash := transactionComputeHash_hash byteSum _

theorem lockedBlock_relayable {positions : List ℕ} (hincreasing : positions.Pairwise (· < ·))
    (hcoinbase : 0 ∈ positions) (hinBlock : ∀ i ∈ positions, i < 4) :
    Relayable byteSum (lockedBlock 4) 0 positions (lockedBlock 4).vtx := by
  have hids : ((lockedBlock 4).vtx.map fun tx => compactBlockShortTxid
      (compactBlockDeriveKey byteSum (lockedBlock 4).header 0) tx.hash).Nodup := by
    decide +kernel
  refine ⟨by decide, ?_, by decide, hincreasing, hcoinbase, hinBlock, ?_, hids, ?_⟩
  · intro tx htx
    obtain ⟨i, -, rfl⟩ := mem_map.mp htx
    exact lockedTransaction_onWire _
  · intro i tx htx _
    exact mem_of_getElem? htx
  · intro tx htx tx' htx' hid
    exact inj_on_of_nodup_map hids htx' htx hid

theorem compactBlockRelay_lockedBlock :
    compactBlockRelay byteSum (compactBlockWith byteSum (lockedBlock 4) 0 [0])
        (lockedBlock 4).vtx [] =
      some ⟨lockedBlock 4, []⟩ :=
  (compactBlockRelay_eq_iff (lockedBlock_relayable (by decide) (by decide) (by decide)) []).mpr
    ⟨rfl, by decide⟩

theorem lockedBlock_relays : (compactBlockFromBlock byteSum (lockedBlock 4) 0).bind
    (compactBlockRelay byteSum · (lockedBlock 4).vtx []) = some ⟨lockedBlock 4, []⟩ :=
  compactBlockFromBlock_relays (lockedBlock_relayable (by decide) (by decide) (by decide))
    (by decide) []

/-- With the first two transactions, the message is put together without a missing one, but the
second and the third change places. -/
theorem lockedBlock_exchanged : Relayable byteSum (lockedBlock 4) 0 [0, 1] (lockedBlock 4).vtx ∧
    (compactBlockRelay byteSum (compactBlockWith byteSum (lockedBlock 4) 0 [0, 1])
      (lockedBlock 4).vtx []).map (fun r => (r.block.vtx.map (·.lockTime), r.missing)) =
      some ([0, 2, 1, 3], []) ∧
    (lockedBlock 4).vtx.map (·.lockTime) = [0, 1, 2, 3] :=
  ⟨lockedBlock_relayable (by decide) (by decide) (by decide), by decide +kernel, by decide +kernel⟩

end ZClassic
