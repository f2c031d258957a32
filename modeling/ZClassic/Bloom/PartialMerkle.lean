import ZClassic.Bloom.MerkleRoot
import ZClassic.Lib.BitPacking
import ZClassic.Lib.PartialTree
import ZClassic.Primitives.TransactionWire

/-!
# Partial Merkle trees

`struct partial_merkle_tree` of `lib/bloom`: building it from a block's ids and a match vector,
writing and reading it (`merkleblock.c`), and extracting the matched ids with the root (`merkle.c`).
-/

namespace ZClassic

open List Function PartialTree

def maxMerkleHashes : ℕ := 65536

def maxMerkleBits : ℕ := maxMerkleHashes * 2

structure PartialMerkleTree where
  numTransactions : UInt32
  bits : List Bool
  hashes : List UInt256

/-- Unsigned 32-bit arithmetic, so that the sum wraps. -/
def calcTreeWidth (nTransactions height : ℕ) : ℕ :=
  (nTransactions + 2 ^ height - 1) % 2 ^ 32 / 2 ^ height

/-- The loop that looks for the height; it ends before the shift is as wide as the word. -/
def growHeight (nTransactions : ℕ) : ℕ → ℕ → ℕ
  | 0, height => height
  | fuel + 1, height =>
    if 1 < calcTreeWidth nTransactions height then growHeight nTransactions fuel (height + 1)
    else height

def calcTreeHeight (nTransactions : ℕ) : ℕ := growHeight nTransactions 32 0

section

variable (hashPair : UInt256 → UInt256 → UInt256)

section Build

variable (nTx : ℕ) (txids : List UInt256) (marks : List Bool)

def calcHash : ℕ → ℕ → UInt256
  | 0, pos => txids.getD pos 0
  | height + 1, pos =>
    let left := calcHash height (2 * pos)
    let right :=
      if 2 * pos + 1 < calcTreeWidth nTx height then calcHash height (2 * pos + 1) else left
    hashPair left right

structure BuildState where
  bits : List Bool := []
  hashes : List UInt256 := []

/-- A bit that does not fit is dropped. -/
def buildAddBit (s : BuildState) (bit : Bool) : BuildState :=
  if maxMerkleBits ≤ s.bits.length then s else { s with bits := s.bits ++ [bit] }

def buildAddHash (s : BuildState) (h : UInt256) : BuildState :=
  if nTx ≤ s.hashes.length then s else { s with hashes := s.hashes ++ [h] }

def parentOfMatch (height pos : ℕ) : Bool :=
  (List.range' (pos * 2 ^ height) (min nTx ((pos + 1) * 2 ^ height) - pos * 2 ^ height)).any
    fun p => marks.getD p false

def traverseAndBuild : ℕ → ℕ → BuildState → BuildState
  | 0, pos, s =>
    buildAddHash nTx (buildAddBit s (parentOfMatch nTx marks 0 pos))
      (calcHash hashPair nTx txids 0 pos)
  | height + 1, pos, s =>
    let s := buildAddBit s (parentOfMatch nTx marks (height + 1) pos)
    if parentOfMatch nTx marks (height + 1) pos then
      let s := traverseAndBuild height (2 * pos) s
      if 2 * pos + 1 < calcTreeWidth nTx height then traverseAndBuild height (2 * pos + 1) s else s
    else buildAddHash nTx s (calcHash hashPair nTx txids (height + 1) pos)

end Build

def merkleTreeBuild (txids : List UInt256) (marks : List Bool) : Option PartialMerkleTree :=
  if txids = [] ∨ txids.length ≠ marks.length ∨ maxMerkleHashes < txids.length then none
  else
    let nTx := txids.length
    let s := traverseAndBuild hashPair nTx txids marks (calcTreeHeight nTx) 0 {}
    some ⟨UInt32.ofNat nTx, s.bits, s.hashes⟩

structure ExtractState where
  bitsUsed : ℕ := 0
  hashUsed : ℕ := 0
  matched : List UInt256 := []
  bad : Bool := false

abbrev ExtractState.nextBit (s : ExtractState) : ExtractState :=
  { s with bitsUsed := s.bitsUsed + 1 }

section Extract

variable (t : PartialMerkleTree)

/-- The next hash, which is a matched id if it is that of a marked leaf. -/
def takeHash (isMatch : Bool) (s : ExtractState) : UInt256 × ExtractState :=
  match t.hashes[s.hashUsed]? with
  | none => (0, { s with bad := true })
  | some h =>
    (h, { s with
      hashUsed := s.hashUsed + 1
      matched := if isMatch && decide (s.matched.length < t.numTransactions.toNat)
        then s.matched ++ [h] else s.matched })

def traverseAndExtract : ℕ → ℕ → ExtractState → UInt256 × ExtractState
  | 0, _, s =>
    match t.bits[s.bitsUsed]? with
    | none => (0, { s with bad := true })
    | some bit => takeHash t bit s.nextBit
  | height + 1, pos, s =>
    match t.bits[s.bitsUsed]? with
    | none => (0, { s with bad := true })
    | some false => takeHash t false s.nextBit
    | some true =>
      let (left, s) := traverseAndExtract height (2 * pos) s.nextBit
      if 2 * pos + 1 < calcTreeWidth t.numTransactions.toNat height then
        let (right, s) := traverseAndExtract height (2 * pos + 1) s
        (hashPair left right, { s with bad := s.bad || right == left })
      else (hashPair left left, s)

def merkleTreeExtract : Option (List UInt256 × UInt256) :=
  if t.numTransactions = 0 ∨ t.numTransactions.toNat < t.hashes.length ∨
      t.bits.length < t.hashes.length then none
  else
    let (root, s) := traverseAndExtract hashPair t (calcTreeHeight t.numTransactions.toNat) 0 {}
    if s.bad = true ∨ (s.bitsUsed + 7) / 8 ≠ (t.bits.length + 7) / 8 ∨
        s.hashUsed ≠ t.hashes.length then none
    else some (s.matched, root)

end Extract

end

def merkleTreeSerialize (t : PartialMerkleTree) : List UInt8 :=
  leBytes 4 t.numTransactions.toNat ++ writeList writeU256 t.hashes ++
    (writeCompactSize ((t.bits.length + 7) / 8) ++ packBits t.bits)

def merkleTreeDeserialize : Reader PartialMerkleTree := do
  let numTransactions ← readU32
  let hashes ← readList maxMerkleHashes readU256
  let numBytes ← readCompactSize
  guard (numBytes ≤ maxMerkleBits / 8)
  let packed ← readBytes numBytes
  return ⟨numTransactions, unpackBits packed, hashes⟩

section Height

variable {n : ℕ}

theorem calcTreeWidth_eq {height : ℕ} (hn : n ≤ 2 ^ 31) (hheight : height ≤ 31) :
    calcTreeWidth n height = (n + 2 ^ height - 1) / 2 ^ height := by
  have hpow : 2 ^ height ≤ 2 ^ 31 := Nat.pow_le_pow_right (by omega) hheight
  rw [calcTreeWidth, Nat.mod_eq_of_lt (by omega)]

theorem lt_calcTreeWidth {height : ℕ} (hn : n ≤ 2 ^ 31) (hheight : height ≤ 31) (i : ℕ) :
    i < calcTreeWidth n height ↔ i * 2 ^ height < n := by
  have hpow : 0 < 2 ^ height := Nat.two_pow_pos height
  rw [calcTreeWidth_eq hn hheight, ← Nat.succ_le_iff, Nat.le_div_iff_mul_le hpow, Nat.succ_mul]
  omega

theorem growHeight_eq (hn : n ≤ 2 ^ 31) {fuel height : ℕ} (hle : height ≤ Nat.clog 2 n)
    (hfuel : Nat.clog 2 n ≤ height + fuel) : growHeight n fuel height = Nat.clog 2 n := by
  have hclog : Nat.clog 2 n ≤ 31 := Nat.clog_le_of_le_pow hn
  induction fuel generalizing height with
  | zero => exact Nat.le_antisymm hle hfuel
  | succ fuel ih =>
    have hiff : 1 < calcTreeWidth n height ↔ height < Nat.clog 2 n := by
      rw [lt_calcTreeWidth hn (by omega), Nat.lt_clog_iff_pow_lt (by omega), Nat.one_mul]
    rw [growHeight]
    split_ifs with hlt
    · exact ih (hiff.mp hlt) (by omega)
    · rw [hiff] at hlt
      omega

theorem growHeight_le {fuel height : ℕ} (hle : height ≤ Nat.clog 2 n) :
    growHeight n fuel height ≤ Nat.clog 2 n := by
  induction fuel generalizing height with
  | zero => exact hle
  | succ fuel ih =>
    rw [growHeight]
    split_ifs with hlt
    · apply ih
      have hpow : 0 < 2 ^ height := Nat.two_pow_pos height
      rw [calcTreeWidth, ← Nat.succ_le_iff, Nat.le_div_iff_mul_le hpow] at hlt
      rw [Nat.succ_le_iff, Nat.lt_clog_iff_pow_lt (by omega)]
      omega
    · exact hle

theorem calcTreeHeight_eq (hn : n ≤ 2 ^ 31) : calcTreeHeight n = Nat.clog 2 n := by
  have hclog : Nat.clog 2 n ≤ 31 := Nat.clog_le_of_le_pow hn
  exact growHeight_eq hn (Nat.zero_le _) (by omega)

end Height

section Build

variable {hashPair : UInt256 → UInt256 → UInt256} {nTx : ℕ} {txids : List UInt256}
  {marks : List Bool}

variable (hashPair nTx txids marks) in
def builtTree (height pos : ℕ) : PartialTree UInt256 :=
  PartialTree.prune (calcHash hashPair nTx txids) (parentOfMatch nTx marks) (calcTreeWidth nTx)
    height pos

variable (hashPair nTx txids marks) in
theorem builtTree_fits (height pos : ℕ) :
    Fits (calcTreeWidth nTx) height pos (builtTree hashPair nTx txids marks height pos) :=
  prune_fits _ _ _ height pos

theorem builtTree_zero (pos : ℕ) :
    builtTree hashPair nTx txids marks 0 pos =
      if parentOfMatch nTx marks 0 pos then .matched (calcHash hashPair nTx txids 0 pos)
      else .pruned (calcHash hashPair nTx txids 0 pos) := rfl

theorem builtTree_succ (height pos : ℕ) :
    builtTree hashPair nTx txids marks (height + 1) pos =
      if parentOfMatch nTx marks (height + 1) pos then
        if 2 * pos + 1 < calcTreeWidth nTx height then
          .node (builtTree hashPair nTx txids marks height (2 * pos))
            (builtTree hashPair nTx txids marks height (2 * pos + 1))
        else .half (builtTree hashPair nTx txids marks height (2 * pos))
      else .pruned (calcHash hashPair nTx txids (height + 1) pos) := rfl

theorem buildAddBit_eq {s : BuildState} {bit : Bool} (hroom : s.bits.length < maxMerkleBits) :
    buildAddBit s bit = { s with bits := s.bits ++ [bit] } :=
  if_neg (Nat.not_le.mpr hroom)

theorem buildAddHash_eq {s : BuildState} {h : UInt256} (hroom : s.hashes.length < nTx) :
    buildAddHash nTx s h = { s with hashes := s.hashes ++ [h] } :=
  if_neg (Nat.not_le.mpr hroom)

theorem traverseAndBuild_eq {height pos : ℕ} {s : BuildState}
    (hbits : s.bits.length + (builtTree hashPair nTx txids marks height pos).bits.length ≤
      maxMerkleBits)
    (hhashes :
      s.hashes.length + (builtTree hashPair nTx txids marks height pos).hashes.length ≤ nTx) :
    traverseAndBuild hashPair nTx txids marks height pos s =
      { bits := s.bits ++ (builtTree hashPair nTx txids marks height pos).bits
        hashes := s.hashes ++ (builtTree hashPair nTx txids marks height pos).hashes } := by
  induction height generalizing pos s with
  | zero =>
    rw [builtTree_zero] at hbits hhashes ⊢
    rw [traverseAndBuild]
    split_ifs at hbits hhashes ⊢ with hmark
    · simp only [bits, hashes, length_singleton] at hbits hhashes ⊢
      rw [buildAddBit_eq hbits, buildAddHash_eq (by exact hhashes), hmark]
    · simp only [bits, hashes, length_singleton] at hbits hhashes ⊢
      rw [Bool.not_eq_true] at hmark
      rw [buildAddBit_eq hbits, buildAddHash_eq (by exact hhashes), hmark]
  | succ height ih =>
    rw [builtTree_succ] at hbits hhashes ⊢
    rw [traverseAndBuild]
    split_ifs at hbits hhashes ⊢ with hmark hlt
    · simp only [bits, hashes, length_cons, length_append]
        at hbits hhashes ⊢
      have hleft := @ih (2 * pos) { s with bits := s.bits ++ [true] }
        (by rw [length_append, length_singleton]; omega)
        (by change s.hashes.length + _ ≤ _; omega)
      rw [hmark, buildAddBit_eq (by omega), hleft, ih]
      · simp
      · simp only [length_append, length_singleton]
        omega
      · simp only [length_append]
        omega
    · simp only [bits, hashes, length_cons] at hbits hhashes ⊢
      rw [hmark, buildAddBit_eq (by omega), ih]
      · simp
      · simp only [length_append, length_singleton]
        omega
      · exact hhashes
    · simp only [bits, hashes, length_singleton] at hbits hhashes ⊢
      rw [Bool.not_eq_true] at hmark
      rw [buildAddBit_eq hbits, buildAddHash_eq (by exact hhashes), hmark]

variable (hashPair txids marks) in
abbrev sentTree : PartialTree UInt256 :=
  builtTree hashPair txids.length txids marks (calcTreeHeight txids.length) 0

variable (hashPair marks) in
theorem builtTree_room (hne : txids ≠ []) (hmax : txids.length ≤ maxMerkleHashes) :
    (sentTree hashPair txids marks).bits.length ≤ maxMerkleBits ∧
      (sentTree hashPair txids marks).hashes.length ≤ txids.length := by
  have hn : txids.length ≤ 2 ^ 16 := hmax
  have hpos : 0 < txids.length := length_pos_iff.mpr hne
  have hheight : calcTreeHeight txids.length ≤ 16 := by
    rw [calcTreeHeight_eq (by omega)]
    exact Nat.clog_le_of_le_pow hn
  have hfits := builtTree_fits hashPair txids.length txids marks (calcTreeHeight txids.length) 0
  constructor
  · have hbits : 2 ^ (calcTreeHeight txids.length + 1) ≤ maxMerkleBits :=
      Nat.pow_le_pow_right (n := 2) (by omega) (Nat.succ_le_succ hheight)
    exact (bits_length_lt hfits).le.trans hbits
  · have htop : calcTreeHeight txids.length ≤ 31 := by omega
    have hhashes := hashes_length_le
      (fun h hle i => lt_calcTreeWidth (by omega) hle i) hfits htop
      ((lt_calcTreeWidth (by omega) (by omega) 0).mpr (by omega))
    unfold leavesBelow at hhashes
    unfold sentTree
    omega

theorem merkleTreeBuild_eq (hne : txids ≠ []) (hlen : txids.length = marks.length)
    (hmax : txids.length ≤ maxMerkleHashes) :
    merkleTreeBuild hashPair txids marks =
      some ⟨UInt32.ofNat txids.length, (sentTree hashPair txids marks).bits,
        (sentTree hashPair txids marks).hashes⟩ := by
  have hroom := builtTree_room hashPair marks hne hmax
  have hbuild := traverseAndBuild_eq (s := {}) ((Nat.zero_add _).trans_le hroom.1)
    ((Nat.zero_add _).trans_le hroom.2)
  rw [merkleTreeBuild, if_neg (by rw [hlen] at hmax ⊢; simp [hne, hmax])]
  simp only [hbuild, nil_append]

end Build

section Values

variable {hashPair : UInt256 → UInt256 → UInt256} {txids : List UInt256} {marks : List Bool}

theorem calcHash_succ (nTx height pos : ℕ) :
    calcHash hashPair nTx txids (height + 1) pos =
      uncurry hashPair (calcHash hashPair nTx txids height (2 * pos),
        if 2 * pos + 1 < calcTreeWidth nTx height
          then calcHash hashPair nTx txids height (2 * pos + 1)
        else calcHash hashPair nTx txids height (2 * pos)) := rfl

variable (hashPair) in
theorem levelAt_get_calcHash (hn : txids.length ≤ 2 ^ 31) {height pos : ℕ} (hheight : height ≤ 31)
    (hpos : pos < calcTreeWidth txids.length height) :
    (levelAt (uncurry hashPair) txids height)[pos]? =
      some (calcHash hashPair txids.length txids height pos) := by
  induction height generalizing pos with
  | zero =>
    rw [lt_calcTreeWidth hn hheight, Nat.pow_zero, Nat.mul_one] at hpos
    rw [levelAt, calcHash, getD_eq_getElem?_getD, getElem?_eq_getElem hpos]
    rfl
  | succ height ih =>
    have hleft := left_lt_width (fun h hle i => lt_calcTreeWidth hn hle i) hheight hpos
    rw [levelAt_succ_get, ih (by omega) hleft, Option.map_some, calcHash_succ]
    split_ifs with hlt
    · rw [ih (by omega) hlt]
      rfl
    · -- the level ends at the left child
      rw [getElem?_eq_none]
      · rfl
      · rw [levelAt_length, ← calcTreeWidth_eq hn (by omega)]
        omega

/-- No node of the tree has the value of its sibling. -/
def NoEqualSiblings (hashPair : UInt256 → UInt256 → UInt256) (txids : List UInt256) : Prop :=
  ∀ h < merkleHeight txids, ∀ i,
    2 * i + 1 < (levelAt (Function.uncurry hashPair) txids h).length →
      (levelAt (Function.uncurry hashPair) txids h)[2 * i]? ≠
        (levelAt (Function.uncurry hashPair) txids h)[2 * i + 1]?

def matchedIds (txids : List UInt256) (marks : List Bool) : List UInt256 :=
  ((txids.zip marks).filter Prod.snd).map Prod.fst

theorem matchedIds_eq (hlen : txids.length = marks.length) :
    matchedIds txids marks =
      ((range' 0 txids.length).filter fun i => marks.getD i false).map
        fun i => txids.getD i 0 := by
  have hzip : txids.zip marks =
      (range' 0 txids.length).map fun i => (txids.getD i 0, marks.getD i false) := by
    apply ext_getElem
    · simp [hlen]
    · intro i hi hi'
      simp only [length_zip, lt_inf_iff] at hi
      simp [getD_eq_getElem?_getD, hi.1, hi.2]
  rw [matchedIds, hzip, filter_map, map_map]
  rfl

theorem parentOfMatch_iff (nTx height pos : ℕ) :
    parentOfMatch nTx marks height pos = true ↔
      ∃ j, pos * 2 ^ height ≤ j ∧ j < (pos + 1) * 2 ^ height ∧ j < nTx ∧
        marks.getD j false = true := by
  rw [parentOfMatch, any_eq_true]
  constructor
  · rintro ⟨j, hj, hmark⟩
    rw [mem_range'_1] at hj
    exact ⟨j, hj.1, by omega, by omega, hmark⟩
  · rintro ⟨j, hle, hlt, hn, hmark⟩
    exact ⟨j, mem_range'_1.mpr ⟨hle, by omega⟩, hmark⟩

section Built

variable (hn : txids.length ≤ 2 ^ 31) (hne : txids ≠ [])

include hn

theorem zero_lt_topWidth : 0 < calcTreeWidth txids.length (calcTreeHeight txids.length) ↔
    txids ≠ [] := by
  have hclog : Nat.clog 2 txids.length ≤ 31 := Nat.clog_le_of_le_pow hn
  rw [calcTreeHeight_eq hn, lt_calcTreeWidth hn hclog, Nat.zero_mul, length_pos_iff]

include hne

theorem builtTree_root :
    (sentTree hashPair txids marks).root (uncurry hashPair) =
      (computeMerkleRootMutated hashPair txids).1 := by
  have hclog : Nat.clog 2 txids.length ≤ 31 := Nat.clog_le_of_le_pow hn
  have hget := levelAt_get_calcHash hashPair hn
    (by rw [calcTreeHeight_eq hn]; exact hclog) ((zero_lt_topWidth hn).mpr hne)
  rw [sentTree, calcTreeHeight_eq hn]
  rw [calcTreeHeight_eq hn] at hget
  have htop := (merkleRootMutated_spec hashPair hne).1
  rw [merkleHeight] at htop
  rw [htop] at hget
  rw [builtTree, root_prune (calcHash_succ txids.length)]
  exact (Option.some.inj hget).symm

theorem builtTree_matchedLeaves (hlen : txids.length = marks.length) :
    (sentTree hashPair txids marks).matchedLeaves = matchedIds txids marks := by
  have hclog : Nat.clog 2 txids.length ≤ 31 := Nat.clog_le_of_le_pow hn
  have hall : leavesBelow txids.length (Nat.clog 2 txids.length) 0 = txids.length := by
    have hpow := Nat.le_pow_clog (b := 2) (by omega) txids.length
    unfold leavesBelow
    omega
  have htop := (zero_lt_topWidth hn).mpr hne
  rw [calcTreeHeight_eq hn] at htop
  rw [sentTree, calcTreeHeight_eq hn]
  rw [builtTree, matchedLeaves_prune (fun h hle i => lt_calcTreeWidth hn hle i)
    (parentOfMatch_iff txids.length) hclog htop, hall, Nat.zero_mul, matchedIds_eq hlen]
  rfl

omit hne in
theorem builtTree_distinct (hsiblings : NoEqualSiblings hashPair txids) :
    (sentTree hashPair txids marks).Distinct (uncurry hashPair) := by
  have hclog : Nat.clog 2 txids.length ≤ 31 := Nat.clog_le_of_le_pow hn
  rw [sentTree, calcTreeHeight_eq hn]
  refine distinct_prune (calcHash_succ txids.length) ?_ le_rfl 0
  intro h hlt i hi
  have hheight : h ≤ 31 := by omega
  have hne := hsiblings h hlt i (by rwa [levelAt_length, ← calcTreeWidth_eq hn hheight])
  rw [levelAt_get_calcHash hashPair hn hheight (by omega),
    levelAt_get_calcHash hashPair hn hheight hi] at hne
  exact fun heq => hne (congrArg some heq)

end Built

end Values

theorem reads_merkleTree {t : PartialMerkleTree} (hhashes : t.hashes.length ≤ maxMerkleHashes)
    (hbits : t.bits.length ≤ maxMerkleBits) :
    Reads merkleTreeDeserialize (merkleTreeSerialize t)
      { t with bits := t.bits ++
          replicate (8 * ((t.bits.length + 7) / 8) - t.bits.length) false } := by
  have hlen : (packBits t.bits).length = (t.bits.length + 7) / 8 := by simp [packBits]
  unfold maxMerkleBits maxMerkleHashes at *
  have hpacked := reads_bytes (packBits t.bits)
  rw [hlen] at hpacked
  unfold merkleTreeSerialize merkleTreeDeserialize
  rw [append_assoc]
  refine (reads_u32 _).bind ((reads_list hhashes (by decide) reads_u256).bind ?_)
  refine (reads_compactSize (by omega)).bind (.guard_bind ?_ ?_)
  · unfold maxMerkleBits maxMerkleHashes
    omega
  rw [← unpackBits_packBits]
  exact hpacked.bind_pure

end ZClassic
