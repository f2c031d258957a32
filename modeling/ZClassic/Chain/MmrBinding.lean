import ZClassic.Chain.Mmr
import ZClassic.Lib.BaggedForest

/-!
# What an accepted proof of the mountain range shows

`mmr_verify` reads as many low bits of the leaf index as the proof has siblings, and it never reads
the size of the range.
-/

namespace ZClassic

open List

theorem leBytes32_append_inj {x y : UInt256} {rest rest' : List UInt8} :
    leBytes 32 x.toNat ++ rest = leBytes 32 y.toNat ++ rest' ↔ x = y ∧ rest = rest' :=
  append_inj_iff_of_reads reads_u256

theorem hashes_injective :
    Function.Injective fun hs : List UInt256 => hs.flatMap fun h => leBytes 32 h.toNat :=
  flatMap_injective_of_reads reads_u256 fun h => ne_nil_of_length (n := 31) (by simp)

theorem tagged_pair_injective {tag : UInt8} {l r l' r' : UInt256}
    (h : tag :: (leBytes 32 l.toNat ++ leBytes 32 r.toNat) =
      tag :: (leBytes 32 l'.toNat ++ leBytes 32 r'.toNat)) : (l, r) = (l', r') := by
  have hbytes := tail_eq_of_cons_eq h
  rw [← append_nil (leBytes 32 r.toNat), ← append_nil (leBytes 32 r'.toNat),
    leBytes32_append_inj, leBytes32_append_inj] at hbytes
  rw [hbytes.1, hbytes.2.1]

/-- The tags keep leaves, inner nodes and roots apart. -/
def mmrForestHash (sha3 : List UInt8 → UInt256) : ForestHash UInt256 UInt256 (List UInt8) where
  hash := sha3
  leafMessage := mmrLeafMessage
  nodeMessage := mmrInternalMessage
  rootMessage := mmrRootMessage
  leaf_injective := by
    intro b b' h
    have hbytes := List.tail_eq_of_cons_eq h
    rw [← List.append_nil (leBytes 32 b.toNat), ← List.append_nil (leBytes 32 b'.toNat)] at hbytes
    exact (leBytes32_append_inj.mp hbytes).1
  node_injective := tagged_pair_injective
  root_injective := fun _ _ h => hashes_injective (List.tail_eq_of_cons_eq h)
  leaf_ne_node := fun _ _ _ h => absurd (List.head_eq_of_cons_eq h) (by decide)
  leaf_ne_root := fun _ _ h => absurd (List.head_eq_of_cons_eq h) (by decide)
  node_ne_root := fun _ _ _ h => absurd (List.head_eq_of_cons_eq h) (by decide)

def mmrMessages (sha3 : List UInt8 → UInt256) (blocks : List UInt256) : List (List UInt8) :=
  (mmrForestHash sha3).forestMessages blocks (mmrLeafAt sha3 blocks) blocks.length.bitIndices
    (mmrOf sha3 blocks).peaks

/-- The messages hashed for a proof of block `b` and its check. -/
def mmrProofMessages (sha3 : List UInt8 → UInt256) (b : UInt256) (proof : MmrProof) :
    List (List UInt8) :=
  (mmrForestHash sha3).proofMessages b (indexPath proof.leafIndex.toNat proof.siblings)
    proof.peakHashes

/-- The place that a proof binds its block to, in a range of `n` blocks. -/
def mmrProvenIndex (n : ℕ) (proof : MmrProof) : ℕ :=
  2 ^ (proof.siblings.length + 1) * (n / 2 ^ (proof.siblings.length + 1)) +
    proof.leafIndex.toNat % 2 ^ proof.siblings.length

theorem mmrRoot_eq_bag {sha3 : List UInt8 → UInt256} {m : Mmr} (h : m.peaks ≠ []) :
    mmrRoot sha3 m = (mmrForestHash sha3).bag m.peaks := by
  obtain ⟨n, peaks⟩ := m
  rcases peaks with _ | ⟨p, _ | ⟨q, peaks⟩⟩
  · exact absurd rfl h
  · rfl
  · rfl

def secondProof : MmrProof where
  leafIndex := 1
  leafHash := mmrHashLeaf polynomialHash 6
  siblings := [mmrHashLeaf polynomialHash 5]
  peakHashes := (mmrOf polynomialHash threeBlocks).peaks
  mmrSize := 3

/-- A proof of the third block that names the place of the first. -/
def thirdAsFirstProof : MmrProof where
  leafIndex := 0
  leafHash := mmrHashLeaf polynomialHash 7
  siblings := []
  peakHashes := (mmrOf polynomialHash threeBlocks).peaks
  mmrSize := 3

/-- An accepted proof is of the leaf at the place that its siblings and its peak lead to. -/
theorem mmrVerify_binds (sha3 : List UInt8 → UInt256) (blocks : List UInt256)
    (hne : blocks ≠ []) (proof : MmrProof) (b : UInt256)
    (hsize : proof.mmrSize.toNat = blocks.length) (hleaf : proof.leafHash = mmrHashLeaf sha3 b)
    (hinj : Set.InjOn sha3 {m | m ∈ mmrMessages sha3 blocks ++ mmrProofMessages sha3 b proof})
    (hok : mmrVerify sha3 proof (mmrRoot sha3 (mmrOf sha3 blocks)) = true) :
    blocks.length.testBit proof.siblings.length = true ∧
      mmrProvenIndex blocks.length proof < blocks.length ∧
      blocks[mmrProvenIndex blocks.length proof]? = some b := by
  have hlen : blocks.length < 2 ^ 64 := hsize ▸ proof.mmrSize.toNat_lt
  obtain ⟨st, hst⟩ := mmrOver_mmrOf sha3 hlen
  have hforest : forestSize st = blocks.length := forestSize_of_heights hst.heights
  have hpeaks : (mmrOf sha3 blocks).peaks = (st.map Mountain.peak).reverse := by
    rw [← hst.peaks, reverse_reverse]
  have hnonempty : (mmrOf sha3 blocks).peaks ≠ [] := by
    intro hnil
    rw [hpeaks, reverse_eq_nil_iff, map_eq_nil_iff] at hnil
    rw [hnil] at hforest
    exact hne (length_eq_zero_iff.mp hforest.symm)
  obtain ⟨hwalk, hroot⟩ := mmrVerify_iff.mp hok
  rw [mmrWalk_eq_climb, hleaf] at hwalk
  rw [mmrRoot_eq_bag (ne_nil_of_mem hwalk), mmrRoot_eq_bag hnonempty, hpeaks] at hroot
  rw [mmrMessages, ← hst.heights, hpeaks] at hinj
  obtain ⟨hmem, hbind⟩ := ForestHash.leaf_of_bag_eq (F := mmrForestHash sha3) hst.covers hforest
    (fun i b' hb' => by rw [mmrLeafAt, getD, hb']; rfl) hinj hwalk hroot
  obtain ⟨m, hm, hpeak⟩ := mem_map.mp hmem
  obtain ⟨above, below, rfl⟩ := append_of_mem hm
  obtain ⟨hheight, hget⟩ := hbind above m below rfl hpeak.symm
  have hsorted : ((above ++ m :: below).map Mountain.height).Pairwise (· < ·) := by
    rw [hst.heights]
    exact Nat.bitIndices_sorted.pairwise
  rw [indexPath_length] at hheight
  have hplace : forestSize below + pathIndex (indexPath proof.leafIndex.toNat proof.siblings) =
      mmrProvenIndex blocks.length proof := by
    rw [mmrProvenIndex, pathIndex_indexPath, hheight, forestSize_below hsorted, hforest]
  rw [hplace] at hget
  refine ⟨?_, (List.getElem?_eq_some_iff.mp hget).1, hget⟩
  rw [hheight, ← Nat.mem_bitIndices, ← hst.heights]
  exact mem_map_of_mem (by simp)

theorem mmrVerify_binds_second :
    threeBlocks[mmrProvenIndex threeBlocks.length secondProof]? = some 6 :=
  (mmrVerify_binds polynomialHash threeBlocks (by decide) secondProof 6 rfl rfl
    (injOn_of_forall_mem (by decide +kernel)) (by decide +kernel)).2.2

theorem thirdAsFirstProof_accepted :
    thirdAsFirstProof.mmrSize.toNat = threeBlocks.length ∧
    thirdAsFirstProof.leafHash = mmrHashLeaf polynomialHash 7 ∧
    Set.InjOn polynomialHash {m | m ∈ mmrMessages polynomialHash threeBlocks ++
      mmrProofMessages polynomialHash 7 thirdAsFirstProof} ∧
    mmrVerify polynomialHash thirdAsFirstProof
      (mmrRoot polynomialHash (mmrOf polynomialHash threeBlocks)) = true ∧
    ¬(thirdAsFirstProof.leafIndex.toNat < threeBlocks.length ∧
      threeBlocks[thirdAsFirstProof.leafIndex.toNat]? = some 7) :=
  ⟨rfl, rfl, injOn_of_forall_mem (by decide +kernel), by decide +kernel, by decide⟩

end ZClassic
