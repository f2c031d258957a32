import ZClassic.Chain.MmbProve
import ZClassic.Chain.MmrBinding
import ZClassic.Net.FlyClient

/-!
# What an accepted FlyClient sample shows

`mmb_verify` walks up by the direction bits of the proof and never reads its leaf index.
-/

namespace ZClassic

open List Function

theorem leBytes4_append_inj {x y : UInt32} {rest rest' : List UInt8} :
    leBytes 4 x.toNat ++ rest = leBytes 4 y.toNat ++ rest' ↔ x = y ∧ rest = rest' :=
  append_inj_iff_of_reads reads_u32

theorem mmbLeafMessage_injective : Injective mmbLeafMessage := by
  intro l l' h
  have hbytes := tail_eq_of_cons_eq h
  rw [← append_nil (leBytes 32 l.chainWork.toNat),
    ← append_nil (leBytes 32 l'.chainWork.toNat)] at hbytes
  simp only [leBytes32_append_inj, leBytes4_append_inj, and_true] at hbytes
  obtain ⟨h1, h2, h3, h4, h5, h6⟩ := hbytes
  cases l
  cases l'
  congr

/-- The tags keep leaves, inner nodes and roots apart. -/
def mmbForestHash (sha3 : List UInt8 → UInt256) : ForestHash MmbLeaf UInt256 (List UInt8) where
  hash := sha3
  leafMessage := mmbLeafMessage
  nodeMessage := mmbInternalMessage
  rootMessage := mmbRootMessage
  leaf_injective := mmbLeafMessage_injective
  node_injective := tagged_pair_injective
  root_injective := fun _ _ h => hashes_injective (List.tail_eq_of_cons_eq h)
  leaf_ne_node := fun _ _ _ h => absurd (List.head_eq_of_cons_eq h) (by decide)
  leaf_ne_root := fun _ _ h => absurd (List.head_eq_of_cons_eq h) (by decide)
  node_ne_root := fun _ _ _ h => absurd (List.head_eq_of_cons_eq h) (by decide)

variable {leaf : MmbLeaf} {proof : MmbProof} {challenge : FcChallenge} {env : FlyClientEnv}

section Binding

variable (sha3 : List UInt8 → UInt256)

def mmbOfLeaves (leaves : List MmbLeaf) : Mmb := mmbOf sha3 (leaves.map (mmbHashLeaf sha3))

def mmbMessages (leaves : List MmbLeaf) : List (List UInt8) :=
  (mmbForestHash sha3).forestMessages leaves
    (fun i => (leaves.map (mmbHashLeaf sha3)).getD i 0)
    ((mmbOfLeaves sha3 leaves).mountains.map Mountain.height)
    ((mmbOfLeaves sha3 leaves).mountains.map Mountain.peak).reverse

def mmbSampleMessages (leaf : MmbLeaf) (proof : MmbProof) : List (List UInt8) :=
  (mmbForestHash sha3).proofMessages leaf (lrPath proof.lrBits 0 proof.siblings) proof.peaks

/-- What the proofs of the prover hash. -/
def mmbProofMessages (leaves : List MmbLeaf) : List (List UInt8) :=
  leaves.zipIdx.flatMap fun x =>
    ((mmbProve sha3 (leaves.map (mmbHashLeaf sha3)) (UInt64.ofNat x.2)).map
      (mmbSampleMessages sha3 x.1)).getD []

variable {sha3}

theorem mmbBagPeaks_eq_bag (peaks : List UInt256) :
    mmbBagPeaks sha3 peaks = (mmbForestHash sha3).bag peaks := by
  rcases peaks with _ | ⟨p, _ | ⟨q, peaks⟩⟩ <;> rfl

/-- The leaf of an accepted proof is one of the leaves. -/
theorem mem_of_mmbVerify {leaves : List MmbLeaf} (hpos : 1 ≤ leaves.length)
    (hn : leaves.length < 2 ^ 63) (hleaf : proof.leafHash = mmbHashLeaf sha3 leaf)
    (hinj : Set.InjOn sha3 {m | m ∈ mmbMessages sha3 leaves ++ mmbSampleMessages sha3 leaf proof})
    (hok : mmbVerify sha3 proof (mmbRoot sha3 (mmbOfLeaves sha3 leaves)).1 = true) :
    leaf ∈ leaves := by
  set hashes := leaves.map (mmbHashLeaf sha3) with hhashes
  have hlength : hashes.length = leaves.length := length_map _
  have hne : hashes ≠ [] := length_pos_iff.mp (hlength ▸ hpos)
  have hover := beltOver_mmbOf sha3 (hlength ▸ hn)
  obtain ⟨hclimb, hroot⟩ := mmbVerify_iff.mp hok
  rw [mmbOfLeaves, mmbRoot_mmbOf sha3 hne (hlength ▸ hn), mmbBagPeaks_eq_bag, mmbBagPeaks_eq_bag]
    at hroot
  rw [hleaf] at hclimb
  obtain ⟨hmem, hbind⟩ := ForestHash.leaf_of_bag_eq (F := mmbForestHash sha3) hover.covers
    (hover.size.trans hlength)
    (fun i b hb => by rw [hhashes, getD, getElem?_map, hb]; rfl) hinj hclimb hroot
  obtain ⟨m, hm, hpeak⟩ := mem_map.mp hmem
  obtain ⟨right, left, hms⟩ := append_of_mem hm
  exact mem_of_getElem? (hbind right m left hms hpeak.symm).2

/-- Every leaf has an accepted proof, whatever index it names. -/
theorem exists_mmbVerify {leaves : List MmbLeaf} (hpos : 1 ≤ leaves.length)
    (hn : leaves.length < 2 ^ 24) (hmem : leaf ∈ leaves) (index : UInt64) :
    ∃ proof, proof.leafIndex = index ∧ proof.leafHash = mmbHashLeaf sha3 leaf ∧
      proof.mmbSize.toNat % 2 ^ 40 = leaves.length ∧
      (∀ m ∈ mmbSampleMessages sha3 leaf proof, m ∈ mmbProofMessages sha3 leaves) ∧
      mmbVerify sha3 proof (mmbRoot sha3 (mmbOfLeaves sha3 leaves)).1 = true := by
  obtain ⟨i, hi⟩ := getElem?_of_mem hmem
  have hlt := (List.getElem?_eq_some_iff.mp hi).1
  have hlength : (leaves.map (mmbHashLeaf sha3)).length = leaves.length := length_map _
  have hofNat : (UInt64.ofNat i).toNat = i :=
    UInt64.toNat_ofNat_of_lt' (hlt.trans (hn.trans (by decide)))
  obtain ⟨proof, hproof, hhash, hsize, hok⟩ := mmbProve_accepted sha3
    (leaves.map (mmbHashLeaf sha3)) (hlength ▸ hpos) (hlength ▸ hn) (UInt64.ofNat i)
    (by rwa [hofNat, hlength])
  refine ⟨{ proof with leafIndex := index }, rfl, ?_, hsize.trans hlength, fun m hm => ?_, hok⟩
  · rw [hofNat, getD, getElem?_map, hi] at hhash
    exact hhash
  · refine mem_flatMap.mpr ⟨(leaf, i), mem_zipIdx_iff_getElem?.mpr hi, ?_⟩
    rw [hproof]
    exact hm

end Binding

theorem fcSampleValid_of_fcVerifyResponse {resp : FcResponse}
    (h : fcVerifyResponse env resp challenge = true) {p : UInt64 × FcSample}
    (hp : p ∈ (fcGenerateIndices env challenge.seed challenge.chainLength).zip resp.samples) :
    fcSampleValid env challenge p.1 p.2 = true := by
  rw [fcVerifyResponse, Bool.and_eq_true, Bool.and_eq_true, beq_iff_eq, beq_iff_eq] at h
  obtain ⟨⟨-, hcount⟩, hvalid⟩ := h
  have hlength : ((fcGenerateIndices env challenge.seed challenge.chainLength).zip
      resp.samples).length = resp.samples.length := by
    rw [length_zip, ← hcount, Nat.min_self]
  rw [← hlength, countP_eq_length] at hvalid
  exact hvalid p hp

theorem fcSampleValid_iff {expected : UInt64} {sample : FcSample} :
    fcSampleValid env challenge expected sample = true ↔
      sample.proof.leafIndex = expected ∧ sample.leaf.height = expected.toUInt32 ∧
        env.mmbHashLeaf sample.leaf = sample.proof.leafHash ∧
        env.mmbVerify sample.proof challenge.mmbRoot = true ∧
        fcCheckPow sample.leaf.blockHash sample.leaf.nBits = true := by
  simp only [fcSampleValid, fcVerifySample, Bool.and_eq_true, beq_iff_eq, and_assoc]

def easyLeaf (height : UInt32) : MmbLeaf where
  blockHash := 0
  height
  timestamp := 0
  nBits := 0x200f0f0f
  saplingRoot := 0
  chainWork := 0

/-- No other leaf has the height of the index and enough work. -/
def PlacedAt (leaves : List MmbLeaf) (index : UInt64) : Prop :=
  ∀ leaf ∈ leaves, leaf.height = index.toUInt32 → fcCheckPow leaf.blockHash leaf.nBits = true →
    leaves[index.toNat]? = some leaf

/-- An accepted proof is of one of the leaves, but of any, as its index is not looked at. So it is
of the leaf at its index exactly if all are the same, and a sample is so exactly if the height and
the work that are compared as well single the leaf out. -/
theorem flyClient_binds_iff (sha3 : List UInt8 → UInt256) (leaves : List MmbLeaf)
    (hpos : 1 ≤ leaves.length) (hn : leaves.length < 2 ^ 24) (messages : Set (List UInt8))
    (hinj : Set.InjOn sha3 messages)
    (hmessages : ∀ m ∈ mmbMessages sha3 leaves ++ mmbProofMessages sha3 leaves, m ∈ messages) :
    (∀ index : UInt64, (∀ (proof : MmbProof) (leaf : MmbLeaf), proof.leafIndex = index →
        proof.leafHash = mmbHashLeaf sha3 leaf → proof.mmbSize.toNat % 2 ^ 40 = leaves.length →
        (∀ m ∈ mmbSampleMessages sha3 leaf proof, m ∈ messages) →
        mmbVerify sha3 proof (mmbRoot sha3 (mmbOfLeaves sha3 leaves)).1 = true →
        (leaves.map (mmbHashLeaf sha3))[index.toNat]? = some proof.leafHash) ↔
      ∀ hash ∈ leaves.map (mmbHashLeaf sha3),
        (leaves.map (mmbHashLeaf sha3))[index.toNat]? = some hash) ∧
    ∀ (env : FlyClientEnv) (challenge : FcChallenge), env.mmbHashLeaf = mmbHashLeaf sha3 →
      env.mmbVerify = mmbVerify sha3 →
      challenge.mmbRoot = (mmbRoot sha3 (mmbOfLeaves sha3 leaves)).1 →
      (∀ index : UInt64, (∀ sample : FcSample,
          (∀ m ∈ mmbSampleMessages sha3 sample.leaf sample.proof, m ∈ messages) →
          fcSampleValid env challenge index sample = true →
          leaves[index.toNat]? = some sample.leaf) ↔ PlacedAt leaves index) ∧
      ∀ resp : FcResponse, fcVerifyResponse env resp challenge = true →
        ∀ p ∈ (fcGenerateIndices env challenge.seed challenge.chainLength).zip resp.samples,
          (∀ m ∈ mmbSampleMessages sha3 p.2.leaf p.2.proof, m ∈ messages) →
          PlacedAt leaves p.1 → leaves[p.1.toNat]? = some p.2.leaf := by
  have hmem : ∀ {proof : MmbProof} {leaf : MmbLeaf}, proof.leafHash = mmbHashLeaf sha3 leaf →
      (∀ m ∈ mmbSampleMessages sha3 leaf proof, m ∈ messages) →
      mmbVerify sha3 proof (mmbRoot sha3 (mmbOfLeaves sha3 leaves)).1 = true → leaf ∈ leaves := by
    intro proof leaf hleaf hsample hok
    refine mem_of_mmbVerify hpos (hn.trans (by decide)) hleaf (hinj.mono fun m hm => ?_) hok
    rcases mem_append.mp hm with hm | hm
    · exact hmessages m (mem_append_left _ hm)
    · exact hsample m hm
  have hown : ∀ m ∈ mmbProofMessages sha3 leaves, m ∈ messages :=
    fun m hm => hmessages m (mem_append_right _ hm)
  refine ⟨fun index => ⟨fun hbinds hash hhash => ?_,
    fun hall proof leaf _ hleaf _ hsample hok => ?_⟩,
    fun env challenge hhash hverify hroot => ?_⟩
  · -- the prover's proof of any leaf passes with this index in it
    obtain ⟨leaf, hleaf, rfl⟩ := mem_map.mp hhash
    obtain ⟨proof, hindex, hproof, hsize, hsample, hok⟩ := exists_mmbVerify hpos hn hleaf index
    rw [hbinds proof leaf hindex hproof hsize (fun m hm => hown m (hsample m hm)) hok, hproof]
  · rw [hleaf]
    exact hall _ (mem_map_of_mem (hmem hleaf hsample hok))
  have hplaced : ∀ (index : UInt64) (sample : FcSample),
      (∀ m ∈ mmbSampleMessages sha3 sample.leaf sample.proof, m ∈ messages) →
      fcSampleValid env challenge index sample = true → PlacedAt leaves index →
      leaves[index.toNat]? = some sample.leaf := by
    intro index sample hsample hvalid hplaced
    obtain ⟨-, hheight, hleaf, hok, hpow⟩ := fcSampleValid_iff.mp hvalid
    rw [hhash] at hleaf
    rw [hverify, hroot] at hok
    exact hplaced _ (hmem hleaf.symm hsample hok) hheight hpow
  refine ⟨fun index => ⟨fun hbinds leaf hleaf hheight hpow => ?_, fun h sample hsample hvalid =>
    hplaced index sample hsample hvalid h⟩, fun resp hok p hp hsample h => ?_⟩
  · obtain ⟨proof, hindex, hproof, -, hsample, hok⟩ := exists_mmbVerify hpos hn hleaf index
    refine hbinds ⟨leaf, proof⟩ (fun m hm => hown m (hsample m hm)) (fcSampleValid_iff.mpr ?_)
    rw [hhash, hverify, hroot]
    exact ⟨hindex, hheight, hproof.symm, hok, hpow⟩
  · exact hplaced p.1 p.2 hsample (fcSampleValid_of_fcVerifyResponse hok hp) h

def twoLeaves (a b : UInt32) : List MmbLeaf := [easyLeaf a, easyLeaf b]

def secondLeafProof (a b : UInt32) (leafIndex : UInt64) : MmbProof where
  leafIndex
  leafHash := mmbHashLeaf polynomialHash (easyLeaf b)
  siblings := [mmbHashLeaf polynomialHash (easyLeaf a)]
  peaks := ((mmbOfLeaves polynomialHash (twoLeaves a b)).mountains.map Mountain.peak).reverse
  mmbSize := mmbPackSize 2 1

def twoLeavesChallenge (a b : UInt32) : FcChallenge where
  chainLength := 2
  mmbRoot := (mmbRoot polynomialHash (mmbOfLeaves polynomialHash (twoLeaves a b))).1

/-- In a chain of two blocks `fc_generate_indices` draws the height 0 twice, for all but the largest
hashes. -/
def mmbEnv : FlyClientEnv where
  fcIndex := fun _ _ _ => 0
  mmbHashLeaf := mmbHashLeaf polynomialHash
  mmbVerify := mmbVerify polynomialHash

theorem flyClient_binds_secondLeaf :
    fcSampleValid mmbEnv (twoLeavesChallenge 0 1) 1 ⟨easyLeaf 1, secondLeafProof 0 1 1⟩ = true ∧
      (twoLeaves 0 1)[1]? = some (easyLeaf 1) := by
  have hvalid : fcSampleValid mmbEnv (twoLeavesChallenge 0 1) 1
    ⟨easyLeaf 1, secondLeafProof 0 1 1⟩ = true := by decide +kernel
  have hbinds := flyClient_binds_iff polynomialHash (twoLeaves 0 1) (by decide) (by decide)
    {m | m ∈ mmbMessages polynomialHash (twoLeaves 0 1) ++
      mmbProofMessages polynomialHash (twoLeaves 0 1)}
    (injOn_of_forall_mem (by decide +kernel)) fun m hm => hm
  refine ⟨hvalid, ((hbinds.2 mmbEnv (twoLeavesChallenge 0 1) rfl rfl rfl).1 1).mpr ?_
    ⟨easyLeaf 1, secondLeafProof 0 1 1⟩ ?_ hvalid⟩
  · unfold PlacedAt
    decide +kernel
  · decide +kernel

def swappedResponse : FcResponse :=
  ⟨List.replicate 2 ⟨easyLeaf 0, secondLeafProof 1 0 0⟩⟩

/-- The second leaf is accepted at the first place, and in both samples of a response. -/
theorem swappedResponse_accepted :
    (secondLeafProof 1 0 0).leafHash = mmbHashLeaf polynomialHash (easyLeaf 0) ∧
    (secondLeafProof 1 0 0).mmbSize.toNat % 2 ^ 40 = (twoLeaves 1 0).length ∧
    Set.InjOn polynomialHash {m | m ∈ mmbMessages polynomialHash (twoLeaves 1 0) ++
      mmbSampleMessages polynomialHash (easyLeaf 0) (secondLeafProof 1 0 0)} ∧
    mmbVerify polynomialHash (secondLeafProof 1 0 0)
      (mmbRoot polynomialHash (mmbOfLeaves polynomialHash (twoLeaves 1 0))).1 = true ∧
    ((twoLeaves 1 0).map (mmbHashLeaf polynomialHash))[(secondLeafProof 1 0 0).leafIndex.toNat]? ≠
      some (secondLeafProof 1 0 0).leafHash ∧
    fcVerifyResponse mmbEnv swappedResponse (twoLeavesChallenge 1 0) = true ∧
    fcGenerateIndices mmbEnv 0 (twoLeavesChallenge 1 0).chainLength = [0, 0] ∧
    swappedResponse.samples[0]?.map FcSample.leaf ≠ (twoLeaves 1 0)[0]? :=
  ⟨rfl, by decide +kernel, injOn_of_forall_mem (by decide +kernel), by decide +kernel,
    by decide +kernel, by decide +kernel, by decide +kernel, by decide +kernel⟩

end ZClassic
