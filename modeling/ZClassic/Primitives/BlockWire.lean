import ZClassic.Primitives.BlockHeader
import ZClassic.Primitives.TransactionWire

/-!
# Blocks on the wire

`block_header_serialize`, `block_header_deserialize` and `block_serialize` of
`lib/primitives/src/block.c`.
-/

namespace ZClassic

structure WireBlock where
  header : BlockHeader
  vtx : List WireTransaction

def WireBlock.toBlock (b : WireBlock) : Block where
  vtx := b.vtx.map WireTransaction.toTransaction

def blockHeaderSerialize (h : BlockHeader) : List UInt8 :=
  leBytes 4 h.nVersion.toUInt32.toNat ++ writeU256 h.hashPrevBlock ++
    writeU256 h.hashMerkleRoot ++ writeU256 h.hashFinalSaplingRoot ++ leBytes 4 h.nTime.toNat ++
    leBytes 4 h.nBits.toNat ++ writeU256 h.nNonce ++ writeCompactSize h.nSolutionSize ++ h.nSolution

def blockSerialize (b : WireBlock) : List UInt8 :=
  blockHeaderSerialize b.header ++ writeList transactionSerialize b.vtx

theorem blockHeaderSerialize_length (h : BlockHeader) :
    (blockHeaderSerialize h).length =
      140 + compactSizeLength h.nSolutionSize + h.nSolutionSize := by
  simp only [blockHeaderSerialize, List.length_append, leBytes_length, writeU256_length,
    writeCompactSize_length, BlockHeader.nSolutionSize]

theorem blockSerialize_length (b : WireBlock) :
    (blockSerialize b).length =
      140 + compactSizeLength b.header.nSolutionSize + b.header.nSolutionSize +
        (compactSizeLength b.vtx.length + (b.toBlock.vtx.map transactionSerializeSize).sum) := by
  rw [blockSerialize, List.length_append, blockHeaderSerialize_length, writeList_length,
    WireBlock.toBlock, List.map_map]
  simp only [serialize_length, Function.comp_def]

/-- A solution of more than `MAX_SOLUTION_SIZE` bytes is refused. -/
def blockHeaderDeserialize : Reader BlockHeader := do
  let nVersion ← readI32
  let hashPrevBlock ← readU256
  let hashMerkleRoot ← readU256
  let hashFinalSaplingRoot ← readU256
  let nTime ← readU32
  let nBits ← readU32
  let nNonce ← readU256
  let solSize ← readCompactSize
  guard (solSize ≤ maxSolutionSize)
  let nSolution ← readBytes solSize
  return { nVersion, hashPrevBlock, hashMerkleRoot, hashFinalSaplingRoot, nTime, nBits, nNonce,
           nSolution }

theorem reads_blockHeader {h : BlockHeader} (hsolution : h.nSolutionSize ≤ maxSolutionSize) :
    Reads blockHeaderDeserialize (blockHeaderSerialize h) h := by
  have hversion : Reads readI32 (leBytes 4 h.nVersion.toUInt32.toNat) h.nVersion :=
    (reads_u32 h.nVersion.toUInt32).map UInt32.toInt32
  unfold blockHeaderSerialize
  simp only [List.append_assoc]
  apply hversion.bind
  apply (reads_u256 h.hashPrevBlock).bind
  apply (reads_u256 h.hashMerkleRoot).bind
  apply (reads_u256 h.hashFinalSaplingRoot).bind
  apply (reads_u32 h.nTime).bind
  apply (reads_u32 h.nBits).bind
  apply (reads_u256 h.nNonce).bind
  apply (reads_compactSize (hsolution.trans_lt (by decide))).bind
  exact .guard_bind hsolution (reads_bytes h.nSolution).bind_pure

end ZClassic
