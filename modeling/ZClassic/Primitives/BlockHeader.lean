import ZClassic.Primitives.Transaction

/-!
# Block headers

`struct block_header` of `lib/primitives/include/primitives/block.h` and the Merkle root of
`lib/bloom/src/merkle.c`.
-/

namespace ZClassic

def maxSolutionSize : ℕ := 1344

structure BlockHeader where
  nVersion : Int32 := 4
  hashPrevBlock : UInt256 := 0
  hashMerkleRoot : UInt256 := 0
  hashFinalSaplingRoot : UInt256 := 0
  nTime : UInt32 := 0
  nBits : UInt32 := 0
  nNonce : UInt256 := 0
  nSolution : List UInt8 := []
  deriving DecidableEq

def blockHeaderGetTime (h : BlockHeader) : ℤ := h.nTime.toNat

def BlockHeader.nSolutionSize (h : BlockHeader) : ℕ := h.nSolution.length

section Merkle

variable (hashPair : UInt256 → UInt256 → UInt256)

/-- One level of the tree: neighbours are hashed together, and an odd last node with itself. The
flag says that the last two nodes are equal, which the odd case cannot be told from. -/
def merkleLevel : List UInt256 → List UInt256 × Bool
  | [] => ([], false)
  | [a] => ([hashPair a a], false)
  | [a, b] => ([hashPair a b], a == b)
  | a :: b :: c :: rest =>
    let (level, mutated) := merkleLevel (c :: rest)
    (hashPair a b :: level, mutated)

/-- The level loop; a level is half as long as the one below, so the first one's length bounds the
passes. -/
def merkleLevels : ℕ → List UInt256 → Bool → UInt256 × Bool
  | _, [], mutated => (0, mutated)
  | _, [root], mutated => (root, mutated)
  | 0, root :: _, mutated => (root, mutated)
  | fuel + 1, a :: b :: rest, mutated =>
    let (level, dup) := merkleLevel hashPair (a :: b :: rest)
    merkleLevels fuel level (mutated || dup)

/-- The root, and whether a list with duplicated transactions would have the same one. -/
def computeMerkleRootMutated (txids : List UInt256) : UInt256 × Bool :=
  merkleLevels hashPair txids.length txids false

end Merkle

end ZClassic
