import Mathlib.Data.UInt
import ZClassic.Chain.Pow
import ZClassic.Consensus.SigOps
import ZClassic.Consensus.TxStructural

/-!
# Block checks

`check_block_header`, `check_block` and `contextual_check_block_header` of
`lib/validation/src/check_block.c`, with the structural checks of
`domain/consensus/src/check_block.c`.
-/

namespace ZClassic

structure Reject where
  rejectReason : Option String
  dos : ℕ := 0
  corruption : Bool := false
  /-- `validation_state_error`: the node's own trouble, not the peer's -/
  fatal : Bool := false
  deriving DecidableEq

structure CheckEnv where
  params : ChainParams
  blockHeaderGetHash : BlockHeader → UInt256
  /-- `merkle_hash_pair` -/
  hashPair : UInt256 → UInt256 → UInt256
  /-- `equihash_is_valid_solution` for the parameters `n` and `k` -/
  equihashIsValidSolution : ℕ → ℕ → BlockHeader → Bool
  adjustedTime : ℤ

def minBlockVersion : Int32 := 4

def equihashSolutionParams : ℕ → Option (ℕ × ℕ)
  | 1344 => some (200, 9)
  | 400 => some (192, 7)
  | 68 => some (96, 5)
  | 36 => some (48, 5)
  | _ => none

section

variable (env : CheckEnv) (header : BlockHeader)

/-- `check_equihash_solution_via_registry`: the parameters come from the size of the solution. -/
def checkEquihashSolution : Bool :=
  match equihashSolutionParams header.nSolutionSize with
  | none => false
  | some (n, k) => env.equihashIsValidSolution n k header

def checkBlockHeader (checkPow : Bool) : Except Reject Unit := do
  refuseIf (header.nVersion < minBlockVersion) ⟨"version-too-low", 100, false, false⟩
  if checkPow then
    refuseIf (checkEquihashSolution env header = false) ⟨"invalid-solution", 100, false, false⟩
    refuseIf (checkProofOfWork (env.blockHeaderGetHash header) header.nBits env.params = false)
      ⟨"high-hash", 50, false, false⟩
  refuseIf (env.adjustedTime + 2 * 60 * 60 < blockHeaderGetTime header)
    ⟨"time-too-new", 0, false, false⟩

def expectedSolutionSize (p : ChainParams) (nHeight : ℤ) : ℕ :=
  let n := chainParamsEquihashN p nHeight
  let k := chainParamsEquihashK p nHeight
  2 ^ k * (n / (k + 1) + 1) / 8

def checkpointsValidateHeader (p : ChainParams) (height : ℤ) (hash : UInt256) : Bool :=
  match p.checkpoints.find? fun entry => entry.1 == height with
  | none => true
  | some entry => hash == entry.2

def contextualCheckBlockHeader (index : HeaderIndex) (header : BlockHeader)
    (pindexPrev : Option UInt256) (checkpointsEnabled : Bool) : Except Reject Unit :=
  let hash := env.blockHeaderGetHash header
  if hash = env.params.hashGenesisBlock then .ok ()
  else match pindexPrev with
    | none => .error ⟨"prev-block-index-null", 0, false, true⟩
    | some prev => do
      let nHeight := index.nHeight prev + 1
      refuseIf (0 < header.nSolutionSize ∧
        header.nSolutionSize ≠ expectedSolutionSize env.params nHeight)
        ⟨"bad-equihash-solution-size", 100, false, false⟩
      refuseIf (header.nBits ≠ getNextWorkRequired env.params index (some prev) header)
        ⟨"bad-diffbits", 100, false, false⟩
      refuseIf (blockHeaderGetTime header ≤ index.getMedianTimePast prev)
        ⟨"time-too-old", 0, false, false⟩
      refuseIf (checkpointsEnabled = true ∧
        checkpointsValidateHeader env.params nHeight hash = false)
        ⟨"bad-fork-at-checkpoint", 100, false, false⟩
      refuseIf (header.nVersion < 4) ⟨"bad-version", 0, false, false⟩

end

def checkBlockMerkleRoot (env : CheckEnv) (header : BlockHeader) (blk : Block) :
    Except Reject Unit := do
  let (merkleRoot, mutated) := computeMerkleRootMutated env.hashPair (blk.vtx.map (·.hash))
  refuseIf (header.hashMerkleRoot ≠ merkleRoot) ⟨"bad-txnmrklroot", 100, true, false⟩
  refuseIf (mutated = true) ⟨"bad-txns-duplicate", 100, true, false⟩

def generousBlockTxnLimit : ℕ := 2000000

def checkBlockSizeAndCoinbase (blk : Block) : Except Reject Unit := do
  refuseIf (blk.vtx = [] ∨ generousBlockTxnLimit < blk.vtx.length)
    ⟨"bad-blk-length", 100, false, false⟩
  refuseIf ((blk.vtx.head?.any transactionIsCoinbase) = false) ⟨"bad-cb-missing", 100, false, false⟩
  refuseIf ((blk.vtx.tail.any transactionIsCoinbase) = true) ⟨"bad-cb-multiple", 100, false, false⟩

/-- The sum wraps at 32 bits. -/
def checkBlockSigops (blk : Block) : Except Reject Unit :=
  let nSigOps : UInt32 := (blk.vtx.map fun tx =>
    UInt32.ofNat (getLegacySigOpCount tx scriptVerifyNone)).sum
  refuseIf (maxBlockSigops < nSigOps.toNat) ⟨"bad-blk-sigops", 100, true, false⟩

def checkTransactions (txs : List Transaction) : Except Reject Unit :=
  txs.foldlM (fun _ tx => (checkTransaction tx).mapError fun e =>
    { rejectReason := e.rejectReason, dos := e.dos }) ()

def checkBlock (env : CheckEnv) (header : BlockHeader) (blk : Block)
    (checkPow checkMerkleRoot checkSizeLimits : Bool) : Except Reject Unit := do
  checkBlockHeader env header checkPow
  if checkMerkleRoot then checkBlockMerkleRoot env header blk
  if checkSizeLimits then
    checkBlockSizeAndCoinbase blk
    checkTransactions blk.vtx
    checkBlockSigops blk

theorem checkBlock_sizeLimits {env : CheckEnv} {header : BlockHeader} {blk : Block}
    {checkPow checkMerkleRoot : Bool}
    (h : checkBlock env header blk checkPow checkMerkleRoot true = .ok ()) :
    checkBlockSizeAndCoinbase blk = .ok () ∧ (∀ tx ∈ blk.vtx, checkTransaction tx = .ok ()) ∧
      checkBlockSigops blk = .ok () := by
  unfold checkBlock at h
  obtain ⟨_, -, h⟩ := bind_eq_ok h
  have hlimits : (do
      checkBlockSizeAndCoinbase blk
      checkTransactions blk.vtx
      checkBlockSigops blk) = .ok () := by
    cases checkMerkleRoot with
    | false => exact h
    | true =>
      obtain ⟨_, -, h⟩ := bind_eq_ok h
      exact h
  obtain ⟨_, hsize, htxs⟩ := bind_eq_ok hlimits
  obtain ⟨_, htxs, hsigops⟩ := bind_eq_ok htxs
  refine ⟨hsize, fun tx hmem => ?_, hsigops⟩
  have hpassed := foldlM_unit_eq_ok_iff.mp htxs tx hmem
  -- the reject reason is passed on, so the check itself has to have passed
  cases htx : checkTransaction tx with
  | ok u => rfl
  | error e => rw [htx] at hpassed; cases hpassed

def permissiveEnv : CheckEnv where
  params := regtestParams
  blockHeaderGetHash := fun header => header.nNonce
  hashPair := fun a b => a + 2 * b
  equihashIsValidSolution := fun _ _ _ => true
  adjustedTime := 0

def easyHeader (merkleRoot nonce : UInt256) : BlockHeader where
  hashMerkleRoot := merkleRoot
  nBits := 0x200f0f0f
  nNonce := nonce
  nSolution := List.replicate 36 0

end ZClassic
