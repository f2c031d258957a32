import ZClassic.Chain.Mmb
import ZClassic.Chain.Pow
import ZClassic.Lib.ByteStream

/-!
# FlyClient responses

The challenge and the response of `lib/net/src/flyclient.c`, their wire format, and the check of a
response against its challenge.
-/

namespace ZClassic

def fcNumSamples : ℕ := 50

def fcMaxSamples : ℕ := 64

structure FcChallenge where
  seed : UInt256 := 0
  chainLength : UInt64 := 0
  mmbRoot : UInt256 := 0
  deriving DecidableEq

structure FcSample where
  leaf : MmbLeaf
  proof : MmbProof

structure FcResponse where
  samples : List FcSample

structure FlyClientEnv where
  /-- the `i`-th height that `fc_generate_indices` draws from a seed and a chain length -/
  fcIndex : UInt256 → UInt64 → ℕ → UInt64
  mmbHashLeaf : MmbLeaf → UInt256
  mmbVerify : MmbProof → UInt256 → Bool

/-- A list that is preceded by its length, of at most `mmbMaxMountains` hashes. -/
def readHashes : Reader (List UInt256) := do
  let n ← readU32
  guard (n.toNat ≤ mmbMaxMountains)
  readMany readU256 n.toNat

def readSample : Reader FcSample := do
  let blockHash ← readU256
  let height ← readU32
  let timestamp ← readU32
  let nBits ← readU32
  let saplingRoot ← readU256
  let chainWork ← readU256
  let leafIndex ← readU64
  let leafHash ← readU256
  let siblings ← readHashes
  let peaks ← readHashes
  let mmbSize ← readU64
  return {
    leaf := ⟨blockHash, height, timestamp, nBits, saplingRoot, chainWork⟩
    proof := ⟨leafIndex, leafHash, siblings, peaks, mmbSize⟩ }

/-- Bytes after the last sample are ignored. -/
def snapsyncParseFcResponse (bytes : List UInt8) : Option FcResponse :=
  StateT.run' (do
    let n ← readU32
    guard (n ≠ 0 ∧ n.toNat ≤ fcMaxSamples)
    let samples ← readMany readSample n.toNat
    return ⟨samples⟩) bytes

section Verify

variable (env : FlyClientEnv)

def fcGenerateIndices (seed : UInt256) (chainLength : UInt64) : List UInt64 :=
  let count := min (min fcNumSamples chainLength.toNat) fcMaxSamples
  (List.range count).map (env.fcIndex seed chainLength)

def fcCheckPow (blockHash : UInt256) (nBits : UInt32) : Bool :=
  let t := arithUint256SetCompact nBits
  !t.unusable && decide (blockHash ≤ t.target)

def fcVerifySample (sample : FcSample) (mmbRoot : UInt256) : Bool :=
  env.mmbHashLeaf sample.leaf == sample.proof.leafHash && env.mmbVerify sample.proof mmbRoot

/-- The sample is for the expected index, and its proofs hold. -/
def fcSampleValid (challenge : FcChallenge) (expected : UInt64) (sample : FcSample) : Bool :=
  sample.proof.leafIndex == expected && sample.leaf.height == expected.toUInt32 &&
    fcVerifySample env sample challenge.mmbRoot &&
      fcCheckPow sample.leaf.blockHash sample.leaf.nBits

def fcVerifyResponse (resp : FcResponse) (challenge : FcChallenge) : Bool :=
  let expected := fcGenerateIndices env challenge.seed challenge.chainLength
  let valid := (expected.zip resp.samples).countP fun p => fcSampleValid env challenge p.1 p.2
  resp.samples.length != 0 && resp.samples.length == expected.length && valid == resp.samples.length

end Verify

end ZClassic
