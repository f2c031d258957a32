import ZClassic.Consensus.ContextualCheck
import ZClassic.Primitives.TransactionWire

/-!
# The miner's coinbase

`domain/consensus/src/coinbase.c`, which shapes the coinbase of a block template, against what the
node checks of a coinbase: the height in its script, the version form of its epoch, and that it is
read back as it was written.
-/

namespace ZClassic

open List

/-- `enum domain_consensus_coinbase_err` for inputs that are there. -/
inductive CoinbaseErr where
  | negHeight
  | heightRange
  | negFees
  | negSubsidy
  | notPrealloc
  deriving DecidableEq

def dcbHeightMax : ℤ := 0x00FFFFFF

def heightByte (nHeight i : ℕ) : UInt8 := UInt8.ofNat ((nHeight >>> (8 * i)) &&& 0xff)

def dcbWriteHeightPrefix (nHeight : ℕ) : List UInt8 :=
  [0x03, heightByte nHeight 0, heightByte nHeight 1, heightByte nHeight 2]

def op0 : UInt8 := 0x00

def checkCoinbaseHeight (nHeight : ℤ) : Except CoinbaseErr Unit := do
  refuseIf (nHeight < 0) .negHeight
  refuseIf (dcbHeightMax < nHeight) .heightRange

def coinbaseScriptSig (nHeight : ℕ) (tail : List UInt8) (h : tail.length ≤ 5) : Script where
  data := dcbWriteHeightPrefix nHeight ++ tail
  size_le := by
    rw [length_append]
    change 4 + tail.length ≤ 10000
    omega

def coinbaseScriptSigPlaceholder (nHeight : ℤ) : Except CoinbaseErr Script := do
  checkCoinbaseHeight nHeight
  return coinbaseScriptSig nHeight.toNat [op0] (by decide)

/-- The loop over `en_len`: trailing zeros are dropped, but not the first byte. -/
def extraNonceLength (bytes : List UInt8) : ℕ → ℕ
  | 0 => 0
  | 1 => 1
  | n + 2 => if bytes.getD (n + 1) 0 = 0 then extraNonceLength bytes (n + 1) else n + 2

def extraNoncePush (extraNonce : UInt32) : List UInt8 :=
  let bytes := leBytes 4 extraNonce.toNat
  let len := extraNonceLength bytes 4
  UInt8.ofNat len :: bytes.take len

theorem extraNoncePush_length_le (extraNonce : UInt32) :
    (extraNoncePush extraNonce).length ≤ 5 := by
  rw [extraNoncePush, length_cons, length_take, leBytes_length]
  omega

def coinbaseScriptSigWithExtraNonce (nHeight : ℤ) (extraNonce : UInt32) :
    Except CoinbaseErr Script := do
  checkCoinbaseHeight nHeight
  return coinbaseScriptSig nHeight.toNat (extraNoncePush extraNonce)
    (extraNoncePush_length_le extraNonce)

structure CoinbaseInputs where
  nHeight : ℤ
  subsidy : Int64
  totalFees : Int64
  minerScript : Script
  params : ConsensusParams

def transactionAlloc (numVin numVout : ℕ) : WireTransaction where
  vin := replicate numVin { prevout := ⟨0, 0xffffffff⟩ }
  vout := replicate numVout { value := -1 }

def setEpochVersion (params : ConsensusParams) (nHeight : ℤ) (tx : WireTransaction) :
    WireTransaction :=
  if consensusNetworkUpgradeActive params nHeight .sapling then
    { tx with version := 4, versionGroupId := saplingVersionGroupId }
  else if consensusNetworkUpgradeActive params nHeight .overwinter then
    { tx with version := 3, versionGroupId := overwinterVersionGroupId }
  else tx

section Build

variable (hash256 : List UInt8 → UInt256)

def coinbaseBuild (input : CoinbaseInputs) (outTx : WireTransaction) :
    Except CoinbaseErr WireTransaction := do
  checkCoinbaseHeight input.nHeight
  refuseIf (input.totalFees < 0) .negFees
  refuseIf (input.subsidy < 0) .negSubsidy
  match outTx.vin, outTx.vout with
  | [i], [_] =>
    let scriptSig ← coinbaseScriptSigPlaceholder input.nHeight
    let shaped := { outTx with
      vin := [{ i with prevout := ⟨0, 0xffffffff⟩, scriptSig }]
      vout := [{ value := input.subsidy + input.totalFees, scriptPubKey := input.minerScript }] }
    return transactionComputeHash hash256
      { setEpochVersion input.params input.nHeight shaped with expiryHeight := 0 }
  | _, _ => .error .notPrealloc

/-- What `increment_extra_nonce` does to the coinbase of a template. -/
def setExtraNonce (nHeight : ℤ) (extraNonce : UInt32) (cb : WireTransaction) :
    Except CoinbaseErr WireTransaction := do
  let scriptSig ← coinbaseScriptSigWithExtraNonce nHeight extraNonce
  return transactionComputeHash hash256
    { cb with vin := cb.vin.modifyHead fun i => { i with scriptSig } }

def minerCoinbase (input : CoinbaseInputs) : Option UInt32 → Except CoinbaseErr WireTransaction
  | none => coinbaseBuild hash256 input (transactionAlloc 1 1)
  | some extraNonce => do
    let cb ← coinbaseBuild hash256 input (transactionAlloc 1 1)
    setExtraNonce hash256 input.nHeight extraNonce cb

end Build

theorem highBit_ofNat {v : ℕ} (h : v < 256) : (UInt8.ofNat v &&& 0x80 != 0) = decide (128 ≤ v) := by
  revert v
  decide +kernel

theorem heightDigits_zero (fuel : ℕ) : heightDigits fuel 0 = [] := by
  cases fuel <;> rfl

theorem heightDigits_succ (fuel : ℕ) {h : ℕ} (hpos : h ≠ 0) :
    heightDigits (fuel + 1) h = UInt8.ofNat (h &&& 0xff) :: heightDigits fuel (h >>> 8) :=
  if_neg hpos

theorem heightDigits_eq {n : ℕ} (hpos : 0 < n) (hlt : n < 2 ^ 24) :
    heightDigits 4 n =
      (dcbWriteHeightPrefix n).tail.take
        (if n < 2 ^ 8 then 1 else if n < 2 ^ 16 then 2 else 3) := by
  rw [heightDigits_succ 3 (by omega)]
  split_ifs with h1 h2
  · rw [show n >>> 8 = 0 by omega, heightDigits_zero]
    rfl
  · rw [heightDigits_succ 2 (by omega), ← Nat.shiftRight_add, show n >>> (8 + 8) = 0 by omega,
      heightDigits_zero]
    rfl
  · rw [heightDigits_succ 2 (by omega), ← Nat.shiftRight_add, heightDigits_succ 1 (by omega),
      ← Nat.shiftRight_add, show n >>> (8 + 8 + 8) = 0 by omega, heightDigits_zero]
    rfl

/-- The script number of a height has three bytes just when its highest one is used and is not
needed for the sign. -/
theorem heightPush_isPrefixOf {n : ℕ} (hpos : 0 < n) (hlt : n < 2 ^ 24) (tail : List UInt8) :
    (heightPush n).isPrefixOf (dcbWriteHeightPrefix n ++ tail) = true ↔
      2 ^ 15 ≤ n ∧ n < 2 ^ 23 := by
  have hmask : ∀ v, v &&& 0xff = v % 256 := fun v => Nat.and_two_pow_sub_one_eq_mod v 8
  have hbit : ∀ i, (heightByte n i &&& 0x80 != 0) = decide (128 ≤ (n >>> (8 * i)) % 256) := by
    intro i
    rw [heightByte, hmask]
    exact highBit_ofNat (Nat.mod_lt _ (by decide))
  unfold heightPush
  rw [heightDigits_eq hpos hlt]
  -- one case per number of digits; the highest digit decides whether a zero follows
  split_ifs with h1 h2
  · have htop : ([heightByte n 0].getLast?.any (· &&& 0x80 != 0)) = decide (128 ≤ n % 256) := hbit 0
    simp only [dcbWriteHeightPrefix, tail_cons, take_succ_cons, take_zero, htop]
    split_ifs <;> simp [isPrefixOf] <;> omega
  · have htop : ([heightByte n 0, heightByte n 1].getLast?.any (· &&& 0x80 != 0)) =
      decide (128 ≤ (n >>> 8) % 256) := hbit 1
    have hzero : heightByte n 2 = 0 := by
      rw [heightByte, show n >>> (8 * 2) = 0 by omega]
      rfl
    simp only [dcbWriteHeightPrefix, tail_cons, take_succ_cons, take_zero, htop]
    split_ifs <;> simp_all [isPrefixOf] <;> omega
  · have htop : ([heightByte n 0, heightByte n 1, heightByte n 2].getLast?.any (· &&& 0x80 != 0)) =
      decide (128 ≤ (n >>> 16) % 256) := hbit 2
    simp only [dcbWriteHeightPrefix, tail_cons, take_succ_cons, take_zero, htop]
    split_ifs <;> simp_all [isPrefixOf] <;> omega

def coinbaseWith (input : CoinbaseInputs) (scriptSig : Script) : WireTransaction :=
  setEpochVersion input.params input.nHeight
    { vin := [{ prevout := ⟨0, 0xffffffff⟩, scriptSig }]
      vout := [{ value := input.subsidy + input.totalFees, scriptPubKey := input.minerScript }] }

/-- The version fields a coinbase gets, with the state of the upgrades that chooses them. -/
inductive EpochVersion (params : ConsensusParams) (nHeight : ℤ) : Int32 → UInt32 → Prop
  | sprout (hover : consensusNetworkUpgradeActive params nHeight .overwinter = false)
      (hsapling : consensusNetworkUpgradeActive params nHeight .sapling = false) :
      EpochVersion params nHeight 1 0
  | overwinter (hover : consensusNetworkUpgradeActive params nHeight .overwinter = true)
      (hsapling : consensusNetworkUpgradeActive params nHeight .sapling = false) :
      EpochVersion params nHeight 3 overwinterVersionGroupId
  | sapling (hsapling : consensusNetworkUpgradeActive params nHeight .sapling = true) :
      EpochVersion params nHeight 4 saplingVersionGroupId

theorem coinbaseWith_eq (input : CoinbaseInputs) (scriptSig : Script) :
    ∃ version versionGroupId, EpochVersion input.params input.nHeight version versionGroupId ∧
      coinbaseWith input scriptSig =
        { version, versionGroupId
          vin := [{ prevout := ⟨0, 0xffffffff⟩, scriptSig }]
          vout := [⟨input.subsidy + input.totalFees, input.minerScript⟩] } := by
  unfold coinbaseWith setEpochVersion
  split_ifs with hsapling hover
  · exact ⟨_, _, .sapling hsapling, rfl⟩
  · exact ⟨_, _, .overwinter hover (Bool.eq_false_iff.mpr hsapling), rfl⟩
  · exact ⟨_, _, .sprout (Bool.eq_false_iff.mpr hover) (Bool.eq_false_iff.mpr hsapling), rfl⟩

section Build

variable (hash256 : List UInt8 → UInt256) {input : CoinbaseInputs} {n : ℕ}

theorem checkCoinbaseHeight_ok (hlt : n < 2 ^ 24) : checkCoinbaseHeight n = .ok () := by
  unfold checkCoinbaseHeight
  rw [refuseIf_bind_eq_ok, refuseIf_eq_ok_iff, dcbHeightMax]
  omega

theorem scriptSigPlaceholder_eq (hlt : n < 2 ^ 24) :
    coinbaseScriptSigPlaceholder n = .ok (coinbaseScriptSig n [op0] (by decide)) := by
  rw [coinbaseScriptSigPlaceholder, checkCoinbaseHeight_ok hlt]
  rfl

theorem scriptSigWithExtraNonce_eq (hlt : n < 2 ^ 24) (extraNonce : UInt32) :
    coinbaseScriptSigWithExtraNonce n extraNonce =
      .ok (coinbaseScriptSig n (extraNoncePush extraNonce)
        (extraNoncePush_length_le extraNonce)) := by
  rw [coinbaseScriptSigWithExtraNonce, checkCoinbaseHeight_ok hlt]
  rfl

section

variable (hheight : input.nHeight = n) (hlt : n < 2 ^ 24) (hfees : 0 ≤ input.totalFees)
  (hsubsidy : 0 ≤ input.subsidy)

include hheight hlt hfees hsubsidy

theorem coinbaseBuild_eq :
    coinbaseBuild hash256 input (transactionAlloc 1 1) =
      .ok (transactionComputeHash hash256
        (coinbaseWith input (coinbaseScriptSig n [op0] (by decide)))) := by
  have hexpiry : ∀ s, { coinbaseWith input s with expiryHeight := 0 } = coinbaseWith input s := by
    intro s
    obtain ⟨version, group, -, heq⟩ := coinbaseWith_eq input s
    rw [heq]
  rw [coinbaseBuild, hheight, checkCoinbaseHeight_ok hlt, ok_bind, refuseIf,
    if_neg (Int64.not_lt.mpr hfees), ok_bind, refuseIf, if_neg (Int64.not_lt.mpr hsubsidy), ok_bind,
    ← hexpiry, coinbaseWith, hheight]
  rw [scriptSigPlaceholder_eq hlt]
  rfl

theorem minerCoinbase_eq (extraNonce : Option UInt32) :
    ∃ (tail : List UInt8) (h : tail.length ≤ 5),
      minerCoinbase hash256 input extraNonce =
        .ok (transactionComputeHash hash256
          (coinbaseWith input (coinbaseScriptSig n tail h))) := by
  have hbuild := coinbaseBuild_eq hash256 hheight hlt hfees hsubsidy
  cases extraNonce with
  | none => exact ⟨_, _, hbuild⟩
  | some extraNonce =>
    refine ⟨extraNoncePush extraNonce, extraNoncePush_length_le extraNonce, ?_⟩
    change (coinbaseBuild hash256 input (transactionAlloc 1 1) >>= _) = _
    rw [hbuild, ok_bind, setExtraNonce, hheight, scriptSigWithExtraNonce_eq hlt, ok_bind]
    unfold coinbaseWith setEpochVersion
    split_ifs <;> rfl

end

structure AcceptableCoinbase (params : ConsensusParams) (nHeight : ℤ) (cb : WireTransaction) :
    Prop where
  height : bip34CheckCoinbaseHeight cb.toTransaction nHeight = true
  form : checkTransactionSaplingStructural params nHeight 100 cb.toTransaction = .ok ()
  roundTrip : (transactionDeserialize hash256).run (transactionSerialize cb) = some (cb, [])

theorem coinbaseWith_height (hpos : 0 < n) (hlt : n < 2 ^ 24) {tail : List UInt8}
    (h : tail.length ≤ 5) :
    bip34CheckCoinbaseHeight
        (transactionComputeHash hash256
          (coinbaseWith input (coinbaseScriptSig n tail h))).toTransaction n = true ↔
      2 ^ 15 ≤ n ∧ n < 2 ^ 23 := by
  obtain ⟨version, group, -, heq⟩ := coinbaseWith_eq input (coinbaseScriptSig n tail h)
  rw [heq, ← heightPush_isPrefixOf hpos hlt tail]
  have hpush : (decide ((n : ℤ) ≤ 16) && (0x03 : UInt8) == 0x50 + UInt8.ofNat (n : ℤ).toNat) =
      false := by
    have hsmall : ∀ m ≤ 16, ((0x03 : UInt8) == 0x50 + UInt8.ofNat m) = false := by decide
    by_cases hle : n ≤ 16
    · rw [Int.toNat_natCast, hsmall n hle, Bool.and_false]
    · rw [decide_eq_false (by omega), Bool.false_and]
  change (if (n : ℤ) ≤ 0 then true else _) = true ↔ _
  rw [if_neg (by omega)]
  change ((decide ((n : ℤ) ≤ 16) && (0x03 : UInt8) == 0x50 + UInt8.ofNat (n : ℤ).toNat) ||
    (heightPush (n : ℤ).toNat).isPrefixOf (dcbWriteHeightPrefix n ++ tail)) = true ↔ _
  rw [hpush, Bool.false_or, Int.toNat_natCast]

theorem coinbase_size_le (s : Script) (out : TxOut) (hash : UInt256) :
    transactionSerializeSize
        { vin := [{ prevout := ⟨0, 0xffffffff⟩, scriptSig := s }], vout := [out], hash } ≤
      maxTxSizeBeforeSapling := by
  have hin := compactSizeLength_le s.size
  have hout := compactSizeLength_le out.scriptPubKey.size
  have hscript : s.size ≤ 10000 := s.size_le
  have hpubkey : out.scriptPubKey.size ≤ 10000 := out.scriptPubKey.size_le
  change 4 + 0 + (1 + ((32 + 4 + compactSizeLength s.size + s.size + 4) + 0)) +
    (1 + ((8 + compactSizeLength out.scriptPubKey.size + out.scriptPubKey.size) + 0)) + 4 + 0 + 0 +
    0 + 0 ≤ 100000
  omega

theorem coinbaseWith_form (s : Script) (hheight : input.nHeight = n) :
    checkTransactionSaplingStructural input.params n 100
        (transactionComputeHash hash256 (coinbaseWith input s)).toTransaction = .ok () ↔
      consensusNetworkUpgradeActive input.params n .overwinter = false ∧
        consensusNetworkUpgradeActive input.params n .sapling = false := by
  obtain ⟨version, group, hepoch, heq⟩ := coinbaseWith_eq input s
  rw [heq]
  rw [hheight] at hepoch
  constructor
  · intro hok
    obtain ⟨-, hok⟩ := refuseIf_bind_eq_ok.mp hok
    obtain ⟨-, hok⟩ := refuseIf_bind_eq_ok.mp hok
    obtain ⟨_, hform, hok⟩ := bind_eq_ok hok
    obtain ⟨hover, -⟩ := refuseIf_bind_eq_ok.mp hok
    -- without the flag, the version that an active upgrade chose is refused
    cases hepoch with
    | sprout hinactive hsapling => exact ⟨hinactive, hsapling⟩
    | overwinter hactive _ => exact absurd ⟨hactive, rfl⟩ hover
    | sapling hactive =>
      rw [checkVersionForm, if_pos hactive] at hform
      obtain ⟨hflag, -⟩ := refuseIf_bind_eq_ok.mp hform
      exact absurd ⟨show (4 : Int32) ≤ 4 by decide, rfl⟩ hflag
  · rintro ⟨hover, hsapling⟩
    cases hepoch with
    | overwinter hactive => rw [hactive] at hover; cases hover
    | sapling hactive => rw [hactive] at hsapling; cases hsapling
    | sprout =>
      refine refuseIf_bind_eq_ok.mpr ⟨by omega, refuseIf_bind_eq_ok.mpr ⟨?_, ?_⟩⟩
      · rintro ⟨-, hflag⟩
        cases hflag
      · rw [checkVersionForm, if_neg (by rw [hsapling]; decide), if_neg (by rw [hover]; decide)]
        refine refuseIf_bind_eq_ok.mpr ⟨?_, refuseIf_eq_ok_iff.mpr ?_⟩
        · rintro ⟨hactive, -⟩
          rw [hover] at hactive
          cases hactive
        · rintro ⟨-, hsize⟩
          exact absurd hsize (not_lt.mpr (coinbase_size_le s _ _))

theorem coinbaseWith_roundTrip (s : Script) :
    (transactionDeserialize hash256).run
        (transactionSerialize (transactionComputeHash hash256 (coinbaseWith input s))) =
        some (transactionComputeHash hash256 (coinbaseWith input s), []) ↔
      consensusNetworkUpgradeActive input.params input.nHeight .overwinter = false ∧
        consensusNetworkUpgradeActive input.params input.nHeight .sapling = false := by
  obtain ⟨version, group, hepoch, heq⟩ := coinbaseWith_eq input s
  have hversion : 0 ≤ version := by cases hepoch <;> decide
  rw [heq]
  refine Iff.trans (transactionDeserialize_eq_self_iff hash256 (.of_transparent hversion rfl
    (show 1 ≤ maxTxInputs by decide) (show 1 ≤ maxTxOutputs by decide) rfl rfl rfl)) ?_
  constructor
  · intro hwritten
    -- without the flag, the version group is not written
    have hgroup : 0 = group := congrArg WireTransaction.versionGroupId hwritten
    cases hepoch with
    | sprout hover hsapling => exact ⟨hover, hsapling⟩
    | overwinter => exact absurd hgroup (by decide)
    | sapling => exact absurd hgroup (by decide)
  · rintro ⟨hover, hsapling⟩
    cases hepoch with
    | sprout => rfl
    | overwinter hactive => rw [hactive] at hover; cases hover
    | sapling hactive => rw [hactive] at hsapling; cases hsapling

/-- The miner's coinbase is acceptable to the node exactly at the heights whose script number has
three bytes, before Overwinter and Sapling. -/
theorem minerCoinbase_acceptable_iff (hheight : input.nHeight = n) (hpos : 1 ≤ n) (hlt : n < 2 ^ 24)
    (hsubsidy : moneyRange input.subsidy = true) (hfees : moneyRange input.totalFees = true)
    (extraNonce : Option UInt32) :
    ∃ cb, minerCoinbase hash256 input extraNonce = .ok cb ∧
      (AcceptableCoinbase hash256 input.params n cb ↔
        (2 ^ 15 ≤ n ∧ n < 2 ^ 23) ∧
          consensusNetworkUpgradeActive input.params n .overwinter = false ∧
          consensusNetworkUpgradeActive input.params n .sapling = false) := by
  have hsubsidy := (of_decide_eq_true hsubsidy).1
  have hfees := (of_decide_eq_true hfees).1
  obtain ⟨tail, h, hcb⟩ := minerCoinbase_eq hash256 hheight hlt hfees hsubsidy extraNonce
  refine ⟨_, hcb, ?_⟩
  constructor
  · intro hacc
    exact ⟨(coinbaseWith_height hash256 hpos hlt h).mp hacc.height,
      (coinbaseWith_form hash256 _ hheight).mp hacc.form⟩
  · rintro ⟨hrange, hinactive⟩
    refine ⟨(coinbaseWith_height hash256 hpos hlt h).mpr hrange,
      (coinbaseWith_form hash256 _ hheight).mpr hinactive, ?_⟩
    rw [← hheight] at hinactive
    exact (coinbaseWith_roundTrip hash256 _).mpr hinactive

end Build

def mainnetInput (nHeight : ℕ) : CoinbaseInputs where
  nHeight
  subsidy := 1250000000
  totalFees := 0
  minerScript := trueScript
  params := mainParams

theorem earlyCoinbase_acceptable :
    ∃ cb, minerCoinbase (fun _ => 0) (mainnetInput 100000) (some 7) = .ok cb ∧
      AcceptableCoinbase (fun _ => 0) mainParams (100000 : ℕ) cb := by
  have hheight : (mainnetInput 100000).nHeight = (100000 : ℕ) := rfl
  obtain ⟨cb, hcb, hiff⟩ := minerCoinbase_acceptable_iff (fun _ => 0) hheight (by decide)
    (by decide) (by decide) (by decide) (some 7)
  exact ⟨cb, hcb, hiff.mpr (by decide)⟩

/-- Height 100 is pushed with two bytes too many. At height 500000 the transaction says version 4
without the flag: it is refused, and it is read back without its version group. -/
theorem mainnetCoinbase_refused :
    (∃ cb, minerCoinbase (fun _ => 0) (mainnetInput 100) none = .ok cb ∧
      bip34CheckCoinbaseHeight cb.toTransaction (100 : ℕ) = false) ∧
    ∃ cb, minerCoinbase (fun _ => 0) (mainnetInput 500000) none = .ok cb ∧
      checkTransactionSaplingStructural mainParams (500000 : ℕ) 100 cb.toTransaction =
        .error (invalid "tx-overwintered-flag-not-set" 100) ∧
      (transactionDeserialize fun _ => 0).run (transactionSerialize cb) ≠ some (cb, []) := by
  have hfees : (0 : Int64) ≤ 0 := by decide
  have hsubsidy : (0 : Int64) ≤ 1250000000 := by decide
  refine ⟨⟨_, coinbaseBuild_eq _ rfl (by decide) hfees hsubsidy, by decide⟩,
    _, coinbaseBuild_eq _ rfl (by decide) hfees hsubsidy, by decide, ?_⟩
  exact fun hread => absurd ((coinbaseWith_roundTrip (fun _ => 0) _).mp hread).1 (by decide)

end ZClassic
