import Mathlib.Data.Vector.Defs
import ZClassic.Lib.Int64

/-!
# Transactions and blocks

The data of `lib/primitives` that the reducer reads, and the two value helpers of `transaction.c`.
-/

namespace ZClassic

open List hiding Vector

abbrev UInt256 := BitVec 256

def uint256IsNull (h : UInt256) : Bool := h == 0

def coin : Int64 := 100000000

def maxMoney : Int64 := 21000000 * coin

def moneyRange (nValue : Int64) : Bool := decide (0 ≤ nValue ∧ nValue ≤ maxMoney)

def coinbaseMaturity : ℤ := 100

def maxScriptSize : ℕ := 10000

theorem nil_length_le : ([] : List UInt8).length ≤ maxScriptSize := Nat.zero_le _

/-- `struct script`: a byte buffer of at most `MAX_SCRIPT_SIZE` bytes. -/
structure Script where
  data : List UInt8
  size_le : data.length ≤ maxScriptSize := by first | exact nil_length_le | decide
  deriving DecidableEq

def Script.size (s : Script) : ℕ := s.data.length

def opReturn : UInt8 := 0x6a

def scriptIsUnspendable (s : Script) : Bool :=
  s.data.head? == some opReturn || decide (maxScriptSize < s.size)

structure Outpoint where
  hash : UInt256
  n : UInt32
  deriving DecidableEq

def outpointIsNull (op : Outpoint) : Bool := uint256IsNull op.hash && op.n == 0xffffffff

structure TxIn where
  prevout : Outpoint
  scriptSig : Script := { data := [] }
  sequence : UInt32 := 0xffffffff
  deriving DecidableEq

structure TxOut where
  value : Int64
  scriptPubKey : Script := { data := [] }
  deriving DecidableEq

def txOutIsNull (out : TxOut) : Bool := out.value == -1

def maxTxInputs : ℕ := 65536

def maxTxOutputs : ℕ := 65536

structure SpendDescription where
  anchor : UInt256 := 0
  nullifier : UInt256
  deriving DecidableEq

structure OutputDescription where
  cm : UInt256 := 0
  deriving DecidableEq

structure JsDescription where
  vpubOld : Int64 := 0
  vpubNew : Int64 := 0
  anchor : UInt256 := 0
  nullifiers : Vector UInt256 2
  commitments : Vector UInt256 2 := .replicate 2 0
  useGroth : Bool := true
  deriving DecidableEq

structure Transaction where
  overwintered : Bool := false
  version : Int32 := 1
  versionGroupId : UInt32 := 0
  vin : List TxIn := []
  vout : List TxOut := []
  lockTime : UInt32 := 0
  expiryHeight : UInt32 := 0
  valueBalance : Int64 := 0
  vShieldedSpend : List SpendDescription := []
  vShieldedOutput : List OutputDescription := []
  vJoinsplit : List JsDescription := []
  hash : UInt256
  deriving DecidableEq

def maxBlockSize : ℕ := 2000000

structure Block where
  vtx : List Transaction
  deriving DecidableEq

section

variable (tx : Transaction)

def transactionIsCoinbase : Bool :=
  match tx.vin with
  | [i] => outpointIsNull i.prevout
  | _ => false

/-- The nullifiers a transaction reveals, in the order of its descriptions. -/
def txSproutNullifiers : List UInt256 :=
  tx.vJoinsplit.flatMap fun js => js.nullifiers.toList

def txSaplingNullifiers : List UInt256 := tx.vShieldedSpend.map (·.nullifier)

/-- One guarded addition of `transaction_get_value_out`: the addend and the new total must both
be in money range. -/
def addMoney (total : Accum) (x : Int64) : Option Accum :=
  let total' := total.add x
  if moneyRange x && moneyRange total'.val then some total' else none

def addMoneyAll (total : Accum) (xs : List Int64) : Option Accum :=
  xs.foldlM addMoney total

/-- Both helpers return the total of their addends, or −1 from the first one out of range. -/
def moneySum (xs : List Int64) : Int64 :=
  match addMoneyAll {} xs with
  | some total => total.val
  | none => -1

theorem moneyRange_iff {x : Int64} :
    moneyRange x = true ↔ 0 ≤ x.toInt ∧ x.toInt ≤ 2100000000000000 := by
  rw [moneyRange, decide_eq_true_iff, Int64.le_iff_toInt_le, Int64.le_iff_toInt_le]
  exact Iff.rfl

theorem addMoney_some {a b : Accum} {x : Int64} (ha : moneyRange a.val = true)
    (h : addMoney a x = some b) :
    0 ≤ x.toInt ∧ moneyRange b.val = true ∧ b.val.toInt = a.val.toInt + x.toInt ∧
      b.overflowed = a.overflowed := by
  unfold addMoney at h
  dsimp only at h
  split_ifs at h with hrange
  rw [Bool.and_eq_true] at hrange
  cases h
  have hx := moneyRange_iff.mp hrange.1
  have hval := moneyRange_iff.mp ha
  have hfits : addOverflows a.val x = false := by
    rw [addOverflows_eq_false]
    omega
  refine ⟨hx.1, hrange.2, toInt_add_of_fits hfits, ?_⟩
  simp [Accum.add, hfits]

variable {xs : List Int64}

theorem addMoneyAll_some {a b : Accum} (ha : moneyRange a.val = true)
    (h : addMoneyAll a xs = some b) :
    (∀ x ∈ xs, 0 ≤ x.toInt) ∧ moneyRange b.val = true ∧ b.val.toInt = a.val.toInt + intSum xs ∧
      b.overflowed = a.overflowed := by
  induction xs generalizing a with
  | nil =>
    cases h
    simp [ha]
  | cons x xs ih =>
    rw [addMoneyAll, foldlM_cons, Option.bind_eq_bind, Option.bind_eq_some_iff] at h
    obtain ⟨c, hc, h⟩ := h
    obtain ⟨hx, hrange, hval, hover⟩ := addMoney_some ha hc
    obtain ⟨hxs, hrange', hval', hover'⟩ := ih hrange h
    refine ⟨?_, hrange', ?_, hover'.trans hover⟩
    · intro y hy
      rcases mem_cons.mp hy with rfl | hy
      · exact hx
      · exact hxs y hy
    · rw [hval', hval, intSum_cons]
      omega

/-- The addends of `transaction_get_value_out`, in the order in which it adds them. -/
def valueOutTerms : List Int64 :=
  tx.vout.map (·.value)
    ++ (if tx.valueBalance ≤ 0 then [-tx.valueBalance] else [])
    ++ tx.vJoinsplit.map (·.vpubOld)

def transactionGetValueOut : Int64 :=
  moneySum (valueOutTerms tx)

def shieldedValueInTerms : List Int64 :=
  (if 0 ≤ tx.valueBalance then [tx.valueBalance] else []) ++ tx.vJoinsplit.map (·.vpubNew)

def transactionGetShieldedValueIn : Int64 :=
  moneySum (shieldedValueInTerms tx)

/-- The guarded sum of these addends succeeds, and no partial total overflows. -/
def SumsExactly (xs : List Int64) : Prop := ∃ a, addMoneyAll {} xs = some a ∧ a.overflowed = false

theorem moneySum_nonneg (h : 0 ≤ (moneySum xs).toInt) :
    SumsExactly xs ∧ (∀ x ∈ xs, 0 ≤ x.toInt) ∧ (moneySum xs).toInt = intSum xs := by
  unfold moneySum at h ⊢
  cases hsum : addMoneyAll {} xs with
  | none =>
    rw [hsum] at h
    exact absurd h (by decide)
  | some a =>
    obtain ⟨hxs, -, hval, hover⟩ := addMoneyAll_some (by decide) hsum
    refine ⟨⟨a, hsum, hover⟩, hxs, ?_⟩
    dsimp only
    rw [hval]
    exact zero_add _

/-- What a transaction takes out of the shielded pools, less what it puts in. -/
def shieldedFlow : ℤ :=
  max 0 tx.valueBalance.toInt + intSum (tx.vJoinsplit.map (·.vpubNew))
    - max 0 (-tx.valueBalance.toInt) - intSum (tx.vJoinsplit.map (·.vpubOld))

end

variable {tx : Transaction}

theorem shieldedValueIn_nonneg (h : 0 ≤ (transactionGetShieldedValueIn tx).toInt) :
    SumsExactly (shieldedValueInTerms tx) ∧
      (transactionGetShieldedValueIn tx).toInt =
        max 0 tx.valueBalance.toInt + intSum (tx.vJoinsplit.map (·.vpubNew)) := by
  obtain ⟨hsum, -, hval⟩ := moneySum_nonneg h
  refine ⟨hsum, ?_⟩
  rw [transactionGetShieldedValueIn, hval, shieldedValueInTerms, intSum_append]
  congr 1
  split_ifs with hvb
  · have hvb : 0 ≤ tx.valueBalance.toInt := Int64.le_iff_toInt_le.mp hvb
    rw [intSum_cons, intSum_nil]
    omega
  · have hvb : ¬ 0 ≤ tx.valueBalance.toInt := fun h => hvb (Int64.le_iff_toInt_le.mpr h)
    rw [intSum_nil]
    omega

theorem valueOut_nonneg (h : 0 ≤ (transactionGetValueOut tx).toInt) :
    SumsExactly (valueOutTerms tx) ∧ (∀ out ∈ tx.vout, 0 ≤ out.value.toInt) ∧
      0 ≤ intSum (tx.vJoinsplit.map (·.vpubOld)) ∧
      (transactionGetValueOut tx).toInt = intSum (tx.vout.map (·.value))
        + max 0 (-tx.valueBalance.toInt) + intSum (tx.vJoinsplit.map (·.vpubOld)) := by
  obtain ⟨hsum, hterms, hval⟩ := moneySum_nonneg h
  have hmem : ∀ x, x ∈ tx.vout.map (·.value) ∨ x ∈ tx.vJoinsplit.map (·.vpubOld) → 0 ≤ x.toInt := by
    intro x hx
    apply hterms x
    rw [valueOutTerms, mem_append, mem_append]
    exact hx.elim (fun hx => .inl (.inl hx)) .inr
  refine ⟨hsum, ?_, ?_, ?_⟩
  · intro out hout
    exact hmem _ (.inl (mem_map_of_mem hout))
  · exact intSum_nonneg fun x hx => hmem x (.inr hx)
  · rw [transactionGetValueOut, hval, valueOutTerms, intSum_append, intSum_append]
    congr 2
    split_ifs with hvb
    · -- negating the least value wraps onto itself, and the sum rejects it
      have hvb' : tx.valueBalance.toInt ≤ 0 := Int64.le_iff_toInt_le.mp hvb
      have hneg : 0 ≤ (-tx.valueBalance).toInt := by
        apply hterms
        simp [valueOutTerms, hvb]
      have hexact : (-tx.valueBalance).toInt = -tx.valueBalance.toInt := by
        have hlow := tx.valueBalance.le_toInt
        rw [Int64.toInt_neg] at hneg ⊢
        by_cases hmin : tx.valueBalance.toInt = -2 ^ 63
        · rw [hmin] at hneg
          exact absurd hneg (by decide)
        · exact bmod_eq_self (by omega) (by omega)
      rw [intSum_cons, intSum_nil, hexact]
      omega
    · have hvb : ¬ tx.valueBalance.toInt ≤ 0 := fun h => hvb (Int64.le_iff_toInt_le.mpr h)
      rw [intSum_nil]
      omega

def nullOutpoint : Outpoint := ⟨0, 0xffffffff⟩

def emptyCoinbase (hash : UInt256) : Transaction where
  vin := [{ prevout := nullOutpoint }]
  hash

def zeroCoinbase (hash : UInt256) : Transaction where
  vin := [{ prevout := nullOutpoint, scriptSig := { data := [1, 0] } }]
  vout := [{ value := 0 }]
  hash

def twoNullifiers : Vector UInt256 2 := #v[5, 6]

def moveCoin (op : Outpoint) (value : Int64) (hash : UInt256) : Transaction where
  vin := [{ prevout := op }]
  vout := [{ value }]
  hash

end ZClassic
