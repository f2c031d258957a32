import Mathlib.Order.Lattice.Nat
import Mathlib.Data.Finset.Max
import ZClassic.Lib.Table
import ZClassic.Coins.Coins

/-!
# The coin table

The `coins` table of the progress store (`lib/storage/src/coins_kv.c`): one row for each unspent
output, keyed by outpoint.
-/

namespace ZClassic

structure Coin where
  value : Int64
  height : Int32 := 0
  isCoinbase : Bool := false
  script : List UInt8 := []
  deriving DecidableEq

abbrev CoinSet := Table Outpoint Coin

def coinsKvAdd (S : CoinSet) (op : Outpoint) (c : Coin) : CoinSet := S.insert op c

def coinsKvSpend (S : CoinSet) (op : Outpoint) : CoinSet := S.erase op

def coinsKvVouts (S : CoinSet) (txid : UInt256) : Finset UInt32 :=
  (S.keys.filter fun op => op.hash = txid).image fun op => op.n

/-- The row a scan by txid meets first. The index is stored as an `int`, so the primary key
orders it as a signed number. -/
def coinsKvFirstVout (S : CoinSet) (txid : UInt256) : Option UInt32 :=
  if h : (coinsKvVouts S txid).Nonempty then
    some (Int32.ofInt (((coinsKvVouts S txid).image fun n => n.toInt32.toInt).min'
      (h.image _))).toUInt32
  else none

def Script.truncate (bytes : List UInt8) : Script where
  data := bytes.take maxScriptSize
  size_le := List.length_take_le _ _

/-- `coins_kv_get_coins`: height and coinbase flag come from the first row; the array is sized by
the largest index in `uint32_t` arithmetic. -/
def coinsKvGetCoins (S : CoinSet) (txid : UInt256) : Option Coins :=
  match coinsKvFirstVout S txid with
  | none => none
  | some first =>
    match S.lookup ⟨txid, first⟩ with
    | none => none
    | some row =>
      let numVout := ((coinsKvVouts S txid).sup UInt32.toNat + 1) % 2 ^ 32
      some <| coinsCleanup {
        isCoinbase := row.isCoinbase
        height := row.height
        version := 1
        vout := (List.range numVout).map fun i =>
          match S.lookup ⟨txid, UInt32.ofNat i⟩ with
          | none => txOutNull
          | some c => { value := c.value, scriptPubKey := Script.truncate c.script } }

variable {S : CoinSet} {txid : UInt256} {n : UInt32}

theorem mem_coinsKvVouts : n ∈ coinsKvVouts S txid ↔ ⟨txid, n⟩ ∈ S := by
  simp only [coinsKvVouts, Finset.mem_image, Finset.mem_filter, Finmap.mem_keys]
  constructor
  · rintro ⟨⟨h, m⟩, ⟨hmem, rfl⟩, rfl⟩
    exact hmem
  · intro h
    exact ⟨⟨txid, n⟩, ⟨h, rfl⟩, rfl⟩

theorem coinsKvFirstVout_mem (h : coinsKvFirstVout S txid = some n) : ⟨txid, n⟩ ∈ S := by
  unfold coinsKvFirstVout at h
  split at h
  · next hne =>
    obtain ⟨m, hm, hmin⟩ :=
      Finset.mem_image.mp (Finset.min'_mem _ (hne.image fun n => n.toInt32.toInt))
    rw [← hmin, Option.some.injEq] at h
    have hnm : n = m := by rw [← h]; simp
    exact hnm ▸ mem_coinsKvVouts.mp hm
  · cases h

theorem coinsKvFirstVout_eq_none
    (h : coinsKvFirstVout S txid = none) (n : UInt32) : ⟨txid, n⟩ ∉ S := by
  unfold coinsKvFirstVout at h
  split at h
  · cases h
  · next hne =>
    rw [Finset.not_nonempty_iff_eq_empty] at hne
    rw [← mem_coinsKvVouts, hne]
    exact Finset.notMem_empty n

end ZClassic
