import ZClassic.Jobs.UtxoApplyDeltaSpec

/-!
# The production lookup

`projection_live_lookup` reads a whole transaction record off the coin table and picks one output
from it.
-/

namespace ZClassic

def projectionLiveLookup (S : CoinSet) : UtxoApplyLookupFn := fun op =>
  match coinsKvGetCoins S op.hash with
  | none => some {}
  | some c =>
    match coinsOutput c op.n.toNat with
    | none => some {}
    | some o =>
      if utxoApplyScriptMax < o.scriptPubKey.size then none
      else some
        { found := true
          value := o.value
          height := if c.height < 0 then 0 else c.height.toUInt32
          isCoinbase := c.isCoinbase
          script := o.scriptPubKey.data }

/-- Coins of one transaction share height and coinbase flag, and every row is one that the table's
readers return unchanged. -/
structure RegularCoins (S : CoinSet) : Prop where
  shared : ∀ op op' c c', S.lookup op = some c → S.lookup op' = some c' → op.hash = op'.hash →
    c.height = c'.height ∧ c.isCoinbase = c'.isCoinbase
  script_le : ∀ op c, S.lookup op = some c → c.script.length ≤ maxScriptSize
  height_nonneg : ∀ op c, S.lookup op = some c → 0 ≤ c.height
  value_ne : ∀ op c, S.lookup op = some c → c.value ≠ -1
  index_ne : ∀ op c, S.lookup op = some c → op.n ≠ 0xffffffff

variable {S : CoinSet} {n : UInt32}

theorem UInt32.toNat_lt_of_ne_max (h : n ≠ 0xffffffff) : n.toNat + 1 < 2 ^ 32 := by
  have hlt := n.toNat_lt
  have hne : n.toNat ≠ 2 ^ 32 - 1 := fun he => h (UInt32.toNat_inj.mp he)
  omega

theorem RegularCoins.numVout (h : RegularCoins S) (txid : UInt256) :
    ((coinsKvVouts S txid).sup UInt32.toNat + 1) % 2 ^ 32 =
      (coinsKvVouts S txid).sup UInt32.toNat + 1 := by
  refine Nat.mod_eq_of_lt ?_
  suffices (coinsKvVouts S txid).sup UInt32.toNat < 2 ^ 32 - 1 by omega
  refine (Finset.sup_lt_iff (by norm_num)).mpr fun n hn => ?_
  obtain ⟨c, hc⟩ := Finmap.mem_iff.mp (mem_coinsKvVouts.mp hn)
  have hlt : n.toNat + 1 < 2 ^ 32 := UInt32.toNat_lt_of_ne_max (h.index_ne _ c hc)
  omega

variable {txid : UInt256} {rec : Coins}

theorem RegularCoins.getCoins (h : RegularCoins S)
    (hrec : coinsKvGetCoins S txid = some rec) (n : UInt32) :
    coinsOutput rec n.toNat = (S.lookup ⟨txid, n⟩).map fun c =>
      { value := c.value, scriptPubKey := Script.truncate c.script } := by
  unfold coinsKvGetCoins at hrec
  split at hrec
  · cases hrec
  split at hrec
  · cases hrec
  cases hrec
  rw [coinsOutput_coinsCleanup, coinsOutput, h.numVout, List.getElem?_map]
  have hn : S.lookup ⟨txid, UInt32.ofNat n.toNat⟩ = S.lookup ⟨txid, n⟩ := by
    rw [UInt32.ofNat_toNat]
  cases hc : S.lookup ⟨txid, n⟩ with
  | some c =>
    have hmem : n ∈ coinsKvVouts S txid := mem_coinsKvVouts.mpr (Finmap.mem_of_lookup_eq_some hc)
    have hle : n.toNat ≤ (coinsKvVouts S txid).sup UInt32.toNat := Finset.le_sup hmem
    rw [List.getElem?_range (by omega)]
    have hnull : txOutIsNull
        { value := c.value, scriptPubKey := Script.truncate c.script } = false := by
      simpa [txOutIsNull] using h.value_ne _ c hc
    simp only [Option.map_some, hn, hc]
    simp [hnull]
  | none =>
    by_cases hlt : n.toNat < (coinsKvVouts S txid).sup UInt32.toNat + 1
    · rw [List.getElem?_range hlt]
      simp only [Option.map_some, hn, hc]
      rfl
    · simp [hlt]

theorem coinsKvGetCoins_eq_none (h : coinsKvGetCoins S txid = none) (n : UInt32) :
    S.lookup ⟨txid, n⟩ = none := by
  unfold coinsKvGetCoins at h
  split at h
  · next hfirst => exact Finmap.lookup_eq_none.mpr (coinsKvFirstVout_eq_none hfirst n)
  · next first hfirst =>
    obtain ⟨c, hc⟩ := Finmap.mem_iff.mp (coinsKvFirstVout_mem hfirst)
    rw [hc] at h
    cases h

theorem RegularCoins.getCoins_shared (h : RegularCoins S)
    (hrec : coinsKvGetCoins S txid = some rec) {c : Coin} (hc : S.lookup ⟨txid, n⟩ = some c) :
    rec.height = c.height ∧ rec.isCoinbase = c.isCoinbase := by
  unfold coinsKvGetCoins at hrec
  split at hrec
  · cases hrec
  split at hrec
  · cases hrec
  next row hrow =>
  cases hrec
  exact h.shared _ _ row c hrow hc rfl

theorem projectionLiveLookup_regular (h : RegularCoins S) :
    projectionLiveLookup S = coinLookup S := by
  funext op
  unfold projectionLiveLookup coinLookup
  cases hrec : coinsKvGetCoins S op.hash with
  | none =>
    rw [coinsKvGetCoins_eq_none hrec op.n]
  | some rec =>
    dsimp only
    rw [h.getCoins hrec op.n]
    cases hc : S.lookup op with
    | none => rfl
    | some c =>
      obtain ⟨hheight, hcb⟩ := h.getCoins_shared hrec hc
      have hpos : ¬c.height < 0 := Int32.not_lt.mpr (h.height_nonneg op c hc)
      have hscript : c.script.take maxScriptSize = c.script :=
        List.take_of_length_le (h.script_le op c hc)
      have hsize : ¬utxoApplyScriptMax < (Script.truncate c.script).size := by
        have := (Script.truncate c.script).size_le
        unfold Script.size utxoApplyScriptMax
        unfold maxScriptSize at this
        omega
      simp only [Option.map_some, if_neg hsize, hheight, hcb, if_neg hpos]
      simp only [Script.truncate, hscript]

theorem liveLookup_reportsCoins (h : RegularCoins S) :
    ReportsCoins (projectionLiveLookup S) S :=
  projectionLiveLookup_regular h ▸ coinLookup_reportsCoins S

end ZClassic
