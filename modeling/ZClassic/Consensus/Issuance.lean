import Mathlib.Algebra.Order.Ring.GeomSum
import Mathlib.Tactic.IntervalCases
import ZClassic.Consensus.Subsidy

/-!
# Issuance on the main network

All the subsidies of the main network together are below `MAX_MONEY`.
-/

namespace ZClassic

open Finset Nat

section Periods

variable {period : ℕ} (hperiod : 0 < period)

include hperiod

theorem sum_periods (g : ℕ → ℕ) (periods : ℕ) :
    ∑ i ∈ range (period * periods), g (i / period) = period * ∑ j ∈ range periods, g j := by
  induction periods with
  | zero => simp
  | succ periods ih =>
    have hlast : ∀ i ∈ range period, g ((period * periods + i) / period) = g periods := by
      intro i hi
      rw [mul_add_div hperiod, div_eq_of_lt (mem_range.mp hi), add_zero]
    rw [mul_succ, sum_range_add, ih, sum_congr rfl hlast, sum_const, card_range, sum_range_succ,
      mul_add]
    rfl

theorem sum_halvings_le (full n : ℕ) :
    ∑ i ∈ range n, full / 2 ^ (i / period) ≤ period * (2 * full) := by
  have hcover : n ≤ period * (n / period + 1) := (lt_mul_div_succ n hperiod).le
  have hseries : ∑ j ∈ range (n / period + 1), full / 2 ^ j ≤ 2 * full := by
    have h := geom_sum_le (b := 2) (by omega) full (n / period + 1)
    omega
  calc ∑ i ∈ range n, full / 2 ^ (i / period)
      ≤ ∑ i ∈ range (period * (n / period + 1)), full / 2 ^ (i / period) :=
        sum_le_sum_of_subset (range_mono hcover)
    _ = period * ∑ j ∈ range (n / period + 1), full / 2 ^ j :=
        sum_periods hperiod (fun j => full / 2 ^ j) (n / period + 1)
    _ ≤ period * (2 * full) := mul_le_mul_left period hseries

end Periods

def fullSubsidy : ℕ := 1250000000

def buttercupHeight : ℕ := 707000

/-- The subsidies by height, with the first Buttercup period one block longer than the others. -/
def mainSubsidy (height : ℕ) : ℕ :=
  if height = 0 then 0
  else if height < buttercupHeight then fullSubsidy
  else fullSubsidy / 16 / 2 ^ ((height - (buttercupHeight + 1)) / 1680000)

theorem upgradeActive_buttercup (height : ℕ) :
    consensusNetworkUpgradeActive mainParams height .buttercup =
      decide (buttercupHeight ≤ height) := by
  have hactivation : mainParams.nActivationHeight .buttercup = 707000 := rfl
  have hset : (707000 : ℤ) ≠ networkUpgradeNoActivation := by decide
  simp only [consensusNetworkUpgradeActive, consensusUpgradeState, hactivation, if_neg hset]
  by_cases h : buttercupHeight ≤ height
  · have hint : (707000 : ℤ) ≤ height := by exact_mod_cast h
    rw [if_pos hint, decide_eq_true h]
    rfl
  · have hint : ¬(707000 : ℤ) ≤ height := by exact_mod_cast h
    rw [if_neg hint, decide_eq_false h]
    rfl

variable {height : ℕ}

theorem consensusHalving_main_before (h : height < buttercupHeight) :
    consensusHalving mainParams height = 0 := by
  have hshift : consensusSubsidySlowStartShift mainParams = 1 := rfl
  have hinterval : mainParams.nPreButtercupSubsidyHalvingInterval = 840000 := rfl
  rw [consensusHalving, upgradeActive_buttercup, decide_eq_false (by omega), hshift, hinterval]
  unfold buttercupHeight at h
  change ((height : ℤ) - 1).tdiv 840000 = 0
  rcases Nat.eq_zero_or_pos height with rfl | hpos
  · rfl
  · exact Int.tdiv_eq_zero_of_lt (by omega) (by omega)

theorem consensusHalving_main_after (h : buttercupHeight ≤ height) :
    consensusHalving mainParams height = ((height - (buttercupHeight + 1)) / 1680000 + 3 : ℕ) := by
  have hshift : consensusSubsidySlowStartShift mainParams = 1 := rfl
  have hinterval : mainParams.nPostButtercupSubsidyHalvingInterval = 1680000 := rfl
  have hactivation : mainParams.nActivationHeight .buttercup = 707000 := rfl
  rw [consensusHalving, upgradeActive_buttercup, decide_eq_true h, hshift,
    hinterval, hactivation, if_pos rfl]
  unfold buttercupHeight at h ⊢
  rcases eq_or_lt_of_le h with rfl | hlt
  · rfl
  · rw [Int.tdiv_eq_ediv_of_nonneg (by omega)]
    omega

theorem toInt_ofInt_small {x : ℕ} (h : x ≤ fullSubsidy) : (Int64.ofInt x).toInt = x := by
  unfold fullSubsidy at h
  rw [Int64.toInt_ofInt]
  exact bmod_eq_self (by omega) (by omega)

theorem mainSubsidy_le (height : ℕ) : mainSubsidy height ≤ fullSubsidy := by
  unfold mainSubsidy
  split_ifs
  · exact zero_le _
  · exact le_rfl
  · exact (div_le_self ..).trans (div_le_self ..)

theorem mainSubsidy_after (h : buttercupHeight ≤ height) :
    mainSubsidy height = 625000000 / 2 ^ ((height - (buttercupHeight + 1)) / 1680000 + 3) := by
  have hpos : height ≠ 0 := by unfold buttercupHeight at h; omega
  rw [mainSubsidy, if_neg hpos, if_neg (by omega), pow_add, Nat.mul_comm, ← Nat.div_div_eq_div_mul]
  rfl

theorem getBlockSubsidy_main {h : Int32} (hh : h.toInt = height) :
    (getBlockSubsidy h mainParams).toInt = mainSubsidy height := by
  have hinterval : mainParams.nSubsidySlowStartInterval = 2 := rfl
  simp only [getBlockSubsidy, hh, hinterval, upgradeActive_buttercup]
  rw [if_neg (by omega)]
  rcases lt_or_ge height 2 with hslow | hregular
  · interval_cases height <;> rfl
  rw [if_neg (show ¬(height : ℤ) < Int.tdiv 2 2 from by simp; omega), if_neg (by omega)]
  rcases lt_or_ge height buttercupHeight with hbefore | hafter
  · rw [consensusHalving_main_before hbefore, decide_eq_false (by omega), mainSubsidy,
      if_neg (show height ≠ 0 by omega), if_pos hbefore]
    rfl
  · rw [consensusHalving_main_after hafter, decide_eq_true hafter, if_pos rfl]
    have hle := mainSubsidy_le height
    rw [mainSubsidy_after hafter] at hle ⊢
    generalize (height - (buttercupHeight + 1)) / 1680000 + 3 = halvings at hle ⊢
    by_cases hmany : 64 ≤ halvings
    · have hpow : 2 ^ 64 ≤ 2 ^ halvings := Nat.pow_le_pow_right (by omega) hmany
      rw [if_pos (by omega), Nat.div_eq_of_lt (by omega)]
      rfl
    · rw [if_neg (by omega), Int.toNat_natCast]
      exact_mod_cast toInt_ofInt_small hle

theorem sum_mainSubsidy_le (n : ℕ) :
    ∑ height ∈ range n, mainSubsidy height ≤ 21000000 * 10 ^ 8 := by
  -- everything up to the activation block at the full subsidy, the rest as halving periods
  have hbefore : ∑ height ∈ range (buttercupHeight + 1), mainSubsidy height ≤
      (buttercupHeight + 1) * fullSubsidy := by
    have h := sum_le_card_nsmul (range (buttercupHeight + 1)) mainSubsidy fullSubsidy
      fun height _ => mainSubsidy_le height
    rwa [card_range] at h
  have hafter : ∑ i ∈ range n, mainSubsidy (buttercupHeight + 1 + i) ≤
      1680000 * (2 * (fullSubsidy / 16)) := by
    have hterm : ∀ i ∈ range n, mainSubsidy (buttercupHeight + 1 + i) =
        fullSubsidy / 16 / 2 ^ (i / 1680000) := by
      intro i _
      rw [mainSubsidy, if_neg (by omega), if_neg (by omega), Nat.add_sub_cancel_left]
    rw [sum_congr rfl hterm]
    exact sum_halvings_le (by omega) (fullSubsidy / 16) n
  calc ∑ height ∈ range n, mainSubsidy height
      ≤ ∑ height ∈ range (buttercupHeight + 1 + n), mainSubsidy height :=
        sum_le_sum_of_subset (range_mono (by omega))
    _ = ∑ height ∈ range (buttercupHeight + 1), mainSubsidy height +
          ∑ i ∈ range n, mainSubsidy (buttercupHeight + 1 + i) := sum_range_add ..
    _ ≤ (buttercupHeight + 1) * fullSubsidy + 1680000 * (2 * (fullSubsidy / 16)) :=
        Nat.add_le_add hbefore hafter
    _ ≤ 21000000 * 10 ^ 8 := by decide

theorem mainSubsidy_antitone {height' : ℕ} (hpos : 0 < height) (h : height ≤ height') :
    mainSubsidy height' ≤ mainSubsidy height := by
  rcases lt_or_ge height buttercupHeight with hbefore | hafter
  · rw [mainSubsidy.eq_def height, if_neg (by omega), if_pos hbefore]
    exact mainSubsidy_le height'
  · rw [mainSubsidy_after hafter, mainSubsidy_after (hafter.trans h)]
    have hperiod : (height - (buttercupHeight + 1)) / 1680000 + 3 ≤
        (height' - (buttercupHeight + 1)) / 1680000 + 3 := by omega
    exact Nat.div_le_div_left (Nat.pow_le_pow_right (by omega) hperiod) (by positivity)

theorem mainSubsidy_eq_zero (h : buttercupHeight + 1 + 27 * 1680000 ≤ height) :
    mainSubsidy height = 0 := by
  have hafter : buttercupHeight ≤ height := by
    unfold buttercupHeight at *
    omega
  have hhalvings : 30 ≤ (height - (buttercupHeight + 1)) / 1680000 + 3 := by omega
  have hpow : 2 ^ 30 ≤ 2 ^ ((height - (buttercupHeight + 1)) / 1680000 + 3) :=
    Nat.pow_le_pow_right (by omega) hhalvings
  rw [mainSubsidy_after hafter]
  exact div_eq_of_lt (lt_of_lt_of_le (by decide) hpow)

/-- All subsidies of the main network together stay within `MAX_MONEY`. -/
theorem mainIssuance_bounded :
    (∀ H : Int32, 0 ≤ H → ∑ height ∈ range (H.toInt.toNat + 1),
      (getBlockSubsidy (.ofNat height) mainParams).toInt ≤ maxMoney.toInt) ∧
    (∀ h : Int32, 0 ≤ (getBlockSubsidy h mainParams).toInt ∧
      (getBlockSubsidy h mainParams).toInt ≤ fullSubsidy) ∧
    (∀ h h' : Int32, mainParams.nSubsidySlowStartInterval ≤ h.toInt → h ≤ h' →
      getBlockSubsidy h' mainParams ≤ getBlockSubsidy h mainParams) ∧
    ∃ h₀ : Int32, 0 ≤ h₀ ∧ ∀ h, h₀ ≤ h → getBlockSubsidy h mainParams = 0 := by
  refine ⟨fun H hH => ?_, fun h => ?_, fun h h' hslow hle => ?_, ?_⟩
  · have hterm : ∀ height ∈ range (H.toInt.toNat + 1),
        (getBlockSubsidy (.ofNat height) mainParams).toInt = (mainSubsidy height : ℤ) := by
      intro height hmem
      have hlt : (height : ℤ) < 2 ^ 31 := by
        have := H.toInt_lt
        have := mem_range.mp hmem
        omega
      apply getBlockSubsidy_main
      rw [Int32.toInt_ofNat_of_lt (by omega)]
    have hmax : maxMoney.toInt = (21000000 * 10 ^ 8 : ℕ) := rfl
    rw [sum_congr rfl hterm, ← cast_sum, hmax]
    exact_mod_cast sum_mainSubsidy_le (H.toInt.toNat + 1)
  · rcases Int.lt_or_le h.toInt 0 with hneg | hnonneg
    · rw [getBlockSubsidy, if_pos hneg]
      exact ⟨le_rfl, by decide⟩
    · rw [getBlockSubsidy_main (Int.toNat_of_nonneg hnonneg).symm]
      exact ⟨Int.natCast_nonneg _, by exact_mod_cast mainSubsidy_le _⟩
  · have hslow' : 2 ≤ h.toInt := hslow
    have hle' : h.toInt ≤ h'.toInt := Int32.le_iff_toInt_le.mp hle
    rw [Int64.le_iff_toInt_le, getBlockSubsidy_main (Int.toNat_of_nonneg (by omega)).symm,
      getBlockSubsidy_main (Int.toNat_of_nonneg (by omega)).symm]
    exact_mod_cast mainSubsidy_antitone (by omega) (Int.toNat_le_toNat hle')
  · refine ⟨46067001, by decide, fun h hh => ?_⟩
    have hlate : 46067001 ≤ h.toInt := Int32.le_iff_toInt_le.mp hh
    have hzero : mainSubsidy h.toInt.toNat = 0 := by
      apply mainSubsidy_eq_zero
      unfold buttercupHeight
      omega
    apply Int64.toInt_inj.mp
    rw [getBlockSubsidy_main (Int.toNat_of_nonneg (by omega)).symm, hzero]
    rfl

end ZClassic
