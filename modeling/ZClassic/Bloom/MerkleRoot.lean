import ZClassic.Lib.MerkleLevels
import ZClassic.Primitives.BlockHeader

/-!
# The Merkle root binds the transactions

`compute_merkle_root_mutated` (`lib/bloom/src/merkle.c`) climbs the levels of the tree.
-/

namespace ZClassic

open List Function

section Levels

variable (hashPair : UInt256 → UInt256 → UInt256)

def merkleHeight (txids : List UInt256) : ℕ := Nat.clog 2 txids.length

def merklePairs (txids : List UInt256) : List (UInt256 × UInt256) :=
  pairsBelow (Function.uncurry hashPair) txids (merkleHeight txids)

theorem merkleLevel_eq (xs : List UInt256) :
    merkleLevel hashPair xs = (levelUp (uncurry hashPair) xs, lastPairEqual xs) := by
  fun_induction merkleLevel hashPair xs with
  | case1 => rfl
  | case2 a => rfl
  | case3 a b => rfl
  | case4 a b c rest level mutated hrest ih =>
    have hlevel := Prod.mk.inj (hrest.symm.trans ih)
    rw [hlevel.1, hlevel.2]
    rfl

theorem merkleHeight_levelUp (a b : UInt256) (rest : List UInt256) :
    merkleHeight (a :: b :: rest) =
      merkleHeight (levelUp (uncurry hashPair) (a :: b :: rest)) + 1 := by
  rw [merkleHeight, Nat.clog_of_two_le (by omega) (by simp), merkleHeight, levelUp_length]
  rfl

theorem merkleLevels_spec {fuel : ℕ} {xs : List UInt256} (mutated : Bool) (hne : xs ≠ [])
    (hfuel : xs.length ≤ fuel + 1) :
    levelAt (uncurry hashPair) xs (merkleHeight xs) =
      [(merkleLevels hashPair fuel xs mutated).1] ∧
      ((merkleLevels hashPair fuel xs mutated).2 = false ↔
        mutated = false ∧ ∀ h < merkleHeight xs,
          lastPairEqual (levelAt (uncurry hashPair) xs h) = false) := by
  induction fuel generalizing xs mutated with
  | zero =>
    rcases xs with _ | ⟨a, _ | ⟨b, rest⟩⟩
    · exact absurd rfl hne
    · simp [merkleLevels, merkleHeight, levelAt]
    · simp at hfuel
  | succ fuel ih =>
    rcases xs with _ | ⟨a, _ | ⟨b, rest⟩⟩
    · exact absurd rfl hne
    · simp [merkleLevels, merkleHeight, levelAt]
    · have hstep : merkleLevels hashPair (fuel + 1) (a :: b :: rest) mutated =
          merkleLevels hashPair fuel (levelUp (uncurry hashPair) (a :: b :: rest))
            (mutated || lastPairEqual (a :: b :: rest)) := by
        rw [merkleLevels, merkleLevel_eq]
      have hlen : (levelUp (uncurry hashPair) (a :: b :: rest)).length ≤ fuel + 1 := by
        rw [levelUp_length]
        simp only [length_cons] at hfuel ⊢
        omega
      have hlevel := ih (mutated || lastPairEqual (a :: b :: rest))
        (ne_nil_of_length_pos (by rw [levelUp_length]; simp only [length_cons]; omega)) hlen
      rw [hstep, merkleHeight_levelUp hashPair, Nat.forall_lt_succ_left]
      simp only [levelAt_levelUp, Bool.or_eq_false_iff, and_assoc] at hlevel
      exact hlevel

theorem merkleRootMutated_spec {txids : List UInt256} (hne : txids ≠ []) :
    levelAt (uncurry hashPair) txids (merkleHeight txids) =
        [(computeMerkleRootMutated hashPair txids).1] ∧
      ((computeMerkleRootMutated hashPair txids).2 = false ↔ ∀ h < merkleHeight txids,
        lastPairEqual (levelAt (uncurry hashPair) txids h) = false) := by
  have hspec := merkleLevels_spec hashPair false hne (Nat.le_succ txids.length)
  rw [← computeMerkleRootMutated] at hspec
  exact ⟨hspec.1, hspec.2.trans (and_iff_right rfl)⟩

end Levels

/-- The hash only has to be free of collisions among the pairs that the two computations hash. -/
theorem merkleRoot_binds_txids (hashPair : UInt256 → UInt256 → UInt256) (xs ys : List UInt256)
    (hxs : xs ≠ []) (hys : ys ≠ [])
    (hinj : ∀ p ∈ merklePairs hashPair xs ++ merklePairs hashPair ys,
      ∀ q ∈ merklePairs hashPair xs ++ merklePairs hashPair ys,
      hashPair p.1 p.2 = hashPair q.1 q.2 → p = q)
    (hids : ∀ id ∈ xs ++ ys, ∀ p ∈ merklePairs hashPair xs ++ merklePairs hashPair ys,
      hashPair p.1 p.2 ≠ id)
    (hmutated : (computeMerkleRootMutated hashPair xs).2 = false)
    (hmutated' : (computeMerkleRootMutated hashPair ys).2 = false)
    (hroot : (computeMerkleRootMutated hashPair xs).1 = (computeMerkleRootMutated hashPair ys).1) :
    xs = ys := by
  have hx := merkleRootMutated_spec hashPair hxs
  have hy := merkleRootMutated_spec hashPair hys
  have hinjOn : Set.InjOn (uncurry hashPair)
      {p | p ∈ merklePairs hashPair xs ++ merklePairs hashPair ys} :=
    fun p hp q hq heq => hinj p hp q hq heq
  have htop : levelAt (uncurry hashPair) xs (merkleHeight xs) =
      levelAt (uncurry hashPair) ys (merkleHeight ys) := by
    rw [hx.1, hy.1, hroot]
  exact eq_of_levelAt_eq (uncurry hashPair) hinjOn
    (fun p hp => mem_append_left _ hp) (fun p hp => mem_append_right _ hp) (hx.2.mp hmutated)
    (hy.2.mp hmutated') htop hids hxs hys

def sampleHashPair (a b : UInt256) : UInt256 := 16 * a + b + 16

theorem merkleRoot_binds_txids_three :
    (computeMerkleRootMutated sampleHashPair [1, 2, 3]).2 = false ∧
      ([1, 2, 3] : List UInt256) = [1, 2, 3] := by
  have hpairs : merklePairs sampleHashPair [1, 2, 3] = [(1, 2), (3, 3), (34, 67)] := by
    decide +kernel
  have hmutated : (computeMerkleRootMutated sampleHashPair [1, 2, 3]).2 = false := by
    decide +kernel
  refine ⟨hmutated, merkleRoot_binds_txids sampleHashPair [1, 2, 3] [1, 2, 3] (by decide)
    (by decide) ?_ ?_ hmutated hmutated rfl⟩
  · rw [hpairs]
    simp [sampleHashPair]
  · rw [hpairs]
    simp [sampleHashPair]

end ZClassic
