import ZClassic.Jobs.UtxoApplyDeltaSpec

/-!
# Double spends inside a block

The input loop never looks at the inputs recorded before it.
-/

namespace ZClassic

open List

/-- The spend of `op` that follows the spends `earlier` is the block's input at that place, and
the coin is there: it is in `S` or an earlier transaction created it, and no earlier input took
it. -/
def UnspentAtItsPoint (S : CoinSet) (txs : List Transaction) (earlier : List Outpoint)
    (op : Outpoint) : Prop :=
  ∃ pre tx post ipre ipost, txs = pre ++ tx :: post ∧ txInputs tx = ipre ++ op :: ipost ∧
    earlier = spentBy pre ++ ipre ∧ (op ∈ S ∨ op ∈ createdBy pre) ∧ op ∉ earlier

theorem spentBy_split {txs : List Transaction} {l l' : List Outpoint} {op : Outpoint}
    (h : spentBy txs = l ++ op :: l') :
    ∃ pre tx post ipre ipost, txs = pre ++ tx :: post ∧ txInputs tx = ipre ++ op :: ipost ∧
      l = spentBy pre ++ ipre := by
  induction txs generalizing l with
  | nil => simp at h
  | cons tx txs ih =>
    rw [spentBy_cons, append_eq_append_iff] at h
    rcases h with ⟨m, hl, hrest⟩ | ⟨m, htx, hrest⟩
    · obtain ⟨pre, tx', post, ipre, ipost, rfl, hin, rfl⟩ := ih hrest
      exact ⟨tx :: pre, tx', post, ipre, ipost, rfl, hin, by rw [hl, spentBy_cons, append_assoc]⟩
    · cases m with
      | nil =>
        -- the place is the first input of a later transaction
        rw [append_nil] at htx
        rw [nil_append] at hrest
        obtain ⟨pre, tx', post, ipre, ipost, rfl, hin, hpre⟩ := ih (l := []) hrest.symm
        exact ⟨tx :: pre, tx', post, ipre, ipost, rfl, hin, by
          rw [spentBy_cons, append_assoc, ← hpre, htx, append_nil]⟩
      | cons op' m =>
        obtain ⟨rfl, -⟩ := cons.inj hrest
        exact ⟨[], tx, txs, l, m, rfl, htx, rfl⟩

/-- The delta of an accepted block spends distinct coins, each unspent at its point, exactly when
no two inputs of the block's non-coinbase transactions name one outpoint. -/
theorem computeBlockDelta_spent_distinct_iff (params : ConsensusParams) (B : Block)
    (height : UInt32) (lookup : UtxoApplyLookupFn) (S : CoinSet) (hS : ReportsFound lookup S)
    (hok : (utxoApplyComputeBlockDelta params (some B) height lookup).ok = true) :
    let spent := (utxoApplyComputeBlockDelta params (some B) height lookup).spent
    ((spent.map DeltaEntry.outpoint).Nodup ∧
      ∀ l e l', spent = l ++ e :: l' →
        UnspentAtItsPoint S B.vtx (l.map DeltaEntry.outpoint) e.outpoint) ↔
    (spentBy B.vtx).Nodup := by
  intro spent
  obtain ⟨st, hst, hsum⟩ := computeBlockDelta_ok hok
  obtain ⟨hloop, -⟩ := blockDelta_ok hst
  have hspent : spent.map DeltaEntry.outpoint = spentBy B.vtx := by
    simp only [spent, hsum]
    exact (accepted_of_loop hloop).spent
  constructor
  · rintro ⟨hnodup, -⟩
    exact hspent ▸ hnodup
  · intro hnodup
    refine ⟨hspent ▸ hnodup, ?_⟩
    intro l e l' hl
    have hsplit : spentBy B.vtx =
        l.map DeltaEntry.outpoint ++ e.outpoint :: l'.map DeltaEntry.outpoint := by
      rw [← hspent, hl, map_append, map_cons]
    obtain ⟨pre, tx, post, ipre, ipost, htxs, hin, hearlier⟩ := spentBy_split hsplit
    refine ⟨pre, tx, post, ipre, ipost, htxs, hin, hearlier, ?_, ?_⟩
    · have hop : e.outpoint ∈ txInputs tx := by simp [hin]
      rcases input_available hloop htxs hop with h | ⟨lk, hlk, hfound⟩
      · exact .inr h
      · exact .inl ((hS _ lk hlk).mp hfound)
    · rw [hsplit] at hnodup
      intro hmem
      exact (disjoint_of_nodup_append hnodup) hmem mem_cons_self

def oneCoin (op : Outpoint) (value : Int64) : CoinSet := Finmap.singleton op { value }

theorem oneCoin_lookup {op op' : Outpoint} {value : Int64} {c : Coin}
    (h : (oneCoin op value).lookup op' = some c) : op' = op ∧ c = { value } := by
  have hmem := Finmap.mem_of_lookup_eq_some h
  rw [oneCoin, Finmap.mem_singleton] at hmem
  subst hmem
  rw [oneCoin, Finmap.lookup_singleton_eq, Option.some.injEq] at h
  exact ⟨rfl, h.symm⟩

def doubleSpendBlock : Block where
  vtx := [emptyCoinbase 1, moveCoin ⟨9, 0⟩ 50 2, moveCoin ⟨9, 0⟩ 50 3]

theorem doubleSpendBlock_accepted :
    let S := oneCoin ⟨9, 0⟩ 50
    let s := utxoApplyComputeBlockDelta mainParams (some doubleSpendBlock) 1000 (coinLookup S)
    ReportsFound (coinLookup S) S ∧ s.ok = true ∧ ¬(s.spent.map DeltaEntry.outpoint).Nodup := by
  refine ⟨(coinLookup_reportsCoins _).found, ?_, ?_⟩ <;> decide

theorem singleSpend_unspentAtItsPoint :
    let S := oneCoin ⟨9, 0⟩ 50
    let B : Block := ⟨[emptyCoinbase 1, moveCoin ⟨9, 0⟩ 50 2]⟩
    let spent := (utxoApplyComputeBlockDelta mainParams (some B) 1000 (coinLookup S)).spent
    (spent.map DeltaEntry.outpoint).Nodup ∧ ∀ l e l', spent = l ++ e :: l' →
      UnspentAtItsPoint S B.vtx (l.map DeltaEntry.outpoint) e.outpoint := by
  intro S B
  refine (computeBlockDelta_spent_distinct_iff mainParams B 1000 (coinLookup S) S
    (coinLookup_reportsCoins S).found ?_).mpr ?_ <;> decide

end ZClassic
