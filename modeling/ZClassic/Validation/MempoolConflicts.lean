import ZClassic.Validation.AcceptToMempool
import ZClassic.Validation.MempoolIndex

/-!
# Conflicts in the memory pool

Admission compares a transaction with the entries by its outpoints only, and a connected block takes
out the entries whose ids it contains.
-/

namespace ZClassic

open List

def SharesNullifier (tx tx' : WireTransaction) : Prop :=
  (∃ nf ∈ txSproutNullifiers tx.toTransaction, nf ∈ txSproutNullifiers tx'.toTransaction) ∨
    ∃ nf ∈ txSaplingNullifiers tx.toTransaction, nf ∈ txSaplingNullifiers tx'.toTransaction

instance (tx tx' : WireTransaction) : Decidable (SharesNullifier tx tx') :=
  decidable_of_iff
    ((txSproutNullifiers tx.toTransaction).any (txSproutNullifiers tx'.toTransaction).contains ∨
      (txSaplingNullifiers tx.toTransaction).any (txSaplingNullifiers tx'.toTransaction).contains)
    (by simp [SharesNullifier])

theorem SharesNullifier.symm {tx tx' : WireTransaction} (h : SharesNullifier tx tx') :
    SharesNullifier tx' tx := by
  apply h.imp
  · rintro ⟨nf, hnf, hnf'⟩
    exact ⟨nf, hnf', hnf⟩
  · rintro ⟨nf, hnf, hnf'⟩
    exact ⟨nf, hnf', hnf⟩

def Excludes (tx tx' : WireTransaction) : Prop :=
  (∃ op ∈ tx.outpoints, op ∈ tx'.outpoints) ∨ SharesNullifier tx tx'

instance (tx tx' : WireTransaction) : Decidable (Excludes tx tx') :=
  inferInstanceAs (Decidable (_ ∨ _))

variable {idx : ℕ} {hash : UInt256} {coinsTip : Option CoinsViewCache} {now : Int64}
  {params : Option ChainParams} {tipHeight : Option Int32} {tx : WireTransaction}

namespace TxMempool

def NullifiersApart (pool : TxMempool) : Prop :=
  pool.entries.Pairwise fun e e' => ¬SharesNullifier e.tx e'.tx

def ApartFrom (pool : TxMempool) (txs : List WireTransaction) : Prop :=
  ∀ e ∈ pool.entries, ∀ tx ∈ txs, ¬Excludes e.tx tx

def IdsUnique (pool : TxMempool) : Prop := (pool.entries.map (·.tx.hash)).Nodup

variable {pool : TxMempool}

theorem perm_removeEntryAt {e : MempoolEntry} (he : pool.entries[idx]? = some e) :
    pool.entries.Perm (e :: (removeEntryAt pool idx).entries) := by
  obtain ⟨last, hlast⟩ := exists_getLast he
  rw [removeEntryAt_eq he hlast]
  exact perm_moveLast he hlast

theorem findEntryByHash_some (h : findEntryByHash pool hash = some idx) :
    ∃ e, pool.entries[idx]? = some e ∧ e.tx.hash = hash := by
  obtain ⟨hidx, hhash, -⟩ := findIdx?_eq_some_iff_getElem.mp h
  exact ⟨_, getElem?_eq_getElem hidx, beq_iff_eq.mp hhash⟩

theorem findEntryByHash_none (h : findEntryByHash pool hash = none) :
    ∀ e ∈ pool.entries, e.tx.hash ≠ hash := by
  intro e he heq
  have hne := findIdx?_eq_none_iff.mp h e he
  rw [heq, beq_self_eq_true] at hne
  cases hne

theorem remove_cases (pool : TxMempool) (hash : UInt256) :
    (txMempoolRemove pool hash = pool ∧ ∀ e ∈ pool.entries, e.tx.hash ≠ hash) ∨
      ∃ e, e.tx.hash = hash ∧ pool.entries.Perm (e :: (txMempoolRemove pool hash).entries) := by
  unfold txMempoolRemove
  cases hfind : findEntryByHash pool hash with
  | none => exact .inl ⟨rfl, findEntryByHash_none hfind⟩
  | some idx =>
    obtain ⟨e, he, hhash⟩ := findEntryByHash_some hfind
    exact .inr ⟨e, hhash, perm_removeEntryAt he⟩

theorem IdsUnique.remove (h : pool.IdsUnique) (hash : UInt256) :
    (txMempoolRemove pool hash).IdsUnique := by
  rcases remove_cases pool hash with ⟨hsame, -⟩ | ⟨e, -, hperm⟩
  · rw [hsame]
    exact h
  · have hids : (pool.entries.map (·.tx.hash)).Nodup := h
    exact ((hperm.map _).nodup_iff.mp hids).of_cons

theorem NullifiersApart.remove (h : pool.NullifiersApart) (hash : UInt256) :
    (txMempoolRemove pool hash).NullifiersApart := by
  rcases remove_cases pool hash with ⟨hsame, -⟩ | ⟨e, -, hperm⟩
  · rw [hsame]
    exact h
  · have hsymm : ∀ {e e' : MempoolEntry}, ¬SharesNullifier e.tx e'.tx →
        ¬SharesNullifier e'.tx e.tx := fun hne hshares => hne hshares.symm
    exact ((hperm.pairwise_iff hsymm).mp h).of_cons

theorem IdsUnique.mem_remove (h : pool.IdsUnique) (hash : UInt256) (e : MempoolEntry) :
    e ∈ (txMempoolRemove pool hash).entries ↔ e ∈ pool.entries ∧ e.tx.hash ≠ hash := by
  rcases remove_cases pool hash with ⟨hsame, hne⟩ | ⟨e', hhash, hperm⟩
  · rw [hsame]
    exact ⟨fun he => ⟨he, hne e he⟩, fun he => he.1⟩
  · have hids : (pool.entries.map (·.tx.hash)).Nodup := h
    rw [(hperm.map _).nodup_iff, map_cons, nodup_cons] at hids
    rw [hperm.mem_iff, mem_cons]
    constructor
    · intro he
      refine ⟨.inr he, ?_⟩
      intro heq
      exact hids.1 (mem_map.mpr ⟨e, he, heq.trans hhash.symm⟩)
    · rintro ⟨he | he, hne⟩
      · rw [he] at hne
        exact absurd hhash hne
      · exact he

theorem removeForBlock_cons (tx : WireTransaction) (txs : List WireTransaction) :
    txMempoolRemoveForBlock pool (tx :: txs) =
      txMempoolRemoveForBlock (txMempoolRemove pool tx.hash) txs := rfl

theorem IdsUnique.removeForBlock (h : pool.IdsUnique) (txs : List WireTransaction) :
    (txMempoolRemoveForBlock pool txs).IdsUnique := by
  induction txs generalizing pool with
  | nil => exact h
  | cons tx txs ih => exact ih (h.remove tx.hash)

theorem NullifiersApart.removeForBlock (h : pool.NullifiersApart) (txs : List WireTransaction) :
    (txMempoolRemoveForBlock pool txs).NullifiersApart := by
  induction txs generalizing pool with
  | nil => exact h
  | cons tx txs ih => exact ih (h.remove tx.hash)

theorem IdsUnique.mem_removeForBlock (h : pool.IdsUnique) (txs : List WireTransaction)
    (e : MempoolEntry) :
    e ∈ (txMempoolRemoveForBlock pool txs).entries ↔
      e ∈ pool.entries ∧ ∀ tx ∈ txs, e.tx.hash ≠ tx.hash := by
  induction txs generalizing pool with
  | nil => simp [txMempoolRemoveForBlock]
  | cons tx txs ih =>
    rw [removeForBlock_cons, ih (h.remove tx.hash), h.mem_remove, forall_mem_cons, and_assoc]

end TxMempool

def storedTransaction (env : AcceptEnv) (tx : WireTransaction) : WireTransaction :=
  transactionCopy (transactionComputeHash env.hash256 tx)

theorem transactionCopy_hash (tx : WireTransaction) : (transactionCopy tx).hash = tx.hash := by
  unfold transactionCopy
  split_ifs
  · rfl
  · rfl

theorem acceptToMempool_entries {env : AcceptEnv} {pool pool' : TxMempool}
    (h : acceptToMempool env pool coinsTip tipHeight params tx now = .ok pool') :
    (∀ e ∈ pool.entries, e.tx.hash ≠ (storedTransaction env tx).hash) ∧
      ∃ e, pool'.entries = pool.entries ++ [e] ∧ e.tx = storedTransaction env tx := by
  obtain ⟨fee, branchId, haccepted⟩ := acceptToMempool_ok h
  obtain ⟨-, -, m, -, hpool'⟩ :=
    TxMempool.addUnchecked_inv (mempoolEntryInit_initialised ..) haccepted.added
  refine ⟨?_, _, by rw [hpool'], rfl⟩
  rw [storedTransaction, transactionCopy_hash]
  have hunknown := haccepted.unknown
  rw [txMempoolExists, Option.isSome_eq_false_iff, Option.isNone_iff_eq_none] at hunknown
  exact TxMempool.findEntryByHash_none hunknown

inductive AdmissionAction where
  | accept (coinsTip : Option CoinsViewCache) (tipHeight : Option Int32)
    (params : Option ChainParams) (tx : WireTransaction) (now : Int64)
  | removeForBlock (txs : List WireTransaction)

section Runs

variable (env : AcceptEnv)

def admissionStep (pool : TxMempool) : AdmissionAction → TxMempool
  | .accept coinsTip tipHeight params tx now =>
    (acceptToMempool env pool coinsTip tipHeight params tx now).toOption.getD pool
  | .removeForBlock txs => txMempoolRemoveForBlock pool txs

def HoldsNoDoubleSpend (pool : TxMempool) (a : AdmissionAction) : Prop :=
  (admissionStep env pool a).NullifiersApart ∧
    ∀ txs, a = .removeForBlock txs → (admissionStep env pool a).ApartFrom txs

/-- What the calls do not look at: an offered transaction shares nullifiers with no entry but
itself, and an entry that excludes a transaction of a block is itself in the block. -/
def MeetsNoConflict (pool : TxMempool) : AdmissionAction → Prop
  | .accept _ _ _ tx _ =>
    ∀ e ∈ pool.entries, SharesNullifier e.tx (storedTransaction env tx) →
      e.tx.hash = (storedTransaction env tx).hash
  | .removeForBlock txs =>
    ∀ e ∈ pool.entries, (∃ tx ∈ txs, Excludes e.tx tx) → ∃ tx ∈ txs, e.tx.hash = tx.hash

instance (pool : TxMempool) (a : AdmissionAction) : Decidable (MeetsNoConflict env pool a) := by
  cases a <;> dsimp only [MeetsNoConflict] <;> infer_instance

variable {env} {pool : TxMempool}

theorem admissionStep_accept {pool' : TxMempool}
    (h : acceptToMempool env pool coinsTip tipHeight params tx now = .ok pool') :
    admissionStep env pool (.accept coinsTip tipHeight params tx now) = pool' := by
  rw [admissionStep, h]
  rfl

theorem admissionStep_refuse {e : MempoolAcceptResult}
    (h : acceptToMempool env pool coinsTip tipHeight params tx now = .error e) :
    admissionStep env pool (.accept coinsTip tipHeight params tx now) = pool := by
  rw [admissionStep, h]
  rfl

theorem TxMempool.IdsUnique.admissionStep (h : pool.IdsUnique) (a : AdmissionAction) :
    (admissionStep env pool a).IdsUnique := by
  cases a with
  | removeForBlock txs => exact h.removeForBlock txs
  | accept coinsTip tipHeight params tx now =>
    cases haccept : acceptToMempool env pool coinsTip tipHeight params tx now with
    | error e =>
      rw [admissionStep_refuse haccept]
      exact h
    | ok pool' =>
      obtain ⟨hnew, e, hentries, he⟩ := acceptToMempool_entries haccept
      rw [admissionStep_accept haccept, TxMempool.IdsUnique, hentries, map_append,
        map_singleton, ← concat_eq_append, nodup_concat, he]
      refine ⟨?_, h⟩
      simpa using hnew

theorem MeetsNoConflict.holds {a : AdmissionAction} (h : MeetsNoConflict env pool a)
    (hapart : pool.NullifiersApart) (hids : pool.IdsUnique) : HoldsNoDoubleSpend env pool a := by
  cases a with
  | removeForBlock txs =>
    refine ⟨hapart.removeForBlock txs, ?_⟩
    rintro _ ⟨⟩ e he tx htx hex
    obtain ⟨hmem, hne⟩ := (hids.mem_removeForBlock txs e).mp he
    obtain ⟨tx', htx', hid⟩ := h e hmem ⟨tx, htx, hex⟩
    exact hne tx' htx' hid
  | accept coinsTip tipHeight params tx now =>
    refine ⟨?_, fun _ h => nomatch h⟩
    cases haccept : acceptToMempool env pool coinsTip tipHeight params tx now with
    | error e =>
      rw [admissionStep_refuse haccept]
      exact hapart
    | ok pool' =>
      obtain ⟨hnew, e, hentries, he⟩ := acceptToMempool_entries haccept
      rw [admissionStep_accept haccept, TxMempool.NullifiersApart, hentries, pairwise_append]
      refine ⟨hapart, pairwise_singleton _ _, fun e' he' e'' he'' hshares => ?_⟩
      rw [mem_singleton.mp he'', he] at hshares
      exact hnew e' he' (h e' he' hshares)

end Runs

/-- A run leaves no double spend in the pool if no call meets a conflict that it does not see. -/
theorem holdsNoDoubleSpend_run (env : AcceptEnv) (minRelayFee : Int64) (acts : List AdmissionAction)
    (h : MeetsAll (admissionStep env) (MeetsNoConflict env) (txMempoolInit minRelayFee) acts) :
    MeetsAll (admissionStep env) (HoldsNoDoubleSpend env) (txMempoolInit minRelayFee) acts := by
  have hboth : MeetsAll (admissionStep env) (fun pool a => HoldsNoDoubleSpend env pool a ∧
      MeetsNoConflict env pool a) (txMempoolInit minRelayFee) acts := by
    refine (meetsAll_congr (fun pool => pool.NullifiersApart ∧ pool.IdsUnique) ?_ ?_ ?_).mpr h
    · intro pool a hpool
      exact and_iff_right_of_imp fun ha => ha.holds hpool.1 hpool.2
    · intro pool a hpool ha
      exact ⟨ha.1.1, hpool.2.admissionStep a⟩
    · exact ⟨Pairwise.nil, nodup_nil⟩
  exact hboth.imp fun _ _ => And.left

def revealNine (lockTime : UInt32) : WireTransaction where
  overwintered := true
  version := 4
  versionGroupId := saplingVersionGroupId
  vout := [{ value := 0 }]
  lockTime
  vShieldedSpend :=
    [{ cv := 0, anchor := 0, nullifier := 9, rk := 0, zkproof := .replicate 192 0,
       spendAuthSig := .replicate 64 0 }]

def acceptNine (lockTime : UInt32) : AdmissionAction :=
  .accept (some minedView) (some 30) (some testParams) (revealNine lockTime) 0

/-- A shielded and a transparent transaction are admitted, and a block contains the first. -/
theorem holdsNoDoubleSpend_run_shielded :
    let acts := [acceptNine 0,
      .accept (some minedView) (some 10) (some regtestParams) (spendMined 0) 0,
      .removeForBlock [storedTransaction acceptingEnv (revealNine 0)]]
    MeetsAll (admissionStep acceptingEnv) (HoldsNoDoubleSpend acceptingEnv) (txMempoolInit 0) acts ∧
      (run (admissionStep acceptingEnv) (txMempoolInit 0) acts).entries.map (·.tx.outpoints) =
        [[⟨7, 0⟩]] :=
  ⟨holdsNoDoubleSpend_run acceptingEnv 0 _ (by decide +kernel), by decide +kernel⟩

def otherSpend : WireTransaction where
  vin := [{ prevout := ⟨7, 0⟩ }]
  vout := [{ value := 800 }]
  hash := 5

/-- The two spends of one note are admitted, and a block that spends the coin of an entry leaves
the entry in the pool. -/
theorem revealNine_twice :
    ¬(run (admissionStep acceptingEnv) (txMempoolInit 0)
      [acceptNine 0, acceptNine 1]).NullifiersApart ∧
    ¬(run (admissionStep acceptingEnv) (txMempoolInit 0)
      [.accept (some minedView) (some 10) (some regtestParams) (spendMined 0) 0,
        .removeForBlock [otherSpend]]).ApartFrom [otherSpend] := by
  constructor
  · intro h
    have hentries : (run (admissionStep acceptingEnv) (txMempoolInit 0) [acceptNine 0, acceptNine 1]
        ).entries.map (fun e => txSaplingNullifiers e.tx.toTransaction) = [[9], [9]] := by
      decide +kernel
    obtain ⟨e, rest, hcons, he, hrest⟩ := map_eq_cons_iff.mp hentries
    obtain ⟨e', rest', hcons', he', -⟩ := map_eq_cons_iff.mp hrest
    rw [TxMempool.NullifiersApart, hcons, hcons', pairwise_cons] at h
    apply h.1 e' mem_cons_self
    refine .inr ⟨9, ?_, ?_⟩
    · rw [he]
      exact mem_singleton_self 9
    · rw [he']
      exact mem_singleton_self 9
  · intro h
    have hentries : (run (admissionStep acceptingEnv) (txMempoolInit 0)
        [.accept (some minedView) (some 10) (some regtestParams) (spendMined 0) 0,
          .removeForBlock [otherSpend]]).entries.map (fun e => e.tx.outpoints) = [[⟨7, 0⟩]] := by
      decide +kernel
    obtain ⟨e, rest, hcons, he, -⟩ := map_eq_cons_iff.mp hentries
    apply h e (by rw [hcons]; exact mem_cons_self) otherSpend mem_cons_self
    exact .inl ⟨⟨7, 0⟩, by rw [he]; exact mem_singleton_self _, mem_singleton_self _⟩

end ZClassic
