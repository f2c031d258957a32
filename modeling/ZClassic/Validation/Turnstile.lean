import ZClassic.Script.Interpreter
import ZClassic.Validation.ConnectBlock

/-!
# The shielded pools along a chain

`connect_block` carries the values of the Sprout and the Sapling pool from block to block and
refuses a negative one.
-/

namespace ZClassic

open List

def movedOutOfSapling (blocks : List Block) : ℤ :=
  ((blocks.flatMap (·.vtx)).map fun tx => max tx.valueBalance.toInt 0).sum

def movedIntoSapling (blocks : List Block) : ℤ :=
  ((blocks.flatMap (·.vtx)).map fun tx => max (-tx.valueBalance.toInt) 0).sum

def vpubNewTotal (blocks : List Block) : ℤ :=
  ((blocks.flatMap fun b => b.vtx.flatMap (·.vJoinsplit)).map fun js => js.vpubNew.toInt).sum

def vpubOldTotal (blocks : List Block) : ℤ :=
  ((blocks.flatMap fun b => b.vtx.flatMap (·.vJoinsplit)).map fun js => js.vpubOld.toInt).sum

def netSprout (blk : Block) : ℤ :=
  ((blk.vtx.flatMap (·.vJoinsplit)).map fun js => js.vpubOld.toInt - js.vpubNew.toInt).sum

def netSapling (blk : Block) : ℤ := (blk.vtx.map fun tx => tx.valueBalance.toInt).sum

def FitsPools (blk : Block) : Prop :=
  (-2 ^ 63 ≤ netSprout blk ∧ netSprout blk < 2 ^ 63) ∧
    (-2 ^ 63 ≤ netSapling blk ∧ netSapling blk < 2 ^ 63)

theorem sum_map_sub {α : Type*} (f g : α → ℤ) (l : List α) :
    (l.map fun x => f x - g x).sum = (l.map f).sum - (l.map g).sum := by
  induction l with
  | nil => rfl
  | cons x l ih =>
    simp only [map_cons, sum_cons, ih]
    ring

theorem movedOutOfSapling_sub (blocks : List Block) :
    movedOutOfSapling blocks - movedIntoSapling blocks = (blocks.map netSapling).sum := by
  have hmax : ∀ tx : Transaction, max tx.valueBalance.toInt 0 - max (-tx.valueBalance.toInt) 0 =
      tx.valueBalance.toInt := by
    intro tx
    omega
  rw [movedOutOfSapling, movedIntoSapling, ← sum_map_sub]
  simp only [hmax]
  induction blocks with
  | nil => rfl
  | cons b blocks ih =>
    rw [flatMap_cons, map_append, sum_append, ih, map_cons, sum_cons]
    rfl

theorem vpubOldTotal_sub (blocks : List Block) :
    vpubOldTotal blocks - vpubNewTotal blocks = (blocks.map netSprout).sum := by
  rw [vpubOldTotal, vpubNewTotal, ← sum_map_sub]
  induction blocks with
  | nil => rfl
  | cons b blocks ih =>
    rw [flatMap_cons, map_append, sum_append, ih, map_cons, sum_cons]
    rfl

/-- The blocks are connected one after the other on a parent with the first pool values, and the
last one has the second. -/
inductive ConnectedChain (params : ChainParams) : PoolValues → List Block → PoolValues → Prop
  | nil (pools : PoolValues) : ConnectedChain params pools [] pools
  | cons {env : ConnectEnv} {header : BlockHeader} {blk : Block} {hash : UInt256} {nHeight : Int32}
      {view view' : CoinsViewCache} {justCheck : Bool} {parent pools last : PoolValues}
      {blocks : List Block} (henv : env.params = params) (hhash : hash ≠ params.hashGenesisBlock)
      (hblk : connectBlock env header blk ⟨hash, nHeight, some parent⟩ view justCheck =
        .ok (view', pools))
      (hrest : ConnectedChain params pools blocks last) :
      ConnectedChain params parent (blk :: blocks) last

variable {blk : Block}

theorem saplingValue_toInt (h : FitsPools blk) : (saplingValue blk).toInt = netSapling blk := by
  have hstep : ∀ (v : Int64) (tx : Transaction), (v + tx.valueBalance).toInt =
      (v.toInt + tx.valueBalance.toInt).bmod (2 ^ 64) := fun v tx => Int64.toInt_add v _
  rw [saplingValue, toInt_foldl hstep, Int64.toInt_zero, zero_add]
  exact bmod_eq_self h.2.1 h.2.2

theorem sproutValue_toInt (h : FitsPools blk) : (sproutValue blk).toInt = netSprout blk := by
  have hstep : ∀ (v : Int64) (js : JsDescription), (v + js.vpubOld - js.vpubNew).toInt =
      (v.toInt + (js.vpubOld.toInt - js.vpubNew.toInt)).bmod (2 ^ 64) := by
    intro v js
    rw [Int64.toInt_sub, Int64.toInt_add, Int.bmod_sub_bmod, add_sub_assoc]
  rw [sproutValue, toInt_foldl hstep, Int64.toInt_zero, zero_add]
  exact bmod_eq_self h.1.1 h.1.2

theorem advancePool_ok {total value : Int64} {reason : String} {pool : Option Int64}
    (htotal : 0 ≤ total.toInt) (h : advancePool (some total) value reason = .ok pool) :
    ∃ next : Int64, pool = some next ∧ next.toInt = total.toInt + value.toInt ∧ 0 ≤ next.toInt := by
  unfold advancePool at h
  dsimp only at h
  split_ifs at h with hneg
  cases h
  have hnonneg : 0 ≤ (total + value).toInt := by
    rw [Int64.lt_iff_toInt_lt, Int64.toInt_zero] at hneg
    exact not_lt.mp hneg
  exact ⟨_, rfl, toInt_add_of_nonneg htotal hnonneg, hnonneg⟩

/-- The pool values are known and exact, and none of them is negative. -/
def ExactPools (pools : PoolValues) (sprout sapling : ℤ) : Prop :=
  ∃ s z : Int64, pools = ⟨some s, some z⟩ ∧ s.toInt = sprout ∧ z.toInt = sapling ∧
    0 ≤ sprout ∧ 0 ≤ sapling

theorem ExactPools.step {env : ConnectEnv} {header : BlockHeader} {hash : UInt256}
    {nHeight : Int32} {view view' : CoinsViewCache} {justCheck : Bool} {parent pools : PoolValues}
    {sprout sapling : ℤ} (hparent : ExactPools parent sprout sapling)
    (hhash : hash ≠ env.params.hashGenesisBlock)
    (hblk : connectBlock env header blk ⟨hash, nHeight, some parent⟩ view justCheck =
      .ok (view', pools)) (hfits : FitsPools blk) :
    ExactPools pools (sprout + netSprout blk) (sapling + netSapling blk) := by
  obtain ⟨s, z, rfl, rfl, rfl, hs, hz⟩ := hparent
  obtain ⟨st, hconnected⟩ := connectBlock_ok hhash hblk
  have hturnstile := hconnected.turnstile
  unfold checkTurnstile at hturnstile
  obtain ⟨sprout', hsprout, hturnstile⟩ := bind_eq_ok hturnstile
  obtain ⟨sapling', hsapling, hturnstile⟩ := bind_eq_ok hturnstile
  cases hturnstile
  obtain ⟨s', rfl, hs', hs0⟩ := advancePool_ok hs hsprout
  obtain ⟨z', rfl, hz', hz0⟩ := advancePool_ok hz hsapling
  rw [sproutValue_toInt hfits] at hs'
  rw [saplingValue_toInt hfits] at hz'
  exact ⟨s', z', rfl, hs', hz', by omega, by omega⟩

theorem ConnectedChain.exact {params : ChainParams} {parent last : PoolValues} {blocks : List Block}
    {sprout sapling : ℤ} (h : ConnectedChain params parent blocks last)
    (hparent : ExactPools parent sprout sapling) (hfits : ∀ b ∈ blocks, FitsPools b) (n : ℕ) :
    0 ≤ sprout + ((blocks.take n).map netSprout).sum ∧
      0 ≤ sapling + ((blocks.take n).map netSapling).sum := by
  induction h generalizing sprout sapling n with
  | nil pools =>
    obtain ⟨s, z, -, -, -, hs, hz⟩ := hparent
    simpa using ⟨hs, hz⟩
  | cons henv hhash hblk _ ih =>
    cases n with
    | zero =>
      obtain ⟨s, z, -, -, -, hs, hz⟩ := hparent
      simpa using ⟨hs, hz⟩
    | succ n =>
      have hnext := hparent.step (henv ▸ hhash) hblk (hfits _ mem_cons_self)
      have hrest := ih hnext (fun b hb => hfits b (mem_cons_of_mem _ hb)) n
      rw [take_succ_cons, map_cons, sum_cons, map_cons, sum_cons, ← add_assoc, ← add_assoc]
      exact hrest

theorem sum_take_eq_zero_iff {l : List ℤ} : (∀ n, (l.take n).sum = 0) ↔ ∀ x ∈ l, x = 0 := by
  induction l with
  | nil => simp
  | cons x l ih =>
    constructor
    · intro h
      have hx : x = 0 := by simpa using h 1
      rw [forall_mem_cons, ← ih]
      refine ⟨hx, fun n => ?_⟩
      have hn := h (n + 1)
      rwa [take_succ_cons, sum_cons, hx, zero_add] at hn
    · intro h n
      rw [forall_mem_cons, ← ih] at h
      cases n with
      | zero => simp
      | succ n => rw [take_succ_cons, sum_cons, h.1, h.2 n, add_zero]

/-- On a chain whose sums fit, the turnstile holds after every block exactly when no block moves
anything into or out of the Sapling pool on balance. -/
theorem turnstile_iff {params : ChainParams} {blocks : List Block} {last : PoolValues}
    (h : ConnectedChain params ⟨some 0, some 0⟩ blocks last) (hfits : ∀ b ∈ blocks, FitsPools b) :
    (∀ n, movedOutOfSapling (blocks.take n) ≤ movedIntoSapling (blocks.take n) ∧
        vpubNewTotal (blocks.take n) ≤ vpubOldTotal (blocks.take n)) ↔
      ∀ b ∈ blocks, netSapling b = 0 := by
  have hstart : ExactPools ⟨some 0, some 0⟩ 0 0 := ⟨0, 0, rfl, rfl, rfl, le_rfl, le_rfl⟩
  have hexact := h.exact hstart hfits
  have hsapling : (∀ b ∈ blocks, netSapling b = 0) ↔
      ∀ n, ((blocks.take n).map netSapling).sum = 0 := by
    simp only [map_take]
    rw [sum_take_eq_zero_iff, forall_mem_map]
  rw [hsapling]
  refine forall_congr' fun n => ?_
  obtain ⟨hsprout, hnonneg⟩ := hexact n
  have hout := movedOutOfSapling_sub (blocks.take n)
  have hnew := vpubOldTotal_sub (blocks.take n)
  constructor
  · rintro ⟨hle, -⟩
    omega
  · intro hzero
    exact ⟨by omega, by omega⟩

/-- Scripts are run, with a checker that accepts no signature. -/
def interpretingEnv : ConnectEnv where
  toCheckEnv := permissiveEnv
  verifyScript scriptSig scriptPubKey flags _ _ _ _ _ :=
    (verifyScript plainEnv flags scriptSig scriptPubKey).isOk

def unshieldTx (value : Int64) (hash : UInt256) : Transaction where
  vout := [{ value }]
  valueBalance := value
  vShieldedSpend := [{ nullifier := 8 }]
  hash

/-- 1000 zatoshi leave a pool into which nothing has been moved. -/
theorem unshieldFromEmptyPool_connected :
    let B : Block := ⟨[zeroCoinbase 1, unshieldTx 1000 2]⟩
    (∃ last, ConnectedChain regtestParams ⟨some 0, some 0⟩ [B] last) ∧
      movedOutOfSapling [B] = 1000 ∧ movedIntoSapling [B] = 0 := by
  intro B
  refine ⟨?_, by decide, by decide⟩
  have hconnected : (connectBlock interpretingEnv (easyHeader 5 7) B ⟨7, 1, some ⟨some 0, some 0⟩⟩
      { base := fun _ => none } false).isOk = true := by decide +kernel
  obtain ⟨⟨view', pools⟩, hblk⟩ := exists_eq_ok hconnected
  exact ⟨pools, .cons rfl (by decide) hblk (.nil _)⟩

/-- As much goes into the Sapling pool as comes out of it, and a JoinSplit takes up 700 zatoshi. -/
def balancedBlock : Block where
  vtx := [zeroCoinbase 1, unshieldTx 1000 2,
    { version := 2
      vin := [{ prevout := ⟨2, 0⟩, scriptSig := trueScript }]
      vout := [{ value := 300 }]
      vJoinsplit := [{ vpubOld := 700, nullifiers := twoNullifiers, useGroth := false }]
      hash := 3 },
    { vin := [{ prevout := ⟨9, 0⟩, scriptSig := trueScript }]
      valueBalance := -1000
      vShieldedOutput := [{}]
      hash := 4 }]

theorem balancedBlock_turnstile :
    movedOutOfSapling [balancedBlock] = 1000 ∧ vpubOldTotal [balancedBlock] = 700 ∧
      ∃ last, ConnectedChain regtestParams ⟨some 0, some 0⟩ [balancedBlock] last ∧
        ∀ n, movedOutOfSapling ([balancedBlock].take n) ≤
          movedIntoSapling ([balancedBlock].take n) ∧
          vpubNewTotal ([balancedBlock].take n) ≤ vpubOldTotal ([balancedBlock].take n) := by
  have hconnected : (connectBlock interpretingEnv (easyHeader 27 7) balancedBlock
      ⟨7, 1, some ⟨some 0, some 0⟩⟩ (oneCoinView 9 1000) false).isOk = true := by decide +kernel
  obtain ⟨⟨view', pools⟩, hblk⟩ := exists_eq_ok hconnected
  have hchain : ConnectedChain regtestParams ⟨some 0, some 0⟩ [balancedBlock] pools :=
    .cons rfl (by decide) hblk (.nil _)
  refine ⟨by decide, by decide, pools, hchain, (turnstile_iff hchain ?_).mpr ?_⟩
  · simp only [forall_mem_singleton, FitsPools]
    decide
  · simp only [forall_mem_singleton]
    decide

end ZClassic
