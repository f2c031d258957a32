import ZClassic.Consensus.ContextualCheck
import ZClassic.Services.IngestVerdict

/-!
# Contextual rules on the reducer path

No stage calls `contextual_check_block`, and the ingest gate checks headers only in context.
-/

namespace ZClassic

def PassesContextual (w : ReducerWorld) (env : ContextualEnv) (b : UInt256) : Prop :=
  ∀ p ∈ w.index.pprev b, contextualCheckBlock env w.check.params w.headers (w.header b)
    (w.content b) (some p) = .ok ()

/-- In every run from genesis in which only such blocks are sent, every block that utxo_apply
applies above height 0 satisfies the contextual rules on its parent. -/
theorem appliedBlock_contextual (w : ReducerWorld) (env : ContextualEnv) (st : Reducer)
    (hinit : AtGenesis w st) (acts : List ReducerAction)
    (hok : MeetsAll (reducerStep w) (OnIngest fun _ call => PassesContextual w env call.block) st
      acts)
    (s : Reducer) (applyEnv : UtxoApplyEnv)
    (hs : MovesAt w st acts s (.stage (.utxoApply applyEnv)))
    (b : UInt256) (happlies : Applies w s applyEnv b) (hpos : 1 ≤ s.node.db.cursor .utxoApply) :
    ∃ p ∈ s.known, w.index.pprev b = some p ∧
      w.index.nHeight p + 1 = s.node.db.cursor .utxoApply ∧
      contextualCheckBlock env w.check.params w.headers (w.header b) (w.content b) (some p) =
        .ok () ∧
      ContextualRules w.check.params.consensus w.headers (w.content b) p := by
  have hindex : AppliedIndex w (PassesContextual w env) s :=
    hs.invariant (fun _ _ h hm => h.move (fun _ _ hcall => hcall) hm) (hinit.appliedIndex _) hok
  obtain ⟨hheight, hknown, hentered⟩ := happlies.entered hindex.toLinearIndex hindex.delta
  have hgenesis : b ≠ w.genesis := by
    rintro rfl
    rw [w.nHeight_genesis] at hheight
    omega
  obtain ⟨p, hp, hpprev⟩ := hindex.linked b hknown hgenesis
  have hcheck := (hentered hgenesis).2 p hpprev
  have hpheight := w.index.nHeight_pprev b p hpprev
  exact ⟨p, hp, hpprev, by omega, hcheck, contextualCheckBlock_rules hcheck⟩

/-- A block 1 whose coinbase does not begin with its height is applied. -/
theorem coinbaseOnly_unchecked :
    AtGenesis (shortChain coinbaseOnly) (bootState (shortChain coinbaseOnly)) ∧
      MovesAt (shortChain coinbaseOnly) (bootState (shortChain coinbaseOnly))
        [.ingest (drainCall acceptingProofs 1)] (beforeApply coinbaseOnly)
        (.stage (.utxoApply {})) ∧
      Applies (shortChain coinbaseOnly) (beforeApply coinbaseOnly) {} 1 ∧
      (beforeApply coinbaseOnly).node.db.cursor .utxoApply = 1 ∧
      (shortChain coinbaseOnly).index.pprev 1 = some (shortChain coinbaseOnly).genesis ∧
      (contextualCheckBlock acceptingContext (shortChain coinbaseOnly).check.params
        (shortChain coinbaseOnly).headers ((shortChain coinbaseOnly).header 1) (coinbaseOnly 1)
        (some (shortChain coinbaseOnly).genesis)).isOk = false ∧
      (coinbaseOnly 1).vtx.head?.any (bip34CheckCoinbaseHeight · 1) = false :=
  ⟨bootState_atGenesis _, movesAt_beforeApply (by decide +kernel) (by decide +kernel),
    ⟨by decide +kernel, by decide +kernel⟩, by decide +kernel, by decide +kernel,
    by decide +kernel, by decide +kernel⟩

def heightOne (_ : UInt256) : Block :=
  ⟨[{ zeroCoinbase 11 with
      vin := [{ prevout := nullOutpoint, scriptSig := { data := [0x51, 0] } }] }]⟩

theorem passesContextual_heightOne :
    PassesContextual (shortChain heightOne) acceptingContext 1 := by
  intro p hp
  obtain rfl : (shortChain heightOne).genesis = p := Option.some.inj hp
  have hok : (contextualCheckBlock acceptingContext (shortChain heightOne).check.params
      (shortChain heightOne).headers ((shortChain heightOne).header 1)
      ((shortChain heightOne).content 1) (some (shortChain heightOne).genesis)).isOk = true := by
    decide +kernel
  obtain ⟨u, hu⟩ := exists_eq_ok hok
  exact hu

theorem heightOne_contextual :
    Applies (shortChain heightOne) (beforeApply heightOne) {} 1 ∧
      ∃ p ∈ (beforeApply heightOne).known, (shortChain heightOne).index.pprev 1 = some p ∧
        (shortChain heightOne).index.nHeight p + 1 =
          (beforeApply heightOne).node.db.cursor .utxoApply ∧
        contextualCheckBlock acceptingContext (shortChain heightOne).check.params
          (shortChain heightOne).headers ((shortChain heightOne).header 1)
          ((shortChain heightOne).content 1) (some p) = .ok () ∧
        ContextualRules (shortChain heightOne).check.params.consensus (shortChain heightOne).headers
          ((shortChain heightOne).content 1) p := by
  have happlies : Applies (shortChain heightOne) (beforeApply heightOne) {} 1 :=
    ⟨by decide +kernel, by decide +kernel⟩
  exact ⟨happlies, appliedBlock_contextual (shortChain heightOne) acceptingContext
    (bootState (shortChain heightOne)) (bootState_atGenesis _)
    [.ingest (drainCall acceptingProofs 1)] ⟨passesContextual_heightOne, trivial⟩
    (beforeApply heightOne) {} (movesAt_beforeApply (by decide +kernel) (by decide +kernel)) 1
    happlies (by decide +kernel)⟩

end ZClassic
