import ZClassic.Primitives.TransactionWire

/-!
# The transaction codec

`transaction_deserialize` against `transaction_serialize`.
-/

namespace ZClassic

theorem yields_when {α : Type} {p : Prop} [Decidable p] {r : Reader α} {default : α}
    {P : α → Prop} (h : Yields r P) :
    Yields (readWhen p r default) fun x => (p → P x) ∧ (¬p → x = default) := by
  unfold readWhen
  by_cases hp : p
  · rw [if_pos hp]
    exact fun bs x rest hrun => ⟨fun _ => h bs x rest hrun, fun hnot => absurd hp hnot⟩
  · rw [if_neg hp]
    exact yields_pure ⟨fun hyes => absurd hyes hp, fun _ => rfl⟩

theorem toInt32_mask_nonneg (header : UInt32) : 0 ≤ (header &&& 0x7fffffff).toInt32 := by
  have hlt : (header &&& 0x7fffffff).toBitVec.toNat < 2 ^ 31 := by
    change (header &&& 0x7fffffff).toNat < 2 ^ 31
    rw [UInt32.toNat_and]
    exact Nat.lt_of_le_of_lt Nat.and_le_right (by decide)
  apply Int32.le_iff_toInt_le.mpr
  change 0 ≤ (header &&& 0x7fffffff).toBitVec.toInt
  rw [BitVec.toInt_eq_toNat_cond, if_pos (by omega)]
  exact Int.natCast_nonneg _

theorem yields_version : Yields readVersion fun x => 0 ≤ x.2 :=
  (yields_any _).bind fun header _ => yields_pure (toInt32_mask_nonneg header)

theorem writtenProof_padProof (proof : Vector UInt8 192) :
    writtenProof true (padProof proof) = padProof proof := by
  change padProof ((proof ++ (Vector.replicate 104 0 : Vector UInt8 104)).take 192) = _
  apply congrArg padProof
  apply Vector.toList_inj.mp
  rw [Vector.toList_take, Vector.toList_append, List.take_left' Vector.length_toList]

theorem yields_proof (useGroth : Bool) :
    Yields (readProof useGroth) fun proof => writtenProof useGroth proof = proof := by
  cases useGroth with
  | false => exact fun _ _ _ _ => rfl
  | true => exact .map fun _ proof _ _ => writtenProof_padProof proof

theorem yields_jsDescription (useGroth : Bool) :
    Yields (jsDescriptionDeserialize useGroth) fun jsd =>
      jsd.useGroth = useGroth ∧ jsd.written = jsd := by
  refine (yields_any _).bind fun vpubOld _ => (yields_any _).bind fun vpubNew _ => ?_
  refine (yields_any _).bind fun anchor _ => (yields_any _).bind fun nullifiers _ => ?_
  refine (yields_any _).bind fun commitments _ => (yields_any _).bind fun ephemeralKey _ => ?_
  refine (yields_any _).bind fun randomSeed _ => (yields_any _).bind fun macs _ => ?_
  refine (yields_proof useGroth).bind fun proof hproof => ?_
  refine (yields_any _).bind fun ciphertexts _ => ?_
  refine yields_pure ⟨rfl, ?_⟩
  simp only [WireJoinsplit.written, hproof]

theorem yields_shielded :
    Yields readShielded fun x =>
      x.2.1.length ≤ maxShieldedSpends ∧ x.2.2.length ≤ maxShieldedOutputs := by
  refine (yields_any _).bind fun valueBalance _ => ?_
  refine (yields_list (yields_any _)).bind fun spends hspends => ?_
  refine (yields_list (yields_any _)).bind fun outputs houtputs => ?_
  exact yields_pure ⟨hspends.1, houtputs.1⟩

theorem yields_joinsplits (useGroth : Bool) :
    Yields (readJoinsplits useGroth) fun x =>
      x.1.length ≤ maxJoinsplits ∧ (∀ jsd ∈ x.1, jsd.useGroth = useGroth ∧ jsd.written = jsd) ∧
        (x.1 = [] → x.2 = (0, .replicate 64 0)) := by
  refine (yields_list (yields_jsDescription useGroth)).bind fun joinsplits hjs => ?_
  refine (yields_when (yields_any _)).bind fun pubkey hpubkey => ?_
  refine (yields_when (yields_any _)).bind fun sig hsig => ?_
  refine yields_pure ⟨hjs.1, hjs.2, fun hnil => ?_⟩
  rw [hpubkey.2 (not_not.mpr hnil), hsig.2 (not_not.mpr hnil)]

/-- Well-formed, with initial values in the fields that its version does not have. -/
structure WireTransaction.Canonical (tx : WireTransaction) : Prop where
  wellFormed : tx.WellFormed
  written : tx.written = tx

theorem WireTransaction.written_eq_self {tx : WireTransaction}
    (hgroup : ¬tx.overwintered = true → tx.versionGroupId = 0)
    (hexpiry : ¬(isOverwinterV3 tx.toTransaction || isSaplingV4 tx.toTransaction) = true →
      tx.expiryHeight = 0)
    (hshielded : ¬isSaplingV4 tx.toTransaction = true →
      (tx.valueBalance, tx.vShieldedSpend, tx.vShieldedOutput) = (0, [], []))
    (hversion : ¬2 ≤ tx.version → tx.vJoinsplit = [])
    (hjoinsplits : ∀ jsd ∈ tx.vJoinsplit, jsd.written = jsd)
    (hkeys : tx.vJoinsplit = [] → (tx.joinsplitPubkey, tx.joinsplitSig) = (0, .replicate 64 0))
    (hbinding : ¬(isSaplingV4 tx.toTransaction &&
        !(tx.vShieldedSpend.isEmpty && tx.vShieldedOutput.isEmpty)) = true →
      tx.bindingSig = .replicate 64 0) :
    tx.written = tx := by
  simp only [Prod.mk.injEq] at hshielded hkeys
  have hkept {α : Type} {c : Prop} [Decidable c] {x y : α} (h : ¬c → x = y) : ite c x y = x :=
    ite_eq_left_iff.mpr fun hc => (h hc).symm
  have hspends := hkept fun h => (hshielded h).2.1
  have houtputs := hkept fun h => (hshielded h).2.2
  have hvalueBalance := hkept fun h => (hshielded h).1
  have hjs : (if 2 ≤ tx.version then tx.vJoinsplit.map WireJoinsplit.written else []) =
      tx.vJoinsplit := by
    by_cases h : 2 ≤ tx.version
    · rw [if_pos h, List.map_congr_left hjoinsplits, List.map_id']
    · rw [if_neg h, hversion h]
  have hpubkey := hkept fun h : ¬tx.vJoinsplit ≠ [] => (hkeys (not_not.mp h)).1
  have hsig := hkept fun h : ¬tx.vJoinsplit ≠ [] => (hkeys (not_not.mp h)).2
  simp only [WireTransaction.written, hspends, houtputs, hjs, hkept hgroup, hkept hexpiry,
    hvalueBalance, hpubkey, hsig, hkept hbinding]

theorem yields_body {overwintered : Bool} {version : Int32} {versionGroupId : UInt32}
    (hversion : 0 ≤ version) (hgroup : ¬overwintered = true → versionGroupId = 0)
    (hknown : overwintered = true →
      (overwintered && versionGroupId == overwinterVersionGroupId && version == 3 ||
        overwintered && versionGroupId == saplingVersionGroupId && version == 4) = true) :
    Yields (readBody overwintered version versionGroupId
      (overwintered && versionGroupId == overwinterVersionGroupId && version == 3)
      (overwintered && versionGroupId == saplingVersionGroupId && version == 4))
      WireTransaction.Canonical := by
  refine (yields_list (yields_any _)).bind fun vin hvin => ?_
  refine (yields_list (yields_any _)).bind fun vout hvout => ?_
  refine (yields_any _).bind fun lockTime _ => ?_
  refine (yields_when (yields_any _)).bind fun expiryHeight hexpiry => ?_
  refine (yields_when yields_shielded).bind fun ⟨valueBalance, spends, outputs⟩ hshielded => ?_
  refine (yields_when (yields_joinsplits _)).bind fun ⟨joinsplits, pubkey, sig⟩ hjs => ?_
  refine (yields_when (yields_any _)).bind fun bindingSig hbinding => ?_
  have hspends : spends.length ≤ maxShieldedSpends ∧ outputs.length ≤ maxShieldedOutputs := by
    by_cases h : (overwintered && versionGroupId == saplingVersionGroupId && version == 4) = true
    · exact hshielded.1 h
    · obtain ⟨-, rfl, rfl⟩ : valueBalance = 0 ∧ spends = [] ∧ outputs = [] := by
        simpa using hshielded.2 h
      exact ⟨Nat.zero_le _, Nat.zero_le _⟩
  have hjoinsplits : joinsplits.length ≤ maxJoinsplits ∧
      (∀ jsd ∈ joinsplits, jsd.useGroth = (overwintered && decide (4 ≤ version)) ∧
        jsd.written = jsd) ∧ (joinsplits = [] → (pubkey, sig) = (0, .replicate 64 0)) := by
    by_cases h : 2 ≤ version
    · exact hjs.1 h
    · obtain ⟨rfl, hkeys⟩ : joinsplits = [] ∧ (pubkey, sig) = (0, .replicate 64 0) :=
        Prod.mk.inj (hjs.2 h)
      exact ⟨Nat.zero_le _, nofun, fun _ => hkeys⟩
  refine yields_pure ⟨?_, ?_⟩
  · exact ⟨hversion, hknown, hvin.1, hvout.1, hspends.1, hspends.2, hjoinsplits.1,
      fun jsd hmem => (hjoinsplits.2.1 jsd hmem).1⟩
  · apply WireTransaction.written_eq_self
    · exact hgroup
    · exact hexpiry.2
    · exact hshielded.2
    · exact fun h => congrArg Prod.fst (hjs.2 h)
    · exact fun jsd hmem => (hjoinsplits.2.1 jsd hmem).2
    · exact hjoinsplits.2.2
    · exact hbinding.2

theorem yields_transaction : Yields readTransaction WireTransaction.Canonical := by
  refine yields_version.bind fun ⟨overwintered, version⟩ hversion => ?_
  refine (yields_when (yields_any _)).bind fun versionGroupId hgroup => ?_
  refine (yields_guard _).bind fun _ hknown => ?_
  exact yields_body hversion hgroup.2 hknown

/-- The codec: a transaction within the limits, of a form that is read, with JoinSplits of that
form's proof system, comes back with its hash and with initial values in the fields that its version
does not have, so as it was if it had them; what follows it is left. What is accepted is read again
from its own bytes. -/
theorem transactionDeserialize_roundTrip (hash256 : List UInt8 → UInt256) :
    (∀ tx : WireTransaction, tx.WellFormed → ∀ rest,
      (transactionDeserialize hash256).run (transactionSerialize tx ++ rest) =
          some ({ tx.written with hash := hash256 (transactionSerialize tx) }, rest) ∧
        (tx.written = tx → tx.hash = hash256 (transactionSerialize tx) →
          (transactionDeserialize hash256).run (transactionSerialize tx ++ rest) =
            some (tx, rest))) ∧
    ∀ bs tx rest, (transactionDeserialize hash256).run bs = some (tx, rest) →
      (transactionDeserialize hash256).run (transactionSerialize tx) = some (tx, []) := by
  refine ⟨fun tx hform rest => ?_, fun bs tx rest hrun => ?_⟩
  · have hread := reads_transactionDeserialize hash256 hform rest
    refine ⟨hread, fun hwritten hhash => ?_⟩
    rw [hread, hwritten, ← hhash]
  · -- the accepted transaction is canonical but for its hash, which its bytes do not hold
    have hcanonical : Yields (transactionDeserialize hash256) fun tx =>
        ∃ tx₀ : WireTransaction, tx₀.Canonical ∧ tx = transactionComputeHash hash256 tx₀ :=
      .map fun bs tx₀ rest h => ⟨tx₀, yields_transaction bs tx₀ rest h, rfl⟩
    obtain ⟨tx₀, hcan, rfl⟩ := hcanonical bs tx rest hrun
    have hread := reads_transactionDeserialize hash256 hcan.wellFormed []
    rw [List.append_nil, hcan.written] at hread
    exact hread

def grothJoinsplit : WireJoinsplit where
  vpubOld := 0
  vpubNew := 0
  anchor := 0
  nullifiers := .replicate 2 0
  commitments := .replicate 2 0
  ephemeralKey := 0
  randomSeed := 0
  macs := .replicate 2 0
  useGroth := true
  proof := .replicate 296 0
  ciphertexts := .replicate 2 (.replicate 601 0)

/-- A Sapling transaction with an input, an output, a JoinSplit and an expiry height. -/
def saplingTransaction : WireTransaction where
  overwintered := true
  version := 4
  versionGroupId := saplingVersionGroupId
  vin := [{ prevout := ⟨7, 1⟩, scriptSig := { data := [0x51] } }]
  vout := [{ value := 5 }]
  expiryHeight := 20
  vJoinsplit := [grothJoinsplit]

theorem saplingTransaction_read :
    let hash256 (bs : List UInt8) : UInt256 := .ofNat 256 (leNat bs)
    (transactionDeserialize hash256).run (transactionSerialize saplingTransaction ++ [7]) =
      some ({ saplingTransaction.written with
        hash := hash256 (transactionSerialize saplingTransaction) }, [7]) ∧
    saplingTransaction.written.expiryHeight = 20 ∧
    saplingTransaction.written.vJoinsplit.length = 1 := by
  intro hash256
  have hform : saplingTransaction.WellFormed :=
    ⟨by decide, by decide, by decide, by decide, by decide, by decide, by decide, by decide⟩
  exact ⟨((transactionDeserialize_roundTrip hash256).1 _ hform [7]).1, by decide, by decide⟩

/-- A Sprout transaction with a JoinSplit that says it has a Groth16 proof. -/
def mixedTransaction : WireTransaction := { version := 2, vJoinsplit := [grothJoinsplit] }

/-- Its proof is written with 192 bytes and read with 296. -/
theorem mixedTransaction_not_read :
    mixedTransaction.version = 2 ∧ mixedTransaction.overwintered = false ∧
      mixedTransaction.vin.length ≤ maxTxInputs ∧ mixedTransaction.vout.length ≤ maxTxOutputs ∧
      mixedTransaction.vJoinsplit.length ≤ maxJoinsplits ∧
      (transactionDeserialize fun _ => 0).run (transactionSerialize mixedTransaction) = none := by
  have hnone : ((transactionDeserialize fun _ => 0).run
      (transactionSerialize mixedTransaction)).isNone = true := by decide +kernel
  exact ⟨rfl, rfl, by decide, by decide, by decide, Option.isNone_iff_eq_none.mp hnone⟩

end ZClassic
