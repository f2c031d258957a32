import ZClassic.Chain.Mmr
import ZClassic.Services.SnapshotSync

/-!
# The SHA3 commitment to a coin table

`utxo_commitment_sha3_compute_table` of `lib/coins/src/utxo_commitment.c` writes a row in one piece
or field by field. The records delimit themselves, so that tables with the same bytes are the same.
-/

namespace ZClassic

open List

def utxoSha3RecordMax (scriptLen : ℕ) : ℕ := 48 + scriptLen + 5

def scriptInlineCap : ℕ := 1024

/-- `utxo_commitment_sha3_write_record`; the context is what the sponge has absorbed. -/
def utxoCommitmentSha3WriteRecord (ctx : List UInt8) (op : Outpoint) (row : Coin) : List UInt8 :=
  if utxoSha3RecordMax row.script.length ≤ utxoSha3RecordMax scriptInlineCap then
    ctx ++ utxoSha3SerializeRecord op row
  else
    let ctx := ctx ++ leBytes 32 op.hash.toNat
    let ctx := ctx ++ leBytes 4 op.n.toNat
    let ctx := ctx ++ leBytes 8 row.value.toUInt64.toNat
    let ctx := ctx ++ leBytes 4 row.script.length
    let ctx := if 0 < row.script.length then ctx ++ row.script else ctx
    let ctx := ctx ++ leBytes 4 row.height.toUInt32.toNat
    ctx ++ [if row.isCoinbase then 1 else 0]

def tableRows (t : CoinSet) : List (Outpoint × Coin) :=
  (t.keys.sort rowLe).filterMap fun op => (t.lookup op).map (op, ·)

def sha3AbsorbTable (t : CoinSet) : List UInt8 :=
  (tableRows t).foldl (fun ctx r => utxoCommitmentSha3WriteRecord ctx r.1 r.2) []

def readSha3Record : Reader (Outpoint × Coin) := do
  let hash ← readU256
  let n ← readU32
  let value ← readI64
  let len ← readLe 4
  let script ← readBytes len
  let height ← readI32
  let coinbase ← readBytes 1
  return (⟨hash, n⟩, { value, height, isCoinbase := coinbase == [1], script })

variable {op : Outpoint} {row : Coin} {t t' : CoinSet} {sha3 : List UInt8 → UInt256}

theorem writeRecord_eq_append (ctx : List UInt8) (op : Outpoint) (row : Coin) :
    utxoCommitmentSha3WriteRecord ctx op row = ctx ++ utxoSha3SerializeRecord op row := by
  unfold utxoCommitmentSha3WriteRecord
  by_cases hfits : utxoSha3RecordMax row.script.length ≤ utxoSha3RecordMax scriptInlineCap
  · rw [if_pos hfits]
  · rw [if_neg hfits]
    rw [utxoSha3RecordMax, utxoSha3RecordMax, scriptInlineCap] at hfits
    have hscript : 0 < row.script.length := by omega
    simp only [if_pos hscript, utxoSha3SerializeRecord, append_assoc]

theorem reads_sha3Record (h : row.script.length < 2 ^ 31) :
    Reads readSha3Record (utxoSha3SerializeRecord op row) (op, row) := by
  obtain ⟨value, height, isCoinbase, script⟩ := row
  change script.length < 2 ^ 31 at h
  set flag : UInt8 := if isCoinbase then 1 else 0
  have hflag : ([flag] == [1]) = isCoinbase := by cases isCoinbase <;> rfl
  have hlast := (reads_bytes [flag]).bind_pure (f := fun coinbase : List UInt8 =>
    (op, ({ value, height, isCoinbase := coinbase == [1], script } : Coin)))
  rw [hflag] at hlast
  simp only [utxoSha3SerializeRecord, append_assoc]
  refine (reads_u256 op.hash).bind ((reads_u32 op.n).bind ((reads_i64 value).bind
    ((reads_le (w := 4) (by omega)).bind ((reads_bytes script).bind (.bind ?_ hlast)))))
  exact (reads_u32 height.toUInt32).map UInt32.toInt32

theorem mem_tableRows : (op, row) ∈ tableRows t ↔ t.lookup op = some row := by
  rw [tableRows, mem_filterMap]
  constructor
  · rintro ⟨key, -, hkey⟩
    obtain ⟨found, hfound, hpair⟩ := Option.map_eq_some_iff.mp hkey
    cases hpair
    exact hfound
  · intro hlookup
    refine ⟨op, ?_, by rw [hlookup]; rfl⟩
    rw [Finset.mem_sort, Finmap.mem_keys]
    exact Finmap.mem_of_lookup_eq_some hlookup

theorem sha3AbsorbTable_eq (t : CoinSet) : sha3AbsorbTable t =
    (tableRows t).flatMap fun r => utxoSha3SerializeRecord r.1 r.2 := by
  simp only [sha3AbsorbTable, writeRecord_eq_append]
  exact (flatMap_eq_foldl ..).symm

theorem computeTable_absorbs (sha3 : List UInt8 → UInt256) (t : CoinSet) :
    (utxoCommitmentSha3ComputeTable sha3 t).1 = sha3 (sha3AbsorbTable t) := by
  rw [sha3AbsorbTable_eq, tableRows, utxoCommitmentSha3ComputeTable]
  apply congrArg sha3
  induction t.keys.sort rowLe with
  | nil => rfl
  | cons op keys ih =>
    rw [flatMap_cons, filterMap_cons, ih]
    cases t.lookup op <;> rfl

def ScriptsFit (t : CoinSet) : Prop := ∀ op row, t.lookup op = some row → row.script.length < 2 ^ 31

theorem sha3AbsorbTable_injective (ht : ScriptsFit t) (ht' : ScriptsFit t')
    (h : sha3AbsorbTable t = sha3AbsorbTable t') : t = t' := by
  have hrows : tableRows t = tableRows t' := by
    rw [sha3AbsorbTable_eq, sha3AbsorbTable_eq, ← append_nil (flatMap _ _),
      ← append_nil (flatMap _ (tableRows t'))] at h
    have hinj := (flatMap_append_inj (g := id)
      (fun r hr => reads_sha3Record (ht _ _ (mem_tableRows.mp hr)))
      (fun r hr => reads_sha3Record (ht' _ _ (mem_tableRows.mp hr)))
      (fun r => by simp [utxoSha3SerializeRecord]) rfl h).1
    rwa [map_id, map_id] at hinj
  apply Finmap.ext_lookup
  intro op
  apply Option.ext
  intro row
  rw [← mem_tableRows, hrows, mem_tableRows]

/-- Where SHA3 is injective, tables with the same commitment are the same. -/
theorem utxoCommitmentSha3_injective {S : Set (List UInt8)} (hsha3 : S.InjOn sha3)
    (hS : sha3AbsorbTable t ∈ S) (hS' : sha3AbsorbTable t' ∈ S) (ht : ScriptsFit t)
    (ht' : ScriptsFit t')
    (h : (utxoCommitmentSha3ComputeTable sha3 t).1 = (utxoCommitmentSha3ComputeTable sha3 t').1) :
    t = t' := by
  rw [computeTable_absorbs, computeTable_absorbs] at h
  exact sha3AbsorbTable_injective ht ht' (hsha3 hS hS' h)

def longScriptRow : Coin := { value := 5, script := replicate 2000 0 }

def longScriptTable (value : Int64) : CoinSet :=
  ((∅ : CoinSet).insert ⟨7, 1⟩ { value }).insert ⟨7, 0⟩ longScriptRow

theorem longScriptTable_lookup (value : Int64) (op : Outpoint) :
    (longScriptTable value).lookup op =
      if op = ⟨7, 0⟩ then some longScriptRow else if op = ⟨7, 1⟩ then some { value } else none := by
  rw [longScriptTable, Table.lookup_put, Table.lookup_put]
  rfl

theorem longScriptTable_fits (value : Int64) : ScriptsFit (longScriptTable value) := by
  intro op row hrow
  rw [longScriptTable_lookup] at hrow
  split_ifs at hrow <;> cases hrow
  · rw [longScriptRow, length_replicate]
    decide
  · exact Nat.two_pow_pos 31

theorem longScriptTable_absorbed (value : Int64) : sha3AbsorbTable (longScriptTable value) =
    utxoSha3SerializeRecord ⟨7, 0⟩ longScriptRow ++ utxoSha3SerializeRecord ⟨7, 1⟩ { value } := by
  have hkeys : (longScriptTable value).keys = {⟨7, 0⟩, ⟨7, 1⟩} := rfl
  have hsort : (longScriptTable value).keys.sort rowLe = [⟨7, 0⟩, ⟨7, 1⟩] := by
    rw [hkeys, Finset.sort_insert rowLe (by decide) (by decide), Finset.sort_singleton]
  rw [sha3AbsorbTable_eq, tableRows, hsort]
  simp [longScriptTable_lookup]

/-- Another value behind a long script gives another commitment. -/
theorem utxoCommitmentSha3_injective_longScript : ScriptsFit (longScriptTable 6) ∧
    (utxoCommitmentSha3ComputeTable polynomialHash (longScriptTable 6)).1 ≠
      (utxoCommitmentSha3ComputeTable polynomialHash (longScriptTable 7)).1 := by
  have hhash : polynomialHash (sha3AbsorbTable (longScriptTable 6)) ≠
      polynomialHash (sha3AbsorbTable (longScriptTable 7)) := by
    rw [longScriptTable_absorbed, longScriptTable_absorbed]
    decide +kernel
  refine ⟨longScriptTable_fits 6, fun h => ?_⟩
  have heq := utxoCommitmentSha3_injective (Set.injOn_pair.mpr fun heq => absurd heq hhash)
    (.inl rfl) (.inr rfl) (longScriptTable_fits 6) (longScriptTable_fits 7) h
  have hrow := congrArg (Finmap.lookup ⟨7, 1⟩) heq
  simp [longScriptTable_lookup] at hrow

end ZClassic
