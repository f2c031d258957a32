import ZClassic.Jobs.UtxoApplyDeltaSpec
import ZClassic.Storage.ProgressStore

/-!
# Stored deltas

Applying a delta to the coin table, storing it for a later disconnect, and undoing it from the
stored blobs: `apply_coins_kv`, `utxo_apply_delta_persist` and `utxo_apply_emit_inverse_delta`.
-/

namespace ZClassic

open List Table

def serializeSpentEntry (e : DeltaEntry) : List UInt8 :=
  leBytes 32 e.txid.toNat ++ (leBytes 4 e.vout.toNat ++ (leBytes 8 e.value.toUInt64.toNat ++
    (leBytes 4 e.height.toNat ++ (leBytes 1 (if e.isCoinbase then 1 else 0) ++
      (leBytes 4 e.script.length ++ e.script)))))

def serializeSpent (spent : List DeltaEntry) : List UInt8 := spent.flatMap serializeSpentEntry

def serializeAddedEntry (e : DeltaEntry) : List UInt8 :=
  leBytes 32 e.txid.toNat ++ leBytes 4 e.vout.toNat

def serializeAdded (added : List DeltaEntry) : List UInt8 := added.flatMap serializeAddedEntry

def readSpentEntry (bs : List UInt8) : Option (DeltaEntry × List UInt8) := do
  let (txid, bs) ← leRead 32 bs
  let (vout, bs) ← leRead 4 bs
  let (value, bs) ← leRead 8 bs
  let (height, bs) ← leRead 4 bs
  let (isCb, bs) ← leRead 1 bs
  let (slen, bs) ← leRead 4 bs
  if bs.length < slen then none
  else some (
    { txid := BitVec.ofNat 256 txid
      vout := UInt32.ofNat vout
      value := (UInt64.ofNat value).toInt64
      script := bs.take slen
      isCoinbase := isCb != 0
      height := UInt32.ofNat height }, bs.drop slen)

/-- The restore loop runs to the end of the blob and stops on a malformed entry. Every entry
takes more than one byte, so the blob's length bounds the passes. -/
def readSpent : ℕ → List UInt8 → Option (List DeltaEntry)
  | _, [] => some []
  | 0, _ :: _ => none
  | fuel + 1, b :: bs =>
    match readSpentEntry (b :: bs) with
    | none => none
    | some (e, rest) => (readSpent fuel rest).map (e :: ·)

/-- The erase loop takes 36 bytes at a time and ignores a shorter tail. -/
def readAdded : ℕ → List UInt8 → List Outpoint
  | 0, _ => []
  | fuel + 1, bs =>
    if bs.length < 36 then []
    else ⟨BitVec.ofNat 256 (leNat (bs.take 32)), UInt32.ofNat (leNat ((bs.drop 32).take 4))⟩
      :: readAdded fuel (bs.drop 36)

theorem readSpentEntry_serialize (e : DeltaEntry) (h : e.script.length < 2 ^ 32)
    (rest : List UInt8) : readSpentEntry (serializeSpentEntry e ++ rest) = some (e, rest) := by
  have htxid : e.txid.toNat < 256 ^ 32 := by have := e.txid.isLt; norm_num at *; omega
  have hvout : e.vout.toNat < 256 ^ 4 := by have := e.vout.toNat_lt; norm_num at *; omega
  have hvalue : e.value.toUInt64.toNat < 256 ^ 8 := by
    have := e.value.toUInt64.toNat_lt; norm_num at *; omega
  have hheight : e.height.toNat < 256 ^ 4 := by have := e.height.toNat_lt; norm_num at *; omega
  have hcb : (if e.isCoinbase then 1 else 0) < 256 ^ 1 := by split <;> norm_num
  have hslen : e.script.length < 256 ^ 4 := by norm_num at *; omega
  have hflag : ((if e.isCoinbase then 1 else 0) != 0) = e.isCoinbase := by
    cases e.isCoinbase <;> rfl
  simp only [readSpentEntry, serializeSpentEntry, append_assoc, leRead_leBytes htxid,
    leRead_leBytes hvout, leRead_leBytes hvalue, leRead_leBytes hheight, leRead_leBytes hcb,
    leRead_leBytes hslen, Option.bind_eq_bind, Option.bind_some, length_append]
  rw [if_neg (by omega), take_left' rfl, drop_left' rfl]
  simp [hflag]

theorem serializeSpentEntry_ne_nil (e : DeltaEntry) (rest : List UInt8) :
    ∃ b bs, serializeSpentEntry e ++ rest = b :: bs :=
  ⟨_, _, rfl⟩

variable {spent : List DeltaEntry} {fuel : ℕ}

theorem readSpent_serialize (hfuel : spent.length ≤ fuel)
    (h : ∀ e ∈ spent, e.script.length < 2 ^ 32) :
    readSpent fuel (serializeSpent spent) = some spent := by
  induction spent generalizing fuel with
  | nil => cases fuel <;> rfl
  | cons e spent ih =>
    obtain ⟨fuel, rfl⟩ : ∃ n, fuel = n + 1 := ⟨fuel - 1, by simp at hfuel; omega⟩
    have hcons : serializeSpent (e :: spent) = serializeSpentEntry e ++ serializeSpent spent :=
      flatMap_cons
    obtain ⟨b, bs, hb⟩ := serializeSpentEntry_ne_nil e (serializeSpent spent)
    rw [hcons, hb, readSpent, ← hb, readSpentEntry_serialize e (h e mem_cons_self)]
    dsimp only
    rw [ih (by simp at hfuel; omega) fun e he => h e (mem_cons_of_mem _ he), Option.map_some]

variable {added : List DeltaEntry}

theorem readAdded_serialize (hfuel : added.length ≤ fuel) :
    readAdded fuel (serializeAdded added) = added.map DeltaEntry.outpoint := by
  induction added generalizing fuel with
  | nil => cases fuel <;> rfl
  | cons e added ih =>
    obtain ⟨fuel, rfl⟩ : ∃ n, fuel = n + 1 := ⟨fuel - 1, by simp at hfuel; omega⟩
    have htxid : e.txid.toNat < 256 ^ 32 := by have := e.txid.isLt; norm_num at *; omega
    have hvout : e.vout.toNat < 256 ^ 4 := by have := e.vout.toNat_lt; norm_num at *; omega
    have hcons : serializeAdded (e :: added) =
        leBytes 32 e.txid.toNat ++ (leBytes 4 e.vout.toNat ++ serializeAdded added) := by
      rw [← append_assoc]
      exact flatMap_cons
    have hdrop : (serializeAdded (e :: added)).drop 36 = serializeAdded added := by
      rw [hcons, show 36 = 32 + 4 from rfl, ← drop_drop,
        drop_left' (leBytes_length 32 _), drop_left' (leBytes_length 4 _)]
    rw [readAdded, if_neg (by simp [hcons]; omega), hdrop, ih (by simp at hfuel; omega), hcons,
      take_left' (leBytes_length 32 _), drop_left' (leBytes_length 32 _),
      take_left' (leBytes_length 4 _), leNat_leBytes_of_lt htxid, leNat_leBytes_of_lt hvout]
    simp [DeltaEntry.outpoint]

theorem serializeSpent_length_ge (spent : List DeltaEntry) :
    spent.length ≤ (serializeSpent spent).length := by
  induction spent with
  | nil => simp
  | cons e spent ih =>
    have hcons : serializeSpent (e :: spent) = serializeSpentEntry e ++ serializeSpent spent :=
      flatMap_cons
    rw [hcons]
    simp only [serializeSpentEntry, length_append, leBytes_length, length_cons]
    omega

theorem serializeAdded_length (added : List DeltaEntry) :
    (serializeAdded added).length = 36 * added.length := by
  rw [serializeAdded, length_flatMap]
  simp [serializeAddedEntry, Nat.mul_comm]

theorem serializeAdded_length_ge (added : List DeltaEntry) :
    added.length ≤ (serializeAdded added).length := by
  rw [serializeAdded_length]
  omega

section Torn

/-- The bytes of the spent entry at the front; the length of its script is at byte 49. -/
def spentEntrySize (bs : List UInt8) : ℕ := 53 + leNat ((bs.drop 49).take 4)

/-- The blob ends inside a spent entry. -/
inductive EndsInsideSpent : List UInt8 → Prop where
  | torn {bs : List UInt8} (hne : bs ≠ []) (hsize : bs.length < spentEntrySize bs) :
    EndsInsideSpent bs
  | next {entry rest : List UInt8} (hsize : entry.length = spentEntrySize entry)
    (hrest : EndsInsideSpent rest) : EndsInsideSpent (entry ++ rest)

def EndsInsideAdded (bs : List UInt8) : Prop := ¬36 ∣ bs.length

variable {bs : List UInt8}

theorem le_length_of_readSpentEntry {r : DeltaEntry × List UInt8} (h : readSpentEntry bs = some r) :
    53 ≤ bs.length := by
  simp only [readSpentEntry, Option.bind_eq_bind, Option.bind_eq_some_iff] at h
  obtain ⟨_, h1, _, h2, _, h3, _, h4, _, h5, _, h6, -⟩ := h
  have := leRead_length h1
  have := leRead_length h2
  have := leRead_length h3
  have := leRead_length h4
  have := leRead_length h5
  have := leRead_length h6
  omega

theorem readSpentEntry_rest (bs : List UInt8) :
    (readSpentEntry bs).map Prod.snd =
      if bs.length < spentEntrySize bs then none else some (bs.drop (spentEntrySize bs)) := by
  unfold spentEntrySize
  by_cases hhead : 53 ≤ bs.length
  · have h32 : leRead 32 bs = some (leNat (bs.take 32), bs.drop 32) :=
      leRead_drop (i := 0) (by omega)
    have h36 : leRead 4 (bs.drop 32) = _ := leRead_drop (by omega)
    have h44 : leRead 8 (bs.drop 36) = _ := leRead_drop (by omega)
    have h48 : leRead 4 (bs.drop 44) = _ := leRead_drop (by omega)
    have h49 : leRead 1 (bs.drop 48) = _ := leRead_drop (by omega)
    have h53 : leRead 4 (bs.drop 49) = _ := leRead_drop (by omega)
    simp only [readSpentEntry, h32, h36, h44, h48, h49, h53, Option.bind_eq_bind, Option.bind_some,
      length_drop, drop_drop]
    by_cases hsize : bs.length < 53 + leNat ((bs.drop 49).take 4)
    · rw [if_pos (by omega), if_pos hsize]
      rfl
    · rw [if_neg (by omega), if_neg hsize]
      rfl
  · rw [if_pos (by omega)]
    cases h : readSpentEntry bs with
    | none => rfl
    | some r => exact absurd (le_length_of_readSpentEntry h) hhead

theorem spentEntrySize_append {entry : List UInt8} (h : 53 ≤ entry.length) (rest : List UInt8) :
    spentEntrySize (entry ++ rest) = spentEntrySize entry := by
  unfold spentEntrySize
  rw [drop_append_of_le_length (by omega), take_append_of_le_length]
  rw [length_drop]
  omega

theorem endsInsideSpent_drop_iff (h : spentEntrySize bs ≤ bs.length) :
    EndsInsideSpent (bs.drop (spentEntrySize bs)) ↔ EndsInsideSpent bs := by
  have hhead : 53 ≤ spentEntrySize bs := Nat.le_add_right ..
  constructor
  · intro hrest
    have hentry : (bs.take (spentEntrySize bs)).length = spentEntrySize bs :=
      length_take_of_le h
    have hsize := spentEntrySize_append (hentry ▸ hhead) (bs.drop (spentEntrySize bs))
    rw [take_append_drop] at hsize
    rw [← take_append_drop (spentEntrySize bs) bs]
    exact .next (hentry.trans hsize) hrest
  · intro hends
    cases hends with
    | torn _ hsize => omega
    | @next entry rest hsize hrest =>
      rw [spentEntrySize_append (hsize ▸ Nat.le_add_right ..), ← hsize, drop_left]
      exact hrest

theorem not_endsInsideSpent_nil : ¬EndsInsideSpent [] := by
  intro h
  generalize hbs : ([] : List UInt8) = bs at h
  cases h with
  | torn hne hsize => exact hne hbs.symm
  | next hsize hrest =>
    rw [(append_eq_nil_iff.mp hbs.symm).1] at hsize
    cases hsize

theorem readSpent_eq_none_iff {fuel : ℕ} (hfuel : bs.length ≤ fuel) :
    readSpent fuel bs = none ↔ EndsInsideSpent bs := by
  induction fuel generalizing bs with
  | zero =>
    rw [length_eq_zero_iff.mp (Nat.le_zero.mp hfuel)]
    exact iff_of_false nofun not_endsInsideSpent_nil
  | succ fuel ih =>
    cases bs with
    | nil => exact iff_of_false nofun not_endsInsideSpent_nil
    | cons b bs =>
      have hrest := readSpentEntry_rest (b :: bs)
      have hhead : 53 ≤ spentEntrySize (b :: bs) := Nat.le_add_right ..
      rw [readSpent]
      split_ifs at hrest with hsize
      · rw [Option.map_eq_none_iff.mp hrest]
        exact ⟨fun _ => .torn (cons_ne_nil b bs) hsize, fun _ => rfl⟩
      · obtain ⟨⟨e, rest⟩, hread, rfl⟩ := Option.map_eq_some_iff.mp hrest
        rw [hread]
        rw [Option.map_eq_none_iff, ih, endsInsideSpent_drop_iff (Nat.not_lt.mp hsize)]
        rw [length_drop]
        omega

end Torn

def addedCoin (height : UInt32) (e : DeltaEntry) : Coin :=
  ⟨e.value, height.toInt32, e.isCoinbase, e.script⟩

def restoredCoin (e : DeltaEntry) : Coin := ⟨e.value, e.height.toInt32, e.isCoinbase, e.script⟩

def applyCoinsKv (S : CoinSet) (s : DeltaSummary) (height : UInt32) : CoinSet :=
  let S := s.added.foldl (fun S e => coinsKvAdd S e.outpoint (addedCoin height e)) S
  s.spent.foldl (fun S e => coinsKvSpend S e.outpoint) S

def utxoApplyDeltaPersist (db : ProgressStore) (height : ℕ) (branchHash : UInt256)
    (s : DeltaSummary) : ProgressStore :=
  { db with
    utxoApplyDelta := db.utxoApplyDelta.insert height
      { branchHash := branchHash
        spentBlob := serializeSpent s.spent
        addedBlob := serializeAdded s.added } }

/-- `utxo_apply_emit_inverse_delta`: erases every created outpoint, then adds back every spent
coin. `none` is a malformed blob, on which every caller rolls its transaction back. -/
def utxoApplyEmitInverseDelta (db : ProgressStore) (height : ℕ) : Option ProgressStore :=
  match db.utxoApplyDelta.lookup height with
  | none => some db
  | some row =>
    match readSpent row.spentBlob.length row.spentBlob with
    | none => none
    | some spent =>
      let S := (readAdded row.addedBlob.length row.addedBlob).foldl coinsKvSpend db.coins
      some { db with
        coins := spent.foldl (fun S e => coinsKvAdd S e.outpoint (restoredCoin e)) S }

def undoDelta (S : CoinSet) (added spent : List DeltaEntry) : CoinSet :=
  Table.putAll (Table.delAll S (added.map DeltaEntry.outpoint))
    (spent.map fun e => (e.outpoint, restoredCoin e))

theorem applyCoinsKv_eq (S : CoinSet) (s : DeltaSummary) (height : UInt32) :
    applyCoinsKv S s height =
      delAll (putAll S (s.added.map fun e => (e.outpoint, addedCoin height e)))
        (s.spent.map DeltaEntry.outpoint) := by
  simp only [applyCoinsKv, delAll, putAll, foldl_map, coinsKvAdd, coinsKvSpend]

theorem emitInverseDelta_stored {db : ProgressStore} {height : ℕ} {branchHash : UInt256}
    (hrow : db.utxoApplyDelta.lookup height =
      some ⟨branchHash, serializeSpent spent, serializeAdded added⟩)
    (h : ∀ e ∈ spent, e.script.length < 2 ^ 32) :
    utxoApplyEmitInverseDelta db height =
      some { db with coins := undoDelta db.coins added spent } := by
  simp only [utxoApplyEmitInverseDelta, hrow,
    readSpent_serialize (serializeSpent_length_ge spent) h,
    readAdded_serialize (serializeAdded_length_ge added)]
  simp only [undoDelta, delAll, putAll, foldl_map]
  rfl

/-- What was written is visited entry by entry to the end of the blobs. A torn blob makes the
function fail, unless only the added one is torn. -/
theorem inverseDelta_decodes_iff (s : DeltaSummary) (db : ProgressStore) (height : ℕ)
    (row : UtxoApplyDeltaRow) (hrow : db.utxoApplyDelta.lookup height = some row) :
    ((∀ e ∈ s.spent, e.script.length ≤ 10000) →
      readSpent (serializeSpent s.spent).length (serializeSpent s.spent) = some s.spent ∧
        readAdded (serializeAdded s.added).length (serializeAdded s.added) =
          s.added.map DeltaEntry.outpoint ∧
        (serializeAdded s.added).length = 36 * s.added.length) ∧
      ((EndsInsideSpent row.spentBlob ∨ EndsInsideAdded row.addedBlob →
          utxoApplyEmitInverseDelta db height = none) ↔
        (EndsInsideAdded row.addedBlob → EndsInsideSpent row.spentBlob)) := by
  constructor
  · intro hscripts
    refine ⟨readSpent_serialize (serializeSpent_length_ge _) fun e he => ?_,
      readAdded_serialize (serializeAdded_length_ge _), serializeAdded_length _⟩
    have hle := hscripts e he
    omega
  · have hnone : utxoApplyEmitInverseDelta db height = none ↔ EndsInsideSpent row.spentBlob := by
      rw [← readSpent_eq_none_iff le_rfl, utxoApplyEmitInverseDelta, hrow]
      dsimp only
      cases readSpent row.spentBlob.length row.spentBlob with
      | none => exact iff_of_true rfl rfl
      | some spent => exact iff_of_false nofun nofun
    rw [hnone, or_imp]
    exact and_iff_right id

/-- A spent entry and a created output are read back; a spent blob of one byte is refused. -/
theorem inverseDelta_decodes_oneEntry :
    readSpent (serializeSpent [⟨7, 1, 50, [0x51], true, 3⟩]).length
        (serializeSpent [⟨7, 1, 50, [0x51], true, 3⟩]) = some [⟨7, 1, 50, [0x51], true, 3⟩] ∧
      (EndsInsideSpent [7] ∨ EndsInsideAdded [] → utxoApplyEmitInverseDelta
        { utxoApplyDelta := Finmap.singleton 5 ⟨0, [7], []⟩ } 5 = none) := by
  obtain ⟨hread, hrefused⟩ := inverseDelta_decodes_iff { spent := [⟨7, 1, 50, [0x51], true, 3⟩] }
    { utxoApplyDelta := Finmap.singleton 5 ⟨0, [7], []⟩ } 5 ⟨0, [7], []⟩ rfl
  exact ⟨(hread (by decide)).1, hrefused.mpr fun h => absurd (dvd_zero 36) h⟩

/-- A byte that starts an entry of the added blob is not noticed. -/
theorem tornAdded_ignored : EndsInsideAdded [7] ∧
    utxoApplyEmitInverseDelta { utxoApplyDelta := Finmap.singleton 5 ⟨0, [], [7]⟩ } 5 =
      some { utxoApplyDelta := Finmap.singleton 5 ⟨0, [], [7]⟩ } :=
  ⟨by unfold EndsInsideAdded; decide, rfl⟩

section Undo

variable {height : UInt32} {lookup : UtxoApplyLookupFn} {S : CoinSet} {txs : List Transaction}
  {st : DeltaState}

section

variable (h : Accepted height lookup txs st)

include h

theorem Accepted.script_lt :
    ∀ e ∈ st.spent, e.script.length < 2 ^ 32 := by
  intro e he
  have := (h.restore e he).script_le
  unfold utxoApplyScriptMax at this
  omega

theorem Accepted.created_notMem (hS : ReportsFound lookup S)
    {op : Outpoint} (hop : op ∈ createdBy txs) : op ∉ S := by
  rw [← h.created] at hop
  obtain ⟨e, he, rfl⟩ := mem_map.mp hop
  obtain ⟨lk, hlk, hfound⟩ := h.added_fresh e he
  rw [← hS _ lk hlk, hfound]
  exact Bool.false_ne_true

theorem Accepted.added_notMem (hS : ReportsFound lookup S) :
    ∀ e ∈ st.added, e.outpoint ∉ S := by
  intro e he
  apply h.created_notMem hS
  rw [← h.created]
  exact mem_map_of_mem he

end

theorem ReportsCoins.restored_lookup (hS : ReportsCoins lookup S) {e : DeltaEntry}
    {lk : UtxoApplyLookup} (result : lookup e.outpoint = some lk) (found : lk.found = true)
    (eq : e = spentEntry e.outpoint lk) : S.lookup e.outpoint = some (restoredCoin e) := by
  have hlk := hS _ lk result
  unfold coinLookup at hlk
  cases hc : S.lookup e.outpoint with
  | none =>
    rw [hc, Option.some.injEq] at hlk
    rw [← hlk] at found
    cases found
  | some c =>
    rw [hc, Option.some.injEq] at hlk
    rw [eq, ← hlk]
    simp [restoredCoin, spentEntry]

section

variable (h : Accepted height lookup txs st)

include h

theorem Accepted.restored_lookup (hS : ReportsCoins lookup S)
    {e : DeltaEntry} (he : e ∈ st.spent) (hcreated : e.outpoint ∉ createdBy txs) :
    S.lookup e.outpoint = some (restoredCoin e) := by
  cases h.source e he with
  | intra a mem outpoint _ =>
    rw [← h.created, ← outpoint] at hcreated
    exact absurd (mem_map_of_mem mem) hcreated
  | found lk result found eq => exact hS.restored_lookup result found eq

theorem lookup_applyCoinsKv (op : Outpoint) (hcreated : op ∉ createdBy txs) :
    (applyCoinsKv S st.accept height).lookup op =
      if op ∈ spentBy txs then none else S.lookup op := by
  rw [applyCoinsKv_eq, lookup_delAll]
  change (if op ∈ st.spent.map DeltaEntry.outpoint then none else _) = _
  rw [h.spent, lookup_putAll_of_notMem]
  rw [map_map]
  change op ∉ st.added.map DeltaEntry.outpoint
  rwa [h.created]

variable {op : Outpoint}

theorem undoDelta_of_notMem_spent {S' : CoinSet} (hspent : op ∉ spentBy txs) :
    (undoDelta S' st.added st.spent).lookup op =
      if op ∈ createdBy txs then none else S'.lookup op := by
  unfold undoDelta
  rw [lookup_putAll_of_notMem, lookup_delAll, h.created]
  rw [map_map]
  change op ∉ st.spent.map DeltaEntry.outpoint
  rwa [h.spent]

theorem mem_undoDelta_of_mem_spent (S' : CoinSet)
    (hspent : op ∈ spentBy txs) : op ∈ undoDelta S' st.added st.spent := by
  unfold undoDelta
  rw [mem_putAll, map_map]
  refine .inr ?_
  change op ∈ st.spent.map DeltaEntry.outpoint
  rwa [h.spent]

theorem undoDelta_of_mem_spent
    (hS : ReportsCoins lookup S) (S' : CoinSet) (hspent : op ∈ spentBy txs)
    (hcreated : op ∉ createdBy txs) : (undoDelta S' st.added st.spent).lookup op = S.lookup op := by
  rw [← h.spent] at hspent
  obtain ⟨e, he, rfl⟩ := mem_map.mp hspent
  have hc := h.restored_lookup hS he hcreated
  rw [hc]
  refine lookup_putAll_of_mem (mem_map_of_mem he) ?_
  -- a coin that is recorded twice is recorded alike
  intro r hr hk
  obtain ⟨e', he', rfl⟩ := mem_map.mp hr
  dsimp only at hk ⊢
  have hc' := h.restored_lookup hS he' (hk ▸ hcreated)
  rw [hk, hc] at hc'
  exact (Option.some.inj hc').symm

/-- Undoing the delta of an accepted block gives the coin set before it exactly when the block
spends none of its own outputs. -/
theorem undoDelta_applyCoinsKv_iff (hS : ReportsCoins lookup S) :
    undoDelta (applyCoinsKv S st.accept height) st.added st.spent = S ↔
      ∀ op ∈ createdBy txs, op ∉ spentBy txs := by
  constructor
  · intro heq op hcreated hspent
    have hmem := mem_undoDelta_of_mem_spent h (applyCoinsKv S st.accept height) hspent
    rw [heq] at hmem
    exact h.created_notMem hS.found hcreated hmem
  · intro hdisj
    refine Finmap.ext_lookup fun op => ?_
    by_cases hspent : op ∈ spentBy txs
    · exact undoDelta_of_mem_spent h hS _ hspent fun hc => hdisj op hc hspent
    · rw [undoDelta_of_notMem_spent h hspent]
      by_cases hcreated : op ∈ createdBy txs
      · rw [if_pos hcreated, eq_comm, Finmap.lookup_eq_none]
        exact h.created_notMem hS.found hcreated
      · rw [if_neg hcreated, lookup_applyCoinsKv h op hcreated, if_neg hspent]

end

end Undo

end ZClassic
