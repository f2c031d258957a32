import Mathlib.Data.Fintype.EquivFin
import ZClassic.Lib.BackwardShift
import ZClassic.Lib.Run
import ZClassic.Primitives.Transaction

/-!
# The spent set of the wallet

`wallet_mark_outpoint_spent`, `wallet_unmark_outpoint_spent` and `wallet_is_outpoint_spent`
(`lib/wallet/src/wallet.c`): a table of 8192 slots with linear probing, where an entry is removed by
shifting others back.
-/

namespace ZClassic

open List Function

open LinearProbing

def spentSetBuckets : ℕ := 8192

/-- The eight words of the id and the scrambled output number, combined by exclusive or. -/
def spentHash (o : Outpoint) : Fin spentSetBuckets :=
  let words := (List.range 8).map fun i => UInt32.ofNat (o.hash.toNat >>> (32 * i))
  let h := words.foldl (· ^^^ ·) 0 ^^^ (o.n * 2654435761)
  ⟨h.toNat % spentSetBuckets, Nat.mod_lt _ (by decide)⟩

structure SpentSet where
  slots : Slots (Fin spentSetBuckets) Outpoint Unit := fun _ => none
  numSpent : ℕ := 0

/-- The entry at `next` goes to the hole if its natural slot is not behind the hole. -/
def needsMove (natural hole next : Fin spentSetBuckets) : Bool :=
  if hole ≤ next then decide (natural ≤ hole) || decide (next < natural)
  else decide (natural ≤ hole) && decide (next < natural)

section Calls

variable (hash : Outpoint → Fin spentSetBuckets)

def walletMarkOutpointSpent (set : SpentSet) (o : Outpoint) : SpentSet :=
  match insert succSlot set.slots o () spentSetBuckets (hash o) with
  | none => set
  | some (slots, added) => ⟨slots, set.numSpent + added.toNat⟩

def walletUnmarkOutpointSpent (set : SpentSet) (o : Outpoint) : SpentSet :=
  let (slots, removed) := removeShift hash needsMove set.slots o
  ⟨slots, if removed then set.numSpent - 1 else set.numSpent⟩

def walletIsOutpointSpent (set : SpentSet) (o : Outpoint) : Bool :=
  (find succSlot set.slots o spentSetBuckets (hash o)).isSome

inductive SpentCall where
  | mark (o : Outpoint)
  | unmark (o : Outpoint)
  deriving DecidableEq

def SpentCall.outpoint : SpentCall → Outpoint
  | .mark o => o
  | .unmark o => o

def spentStep (set : SpentSet) : SpentCall → SpentSet
  | .mark o => walletMarkOutpointSpent hash set o
  | .unmark o => walletUnmarkOutpointSpent hash set o

end Calls

def marked (calls : List SpentCall) : Finset Outpoint :=
  calls.foldl
    (fun m c => match c with
      | .mark o => Insert.insert o m
      | .unmark o => m.erase o)
    ∅

/-- The set answers for every outpoint by its last call, and counts them. -/
structure Remembers (hash : Outpoint → Fin spentSetBuckets) (set : SpentSet)
    (calls : List SpentCall) : Prop where
  isSpent : ∀ o, walletIsOutpointSpent hash set o = true ↔
    (calls.filter (·.outpoint = o)).getLast? = some (.mark o)
  numSpent : set.numSpent = (marked calls).card

theorem marked_concat (calls : List SpentCall) (c : SpentCall) :
    marked (calls ++ [c]) = match c with
      | .mark o => Insert.insert o (marked calls)
      | .unmark o => (marked calls).erase o := by
  rw [marked, foldl_append]
  rfl

theorem mem_marked_iff (calls : List SpentCall) (o : Outpoint) :
    o ∈ marked calls ↔ (calls.filter (·.outpoint = o)).getLast? = some (.mark o) := by
  induction calls using reverseRecOn with
  | nil => simp [marked]
  | append_singleton calls c ih =>
    rw [marked_concat, filter_append]
    by_cases hc : c.outpoint = o
    · rw [filter_cons_of_pos (by simpa using hc), filter_nil, getLast?_concat]
      cases c with
      | mark o' =>
        cases hc
        simp [SpentCall.outpoint]
      | unmark o' =>
        cases hc
        simp [SpentCall.outpoint]
    · rw [filter_cons_of_neg (by simpa using hc), filter_nil, append_nil, ← ih]
      cases c with
      | mark o' =>
        have hne : o ≠ o' := fun h => hc h.symm
        simp [hne]
      | unmark o' =>
        have hne : o ≠ o' := fun h => hc h.symm
        simp [hne]

section Steps

variable {hash : Outpoint → Fin spentSetBuckets} {set : SpentSet} {m : Finset Outpoint}

theorem needsMove_iff (natural hole next : Fin spentSetBuckets) (hne : hole ≠ next) :
    needsMove natural hole next = true ↔ dist natural hole < dist natural next := by
  rw [Ne, Fin.ext_iff] at hne
  unfold needsMove
  rw [dist_eq, dist_eq]
  split_ifs <;> simp only [Bool.or_eq_true, Bool.and_eq_true, decide_eq_true_eq] <;> omega

/-- The slots hold exactly the outpoints of `m`. -/
structure Records (hash : Outpoint → Fin spentSetBuckets) (set : SpentSet) (m : Finset Outpoint) :
    Prop where
  settled : Settled hash set.slots
  holds : ∀ o, Holds set.slots o () ↔ o ∈ m
  count : set.numSpent = m.card

theorem records_empty : Records hash {} ∅ := by
  refine ⟨settled_empty ⟨0, by decide⟩, ?_, rfl⟩
  intro o
  exact iff_of_false (fun ⟨_, hq⟩ => nomatch hq) (Finset.notMem_empty o)

section

variable (h : Records hash set m)

include h

theorem Records.isSpent (o : Outpoint) :
    walletIsOutpointSpent hash set o = true ↔ o ∈ m := by
  rw [walletIsOutpointSpent, h.settled.find_isSome, ← h.holds]
  exact ⟨fun ⟨_, hv⟩ => hv, fun hv => ⟨(), hv⟩⟩

theorem Records.unmark (o : Outpoint) :
    Records hash (walletUnmarkOutpointSpent hash set o) (m.erase o) := by
  obtain ⟨hsettled, hremoved, hholds⟩ := h.settled.removeShift needsMove_iff o
  refine ⟨hsettled, ?_, ?_⟩
  · intro o'
    rw [walletUnmarkOutpointSpent, hholds, h.holds, Finset.mem_erase, and_comm]
  · have hin : (removeShift hash needsMove set.slots o).2 = true ↔ o ∈ m := by
      rw [hremoved, ← h.holds]
      exact ⟨fun ⟨_, hv⟩ => hv, fun hv => ⟨(), hv⟩⟩
    rw [walletUnmarkOutpointSpent, h.count, Finset.card_erase_eq_ite]
    simp only [hin]

variable {o : Outpoint}

theorem Records.mark (hroom : (Insert.insert o m).card ≤ spentSetBuckets) :
    Records hash (walletMarkOutpointSpent hash set o) (Insert.insert o m) := by
  by_cases ho : o ∈ m
  · obtain ⟨q, hq⟩ := (h.holds o).mpr ho
    have hinsert := insert_of_holds () hq h.settled.unique (h.settled.along hq) (dist_lt _ _)
    have hsame : update set.slots q (some (o, ())) = set.slots := by
      rw [← hq, update_eq_self]
    rw [Finset.insert_eq_of_mem ho, walletMarkOutpointSpent, hinsert, hsame]
    exact h
  · have habsent : ∀ w, ¬Holds set.slots o w := fun w hw => ho ((h.holds o).mp hw)
    rw [Finset.card_insert_of_notMem ho] at hroom
    obtain ⟨f, hf⟩ := h.settled.unique.exists_free m (fun k v hv => (h.holds k).mp hv)
      (by rw [Fintype.card_fin]; omega)
    obtain ⟨t', hinsert, hsettled, hholds⟩ := h.settled.insert hf habsent ()
    rw [walletMarkOutpointSpent, hinsert]
    refine ⟨hsettled, ?_, ?_⟩
    · intro o'
      rw [hholds, h.holds, Finset.mem_insert, Prod.mk.injEq]
      simp
    · rw [Finset.card_insert_of_notMem ho, h.count]
      rfl

end

section

variable (h : ∀ o, walletIsOutpointSpent hash set o = true ↔ o ∈ m)

include h

theorem exists_slots :
    ∃ slot : m → Fin spentSetBuckets, Injective slot ∧
      ∀ o, set.slots (slot o) = some (o.val, ()) := by
  have hslot : ∀ o : m, ∃ i, set.slots i = some (o.val, ()) := by
    intro o
    have hspent := (h o).mpr o.property
    rw [walletIsOutpointSpent, Option.isSome_iff_exists] at hspent
    obtain ⟨i, hi⟩ := hspent
    obtain ⟨v, hv⟩ := find_sound hi
    exact ⟨i, hv⟩
  choose slot hslot using hslot
  refine ⟨slot, ?_, hslot⟩
  intro o o' heq
  have hsame := (hslot o).symm.trans (heq ▸ hslot o')
  rw [Option.some.injEq, Prod.mk.injEq] at hsame
  exact Subtype.ext hsame.1

theorem card_le_of_isSpent :
    m.card ≤ spentSetBuckets := by
  obtain ⟨slot, hinj, -⟩ := exists_slots h
  have hle := Fintype.card_le_of_injective slot hinj
  rwa [Fintype.card_coe, Fintype.card_fin] at hle

end

theorem Records.mark_full (h : Records hash set m) (ho : o ∉ m)
    (hfull : m.card = spentSetBuckets) : walletMarkOutpointSpent hash set o = set := by
  obtain ⟨slot, hinj, hslot⟩ := exists_slots h.isSpent
  have hcard : Fintype.card m = Fintype.card (Fin spentSetBuckets) := by
    rw [Fintype.card_coe, Fintype.card_fin, hfull]
  have hused : ∀ q, set.slots q ≠ none := by
    intro q
    obtain ⟨x, rfl⟩ := ((Fintype.bijective_iff_injective_and_card slot).mpr ⟨hinj, hcard⟩).2 q
    rw [hslot]
    exact Option.some_ne_none _
  rw [walletMarkOutpointSpent, insert_full () hused fun _ hv => ho ((h.holds o).mp hv)]

end Steps

theorem records_run (hash : Outpoint → Fin spentSetBuckets) (calls : List SpentCall)
    (hroom : ∀ pre, pre <+: calls → (marked pre).card ≤ spentSetBuckets) :
    Records hash (run (spentStep hash) {} calls) (marked calls) := by
  induction calls using reverseRecOn with
  | nil => exact records_empty
  | append_singleton calls c ih =>
    have h := ih fun pre hpre => hroom pre (hpre.trans (prefix_append _ _))
    have hlast := hroom _ prefix_rfl
    rw [marked_concat] at hlast ⊢
    rw [run_append, run_cons, run_nil]
    cases c with
    | mark o => exact h.mark hlast
    | unmark o => exact h.unmark o

/-- The set remembers every spend throughout a run exactly when at no time more than 8192 outpoints
are spent. -/
theorem remembers_iff (hash : Outpoint → Fin spentSetBuckets) (calls : List SpentCall) :
    (∀ pre, pre <+: calls → Remembers hash (run (spentStep hash) {} pre) pre) ↔
      ∀ pre, pre <+: calls → (marked pre).card ≤ spentSetBuckets := by
  constructor
  · intro h pre hpre
    apply card_le_of_isSpent
    intro o
    rw [mem_marked_iff]
    exact (h pre hpre).isSpent o
  · intro hroom pre hpre
    have h := records_run hash pre fun pre' hpre' => hroom pre' (hpre'.trans hpre)
    refine ⟨?_, h.count⟩
    intro o
    rw [h.isSpent, mem_marked_iff]

/-- Spends of the outputs 0 to 8192 of one transaction, one more than there are slots. -/
def manySpends : List SpentCall :=
  (List.range (spentSetBuckets + 1)).map fun i => .mark ⟨1, UInt32.ofNat i⟩

theorem marked_marks (l : List Outpoint) : marked (l.map .mark) = l.toFinset := by
  induction l using reverseRecOn with
  | nil => rfl
  | append_singleton l o ih =>
    rw [map_append, map_singleton, marked_concat, ih, toFinset_append]
    ext
    simp

theorem manySpends_forgotten :
    ¬Remembers spentHash (run (spentStep spentHash) {} manySpends) manySpends := by
  intro h
  have hle : (marked manySpends).card ≤ spentSetBuckets := by
    apply card_le_of_isSpent
    intro o
    rw [mem_marked_iff]
    exact h.isSpent o
  have hmarks : manySpends =
      ((range (spentSetBuckets + 1)).map fun i => Outpoint.mk 1 (UInt32.ofNat i)).map .mark := by
    rw [manySpends, map_map]
    rfl
  rw [hmarks, marked_marks, toFinset_card_of_nodup, length_map, length_range]
    at hle
  · omega
  · refine Nodup.map_on ?_ nodup_range
    intro i hi j hj heq
    rw [mem_range, spentSetBuckets] at hi hj
    rw [Outpoint.mk.injEq] at heq
    have hwords := congrArg UInt32.toNat heq.2
    rwa [UInt32.toNat_ofNat', UInt32.toNat_ofNat', Nat.mod_eq_of_lt (by omega),
      Nat.mod_eq_of_lt (by omega)] at hwords

end ZClassic
