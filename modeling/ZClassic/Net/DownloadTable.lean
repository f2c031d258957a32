import ZClassic.Net.DownloadLimit

/-!
# The table of requests in flight

The table of `download.c` keeps its chains under requests, releases and rehashing.
-/

namespace ZClassic

open List Function

def dlPath (n : ℕ) (hash : UInt256) : List ℕ := probe n (hashSlot hash (n - 1))

def InFlight (slots : List DlInFlight) (hash : UInt256) : Prop :=
  ∃ i, (slotAt slots i).active = true ∧ (slotAt slots i).hash = hash

variable {slots : List DlInFlight} {s : DlInFlight} {hash : UInt256} {dm : DownloadManager}

section Slots

variable {i : ℕ}

theorem slotAt_set (hi : i < slots.length) (s : DlInFlight) :
    slotAt (slots.set i s) = update (slotAt slots) i s := by
  funext j
  rw [slotAt, getD_eq_getElem?_getD, getElem?_set]
  by_cases hj : i = j
  · rw [if_pos hj, if_pos hi, hj, update_self]
    rfl
  · rw [if_neg hj, update_of_ne (Ne.symm hj), slotAt, getD_eq_getElem?_getD]

theorem getElem?_of_lt (h : i < slots.length) : slots[i]? = some (slotAt slots i) := by
  rw [slotAt, getD_eq_getElem _ _ h, getElem?_eq_getElem h]

theorem inFlight_iff_mem : InFlight slots hash ↔ ∃ s ∈ slots, s.active = true ∧ s.hash = hash := by
  constructor
  · rintro ⟨i, hactive, hhash⟩
    exact ⟨_, mem_of_getElem? (getElem?_of_active hactive), hactive, hhash⟩
  · rintro ⟨s, hs, hactive, hhash⟩
    obtain ⟨i, hi, rfl⟩ := mem_iff_getElem.mp hs
    have hslot : slotAt slots i = slots[i] := getD_eq_getElem _ _ hi
    exact ⟨i, by rw [hslot, hactive], by rw [hslot, hhash]⟩

section

variable (hi : i < slots.length)

include hi

theorem inFlight_set (hfree : (slotAt slots i).active = false)
    (hs : s.active = true) :
    InFlight (slots.set i s) hash ↔ s.hash = hash ∨ InFlight slots hash := by
  rw [InFlight, slotAt_set hi]
  constructor
  · rintro ⟨j, hactive, hhash⟩
    by_cases hj : j = i
    · rw [hj, update_self] at hhash
      exact .inl hhash
    · rw [update_of_ne hj] at hactive hhash
      exact .inr ⟨j, hactive, hhash⟩
  · rintro (hhash | ⟨j, hactive, hhash⟩)
    · refine ⟨i, ?_, ?_⟩ <;> rwa [update_self]
    · have hj : j ≠ i := by
        intro hj
        rw [hj, hfree] at hactive
        cases hactive
      refine ⟨j, ?_, ?_⟩ <;> rwa [update_of_ne hj]

def released (slots : List DlInFlight) (i : ℕ) : List DlInFlight :=
  slots.set i { slotAt slots i with active := false }

theorem slotAt_released :
    slotAt (released slots i) =
      update (slotAt slots) i { slotAt slots i with active := false } := slotAt_set hi _

theorem active_released (j : ℕ) :
    (slotAt (released slots i) j).active = true ↔ j ≠ i ∧ (slotAt slots j).active = true := by
  rw [slotAt_released hi]
  by_cases hj : j = i
  · rw [hj, update_self]
    exact iff_of_false Bool.false_ne_true fun h => h.1 rfl
  · rw [update_of_ne hj]
    exact ⟨fun h => ⟨hj, h⟩, And.right⟩

theorem hash_released (j : ℕ) :
    (slotAt (released slots i) j).hash = (slotAt slots j).hash := by
  rw [slotAt_released hi]
  by_cases hj : j = i
  · rw [hj, update_self]
  · rw [update_of_ne hj]

end

theorem InFlight.released (h : InFlight slots hash) (hi : i < slots.length)
    (hne : (slotAt slots i).hash ≠ hash) : InFlight (released slots i) hash := by
  obtain ⟨j, hactive, hhash⟩ := h
  have hj : j ≠ i := by
    rintro rfl
    exact hne hhash
  exact ⟨j, (active_released hi j).mpr ⟨hj, hactive⟩, (hash_released hi j).trans hhash⟩

theorem InFlight.of_released (h : InFlight (ZClassic.released slots i) hash)
    (hi : i < slots.length) : InFlight slots hash := by
  obtain ⟨j, hactive, hhash⟩ := h
  rw [active_released hi] at hactive
  rw [hash_released hi] at hhash
  exact ⟨j, hactive.2, hhash⟩

end Slots

section Free

variable {f : ℕ}

abbrev FreeSlot (slots : List DlInFlight) (hash : UInt256) (f : ℕ) : Prop :=
  FirstFree (fun i => (slotAt slots i).active) (dlPath slots.length hash) f

theorem FreeSlot.lt (hsize : ∃ k, slots.length = 2 ^ k) (h : FreeSlot slots hash f) :
    f < slots.length := by
  obtain ⟨k, hk⟩ := hsize
  have hmem := h.mem
  rw [dlPath, hk] at hmem
  rw [hk]
  exact lt_of_mem_probe hmem

theorem exists_freeSlot (hsize : ∃ k, slots.length = 2 ^ k)
    (hroom : slots.countP (·.active) < slots.length) (hash : UInt256) :
    ∃ f, FreeSlot slots hash f := by
  obtain ⟨k, hk⟩ := hsize
  obtain ⟨i, hi, s, hs, hfree⟩ := exists_not_of_countP_lt hroom
  refine exists_firstFree ⟨i, ?_, ?_⟩
  · rw [dlPath, hk]
    exact mem_probe (hk ▸ hi) _
  · rw [slotAt, getD_eq_getElem?_getD, hs]
    exact hfree

theorem placeSlot_eq (h : FreeSlot slots s.hash f) : placeSlot slots s = slots.set f s := by
  unfold placeSlot
  dsimp only
  have hfind := h.find?_eq
  rw [dlPath] at hfind
  unfold slotAt at hfind
  rw [hfind]

theorem findSlot_free (hnot : ¬InFlight dm.slots hash)
    (h : findSlot dm hash true = some f) : FreeSlot dm.slots hash f := by
  unfold findSlot at h
  dsimp only at h
  split at h
  · next i hwalk =>
    obtain ⟨hactive, hhash⟩ := probeWalk_hit hwalk
    exact absurd ⟨i, hactive, eq_of_beq hhash⟩ hnot
  · next free hwalk =>
    rw [if_pos rfl] at h
    rw [h] at hwalk
    exact probeWalk_miss hwalk

theorem findSlot_isSome_iff
    (h : Chained (dlPath dm.slots.length) DlInFlight.active DlInFlight.hash 0 (slotAt dm.slots)) :
    (findSlot dm hash false).isSome ↔ InFlight dm.slots hash := by
  constructor
  · intro hsome
    obtain ⟨i, hi⟩ := Option.isSome_iff_exists.mp hsome
    exact ⟨i, findSlot_active hi⟩
  · rintro ⟨i, hactive, rfl⟩
    have hwalk := h.walk hactive none
    unfold findSlot
    dsimp only
    rw [← dlPath, show dm.slot = slotAt dm.slots from rfl, hwalk]
    rfl

end Free

section Rehash

variable {slots l : List DlInFlight}

abbrev SlotsChained (slots : List DlInFlight) : Prop :=
  Chained (dlPath slots.length) DlInFlight.active DlInFlight.hash 0 (slotAt slots)

section

variable (h : SlotsChained slots)

include h

theorem SlotsChained.set {s : DlInFlight} {f : ℕ} (hf : f < slots.length)
    (hnull : s.hash ≠ 0) (hnew : ¬InFlight slots s.hash) (hfree : FreeSlot slots s.hash f) :
    SlotsChained (slots.set f s) := by
  rw [SlotsChained, length_set, slotAt_set hf]
  exact h.fill hnull (fun i hi hkey => hnew ⟨i, hi, hkey⟩) hfree

theorem SlotsChained.released {i : ℕ} (hi : i < slots.length) :
    SlotsChained (released slots i) := by
  rw [SlotsChained, ZClassic.released, length_set, slotAt_set hi]
  exact h.release rfl rfl

theorem SlotsChained.pairwise : (slots.filter (·.active)).Pairwise fun a b => a.hash ≠ b.hash := by
  rw [pairwise_filter, pairwise_iff_getElem]
  intro i j hi hj hij hactive hactive' heq
  have hslot : ∀ {n} (hn : n < slots.length), slotAt slots n = slots[n] := fun hn =>
    getD_eq_getElem _ _ hn
  have hsame := h.unique i j (by rw [hslot hi]; exact hactive) (by rw [hslot hj]; exact hactive')
    (by rw [hslot hi, hslot hj, heq])
  omega

end

theorem foldl_placeSlot_spec (hsize : ∃ k, slots.length = 2 ^ k)
    (hactive : ∀ s ∈ l, s.active = true)
    (hroom : slots.countP (·.active) + l.length ≤ slots.length) :
    (l.foldl placeSlot slots).countP (·.active) = slots.countP (·.active) + l.length ∧
      (∀ hash, InFlight (l.foldl placeSlot slots) hash ↔
        InFlight slots hash ∨ ∃ s ∈ l, s.hash = hash) ∧
      (SlotsChained slots → (∀ s ∈ l, s.hash ≠ 0 ∧ ¬InFlight slots s.hash) →
        l.Pairwise (·.hash ≠ ·.hash) → SlotsChained (l.foldl placeSlot slots)) := by
  induction l generalizing slots with
  | nil => exact ⟨rfl, fun hash => ⟨.inl, fun h => h.resolve_right nofun⟩, fun h _ _ => h⟩
  | cons s l ih =>
    rw [forall_mem_cons] at hactive
    rw [length_cons] at hroom
    obtain ⟨f, hf⟩ := exists_freeSlot hsize (by omega) s.hash
    have hlt := hf.lt hsize
    have hcount : (slots.set f s).countP (·.active) = slots.countP (·.active) + 1 :=
      countP_set_of_free (getElem?_of_lt hlt) hf.1 hactive.1
    rw [foldl_cons, placeSlot_eq hf]
    obtain ⟨hcount', hinFlight, hchained⟩ := @ih (slots.set f s) (by rwa [length_set]) hactive.2
      (by rw [length_set]; omega)
    refine ⟨by rw [hcount', length_cons]; omega, fun hash => ?_, fun h hnew hpairs => ?_⟩
    · rw [hinFlight, inFlight_set hlt hf.1 hactive.1, exists_mem_cons_iff]
      tauto
    · rw [forall_mem_cons] at hnew
      rw [pairwise_cons] at hpairs
      refine hchained (h.set hlt hnew.1.1 hnew.1.2 hf) (fun s' hs' => ?_) hpairs.2
      rw [inFlight_set hlt hf.1 hactive.1, not_or]
      exact ⟨(hnew.2 s' hs').1, hpairs.1 s' hs', (hnew.2 s' hs').2⟩

theorem slotAt_replicate (n i : ℕ) : (slotAt (replicate n {}) i).active = false := by
  rw [slotAt, getD_eq_getElem?_getD, getElem?_replicate]
  split_ifs <;> rfl

theorem not_inFlight_replicate (n : ℕ) (hash : UInt256) : ¬InFlight (replicate n {}) hash := by
  rintro ⟨i, hactive, -⟩
  rw [slotAt_replicate] at hactive
  cases hactive

structure Rebuilt (slots slots' : List DlInFlight) : Prop where
  inFlight : ∀ hash, InFlight slots' hash ↔ InFlight slots hash
  count : slots'.countP (·.active) = slots.countP (·.active)
  chained : SlotsChained slots → SlotsChained slots'

theorem dlRehash_rebuilt {size : ℕ} (hsize : ∃ k, size = 2 ^ k)
    (hroom : dm.activeSlots ≤ size) : Rebuilt dm.slots (dlRehash dm size).slots := by
  have hlength : (replicate size ({} : DlInFlight)).length = size := length_replicate
  have hempty : (replicate size ({} : DlInFlight)).countP (·.active) = 0 := by
    rw [countP_replicate]
    rfl
  have hsize' : ∃ k, (replicate size ({} : DlInFlight)).length = 2 ^ k := by rwa [hlength]
  have hactive : ∀ s ∈ dm.slots.filter (·.active), s.active = true := fun s hs =>
    (mem_filter.mp hs).2
  have hfits : (replicate size ({} : DlInFlight)).countP (·.active) +
      (dm.slots.filter (·.active)).length ≤ (replicate size ({} : DlInFlight)).length := by
    rw [hempty, hlength, Nat.zero_add, ← countP_eq_length_filter]
    exact hroom
  obtain ⟨hcount, hinFlight, hchained⟩ := foldl_placeSlot_spec hsize' hactive hfits
  refine ⟨?_, ?_, ?_⟩
  · intro hash
    rw [dlRehash, hinFlight, @inFlight_iff_mem dm.slots]
    constructor
    · rintro (hempty | ⟨s, hs, hhash⟩)
      · exact absurd hempty (not_inFlight_replicate _ _)
      · exact ⟨s, (mem_filter.mp hs).1, (mem_filter.mp hs).2, hhash⟩
    · rintro ⟨s, hs, hactive, hhash⟩
      exact .inr ⟨s, mem_filter.mpr ⟨hs, hactive⟩, hhash⟩
  · rw [dlRehash, hcount, hempty, Nat.zero_add, countP_eq_length_filter]
  · intro h
    refine hchained (Chained.of_forall_not (slotAt_replicate size)) ?_ h.pairwise
    intro s hs
    obtain ⟨i, hi, hhash⟩ := inFlight_iff_mem.mpr
      ⟨s, (mem_filter.mp hs).1, (mem_filter.mp hs).2, rfl⟩
    refine ⟨?_, not_inFlight_replicate _ _⟩
    rw [← hhash]
    exact h.nonnull i hi

theorem maybeGrow_rebuilt (h : DlValid dm) : Rebuilt dm.slots (maybeGrow dm).slots := by
  obtain ⟨k, hk⟩ := h.size
  have hactive := h.active
  have hfits := h.fits
  unfold maybeGrow
  split_ifs with hgrow hcompact
  · exact dlRehash_rebuilt ⟨k + 1, by rw [hk, pow_succ]⟩ (by omega)
  · exact dlRehash_rebuilt h.size (by omega)
  · exact ⟨fun _ => Iff.rfl, rfl, id⟩

end Rehash

end ZClassic
