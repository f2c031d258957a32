import ZClassic.Net.DownloadQueue
import ZClassic.Net.DownloadTable

/-!
# The bookkeeping of the download manager

A block is queued once or in flight once but not both.
-/

namespace ZClassic

open List Prod

/-- A block is queued once, in the order of the heights, or in flight once. -/
structure Booked (queue : List (UInt256 × ℤ)) (slots : List DlInFlight) : Prop where
  chained : SlotsChained slots
  requested : ∀ s ∈ slots, s.active = true → s.height < 2 ^ 31
  queued : ∀ e ∈ queue, e.1 ≠ 0 ∧ e.2 < 2 ^ 31
  sorted : KeySorted queue
  nodup : (queue.map Prod.fst).Nodup
  apart : ∀ e ∈ queue, ¬InFlight slots e.1

variable {hash : UInt256} {height : ℤ} {dm dm' : DownloadManager} {i : ℕ}

section Booked

variable {queue : List (UInt256 × ℤ)} {slots slots' : List DlInFlight} {s : DlInFlight} {f : ℕ}

theorem Booked.of_inactive (h : ∀ i, (slotAt slots i).active = false)
    (hmem : ∀ s ∈ slots, s.active = false) : Booked [] slots where
  chained := Chained.of_forall_not h
  requested s hs hactive := by
    rw [hmem s hs] at hactive
    cases hactive
  queued := by simp
  sorted := Pairwise.nil
  nodup := nodup_nil
  apart := by simp

section

variable (h : Booked queue slots)

include h

theorem Booked.rebuilt (hr : Rebuilt slots slots')
    (hmem : ∀ s ∈ slots', s.active = true → s ∈ slots) : Booked queue slots' := by
  refine ⟨hr.chained h.chained, ?_, h.queued, h.sorted, h.nodup, ?_⟩
  · intro s hs hactive
    exact h.requested s (hmem s hs hactive) hactive
  · intro e he
    rw [hr.inFlight]
    exact h.apart e he

theorem Booked.sublist {queue' : List (UInt256 × ℤ)}
    (hsub : queue'.Sublist queue) : Booked queue' slots :=
  ⟨h.chained, h.requested, fun e he => h.queued e (hsub.subset he), h.sorted.sublist hsub,
    h.nodup.sublist (hsub.map _), fun e he => h.apart e (hsub.subset he)⟩

theorem Booked.set (hsize : ∃ k, slots.length = 2 ^ k)
    (hs : s.active = true) (hnull : s.hash ≠ 0) (hheight : s.height < 2 ^ 31)
    (hqueue : s.hash ∉ queue.map fst) (hnew : ¬InFlight slots s.hash)
    (hfree : FreeSlot slots s.hash f) : Booked queue (slots.set f s) := by
  have hlt := hfree.lt hsize
  refine ⟨h.chained.set hlt hnull hnew hfree, ?_, h.queued, h.sorted, h.nodup, ?_⟩
  · intro s' hs' hactive
    rcases mem_or_eq_of_mem_set hs' with hold | rfl
    · exact h.requested s' hold hactive
    · exact hheight
  · intro e he
    rw [inFlight_set hlt hfree.1 hs, not_or]
    refine ⟨?_, h.apart e he⟩
    intro heq
    exact hqueue (heq ▸ mem_map_of_mem he)

theorem Booked.released (hi : (slotAt slots i).active = true) :
    Booked queue (released slots i) ∧ ¬InFlight (released slots i) (slotAt slots i).hash ∧
      (slotAt slots i).hash ∉ queue.map fst := by
  have hlt := lt_of_active hi
  refine ⟨⟨h.chained.released hlt, ?_, h.queued, h.sorted, h.nodup, ?_⟩, ?_, ?_⟩
  · intro s hs hactive
    rcases mem_or_eq_of_mem_set hs with hold | rfl
    · exact h.requested s hold hactive
    · cases hactive
  · intro e he hin
    exact h.apart e he (hin.of_released hlt)
  · rintro ⟨j, hactive, hhash⟩
    rw [active_released hlt] at hactive
    rw [hash_released hlt] at hhash
    exact hactive.1 (h.chained.unique j i hactive.2 hi hhash)
  · intro hmem
    obtain ⟨e, he, hhash⟩ := mem_map.mp hmem
    exact h.apart e he ⟨i, hi, hhash.symm⟩

end

theorem Booked.push {dm dm' : DownloadManager} (h : Booked dm.queue slots) (hnull : hash ≠ 0)
    (hheight : height < 2 ^ 31) (hqueue : hash ∉ dm.queue.map fst)
    (hnew : ¬InFlight slots hash) (hpush : dlQueuePush dm hash height = some dm') :
    Booked dm'.queue slots := by
  have hperm := dlQueuePush_perm hpush
  have hmem : ∀ e ∈ dm'.queue, e = (hash, height) ∨ e ∈ dm.queue := fun e he =>
    mem_cons.mp (hperm.subset he)
  refine ⟨h.chained, h.requested, ?_, dlQueuePush_sorted h.sorted hpush, ?_, ?_⟩
  · intro e he
    rcases hmem e he with rfl | he
    · exact ⟨hnull, hheight⟩
    · exact h.queued e he
  · rw [(hperm.map fst).nodup_iff, map_cons, nodup_cons]
    exact ⟨hqueue, h.nodup⟩
  · intro e he
    rcases hmem e he with rfl | he
    · exact hnew
    · exact h.apart e he

theorem Booked.push_getD (h : Booked dm.queue slots) (hnull : hash ≠ 0) (hheight : height < 2 ^ 31)
    (hqueue : hash ∉ dm.queue.map fst) (hnew : ¬InFlight slots hash) :
    Booked ((dlQueuePush dm hash height).getD dm).queue slots := by
  cases hpush : dlQueuePush dm hash height with
  | none => exact h
  | some dm' => exact h.push hnull hheight hqueue hnew hpush

theorem Booked.not_mem_remove (h : Booked dm.queue slots) (hash : UInt256) :
    hash ∉ (dlQueueRemove dm hash).queue.map fst := by
  have herase : (dm.queue.eraseP (·.1 == hash)).map fst =
      (dm.queue.map fst).eraseP (· == hash) := by
    rw [eraseP_map]
    rfl
  rw [dlQueueRemove, herase, ← erase_eq_eraseP']
  exact h.nodup.not_mem_erase

end Booked

structure DlBooked (dm : DownloadManager) : Prop where
  size : ∃ k, dm.slots.length = 2 ^ k
  counted : dm.activeSlots = dm.numActive
  booked : Booked dm.queue dm.slots

section Calls

theorem DlBooked.valid (h : DlBooked dm) : DlValid dm := by
  refine ⟨h.size, h.counted.le, ?_⟩
  rw [← h.counted]
  exact countP_le_length

theorem DlBooked.congr (h : DlBooked dm) (hsame : SameBooks dm dm') : DlBooked dm' := by
  refine ⟨?_, ?_, ?_⟩
  · rw [hsame.slots]
    exact h.size
  · rw [DownloadManager.activeSlots, hsame.slots, hsame.numActive]
    exact h.counted
  · rw [hsame.queue, hsame.slots]
    exact h.booked

theorem dlInit_booked : DlBooked dlInit := by
  refine ⟨dlInit_valid.size, ?_, ?_⟩
  · rw [DownloadManager.activeSlots, dlInit, countP_replicate]
    rfl
  · refine Booked.of_inactive (slotAt_replicate _) fun s hs => ?_
    rw [dlInit] at hs
    rw [eq_of_mem_replicate hs]

section

variable (h : DlBooked dm)

include h

theorem DlBooked.maybeGrow : DlBooked (maybeGrow dm) := by
  have hgrown := h.valid.maybeGrow
  have hrebuilt := maybeGrow_rebuilt h.valid
  refine ⟨hgrown.valid.size, ?_, ?_⟩
  · rw [hgrown.numActive, ← h.counted]
    exact hrebuilt.count
  · rw [maybeGrow_queue]
    exact h.booked.rebuilt hrebuilt fun s => mem_maybeGrow

theorem findSlot_eq_none_iff (hash : UInt256) :
    findSlot dm hash false = none ↔ ¬InFlight dm.slots hash := by
  rw [← findSlot_isSome_iff h.booked.chained, Bool.not_eq_true, Option.isSome_eq_false_iff,
    Option.isNone_iff_eq_none]

theorem DlBooked.fillSlot (hnull : hash ≠ 0) (hheight : height < 2 ^ 31)
    (hqueue : hash ∉ dm.queue.map fst) (hnew : ¬InFlight dm.slots hash)
    (hi : findSlot dm hash true = some i) (peerId : ℕ) (now : ℤ) :
    DlBooked (fillSlot dm i hash height peerId now) := by
  have hfree := findSlot_free hnew hi
  refine ⟨?_, ?_, ?_⟩
  · exact length_set.symm ▸ h.size
  · have hcount := countP_set_of_free (getElem?_of_lt (hfree.lt h.size)) hfree.1
      (show (DlInFlight.mk hash height peerId now true).active = true from rfl)
    exact hcount.trans (congrArg (· + 1) h.counted)
  · exact h.booked.set h.size rfl hnull hheight hqueue hnew hfree

theorem DlBooked.remove (hash : UInt256) : DlBooked (dlQueueRemove dm hash) :=
  ⟨h.size, h.counted, h.booked.sublist eraseP_sublist⟩

theorem DlBooked.request (hok : hash ≠ 0 ∧ height < 2 ^ 31)
    (hslot : findSlot dm hash false = none)
    (hi : findSlot (dlQueueRemove (ZClassic.maybeGrow dm) hash) hash true = some i) (peerId : ℕ)
    (now : ℤ) : DlBooked (ZClassic.fillSlot (dlQueueRemove (ZClassic.maybeGrow dm) hash) i hash
      height peerId now) := by
  rw [findSlot_eq_none_iff h, ← (maybeGrow_rebuilt h.valid).inFlight] at hslot
  have hqueue := h.maybeGrow.booked.not_mem_remove hash
  exact (h.maybeGrow.remove hash).fillSlot hok.1 hok.2 hqueue hslot hi peerId now

theorem DlBooked.push (hok : hash ≠ 0 ∧ height < 2 ^ 31)
    (hqueue : hash ∉ dm.queue.map fst) (hslot : (findSlot dm hash false).isSome ≠ true)
    (hpush : dlQueuePush dm hash height = some dm') : DlBooked dm' := by
  rw [Ne, findSlot_isSome_iff h.booked.chained] at hslot
  obtain ⟨hslots, hactive⟩ := dlQueuePush_table hpush
  refine ⟨hslots ▸ h.size, ?_, ?_⟩
  · rw [DownloadManager.activeSlots, hslots, hactive]
    exact h.counted
  · rw [hslots]
    exact h.booked.push hok.1 hok.2 hqueue hslot hpush

theorem DlBooked.release (hi : (dm.slot i).active = true)
    (hslots : dm'.slots = released dm.slots i) (hactive : dm'.numActive = dm.numActive - 1)
    (hqueue : Booked dm'.queue (released dm.slots i)) : DlBooked dm' := by
  have hcount : dm'.activeSlots + 1 = dm.activeSlots := by
    rw [DownloadManager.activeSlots, hslots]
    exact countP_set_of_not (getElem?_of_active hi) hi rfl
  have hcounted := h.counted
  refine ⟨?_, by omega, ?_⟩
  · rw [hslots, released, length_set]
    exact h.size
  · rw [hslots]
    exact hqueue

theorem DlBooked.requeueSlot (hi : (dm.slot i).active = true) : DlBooked (requeueSlot dm i) := by
  obtain ⟨hslots, hactive⟩ := @dlQueuePush_getD_table dm (dm.slot i).hash (dm.slot i).height
  obtain ⟨hbooked, hnew, hqueue⟩ := h.booked.released hi
  have hheight := h.booked.requested _ (mem_of_getElem? (getElem?_of_active hi)) hi
  apply h.release hi
  · unfold ZClassic.requeueSlot DownloadManager.setSlot released
    dsimp only
    rw [hslots]
    rfl
  · unfold ZClassic.requeueSlot
    dsimp only
    rw [hactive]
  · exact hbooked.push_getD (h.booked.chained.nonnull i hi) hheight hqueue hnew

theorem DlBooked.drain : DlBooked (dlDrainForBackpressure dm).2 := by
  have hinactive : ∀ i, (slotAt (dlDrainForBackpressure dm).2.slots i).active = false := by
    intro i
    rw [dlDrainForBackpressure, slotAt, getD_eq_getElem?_getD, getElem?_map]
    cases dm.slots[i]? <;> rfl
  refine ⟨h.valid.drain.size, ?_, Booked.of_inactive hinactive fun s hs => ?_⟩
  · have hle := h.valid.drain.active
    exact Nat.le_zero.mp hle
  · obtain ⟨s', -, rfl⟩ := mem_map.mp hs
    rfl

end

end Calls

section Assign

theorem assignLoop_takes (now : ℤ) (peerId available : ℕ) (queue : List (UInt256 × ℤ))
    (h : DlValid dm) :
    (assignLoop now peerId available queue dm).1 = (queue.take available).map fst ∧
      (assignLoop now peerId available queue dm).2.1 = queue.drop available := by
  refine assignLoop_induction (P := fun available queue _ r =>
    r.1 = (queue.take available).map fst ∧ r.2.1 = queue.drop available) now peerId
    (fun _ _ _ => ⟨rfl, rfl⟩) ?_ ?_ available queue h
  · intro n dm _
    rw [take_nil, drop_nil]
    exact ⟨rfl, rfl⟩
  · rintro n block queue dm i r - - ⟨hout, hrest⟩
    exact ⟨congrArg (block.1 :: ·) hout, hrest⟩

theorem assignLoop_booked (now : ℤ) (peerId available : ℕ) {queue : List (UInt256 × ℤ)}
    (h : DlBooked { dm with queue }) :
    DlBooked { (assignLoop now peerId available queue dm).2.2 with
      queue := (assignLoop now peerId available queue dm).2.1 } := by
  refine assignLoop_induction (P := fun _ queue dm r => DlBooked { dm with queue } →
    DlBooked { r.2.2 with queue := r.2.1 }) now peerId (fun _ _ _ => id) (fun _ _ _ => id) ?_
    available queue (h.valid.congr rfl rfl) h
  intro n block queue dm i r hvalid hi ih h
  -- the table grows, and the block moves from the queue into it
  have hgrown := hvalid.maybeGrow
  have hgrow : DlBooked { ZClassic.maybeGrow dm with queue := block :: queue } := by
    have hrebuilt := maybeGrow_rebuilt hvalid
    refine ⟨hgrown.valid.size, ?_, h.booked.rebuilt hrebuilt fun s => mem_maybeGrow⟩
    exact hrebuilt.count.trans (h.counted.trans hgrown.numActive.symm)
  have hnodup := hgrow.booked.nodup
  rw [map_cons, nodup_cons] at hnodup
  have hblock := hgrow.booked.queued block mem_cons_self
  have hnew := hgrow.booked.apart block mem_cons_self
  have hrest : DlBooked { ZClassic.maybeGrow dm with queue } :=
    ⟨hgrow.size, hgrow.counted, hgrow.booked.sublist (sublist_cons_self block queue)⟩
  exact ih (hrest.fillSlot hblock.1 hblock.2 hnodup.1 hnew hi peerId now)

theorem dlAssignToPeer_takes (h : DlValid dm) (sync : SyncState) (now : ℤ)
    (peerId maxAssign : ℕ) :
    let r := dlAssignToPeer sync now peerId maxAssign dm
    r.1 = (dm.queue.take r.1.length).map fst ∧ r.2.queue = dm.queue.drop r.1.length := by
  obtain ⟨hout, hrest⟩ :=
    assignLoop_takes now peerId (dlAvailable sync peerId maxAssign dm) dm.queue h
  have hqueue : (dlAssignToPeer sync now peerId maxAssign dm).2.queue =
      dm.queue.drop (dlAvailable sync peerId maxAssign dm) := by
    unfold dlAssignToPeer
    dsimp only
    split_ifs
    · exact hrest
    · rw [(dlUpdatePeer_books _ _ _).queue]
      exact hrest
  intro r
  have hr : r.1 = (dm.queue.take (dlAvailable sync peerId maxAssign dm)).map fst := hout
  rw [show r.2.queue = _ from hqueue, hr, length_map, length_take]
  rcases Nat.le_total (dlAvailable sync peerId maxAssign dm) dm.queue.length with hle | hle
  · rw [Nat.min_eq_left hle]
    exact ⟨rfl, rfl⟩
  · rw [Nat.min_eq_right hle, take_of_length_le hle, take_length,
      drop_of_length_le hle, drop_length]
    exact ⟨rfl, rfl⟩

theorem DlBooked.assignToPeer (h : DlBooked dm) (sync : SyncState) (now : ℤ)
    (peerId maxAssign : ℕ) : DlBooked (dlAssignToPeer sync now peerId maxAssign dm).2 := by
  have hloop := @assignLoop_booked dm now peerId (dlAvailable sync peerId maxAssign dm) _ h
  unfold dlAssignToPeer
  dsimp only
  split_ifs
  · exact hloop
  · exact hloop.congr (dlUpdatePeer_books _ _ _)

end Assign

/-- The hashes of a call are not null, and its heights fit `int32_t`. -/
def DlAction.Proper : DlAction → Prop
  | .queueBlocks blocks => ∀ b ∈ blocks, b.1 ≠ 0 ∧ b.2 < 2 ^ 31
  | .queuePriority hash height => hash ≠ 0 ∧ height < 2 ^ 31
  | .markRequested _ _ hash height _ => hash ≠ 0 ∧ height < 2 ^ 31
  | _ => True

theorem dlBooked_closed : DlClosed (fun hash height => hash ≠ 0 ∧ height < 2 ^ 31) DlBooked where
  books := DlBooked.congr
  grow := DlBooked.maybeGrow
  remove hash h := h.remove hash
  queue h hok hslot hqueued hpush := by
    refine h.push hok (fun hmem => ?_) hslot hpush
    obtain ⟨e, he, hhash⟩ := mem_map.mp hmem
    exact hqueued (any_eq_true.mpr ⟨e, he, beq_iff_eq.mpr hhash⟩)
  priority h hok hslot hpush := (h.remove _).push hok (h.booked.not_mem_remove _) hslot hpush
  request := DlBooked.request
  release h hi hslots hactive hqueue _ :=
    h.release hi hslots hactive (hqueue ▸ (h.booked.released hi).1)
  requeue := DlBooked.requeueSlot
  assign _ h := h.assignToPeer
  drain := DlBooked.drain

theorem DlBooked.step (h : DlBooked dm) {a : DlAction} (ha : a.Proper) : DlBooked (dlStep dm a) :=
  dlBooked_closed.step h.valid h (by cases a <;> exact ha)

structure Bookkept (dm : DownloadManager) : Prop where
  /-- known heights in ascending order, unknown ones behind them -/
  sorted : dm.queue.Pairwise fun a b => 0 ≤ b.2 → 0 ≤ a.2 ∧ a.2 ≤ b.2
  queuedOnce : (dm.queue.map Prod.fst).Nodup
  apart : ∀ e ∈ dm.queue, ∀ i, (dm.slot i).active = true → (dm.slot i).hash ≠ e.1
  inFlightOnce : ∀ i j, (dm.slot i).active = true → (dm.slot j).active = true →
    (dm.slot i).hash = (dm.slot j).hash → i = j
  counted : dm.numActive = dm.activeSlots
  isInFlight : ∀ hash, dlIsInFlight dm hash = true ↔
    ∃ i, (dm.slot i).active = true ∧ (dm.slot i).hash = hash
  /-- what is handed out is the front of the queue, in its order -/
  lowestFirst : ∀ sync now peerId maxAssign,
    let r := dlAssignToPeer sync now peerId maxAssign dm
    r.1 = (dm.queue.take r.1.length).map Prod.fst ∧ r.2.queue = dm.queue.drop r.1.length

theorem dlIsInFlight_iff (h : DlBooked dm) (hash : UInt256) :
    dlIsInFlight dm hash = true ↔ InFlight dm.slots hash := by
  rw [← findSlot_isSome_iff h.booked.chained, dlIsInFlight]
  cases hslot : findSlot dm hash false with
  | none => exact iff_of_false Bool.false_ne_true Bool.false_ne_true
  | some i => exact iff_of_true (findSlot_active hslot).1 rfl

theorem DlBooked.bookkept (h : DlBooked dm) : Bookkept dm := by
  refine ⟨?_, h.booked.nodup, ?_, h.booked.chained.unique, h.counted.symm, dlIsInFlight_iff h,
    dlAssignToPeer_takes h.valid⟩
  · refine h.booked.sorted.imp_of_mem ?_
    intro a b ha hb hkey hknown
    have hheight := (h.booked.queued b hb).2
    unfold dlSortKey at hkey
    rw [if_neg (not_lt.mpr hknown)] at hkey
    split_ifs at hkey <;> omega
  · intro e he i hi hhash
    exact h.booked.apart e he ⟨i, hi, hhash⟩

/-- In every state that calls with proper blocks lead to, the books are in order. -/
theorem run_bookkept (acts : List DlAction) (hacts : ∀ a ∈ acts, a.Proper) :
    Bookkept (run dlStep dlInit acts) := by
  apply DlBooked.bookkept
  exact run_invariant DlBooked (fun _ _ h ha => h.step ha) dlInit_booked
    (meetsAll_of_forall (fun a ha _ => hacts a ha) _)

def threeBlocksQueued : List DlAction :=
  [.queueBlocks [(9, -1), (7, 12), (5, 3)], .assignToPeer .blocksDownload 0 1 1]

theorem run_bookkept_threeBlocksQueued :
    (∀ a ∈ threeBlocksQueued, a.Proper) ∧ Bookkept (run dlStep dlInit threeBlocksQueued) ∧
      dlIsInFlight (run dlStep dlInit threeBlocksQueued) 5 = true ∧
      (run dlStep dlInit threeBlocksQueued).queue = [(7, 12), (9, -1)] := by
  have hblocks : ∀ b ∈ [((9, -1) : UInt256 × ℤ), (7, 12), (5, 3)], b.1 ≠ 0 ∧ b.2 < 2 ^ 31 := by
    decide
  have hproper : ∀ a ∈ threeBlocksQueued, a.Proper :=
    forall_mem_cons.mpr ⟨hblocks, forall_mem_singleton.mpr trivial⟩
  exact ⟨hproper, run_bookkept _ hproper, by decide +kernel, by decide +kernel⟩

end ZClassic
