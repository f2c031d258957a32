import ZClassic.Lib.Run
import ZClassic.Net.Download

/-!
# The limit on requests in flight

What `dl_assign_to_peer` hands out stays within the caller's buffer and the global limit exactly
when the limit has not fallen below the requests that are in flight already.
-/

namespace ZClassic

open List DownloadManager

/-- The table has a power of two of slots, no more in use than are counted, and room for those. -/
structure DlValid (dm : DownloadManager) : Prop where
  size : ∃ k, dm.slots.length = 2 ^ k
  active : dm.activeSlots ≤ dm.numActive
  fits : dm.numActive ≤ dm.slots.length

theorem DlValid.congr {dm dm' : DownloadManager} (h : DlValid dm) (hslots : dm'.slots = dm.slots)
    (hactive : dm'.numActive = dm.numActive) : DlValid dm' := by
  have hcount : dm'.activeSlots = dm.activeSlots := by
    rw [activeSlots, hslots]
    rfl
  refine ⟨?_, ?_, ?_⟩
  · rw [hslots]
    exact h.size
  · rw [hcount, hactive]
    exact h.active
  · rw [hslots, hactive]
    exact h.fits

theorem dlInit_valid : DlValid dlInit := by
  have hlength : dlInit.slots.length = 2 ^ 11 := length_replicate
  refine ⟨⟨11, hlength⟩, ?_, Nat.zero_le _⟩
  rw [activeSlots, dlInit, countP_replicate]
  exact le_refl 0

theorem length_placeSlot (slots : List DlInFlight) (s : DlInFlight) :
    (placeSlot slots s).length = slots.length := by
  unfold placeSlot
  dsimp only
  split
  · exact length_set
  · rfl

theorem countP_placeSlot (slots : List DlInFlight) (s : DlInFlight) :
    (placeSlot slots s).countP (·.active) ≤ slots.countP (·.active) + 1 := by
  unfold placeSlot
  dsimp only
  split
  · exact countP_set_le _ _
  · exact Nat.le_succ _

theorem foldl_placeSlot (l slots : List DlInFlight) :
    (l.foldl placeSlot slots).length = slots.length ∧
      (l.foldl placeSlot slots).countP (·.active) ≤ slots.countP (·.active) + l.length := by
  induction l generalizing slots with
  | nil => exact ⟨rfl, le_refl _⟩
  | cons s l ih =>
    obtain ⟨hlength, hcount⟩ := ih (placeSlot slots s)
    have hplace := countP_placeSlot slots s
    rw [foldl_cons, length_cons]
    exact ⟨hlength.trans (length_placeSlot slots s), by omega⟩

section Rehash

variable (dm : DownloadManager) (newSize : ℕ)

theorem length_dlRehash : (dlRehash dm newSize).slots.length = newSize := by
  rw [dlRehash, (foldl_placeSlot _ _).1, length_replicate]

theorem activeSlots_dlRehash : (dlRehash dm newSize).activeSlots ≤ dm.activeSlots := by
  have hcount := (foldl_placeSlot (dm.slots.filter (·.active)) (replicate newSize {})).2
  rw [countP_replicate, ← countP_eq_length_filter] at hcount
  have hempty : (if ({} : DlInFlight).active = true then newSize else 0) = 0 := rfl
  rw [hempty, Nat.zero_add] at hcount
  exact hcount

end Rehash

def slotAt (slots : List DlInFlight) (i : ℕ) : DlInFlight := slots.getD i {}

variable {slots : List DlInFlight}

theorem getElem?_of_active {i : ℕ} (h : (slotAt slots i).active = true) :
    slots[i]? = some (slotAt slots i) := by
  rw [slotAt, getD_eq_getElem?_getD] at h ⊢
  cases hs : slots[i]? with
  | none =>
    rw [hs] at h
    cases h
  | some s => rfl

theorem lt_of_active {i : ℕ} (h : (slotAt slots i).active = true) : i < slots.length :=
  (List.getElem?_eq_some_iff.mp (getElem?_of_active h)).1

/-- After the table has had its chance to grow it is valid, has a free slot and counts as before. -/
structure Grown (dm dm' : DownloadManager) : Prop where
  valid : DlValid dm'
  room : dm'.numActive < dm'.slots.length
  numActive : dm'.numActive = dm.numActive
  activeSlots : dm'.activeSlots ≤ dm.activeSlots

variable {dm dm' : DownloadManager} {hash : UInt256} {i : ℕ} {sync : SyncState} {s : DlInFlight}

theorem maybeGrow_queue (dm : DownloadManager) : (maybeGrow dm).queue = dm.queue := by
  unfold maybeGrow
  split_ifs <;> rfl

theorem DlValid.maybeGrow (h : DlValid dm) : Grown dm (maybeGrow dm) := by
  obtain ⟨k, hk⟩ := h.size
  have hpos := Nat.two_pow_pos k
  have hfits := h.fits
  have hrehash : ∀ size, (∃ j, size = 2 ^ j) → dm.numActive < size →
      Grown dm (dlRehash dm size) := by
    intro size hsize hroom
    have hcount := activeSlots_dlRehash dm size
    have hlength := length_dlRehash dm size
    refine ⟨⟨?_, hcount.trans h.active, ?_⟩, ?_, rfl, hcount⟩
    · rw [hlength]
      exact hsize
    · rw [hlength]
      exact hroom.le
    · rw [hlength]
      exact hroom
  unfold ZClassic.maybeGrow
  split_ifs with hgrow hcompact
  · exact hrehash _ ⟨k + 1, by rw [hk, pow_succ]⟩ (by omega)
  · exact hrehash _ h.size (by omega)
  · exact ⟨h, by omega, rfl, le_refl _⟩

theorem findSlot_active (h : findSlot dm hash false = some i) :
    (dm.slot i).active = true ∧ (dm.slot i).hash = hash := by
  unfold findSlot at h
  dsimp only at h
  split at h
  · next j hwalk =>
    cases h
    obtain ⟨hlive, hfound⟩ := probeWalk_hit hwalk
    exact ⟨hlive, beq_iff_eq.mp hfound⟩
  · cases h

theorem findSlot_isSome (h : DlValid dm) (hroom : dm.numActive < dm.slots.length) (hash : UInt256) :
    ∃ i, findSlot dm hash true = some i := by
  obtain ⟨k, hk⟩ := h.size
  obtain ⟨i, hi, s, hs, hfree⟩ := exists_not_of_countP_lt (h.active.trans_lt hroom)
  have hslot : (dm.slot i).active = false := by
    rw [slot, getD_eq_getElem?_getD, hs]
    exact hfree
  have hmem : i ∈ probe dm.slots.length (hashSlot hash (dm.slots.length - 1)) := by
    rw [hk]
    exact mem_probe (hk ▸ hi) _
  have hwalk := @probeWalk_ne_miss_none none _ (fun i => (dm.slot i).active)
    (fun i => (dm.slot i).hash == hash) (fun i => (dm.slot i).hash == 0) (.inr ⟨i, hmem, hslot⟩)
  unfold findSlot
  dsimp only
  split
  · next j _ => exact ⟨j, rfl⟩
  · next free hmiss =>
    cases free with
    | none => exact absurd hmiss hwalk
    | some j => exact ⟨j, rfl⟩

section Calls

theorem DlValid.fillSlot (h : DlValid dm) (hroom : dm.numActive < dm.slots.length) (i : ℕ)
    (hash : UInt256) (height : ℤ) (peerId : ℕ) (now : ℤ) :
    DlValid (fillSlot dm i hash height peerId now) := by
  have hlength : (ZClassic.fillSlot dm i hash height peerId now).slots.length = dm.slots.length :=
    length_set
  refine ⟨?_, (countP_set_le _ _).trans (Nat.succ_le_succ h.active), ?_⟩
  · rw [hlength]
    exact h.size
  · rw [hlength]
    exact hroom

theorem DlValid.release (h : DlValid dm) (hi : (dm.slot i).active = true)
    (hslots : dm'.slots = dm.slots.set i { dm.slot i with active := false })
    (hactive : dm'.numActive = dm.numActive - 1) : DlValid dm' := by
  have hcount : dm'.activeSlots + 1 = dm.activeSlots := by
    rw [activeSlots, hslots]
    exact countP_set_of_not (getElem?_of_active hi) hi rfl
  have hle := h.active
  have hfits := h.fits
  refine ⟨?_, by omega, ?_⟩
  · rw [hslots, length_set]
    exact h.size
  · rw [hslots, length_set]
    omega

/-- Only the peers and the counters may differ. -/
structure SameBooks (dm dm' : DownloadManager) : Prop where
  slots : dm'.slots = dm.slots
  numActive : dm'.numActive = dm.numActive
  queue : dm'.queue = dm.queue
  queueCap : dm'.queueCap = dm.queueCap

theorem dlUpdatePeer_books (peerId : ℕ) (create : Bool) (f : DlPeerStats → DlPeerStats) :
    SameBooks dm (dlUpdatePeer dm peerId create f) := by
  unfold dlUpdatePeer
  split
  · exact ⟨rfl, rfl, rfl, rfl⟩
  · split_ifs <;> exact ⟨rfl, rfl, rfl, rfl⟩

theorem noteTimeout_books (s : DlInFlight) (dm : DownloadManager) :
    SameBooks dm (noteTimeout s dm) :=
  have h := dlUpdatePeer_books s.peerId false _
  ⟨h.slots, h.numActive, h.queue, h.queueCap⟩

theorem dlQueuePush_table {height : ℤ} (hpush : dlQueuePush dm hash height = some dm') :
    dm'.slots = dm.slots ∧ dm'.numActive = dm.numActive := by
  unfold dlQueuePush at hpush
  rw [Option.ite_none_left_eq_some] at hpush
  cases hpush.2
  exact ⟨rfl, rfl⟩

theorem dlQueuePush_getD_table (hash : UInt256) (height : ℤ) :
    ((dlQueuePush dm hash height).getD dm).slots = dm.slots ∧
      ((dlQueuePush dm hash height).getD dm).numActive = dm.numActive := by
  cases hpush : dlQueuePush dm hash height with
  | none => exact ⟨rfl, rfl⟩
  | some dm' => exact dlQueuePush_table hpush

theorem DlValid.requeueSlot (h : DlValid dm) (hi : (dm.slot i).active = true) :
    DlValid (requeueSlot dm i) := by
  obtain ⟨hslots, hactive⟩ := @dlQueuePush_getD_table dm (dm.slot i).hash (dm.slot i).height
  apply h.release hi
  · unfold ZClassic.requeueSlot setSlot
    dsimp only
    rw [hslots]
  · unfold ZClassic.requeueSlot
    dsimp only
    rw [hactive]

section RequeueDue

variable {due : DlInFlight → Bool} {note : DlInFlight → DownloadManager → DownloadManager}

theorem requeueDue_induction {P : ℕ → DownloadManager → Prop}
    (hdue : ∀ dm i, P i dm → (dm.slot i).active = true → due (dm.slot i) = true →
      P (i + 1) (note (dm.slot i) (ZClassic.requeueSlot dm i)))
    (hskip : ∀ dm i, P i dm → ((dm.slot i).active = true → due (dm.slot i) = false) → P (i + 1) dm)
    (h : P 0 dm) : P dm.slots.length (requeueDue due note dm).1 := by
  unfold requeueDue
  induction dm.slots.length with
  | zero => exact h
  | succ n ih =>
    rw [range_succ, foldl_append, foldl_cons, foldl_nil]
    split_ifs with hturn
    · rw [Bool.and_eq_true] at hturn
      exact hdue _ n ih hturn.1 hturn.2
    · rw [Bool.and_eq_true, not_and, Bool.not_eq_true] at hturn
      exact hskip _ n ih hturn

theorem requeueDue_invariant {P : DownloadManager → Prop}
    (hstep : ∀ dm i, (dm.slot i).active = true → P dm →
      P (note (dm.slot i) (ZClassic.requeueSlot dm i))) (h : P dm) :
    P (requeueDue due note dm).1 :=
  requeueDue_induction (fun dm i hdm hi _ => hstep dm i hi hdm) (fun _ _ hdm _ => hdm) h

end RequeueDue

theorem queueBlock_cases (acc : ℕ × DownloadManager) (block : UInt256 × ℤ) :
    queueBlock acc block = acc ∨
      (findSlot acc.2 block.1 false).isSome ≠ true ∧
        (acc.2.queue.any fun e => e.1 == block.1) ≠ true ∧
        ∃ dm', dlQueuePush acc.2 block.1 block.2 = some dm' ∧
          queueBlock acc block = (acc.1 + 1, dm') := by
  unfold queueBlock
  split_ifs with hdup
  · exact .inl rfl
  · rw [Bool.or_eq_true, not_or] at hdup
    cases hpush : dlQueuePush acc.2 block.1 block.2 with
    | none => exact .inl rfl
    | some dm' => exact .inr ⟨hdup.1, hdup.2, dm', rfl, rfl⟩

theorem DlValid.drain (h : DlValid dm) : DlValid (dlDrainForBackpressure dm).2 := by
  refine ⟨?_, ?_, Nat.zero_le _⟩
  · rw [dlDrainForBackpressure, length_map]
    exact h.size
  · rw [activeSlots, dlDrainForBackpressure, countP_map]
    apply Nat.le_of_eq
    rw [countP_eq_zero]
    exact fun s _ => Bool.false_ne_true

end Calls

/-- While there is a valid table every turn finds a slot, so a turn hands the block out. -/
theorem assignLoop_induction {P : ℕ → List (UInt256 × ℤ) → DownloadManager →
      List UInt256 × List (UInt256 × ℤ) × DownloadManager → Prop} (now : ℤ) (peerId : ℕ)
    (hzero : ∀ queue dm, DlValid dm → P 0 queue dm ([], queue, dm))
    (hnil : ∀ n dm, DlValid dm → P n [] dm ([], [], dm))
    (hturn : ∀ n block queue dm i r, DlValid dm → findSlot (maybeGrow dm) block.1 true = some i →
      P n queue (fillSlot (maybeGrow dm) i block.1 block.2 peerId now) r →
      P (n + 1) (block :: queue) dm (block.1 :: r.1, r.2))
    (available : ℕ) (queue : List (UInt256 × ℤ)) (h : DlValid dm) :
    P available queue dm (assignLoop now peerId available queue dm) := by
  induction queue generalizing available dm with
  | nil =>
    cases available with
    | zero => exact hzero [] dm h
    | succ n => exact hnil (n + 1) dm h
  | cons block queue ih =>
    cases available with
    | zero => exact hzero _ dm h
    | succ n =>
      have hgrown := h.maybeGrow
      obtain ⟨i, hi⟩ := findSlot_isSome hgrown.valid hgrown.room block.1
      have hfill := hgrown.valid.fillSlot hgrown.room i block.1 block.2 peerId now
      have hrest := hturn n block queue dm i _ h hi (ih n hfill)
      unfold assignLoop
      dsimp only
      rw [hi]
      exact hrest

theorem assignLoop_spec (now : ℤ) (peerId available : ℕ) (queue : List (UInt256 × ℤ))
    (h : DlValid dm) :
    let r := assignLoop now peerId available queue dm
    DlValid r.2.2 ∧ r.1.length = min available queue.length ∧
      r.2.2.numActive = dm.numActive + r.1.length ∧
      r.2.2.activeSlots ≤ dm.activeSlots + r.1.length := by
  refine assignLoop_induction (P := fun available queue dm r => DlValid r.2.2 ∧
    r.1.length = min available queue.length ∧ r.2.2.numActive = dm.numActive + r.1.length ∧
    r.2.2.activeSlots ≤ dm.activeSlots + r.1.length) now peerId ?_ ?_ ?_ available queue h
  · exact fun _ dm h => ⟨h, (Nat.zero_min _).symm, rfl, le_refl _⟩
  · exact fun _ dm h => ⟨h, (Nat.min_zero _).symm, rfl, le_refl _⟩
  · rintro n block queue dm i r h - ⟨hvalid, hlength, hnum, hslots⟩
    have hgrown := h.maybeGrow
    have hcount : (fillSlot (maybeGrow dm) i block.1 block.2 peerId now).activeSlots ≤
        (maybeGrow dm).activeSlots + 1 := countP_set_le _ _
    have hactive : (fillSlot (maybeGrow dm) i block.1 block.2 peerId now).numActive =
        (maybeGrow dm).numActive + 1 := rfl
    have hold := hgrown.numActive
    have hle := hgrown.activeSlots
    refine ⟨hvalid, ?_, ?_, ?_⟩
    · rw [length_cons, length_cons, hlength]
      omega
    · rw [length_cons, hnum, hactive, hold, Nat.add_assoc, Nat.add_comm 1]
    · show r.2.2.activeSlots ≤ _
      rw [length_cons]
      omega

theorem dlAssignToPeer_table (sync : SyncState) (now : ℤ) (peerId maxAssign : ℕ)
    (dm : DownloadManager) :
    let r := assignLoop now peerId (dlAvailable sync peerId maxAssign dm) dm.queue dm
    (dlAssignToPeer sync now peerId maxAssign dm).1 = r.1 ∧
      (dlAssignToPeer sync now peerId maxAssign dm).2.slots = r.2.2.slots ∧
      (dlAssignToPeer sync now peerId maxAssign dm).2.numActive = r.2.2.numActive := by
  unfold dlAssignToPeer
  dsimp only
  refine ⟨rfl, ?_, ?_⟩
  · split_ifs
    · rfl
    · exact (dlUpdatePeer_books peerId true _).slots
  · split_ifs
    · rfl
    · exact (dlUpdatePeer_books peerId true _).numActive

theorem DlValid.assignToPeer (h : DlValid dm) (sync : SyncState) (now : ℤ) (peerId maxAssign : ℕ) :
    DlValid (dlAssignToPeer sync now peerId maxAssign dm).2 := by
  obtain ⟨-, hslots, hactive⟩ := dlAssignToPeer_table sync now peerId maxAssign dm
  exact (assignLoop_spec now peerId (dlAvailable sync peerId maxAssign dm) dm.queue h).1.congr
    hslots hactive

/-- What a call is to keep: the buffer of the caller and the global limit, counted and in the
table. -/
structure AssignsWithin (sync : SyncState) (maxAssign : ℕ) (dm : DownloadManager)
    (r : List UInt256 × DownloadManager) : Prop where
  returned : r.1.length ≤ maxAssign
  numActive : r.2.numActive ≤ max dm.numActive (dlGetMaxInFlightTotal sync)
  activeSlots : r.2.activeSlots ≤ max dm.activeSlots (dlGetMaxInFlightTotal sync)

theorem dlAssignToPeer_counts (h : DlValid dm) (sync : SyncState) (now : ℤ) (peerId maxAssign : ℕ) :
    let r := dlAssignToPeer sync now peerId maxAssign dm
    r.1.length = min (dlAvailable sync peerId maxAssign dm) dm.queue.length ∧
      r.2.numActive = dm.numActive + r.1.length ∧
      r.2.activeSlots ≤ dm.activeSlots + r.1.length := by
  intro r
  obtain ⟨hout, hslots, hactive⟩ := dlAssignToPeer_table sync now peerId maxAssign dm
  obtain ⟨-, hlength, hnum, hcount⟩ :=
    assignLoop_spec now peerId (dlAvailable sync peerId maxAssign dm) dm.queue h
  refine ⟨?_, ?_, ?_⟩
  · rw [hout, hlength]
  · rw [hactive, hout, hnum]
  · rw [activeSlots, hslots, hout]
    exact hcount

theorem dlAvailable_le (hlimit : dm.numActive ≤ dlGetMaxInFlightTotal sync) (peerId maxAssign : ℕ) :
    dlAvailable sync peerId maxAssign dm ≤ maxAssign ∧
      dm.numActive + dlAvailable sync peerId maxAssign dm ≤ dlGetMaxInFlightTotal sync := by
  have hmax : dlGetMaxInFlightTotal sync ≤ 4096 := by
    unfold dlGetMaxInFlightTotal
    split_ifs <;> decide
  have hsub : sizeSub (dlGetMaxInFlightTotal sync) dm.numActive =
      dlGetMaxInFlightTotal sync - dm.numActive := by
    unfold sizeSub
    omega
  unfold dlAvailable
  dsimp only
  rw [hsub]
  split_ifs with hover
  · omega
  · omega

theorem dlAvailable_pos (hlimit : dlGetMaxInFlightTotal sync < dm.numActive)
    (hsize : dm.numActive < 2 ^ 64) (peerId maxAssign : ℕ) :
    0 < dlAvailable sync peerId maxAssign dm := by
  unfold dlAvailable sizeSub
  rw [if_pos (by omega)]
  omega

theorem assignsWithin_iff (h : DlValid dm) (hsize : dm.numActive < 2 ^ 64) (sync : SyncState)
    (now : ℤ) (peerId maxAssign : ℕ) :
    AssignsWithin sync maxAssign dm (dlAssignToPeer sync now peerId maxAssign dm) ↔
      dm.queue = [] ∨ dm.numActive ≤ dlGetMaxInFlightTotal sync := by
  obtain ⟨hlength, hnum, hcount⟩ := dlAssignToPeer_counts h sync now peerId maxAssign
  have hactive := h.active
  constructor
  · intro hwithin
    by_contra hnot
    rw [not_or, not_le] at hnot
    have hpos := dlAvailable_pos hnot.2 hsize peerId maxAssign
    have hqueue := length_pos_iff.mpr hnot.1
    have hmax := hwithin.numActive
    omega
  · rintro (hqueue | hlimit)
    · rw [hqueue, length_nil, Nat.min_zero] at hlength
      exact ⟨by omega, by omega, by omega⟩
    · obtain ⟨hmax, hbound⟩ := dlAvailable_le hlimit peerId maxAssign
      exact ⟨by omega, by omega, by omega⟩

inductive DlAction where
  | queueBlocks (blocks : List (UInt256 × ℤ))
  | queuePriority (hash : UInt256) (height : ℤ)
  | markRequested (sync : SyncState) (now : ℤ) (hash : UInt256) (height : ℤ) (peerId : ℕ)
  | assignToPeer (sync : SyncState) (now : ℤ) (peerId maxAssign : ℕ)
  | markReceived (now : ℤ) (hash : UInt256)
  | checkTimeouts (sync : SyncState) (now : ℤ)
  | peerDisconnected (peerId : ℕ)
  | drainForBackpressure
  | peerBlockReceived (now : ℤ) (peerId : ℕ) (deliveryUs : ℤ)
  | setPeerLoopback (peerId : ℕ) (isLoopback : Bool)

def dlStep (dm : DownloadManager) : DlAction → DownloadManager
  | .queueBlocks blocks => (dlQueueBlocks blocks dm).2
  | .queuePriority hash height => dlQueuePriority hash height dm
  | .markRequested sync now hash height peerId => (dlMarkRequested sync now hash height peerId dm).2
  | .assignToPeer sync now peerId maxAssign => (dlAssignToPeer sync now peerId maxAssign dm).2
  | .markReceived now hash => (dlMarkReceived now hash dm).2
  | .checkTimeouts sync now => (dlCheckTimeouts sync now dm).2
  | .peerDisconnected peerId => (dlPeerDisconnected peerId dm).2
  | .drainForBackpressure => (dlDrainForBackpressure dm).2
  | .peerBlockReceived now peerId deliveryUs => dlPeerBlockReceived now peerId deliveryUs dm
  | .setPeerLoopback peerId isLoopback => dlSetPeerLoopback peerId isLoopback dm

/-- What is asked for by hash and height. -/
def DlAction.Asks (Ok : UInt256 → ℤ → Prop) : DlAction → Prop
  | .queueBlocks blocks => ∀ b ∈ blocks, Ok b.1 b.2
  | .queuePriority hash height => Ok hash height
  | .markRequested _ _ hash height _ => Ok hash height
  | _ => True

theorem DlAction.asks_any (a : DlAction) : a.Asks fun _ _ => True := by
  cases a <;> simp [DlAction.Asks]

/-- The moves that the calls are made of: what survives these survives every call. -/
structure DlClosed (Ok : UInt256 → ℤ → Prop) (P : DownloadManager → Prop) : Prop where
  books : ∀ {dm dm'}, P dm → SameBooks dm dm' → P dm'
  grow : ∀ {dm}, P dm → P (maybeGrow dm)
  remove : ∀ {dm} hash, P dm → P (dlQueueRemove dm hash)
  queue : ∀ {dm dm' hash height}, P dm → Ok hash height → (findSlot dm hash false).isSome ≠ true →
    (dm.queue.any fun e => e.1 == hash) ≠ true → dlQueuePush dm hash height = some dm' → P dm'
  priority : ∀ {dm dm' hash height}, P dm → Ok hash height →
    (findSlot dm hash false).isSome ≠ true →
    dlQueuePush (dlQueueRemove dm hash) hash height = some dm' → P dm'
  request : ∀ {dm hash height i}, P dm → Ok hash height → findSlot dm hash false = none →
    findSlot (dlQueueRemove (maybeGrow dm) hash) hash true = some i → ∀ peerId now,
    P (fillSlot (dlQueueRemove (maybeGrow dm) hash) i hash height peerId now)
  release : ∀ {dm dm' i}, P dm → (dm.slot i).active = true →
    dm'.slots = dm.slots.set i { dm.slot i with active := false } →
    dm'.numActive = dm.numActive - 1 → dm'.queue = dm.queue → dm'.queueCap = dm.queueCap → P dm'
  requeue : ∀ {dm i}, P dm → (dm.slot i).active = true → P (requeueSlot dm i)
  assign : ∀ {dm}, DlValid dm → P dm → ∀ sync now peerId maxAssign,
    P (dlAssignToPeer sync now peerId maxAssign dm).2
  drain : ∀ {dm}, P dm → P (dlDrainForBackpressure dm).2

theorem DlClosed.step {Ok : UInt256 → ℤ → Prop} {P : DownloadManager → Prop} (C : DlClosed Ok P)
    (hvalid : DlValid dm) (h : P dm) {a : DlAction} (ha : a.Asks Ok) : P (dlStep dm a) := by
  have hpeer : ∀ {dm}, P dm → ∀ peerId create f, P (dlUpdatePeer dm peerId create f) :=
    fun h _ _ _ => C.books h (dlUpdatePeer_books _ _ _)
  cases a with
  | queueBlocks blocks =>
    refine foldlRecOn (motive := fun acc => P acc.2) blocks queueBlock (b := (0, dm)) h ?_
    intro acc hacc block hb
    rcases queueBlock_cases acc block with hsame | ⟨hslot, hqueued, dm', hpush, heq⟩
    · rwa [hsame]
    · rw [heq]
      exact C.queue hacc (ha block hb) hslot hqueued hpush
  | queuePriority hash height =>
    unfold dlStep dlQueuePriority
    dsimp only
    split_ifs with hslot
    · exact h
    · cases hpush : dlQueuePush (dlQueueRemove dm hash) hash height with
      | none => exact C.remove hash h
      | some dm' => exact C.priority h ha hslot hpush
  | markRequested sync now hash height peerId =>
    unfold dlStep dlMarkRequested
    dsimp only
    cases hslot : findSlot dm hash false with
    | some i => exact C.books h ⟨rfl, rfl, rfl, rfl⟩
    | none =>
      dsimp only
      split_ifs
      · exact h
      · cases hi : findSlot (dlQueueRemove (maybeGrow dm) hash) hash true with
        | none => exact C.remove hash (C.grow h)
        | some i => exact hpeer (C.request h ha hslot hi peerId now) _ _ _
  | assignToPeer sync now peerId maxAssign => exact C.assign hvalid h sync now peerId maxAssign
  | markReceived now hash =>
    unfold dlStep dlMarkReceived
    dsimp only
    cases hslot : findSlot dm hash false with
    | none => exact h
    | some i =>
      apply hpeer
      exact C.release h (findSlot_active hslot).1 rfl rfl rfl rfl
  | checkTimeouts sync now =>
    unfold dlStep dlCheckTimeouts
    apply C.grow
    apply requeueDue_invariant _ h
    intro dm i hi hdm
    exact C.books (C.requeue hdm hi) (noteTimeout_books _ _)
  | peerDisconnected peerId =>
    unfold dlStep dlPeerDisconnected
    apply hpeer
    exact requeueDue_invariant (fun _ _ hi hdm => C.requeue hdm hi) h
  | drainForBackpressure => exact C.drain h
  | peerBlockReceived now peerId deliveryUs => exact hpeer h _ _ _
  | setPeerLoopback peerId isLoopback => exact hpeer h _ _ _

theorem dlValid_closed : DlClosed (fun _ _ => True) DlValid where
  books h hsame := h.congr hsame.slots hsame.numActive
  grow h := h.maybeGrow.valid
  remove _ h := h.congr rfl rfl
  queue h _ _ _ hpush := h.congr (dlQueuePush_table hpush).1 (dlQueuePush_table hpush).2
  priority h _ _ hpush := h.congr (dlQueuePush_table hpush).1 (dlQueuePush_table hpush).2
  request h _ _ _ _ _ := by
    apply DlValid.fillSlot
    · exact h.maybeGrow.valid.congr rfl rfl
    · exact h.maybeGrow.room
  release h hi hslots hactive _ _ := h.release hi hslots hactive
  requeue := DlValid.requeueSlot
  assign _ h := h.assignToPeer
  drain := DlValid.drain

theorem DlValid.step (h : DlValid dm) (a : DlAction) : DlValid (dlStep dm a) :=
  dlValid_closed.step h h a.asks_any

/-- In every reachable state, a call hands out what fits the caller's buffer and leaves no more in
flight than before or than the limit allows, exactly when nothing is queued or the limit has not
fallen below what is in flight. -/
theorem dlAssignToPeer_within (acts : List DlAction) (sync : SyncState) (now : ℤ)
    (peerId maxAssign : ℕ) (hsize : (run dlStep dlInit acts).numActive < 2 ^ 64) :
    AssignsWithin sync maxAssign (run dlStep dlInit acts)
        (dlAssignToPeer sync now peerId maxAssign (run dlStep dlInit acts)) ↔
      (run dlStep dlInit acts).queue = [] ∨
        (run dlStep dlInit acts).numActive ≤ dlGetMaxInFlightTotal sync := by
  apply assignsWithin_iff _ hsize
  exact run_invariant DlValid (fun dm a h (_ : True) => h.step a) dlInit_valid
    (meetsAll_of_forall (fun _ _ _ => trivial) _)

theorem mem_foldl_placeSlot {l : List DlInFlight} (h : s ∈ l.foldl placeSlot slots) :
    s ∈ slots ∨ s ∈ l := by
  induction l generalizing slots with
  | nil => exact .inl h
  | cons x l ih =>
    rw [foldl_cons] at h
    rcases ih h with hmem | hmem
    · unfold placeSlot at hmem
      dsimp only at hmem
      split at hmem
      · rcases mem_or_eq_of_mem_set hmem with hmem | rfl
        · exact .inl hmem
        · exact .inr mem_cons_self
      · exact .inl hmem
    · exact .inr (mem_cons_of_mem x hmem)

theorem mem_maybeGrow (h : s ∈ (maybeGrow dm).slots) (hactive : s.active = true) :
    s ∈ dm.slots := by
  have hrehash : ∀ size, s ∈ (dlRehash dm size).slots → s ∈ dm.slots := by
    intro size hmem
    rcases mem_foldl_placeSlot hmem with hmem | hmem
    · rw [eq_of_mem_replicate hmem] at hactive
      cases hactive
    · exact mem_of_mem_filter hmem
  unfold maybeGrow at h
  split_ifs at h
  · exact hrehash _ h
  · exact hrehash _ h
  · exact h

theorem findSlot_eq_none (hfresh : ∀ s ∈ dm.slots, s.active = true → s.hash ≠ hash) :
    findSlot dm hash false = none := by
  cases hslot : findSlot dm hash false with
  | none => rfl
  | some i =>
    obtain ⟨hactive, hhash⟩ := findSlot_active hslot
    exact absurd hhash (hfresh _ (mem_of_getElem? (getElem?_of_active hactive)) hactive)

theorem dlMarkRequested_fresh (h : DlValid dm) (hlimit : dm.numActive < dlGetMaxInFlightTotal sync)
    (hfresh : ∀ s ∈ dm.slots, s.active = true → s.hash ≠ hash) (now height : ℤ) (peerId : ℕ) :
    let dm' := (dlMarkRequested sync now hash height peerId dm).2
    dm'.numActive = dm.numActive + 1 ∧ dm'.queue = dm.queue.eraseP (·.1 == hash) ∧
      ∀ s ∈ dm'.slots, s.active = true → s ∈ dm.slots ∨ s.hash = hash := by
  have hgrown := h.maybeGrow
  obtain ⟨i, hi⟩ := @findSlot_isSome (dlQueueRemove (maybeGrow dm) hash)
    (hgrown.valid.congr rfl rfl) hgrown.room hash
  unfold dlMarkRequested
  rw [findSlot_eq_none hfresh]
  dsimp only
  rw [if_neg (not_le.mpr hlimit), hi]
  dsimp only
  refine ⟨?_, ?_, ?_⟩
  · rw [(dlUpdatePeer_books peerId true _).numActive, ← hgrown.numActive]
    rfl
  · rw [(dlUpdatePeer_books peerId true _).queue, ← maybeGrow_queue dm]
    rfl
  · intro s hs hactive
    rw [(dlUpdatePeer_books peerId true _).slots] at hs
    rcases mem_or_eq_of_mem_set hs with hs | rfl
    · exact .inl (mem_maybeGrow hs hactive)
    · exact .inr rfl

/-- The requests for the blocks 1 to `n` during the initial download. -/
def requests (n : ℕ) : List DlAction :=
  (List.range n).map fun i => .markRequested .blocksDownload 0 (BitVec.ofNat 256 (i + 1)) i 1

def oneQueued : DownloadManager := dlStep dlInit (.queueBlocks [(5000, 5000)])

theorem dlStep_oneQueued : dlStep dlInit (.queueBlocks [(5000, 5000)]) = oneQueued := by
  rw [oneQueued]

theorem oneQueued_valid : DlValid oneQueued := by
  rw [oneQueued]
  exact dlInit_valid.step _

theorem oneQueued_queue : oneQueued.queue = [(5000, 5000)] := by decide +kernel

theorem oneQueued_slots : oneQueued.slots = dlInit.slots ∧ oneQueued.numActive = 0 := by
  decide +kernel

theorem run_requests {n : ℕ} (hn : n ≤ 4096) :
    let dm := run dlStep oneQueued (requests n)
    DlValid dm ∧ dm.numActive = n ∧ dm.queue = [(5000, 5000)] ∧
      ∀ s ∈ dm.slots, s.active = true → ∃ i < n, s.hash = BitVec.ofNat 256 (i + 1) := by
  induction n with
  | zero =>
    rw [requests, range_zero, map_nil, run_nil]
    refine ⟨oneQueued_valid, oneQueued_slots.2, oneQueued_queue, ?_⟩
    intro s hs hactive
    rw [oneQueued_slots.1, dlInit] at hs
    rw [eq_of_mem_replicate hs] at hactive
    cases hactive
  | succ n ih =>
    obtain ⟨hvalid, hnum, hqueue, hslots⟩ := ih (by omega)
    have hlast : requests (n + 1) = requests n ++
        [.markRequested .blocksDownload 0 (BitVec.ofNat 256 (n + 1)) n 1] := by
      rw [requests, range_succ, map_append]
      rfl
    rw [hlast, run_append, run_cons, run_nil]
    set dm := run dlStep oneQueued (requests n)
    have hfresh : ∀ s ∈ dm.slots, s.active = true → s.hash ≠ BitVec.ofNat 256 (n + 1) := by
      intro s hs hactive heq
      obtain ⟨i, hi, hhash⟩ := hslots s hs hactive
      have htoNat := congrArg BitVec.toNat (hhash.symm.trans heq)
      rw [BitVec.toNat_ofNat, BitVec.toNat_ofNat, Nat.mod_eq_of_lt (by omega),
        Nat.mod_eq_of_lt (by omega)] at htoNat
      omega
    have hlimit : dm.numActive < dlGetMaxInFlightTotal .blocksDownload := by
      rw [hnum]
      exact hn
    obtain ⟨hnum', hqueue', hslots'⟩ := dlMarkRequested_fresh hvalid hlimit hfresh 0 n 1
    refine ⟨hvalid.step _, ?_, ?_, ?_⟩
    · exact hnum'.trans (by rw [hnum])
    · refine hqueue'.trans ?_
      rw [hqueue, eraseP_of_forall_not]
      intro e he
      rw [mem_singleton.mp he, beq_iff_eq]
      intro heq
      have htoNat := congrArg BitVec.toNat heq
      rw [BitVec.toNat_ofNat, Nat.mod_eq_of_lt (by omega)] at htoNat
      change 5000 = n + 1 at htoNat
      omega
    · intro s hs hactive
      rcases hslots' s hs hactive with hold | hnew
      · obtain ⟨i, hi, hhash⟩ := hslots s hold hactive
        exact ⟨i, by omega, hhash⟩
      · exact ⟨n, by omega, hnew⟩

/-- After the initial download, with 1025 requests in flight, a caller with no room for a hash gets
one. -/
theorem overLimit_assigns :
    let dm := run dlStep dlInit (.queueBlocks [(5000, 5000)] :: requests 1025)
    dm.numActive = 1025 ∧ dlGetMaxInFlightTotal .atTip = 1024 ∧
      (dlAssignToPeer .atTip 0 2 0 dm).1.length = 1 ∧
      (dlAssignToPeer .atTip 0 2 0 dm).2.numActive = 1026 := by
  rw [run_cons, dlStep_oneQueued]
  obtain ⟨hvalid, hnum, hqueue, -⟩ := run_requests (n := 1025) (by decide)
  set dm := run dlStep oneQueued (requests 1025)
  obtain ⟨hlength, hcount, -⟩ := dlAssignToPeer_counts hvalid .atTip 0 2 0
  have hpos : 0 < dlAvailable .atTip 2 0 dm := by
    apply dlAvailable_pos
    · rw [hnum]
      decide
    · rw [hnum]
      decide
  rw [hqueue, length_singleton, Nat.min_eq_right hpos] at hlength
  rw [hlength, hnum] at hcount
  exact ⟨hnum, rfl, hlength, hcount⟩

theorem oneQueued_within :
    (run dlStep dlInit [.queueBlocks [(5000, 5000)]]).numActive < 2 ^ 64 ∧
      AssignsWithin .atTip 3 (run dlStep dlInit [.queueBlocks [(5000, 5000)]])
        (dlAssignToPeer .atTip 0 2 3 (run dlStep dlInit [.queueBlocks [(5000, 5000)]])) := by
  have hnum : (run dlStep dlInit [.queueBlocks [(5000, 5000)]]).numActive = 0 := by
    rw [run_cons, run_nil, dlStep_oneQueued]
    exact oneQueued_slots.2
  have hsize : (run dlStep dlInit [.queueBlocks [(5000, 5000)]]).numActive < 2 ^ 64 := by
    rw [hnum]
    decide
  refine ⟨hsize, (dlAssignToPeer_within _ .atTip 0 2 3 hsize).mpr (.inr ?_)⟩
  rw [hnum]
  exact Nat.zero_le _

end ZClassic
