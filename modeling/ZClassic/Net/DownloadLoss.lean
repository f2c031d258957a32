import ZClassic.Net.DownloadBook

/-!
# Blocks that the download manager loses

A block that was accepted stays queued or in flight until it is received, as long as the queue has
room for the requests that time out or lose their peer.
-/

namespace ZClassic

open List Function

def Held (dm : DownloadManager) (hash : UInt256) : Prop :=
  hash ∈ dm.queue.map Prod.fst ∨ InFlight dm.slots hash

def dueRequests (dm : DownloadManager) : DlAction → ℕ
  | .checkTimeouts sync now => dm.slots.countP fun s =>
    s.active && decide (dlGetRequestTimeoutSecs sync ≤ now - s.requestTime)
  | .peerDisconnected peerId => dm.slots.countP fun s => s.active && s.peerId == peerId
  | _ => 0

def Roomy (dm : DownloadManager) (a : DlAction) : Prop :=
  dm.queue.length + dueRequests dm a ≤ dlQueueMax

instance (dm : DownloadManager) (a : DlAction) : Decidable (Roomy dm a) :=
  inferInstanceAs (Decidable (dm.queue.length + dueRequests dm a ≤ dlQueueMax))

/-- The call accepts the block: it counts it as added, hands it out, or says it is requested. -/
def DlAccepts (dm : DownloadManager) (hash : UInt256) : DlAction → Prop
  | .queueBlocks blocks => ∃ before height after, blocks = before ++ (hash, height) :: after ∧
    (queueBlock (before.foldl queueBlock (0, dm)) (hash, height)).1 =
      (before.foldl queueBlock (0, dm)).1 + 1
  | .assignToPeer sync now peerId maxAssign =>
    hash ∈ (dlAssignToPeer sync now peerId maxAssign dm).1
  | .markRequested sync now requested height peerId =>
    requested = hash ∧ (dlMarkRequested sync now hash height peerId dm).1 = true
  | _ => False

variable {dm dm' : DownloadManager} {hash : UInt256}

section Keep

theorem Held.congr (h : Held dm hash) (hslots : dm'.slots = dm.slots)
    (hqueue : dm'.queue = dm.queue) : Held dm' hash := by
  rw [Held, hslots, hqueue]
  exact h

theorem Held.updatePeer (h : Held dm hash) (peerId : ℕ) (create : Bool)
    (f : DlPeerStats → DlPeerStats) : Held (dlUpdatePeer dm peerId create f) hash :=
  h.congr (dlUpdatePeer_books peerId create f).slots (dlUpdatePeer_books peerId create f).queue

theorem Held.maybeGrow (hvalid : DlValid dm) (h : Held dm hash) : Held (maybeGrow dm) hash := by
  rw [Held, maybeGrow_queue, (maybeGrow_rebuilt hvalid).inFlight]
  exact h

theorem findSlot_cases {i : ℕ} (hvalid : DlValid dm) (h : findSlot dm hash true = some i) :
    i < dm.slots.length ∧ ((dm.slot i).active = true → (dm.slot i).hash = hash) := by
  unfold findSlot at h
  dsimp only at h
  split at h
  · next j hwalk =>
    cases h
    obtain ⟨hactive, hhash⟩ := probeWalk_hit hwalk
    exact ⟨lt_of_active hactive, fun _ => eq_of_beq hhash⟩
  · next free hwalk =>
    rw [if_pos rfl] at h
    rw [h] at hwalk
    have hfree : FreeSlot dm.slots hash i := probeWalk_miss hwalk
    refine ⟨hfree.lt hvalid.size, fun hactive => ?_⟩
    exact absurd hactive (Bool.eq_false_iff.mp hfree.1)

theorem inFlight_fillSlot {i : ℕ} {hash' : UInt256} (hvalid : DlValid dm)
    (hi : findSlot dm hash true = some i) (height : ℤ) (peerId : ℕ) (now : ℤ)
    (h : hash' = hash ∨ InFlight dm.slots hash') :
    InFlight (fillSlot dm i hash height peerId now).slots hash' := by
  obtain ⟨hlt, hslot⟩ := findSlot_cases hvalid hi
  have hset := slotAt_set hlt
    { hash, height, peerId, requestTime := now, active := true }
  by_cases heq : hash' = hash
  · refine ⟨i, ?_, ?_⟩
    · exact congrArg DlInFlight.active ((congrFun hset i).trans (update_self ..))
    · rw [heq]
      exact congrArg DlInFlight.hash ((congrFun hset i).trans (update_self ..))
  · obtain ⟨j, hactive, hhash⟩ := h.resolve_left heq
    have hj : j ≠ i := by
      rintro rfl
      exact heq (hhash.symm.trans (hslot hactive))
    refine ⟨j, ?_, ?_⟩
    · exact (congrArg DlInFlight.active
        ((congrFun hset j).trans (update_of_ne hj _ _))).trans hactive
    · exact (congrArg DlInFlight.hash
        ((congrFun hset j).trans (update_of_ne hj _ _))).trans hhash

variable {hash' : UInt256}

theorem mem_remove_of_ne (hne : hash' ≠ hash)
    (h : hash' ∈ dm.queue.map Prod.fst) : hash' ∈ (dlQueueRemove dm hash).queue.map Prod.fst := by
  obtain ⟨e, he, rfl⟩ := mem_map.mp h
  refine mem_map_of_mem (mem_eraseP_of_neg ?_ |>.mpr he)
  rw [beq_iff_eq]
  exact hne

variable {height : ℤ}

theorem Held.push (h : Held dm hash) {pushed : UInt256}
    (hpush : dlQueuePush dm pushed height = some dm') : Held dm' hash := by
  refine h.imp ?_ ?_
  · intro hmem
    exact ((dlQueuePush_perm hpush).map Prod.fst).symm.subset (mem_cons_of_mem _ hmem)
  · intro hin
    rw [(dlQueuePush_table hpush).1]
    exact hin

theorem held_pushed (hpush : dlQueuePush dm hash height = some dm') : Held dm' hash := by
  left
  exact ((dlQueuePush_perm hpush).map Prod.fst).symm.subset mem_cons_self

theorem Held.foldl_queueBlock (acc : ℕ × DownloadManager) (h : Held acc.2 hash)
    (blocks : List (UInt256 × ℤ)) : Held (blocks.foldl queueBlock acc).2 hash := by
  refine foldlRecOn (motive := fun acc => Held acc.2 hash) blocks queueBlock h ?_
  intro acc hacc block _
  rcases queueBlock_cases acc block with hsame | ⟨-, -, dm', hpush, heq⟩
  · rwa [hsame]
  · rw [heq]
    exact hacc.push hpush

theorem Held.queuePriority (hcapped : Capped dm) (h : Held dm hash) (hash' : UInt256)
    (height : ℤ) : Held (dlQueuePriority hash' height dm) hash := by
  unfold dlQueuePriority
  split_ifs with hslot
  · exact h
  · dsimp only
    cases hpush : dlQueuePush (dlQueueRemove dm hash') hash' height with
    | some dm' =>
      by_cases heq : hash = hash'
      · rw [heq]
        exact held_pushed hpush
      · have hremove : Held (dlQueueRemove dm hash') hash := h.imp_left (mem_remove_of_ne heq)
        exact hremove.push hpush
    | none =>
      -- the queue is full without the block, so it was not in it
      have hsame : (dlQueueRemove dm hash').queue = dm.queue := by
        apply Sublist.eq_of_length_le eraseP_sublist
        unfold dlQueuePush at hpush
        rw [ite_eq_left_iff] at hpush
        have hfull := not_imp_comm.mp hpush nofun
        exact hcapped.fits.trans hfull.1
      exact h.congr rfl hsame

theorem assignLoop_inFlight (hvalid : DlValid dm) (now : ℤ) (peerId available : ℕ)
    (queue : List (UInt256 × ℤ))
    (h : hash ∈ (queue.take available).map Prod.fst ∨ InFlight dm.slots hash) :
    InFlight (assignLoop now peerId available queue dm).2.2.slots hash := by
  refine assignLoop_induction (P := fun available queue dm r =>
    hash ∈ (queue.take available).map Prod.fst ∨ InFlight dm.slots hash →
      InFlight r.2.2.slots hash) now peerId (fun _ _ _ h => h.resolve_left nofun) ?_ ?_ available
    queue hvalid h
  · intro n dm _ h
    rw [take_nil] at h
    exact h.resolve_left nofun
  · intro n block queue dm i r hvalid hi ih h
    apply ih
    rw [take_succ_cons, map_cons, mem_cons, or_assoc, ← (maybeGrow_rebuilt hvalid).inFlight] at h
    rcases h with heq | hmem | hin
    · exact .inr (inFlight_fillSlot hvalid.maybeGrow.valid hi _ _ _ (.inl heq))
    · exact .inl hmem
    · exact .inr (inFlight_fillSlot hvalid.maybeGrow.valid hi _ _ _ (.inr hin))

theorem Held.assignToPeer (hvalid : DlValid dm) (h : Held dm hash) (sync : SyncState) (now : ℤ)
    (peerId maxAssign : ℕ) : Held (dlAssignToPeer sync now peerId maxAssign dm).2 hash := by
  obtain ⟨hout, hslots, -⟩ := dlAssignToPeer_table sync now peerId maxAssign dm
  obtain ⟨htakes, hrest⟩ := dlAssignToPeer_takes hvalid sync now peerId maxAssign
  have hloop := (assignLoop_takes now peerId (dlAvailable sync peerId maxAssign dm) dm.queue
    hvalid).1
  rw [Held, hslots, hrest]
  rcases h with hmem | hin
  · rw [← take_append_drop (dlAssignToPeer sync now peerId maxAssign dm).1.length dm.queue,
      map_append, mem_append, ← htakes, hout, hloop] at hmem
    rcases hmem with hmem | hmem
    · exact .inr (assignLoop_inFlight hvalid _ _ _ _ (.inl hmem))
    · rw [hout, hloop]
      exact .inl hmem
  · exact .inr (assignLoop_inFlight hvalid _ _ _ _ (.inr hin))

theorem Held.markRequested (hvalid : DlValid dm) (h : Held dm hash) (sync : SyncState) (now : ℤ)
    (hash' : UInt256) (height : ℤ) (peerId : ℕ) :
    Held (dlMarkRequested sync now hash' height peerId dm).2 hash := by
  have hgrown := hvalid.maybeGrow
  obtain ⟨i, hi⟩ := @findSlot_isSome (dlQueueRemove (ZClassic.maybeGrow dm) hash')
    (hgrown.valid.congr rfl rfl) hgrown.room hash'
  unfold dlMarkRequested
  cases findSlot dm hash' false with
  | some j => exact h.congr rfl rfl
  | none =>
    dsimp only
    split_ifs
    · exact h
    · rw [hi]
      apply Held.updatePeer
      have hfill := @inFlight_fillSlot (dlQueueRemove (ZClassic.maybeGrow dm) hash') hash' i hash
        (hgrown.valid.congr rfl rfl) hi height peerId now
      by_cases heq : hash = hash'
      · exact .inr (hfill (.inl heq))
      · rcases h.maybeGrow hvalid with hmem | hin
        · exact .inl (mem_remove_of_ne heq hmem)
        · exact .inr (hfill (.inr hin))

theorem Held.markReceived (h : Held dm hash) (now : ℤ) (hne : hash' ≠ hash) :
    Held (dlMarkReceived now hash' dm).2 hash := by
  unfold dlMarkReceived
  cases hslot : findSlot dm hash' false with
  | none => exact h
  | some i =>
    obtain ⟨hactive, hhash⟩ := findSlot_active hslot
    apply Held.updatePeer
    refine h.imp_right fun hin => ?_
    apply hin.released (lt_of_active hactive)
    change (dm.slot i).hash ≠ hash
    rwa [hhash]

end Keep

section Capacity

theorem Capped.of_le (h : Capped dm) (hqueue : dm'.queue.length ≤ dm.queue.length)
    (hcap : dm'.queueCap = dm.queueCap) : Capped dm' := by
  refine ⟨?_, ?_⟩
  · rw [hcap]
    exact hqueue.trans h.fits
  · rw [hcap]
    exact h.cap

theorem maybeGrow_queueCap (dm : DownloadManager) : (maybeGrow dm).queueCap = dm.queueCap := by
  unfold maybeGrow
  split_ifs <;> rfl

section

variable (h : Capped dm)

include h

theorem Capped.push_getD (hash : UInt256) (height : ℤ) :
    Capped ((dlQueuePush dm hash height).getD dm) := by
  cases hpush : dlQueuePush dm hash height with
  | none => exact h
  | some dm' => exact h.push hpush

theorem Capped.requeueSlot (i : ℕ) : Capped (requeueSlot dm i) :=
  (h.push_getD (dm.slot i).hash (dm.slot i).height).of_le le_rfl rfl

theorem Capped.remove (hash : UInt256) : Capped (dlQueueRemove dm hash) :=
  h.of_le eraseP_sublist.length_le rfl

theorem Capped.maybeGrow : Capped (maybeGrow dm) :=
  h.of_le (by rw [maybeGrow_queue]) (maybeGrow_queueCap dm)

end

theorem assignLoop_queueCap (hvalid : DlValid dm) (now : ℤ) (peerId available : ℕ)
    (queue : List (UInt256 × ℤ)) :
    (assignLoop now peerId available queue dm).2.2.queueCap = dm.queueCap :=
  assignLoop_induction (P := fun _ _ dm r => r.2.2.queueCap = dm.queueCap) now peerId
    (fun _ _ _ => rfl) (fun _ _ _ => rfl)
    (fun _ _ _ dm _ _ _ _ ih => ih.trans (maybeGrow_queueCap dm))
    available queue hvalid

theorem Capped.assignToPeer (hvalid : DlValid dm) (h : Capped dm) (sync : SyncState) (now : ℤ)
    (peerId maxAssign : ℕ) : Capped (dlAssignToPeer sync now peerId maxAssign dm).2 := by
  apply h.of_le
  · rw [(dlAssignToPeer_takes hvalid sync now peerId maxAssign).2, length_drop]
    exact Nat.sub_le _ _
  · unfold dlAssignToPeer
    dsimp only
    split_ifs
    · exact assignLoop_queueCap hvalid _ _ _ _
    · rw [(dlUpdatePeer_books _ _ _).queueCap]
      exact assignLoop_queueCap hvalid _ _ _ _

theorem capped_closed : DlClosed (fun _ _ => True) Capped where
  books h hsame := h.of_le (by rw [hsame.queue]) hsame.queueCap
  grow := Capped.maybeGrow
  remove hash h := h.remove hash
  queue h _ _ _ hpush := h.push hpush
  priority h _ _ hpush := (h.remove _).push hpush
  request h _ _ _ _ _ := (h.maybeGrow.remove _).of_le le_rfl rfl
  release h _ _ _ hqueue hcap := h.of_le (by rw [hqueue]) hcap
  requeue h _ := h.requeueSlot _
  assign hvalid h := h.assignToPeer hvalid
  drain h := h.of_le (Nat.zero_le _) rfl

theorem Capped.step (hvalid : DlValid dm) (h : Capped dm) (a : DlAction) : Capped (dlStep dm a) :=
  capped_closed.step hvalid h a.asks_any

end Capacity

variable {n : ℕ}

section TakenBack

variable {dm : DownloadManager} {due : DlInFlight → Bool}
  {note : DlInFlight → DownloadManager → DownloadManager}

/-- What is noted for a request does not touch the queue or the table. -/
def NotesOnly (note : DlInFlight → DownloadManager → DownloadManager) : Prop :=
  ∀ s dm, SameBooks dm (note s dm)

theorem notesOnly_id : NotesOnly fun _ dm => dm := fun _ _ => ⟨rfl, rfl, rfl, rfl⟩

theorem notesOnly_timeout : NotesOnly noteTimeout := noteTimeout_books

theorem slots_requeueSlot (i : ℕ) : (requeueSlot dm i).slots = released dm.slots i := by
  unfold requeueSlot DownloadManager.setSlot released
  dsimp only
  rw [(dlQueuePush_getD_table _ _).1]
  rfl

theorem requeueSlot_room (hcapped : Capped dm) (hroom : dm.queue.length < dlQueueMax) (i : ℕ) :
    (requeueSlot dm i).queue.Perm (((dm.slot i).hash, (dm.slot i).height) :: dm.queue) := by
  have hsome : dlQueuePush dm (dm.slot i).hash (dm.slot i).height ≠ none := by
    rw [Ne, hcapped.push_eq_none]
    exact not_le.mpr hroom
  obtain ⟨dm', hpush⟩ := Option.ne_none_iff_exists'.mp hsome
  have hqueue : (requeueSlot dm i).queue = dm'.queue := by
    unfold requeueSlot
    dsimp only
    rw [hpush]
    rfl
  rw [hqueue]
  exact dlQueuePush_perm hpush

theorem Held.requeueSlot (h : Held dm hash) (hcapped : Capped dm)
    (hroom : dm.queue.length < dlQueueMax) {i : ℕ} (hi : (dm.slot i).active = true) :
    Held (requeueSlot dm i) hash := by
  have hperm := (requeueSlot_room hcapped hroom i).map Prod.fst
  rw [Held, hperm.mem_iff, slots_requeueSlot, map_cons, mem_cons]
  by_cases heq : hash = (dm.slot i).hash
  · exact .inl (.inl heq)
  · rcases h with hmem | hin
    · exact .inl (.inr hmem)
    · exact .inr (hin.released (lt_of_active hi) fun hhash => heq hhash.symm)

theorem NotesOnly.slots_turn (hnote : NotesOnly note) (i : ℕ) :
    (note (dm.slot i) (requeueSlot dm i)).slots = released dm.slots i := by
  rw [(hnote _ _).slots, slots_requeueSlot]

theorem Capped.turn (h : Capped dm) (hnote : NotesOnly note) (i : ℕ) :
    Capped (note (dm.slot i) (ZClassic.requeueSlot dm i)) :=
  (h.requeueSlot i).of_le (by rw [(hnote _ _).queue]) (hnote _ _).queueCap

theorem Held.requeueDue (h : Held dm hash) (hcapped : Capped dm) (hnote : NotesOnly note)
    (hroom : dm.queue.length + dm.slots.countP (fun s => s.active && due s) ≤ dlQueueMax) :
    Held (requeueDue due note dm).1 hash := by
  -- before every turn there is room for the requests that are still ahead
  let ahead (i : ℕ) (dm : DownloadManager) : ℕ :=
    (dm.slots.drop i).countP fun s => s.active && due s
  refine (@requeueDue_induction dm due note (fun i dm => Capped dm ∧ Held dm hash ∧
    dm.queue.length + ahead i dm ≤ dlQueueMax) ?_ ?_ ⟨hcapped, h, hroom⟩).2.1
  · rintro dm i ⟨hcap, hheld, hlen⟩ hactive hdue
    have hlt := lt_of_active hactive
    have hdrop : ahead i dm = ahead (i + 1) dm + 1 := by
      have hslot : dm.slots[i] = dm.slot i := (getD_eq_getElem _ _ hlt).symm
      dsimp only [ahead]
      rw [drop_eq_getElem_cons hlt, countP_cons_of_pos]
      rw [hslot, hactive, hdue]
      rfl
    have hlater : ahead (i + 1) (note (dm.slot i) (ZClassic.requeueSlot dm i)) =
        ahead (i + 1) dm := by
      dsimp only [ahead]
      rw [hnote.slots_turn, released, drop_set_of_lt (Nat.lt_succ_self i)]
    have hqueue : dm.queue.length < dlQueueMax := by omega
    refine ⟨hcap.turn hnote i, ?_, ?_⟩
    · exact (hheld.requeueSlot hcap hqueue hactive).congr (hnote _ _).slots (hnote _ _).queue
    · rw [hlater, (hnote _ _).queue, (requeueSlot_room hcap hqueue i).length_eq, length_cons]
      omega
  · rintro dm i ⟨hcap, hheld, hlen⟩ -
    have hle : ahead (i + 1) dm ≤ ahead i dm :=
      (drop_sublist_drop_left _ (Nat.le_succ i)).countP_le
    exact ⟨hcap, hheld, by omega⟩

end TakenBack

section Runs

variable {dm : DownloadManager} {a : DlAction}

theorem Held.step (hvalid : DlValid dm) (hcapped : Capped dm) (h : Held dm hash)
    (hdrain : a ≠ .drainForBackpressure) (hreceived : ∀ now, a ≠ .markReceived now hash)
    (hroomy : Roomy dm a) : Held (dlStep dm a) hash := by
  cases a with
  | queueBlocks blocks => exact Held.foldl_queueBlock (0, dm) h blocks
  | queuePriority hash' height => exact h.queuePriority hcapped hash' height
  | markRequested sync now hash' height peerId =>
    exact h.markRequested hvalid sync now hash' height peerId
  | assignToPeer sync now peerId maxAssign => exact h.assignToPeer hvalid sync now peerId maxAssign
  | markReceived now hash' =>
    refine h.markReceived now ?_
    rintro rfl
    exact hreceived now rfl
  | checkTimeouts sync now =>
    have hvalid' : DlValid (ZClassic.requeueDue (fun s =>
        decide (dlGetRequestTimeoutSecs sync ≤ now - s.requestTime)) noteTimeout dm).1 := by
      apply requeueDue_invariant _ hvalid
      intro dm i hi hdm
      exact dlValid_closed.books (hdm.requeueSlot hi) (noteTimeout_books _ _)
    exact (h.requeueDue hcapped notesOnly_timeout hroomy).maybeGrow hvalid'
  | peerDisconnected peerId =>
    exact (h.requeueDue hcapped notesOnly_id hroomy).updatePeer peerId false _
  | drainForBackpressure => exact absurd rfl hdrain
  | peerBlockReceived now peerId deliveryUs => exact h.updatePeer peerId false _
  | setPeerLoopback peerId isLoopback => exact h.updatePeer peerId true _

theorem DlAccepts.held (hvalid : DlValid dm) (h : DlAccepts dm hash a) :
    Held (dlStep dm a) hash := by
  cases a with
  | queueBlocks blocks =>
    obtain ⟨before, height, after, rfl, hcounted⟩ := h
    unfold dlStep dlQueueBlocks
    dsimp only
    rw [foldl_append, foldl_cons]
    apply Held.foldl_queueBlock
    generalize before.foldl queueBlock (0, dm) = acc at hcounted
    rcases queueBlock_cases acc (hash, height) with hsame | ⟨-, -, dm', hpush, heq⟩
    · rw [hsame] at hcounted
      omega
    · rw [heq]
      exact held_pushed hpush
  | assignToPeer sync now peerId maxAssign =>
    obtain ⟨hout, hslots, -⟩ := dlAssignToPeer_table sync now peerId maxAssign dm
    have htakes := (assignLoop_takes now peerId (dlAvailable sync peerId maxAssign dm) dm.queue
      hvalid).1
    have hmem : hash ∈ (dlAssignToPeer sync now peerId maxAssign dm).1 := h
    rw [hout, htakes] at hmem
    right
    change InFlight (dlAssignToPeer sync now peerId maxAssign dm).2.slots hash
    rw [hslots]
    exact assignLoop_inFlight hvalid _ _ _ _ (.inl hmem)
  | markRequested sync now hash' height peerId =>
    obtain ⟨rfl, haccepted⟩ := h
    have hgrown := hvalid.maybeGrow
    unfold dlStep
    dsimp only
    unfold dlMarkRequested at haccepted ⊢
    cases hslot : findSlot dm hash' false with
    | some i =>
      rw [hslot] at haccepted
      cases haccepted
    | none =>
      rw [hslot] at haccepted
      dsimp only at haccepted ⊢
      split_ifs at haccepted ⊢
      cases hi : findSlot (dlQueueRemove (maybeGrow dm) hash') hash' true with
      | none =>
        rw [hi] at haccepted
        cases haccepted
      | some i =>
        apply Held.updatePeer
        exact .inr (inFlight_fillSlot (hgrown.valid.congr rfl rfl) hi _ _ _ (.inl rfl))
  | _ => exact h.elim

/-- A block that was accepted stays queued or in flight until it is received, in every run that
drains nothing and has room for what is taken back. -/
theorem accepted_held (acts : List DlAction) (a : DlAction) (later : List DlAction)
    (hash : UInt256) (haccepts : DlAccepts (run dlStep dlInit acts) hash a)
    (hlater : ∀ b ∈ later, b ≠ .drainForBackpressure ∧ ∀ now, b ≠ .markReceived now hash)
    (hroomy : MeetsAll dlStep Roomy (run dlStep dlInit (acts ++ [a])) later) :
    Held (run dlStep dlInit (acts ++ a :: later)) hash := by
  have hbefore : DlValid (run dlStep dlInit acts) ∧ Capped (run dlStep dlInit acts) :=
    run_invariant (fun dm => DlValid dm ∧ Capped dm)
      (fun dm a h (_ : True) => ⟨h.1.step a, h.2.step h.1 a⟩) ⟨dlInit_valid, dlInit_capped⟩
      (meetsAll_of_forall (fun _ _ _ => trivial) _)
  have hsplit : run dlStep dlInit (acts ++ a :: later) =
      run dlStep (run dlStep dlInit (acts ++ [a])) later := by
    rw [← run_append, append_assoc]
    rfl
  have hstart : run dlStep dlInit (acts ++ [a]) = dlStep (run dlStep dlInit acts) a := by
    rw [run_append]
    rfl
  rw [hsplit]
  rw [hstart] at hroomy ⊢
  refine (run_invariant (fun dm => DlValid dm ∧ Capped dm ∧ Held dm hash) ?_
    ⟨hbefore.1.step a, hbefore.2.step hbefore.1 a, haccepts.held hbefore.1⟩
    (meetsAll_and.mpr ⟨meetsAll_of_forall (fun b hb _ => hlater b hb) _, hroomy⟩)).2.2
  intro dm b h hb
  exact ⟨h.1.step b, h.2.1.step h.1 b, h.2.2.step h.1 h.2.1 hb.1.1 hb.1.2 hb.2⟩

end Runs

theorem accepted_held_reassigned :
    DlAccepts (run dlStep dlInit []) 5 (.queueBlocks [(5, 3)]) ∧
      Held (run dlStep dlInit
        ([] ++ .queueBlocks [(5, 3)] :: [.assignToPeer .atTip 0 1 1, .peerDisconnected 1])) 5 := by
  have haccepts : DlAccepts (run dlStep dlInit []) 5 (.queueBlocks [(5, 3)]) :=
    ⟨[], 3, [], rfl, by decide +kernel⟩
  refine ⟨haccepts, accepted_held [] _ _ 5 haccepts ?_ ?_⟩
  · simp
  · decide +kernel

section Full

variable {dm : DownloadManager} {queue : List (UInt256 × ℤ)} {cap : ℕ}

def DownloadManager.withQueue (dm : DownloadManager) (queue : List (UInt256 × ℤ)) (cap : ℕ) :
    DownloadManager :=
  { dm with queue, queueCap := cap }

theorem findSlot_withQueue (hash : UInt256) (findEmpty : Bool) :
    findSlot (dm.withQueue queue cap) hash findEmpty = findSlot dm hash findEmpty := rfl

theorem Capped.sublist (h : Capped (dm.withQueue queue cap)) (dm' : DownloadManager)
    {rest : List (UInt256 × ℤ)} (hsub : rest.Sublist queue) : Capped (dm'.withQueue rest cap) :=
  h.of_le hsub.length_le rfl

theorem maybeGrow_withQueue :
    maybeGrow (dm.withQueue queue cap) = (maybeGrow dm).withQueue queue cap := by
  unfold maybeGrow DownloadManager.withQueue
  split_ifs <;> rfl

theorem not_held_peerDisconnected (hcapped : Capped dm) (hfull : dlQueueMax ≤ dm.queue.length)
    {peerId : ℕ} (hpeer : ∀ s ∈ dm.slots, s.active = true → s.peerId = peerId)
    (hqueue : hash ∉ dm.queue.map Prod.fst) :
    ¬Held (dlStep dm (.peerDisconnected peerId)) hash := by
  let kept (i : ℕ) (dm' : DownloadManager) : Prop := Capped dm' ∧ dm'.queue = dm.queue ∧
    ∀ j, (dm'.slot j).active = true → dm'.slot j = dm.slot j ∧ i ≤ j
  have hloop : kept dm.slots.length (requeueDue (·.peerId == peerId) (fun _ dm => dm) dm).1 := by
    refine requeueDue_induction ?_ ?_ ⟨hcapped, rfl, fun j _ => ⟨rfl, Nat.zero_le j⟩⟩
    · rintro dm' i ⟨hcap, hsame, hslots⟩ hactive -
      refine ⟨hcap.requeueSlot i, ?_, fun j hj => ?_⟩
      · rw [requeueSlot, (hcap.push_eq_none _ _).mpr (hsame ▸ hfull)]
        exact hsame
      · change (slotAt (requeueSlot dm' i).slots j).active = true at hj
        change slotAt (requeueSlot dm' i).slots j = _ ∧ _
        rw [slots_requeueSlot, active_released (lt_of_active hactive)] at hj
        rw [slots_requeueSlot, slotAt_released (lt_of_active hactive), update_of_ne hj.1]
        obtain ⟨heq, hle⟩ := hslots j hj.2
        exact ⟨heq, by omega⟩
    · rintro dm' i ⟨hcap, hsame, hslots⟩ hskip
      refine ⟨hcap, hsame, fun j hj => ?_⟩
      obtain ⟨heq, hle⟩ := hslots j hj
      refine ⟨heq, Nat.succ_le_of_lt (hle.lt_of_ne ?_)⟩
      rintro rfl
      have hold := (congrArg DlInFlight.active heq).symm.trans hj
      have hleaves := hpeer _ (mem_of_getElem? (getElem?_of_active hold)) hold
      exact beq_eq_false_iff_ne.mp (hskip hj) ((congrArg DlInFlight.peerId heq).trans hleaves)
  unfold dlStep dlPeerDisconnected
  dsimp only
  rw [Held, (dlUpdatePeer_books _ _ _).queue, (dlUpdatePeer_books _ _ _).slots, hloop.2.1, not_or]
  refine ⟨hqueue, ?_⟩
  rintro ⟨j, hactive, -⟩
  obtain ⟨heq, hle⟩ := hloop.2.2 j hactive
  exact hle.not_gt (lt_of_active ((congrArg DlInFlight.active heq).symm.trans hactive))

theorem dlQueuePush_last (hash : UInt256) {height : ℤ} (hcapped : Capped (dm.withQueue queue cap))
    (hsorted : KeySorted queue) (hroom : queue.length < dlQueueMax)
    (hlast : ∀ e ∈ queue, dlSortKey e.2 ≤ dlSortKey height) :
    ∃ cap', dlQueuePush (dm.withQueue queue cap) hash height =
      some (dm.withQueue (queue ++ [(hash, height)]) cap') := by
  obtain ⟨dm', hpush⟩ := Option.ne_none_iff_exists'.mp
    (mt (hcapped.push_eq_none hash height).mp (not_le.mpr hroom))
  have hnil : queue.drop (dlQueuePosition queue (dlSortKey height) queue.length 0 queue.length) =
      [] := by
    rw [eq_nil_iff_forall_not_mem]
    intro e he
    exact ((dlQueuePosition_split hsorted _).above e he).not_ge (hlast e (mem_of_mem_drop he))
  have htake :=
    take_append_drop (dlQueuePosition queue (dlSortKey height) queue.length 0 queue.length) queue
  rw [hnil, append_nil] at htake
  unfold dlQueuePush at hpush ⊢
  rw [Option.ite_none_left_eq_some] at hpush
  rw [if_neg hpush.1]
  dsimp only [DownloadManager.withQueue]
  rw [hnil, htake]
  exact ⟨_, rfl⟩

end Full

def firstBlocks (n : ℕ) : List (UInt256 × ℤ) :=
  (List.range n).map fun i => (BitVec.ofNat 256 (i + 1), (i : ℤ) + 1)

theorem firstBlocks_length (n : ℕ) : (firstBlocks n).length = n := by
  rw [firstBlocks, length_map, length_range]

theorem hash_firstBlocks {n m : ℕ} (hn : n ≤ 65536) (hm : m ≤ 65537)
    (h : BitVec.ofNat 256 m ∈ (firstBlocks n).map Prod.fst) : 0 < m ∧ m ≤ n := by
  rw [firstBlocks, map_map] at h
  obtain ⟨i, hi, heq⟩ := mem_map.mp h
  rw [mem_range] at hi
  have htoNat := congrArg BitVec.toNat heq
  rw [comp_apply, BitVec.toNat_ofNat, BitVec.toNat_ofNat, Nat.mod_eq_of_lt (by omega),
    Nat.mod_eq_of_lt (by omega)] at htoNat
  omega

theorem dlSortKey_succ (i : ℕ) : dlSortKey ((i : ℤ) + 1) = i + 1 := if_neg (by omega)

theorem firstBlocks_sorted (n : ℕ) : KeySorted (firstBlocks n) := by
  refine pairwise_map.mpr (pairwise_lt_range.imp ?_)
  intro i j hij
  rw [dlSortKey_succ, dlSortKey_succ]
  omega

theorem queueBlock_next {dm : DownloadManager} {queue : List (UInt256 × ℤ)} {cap : ℕ} (k : ℕ)
    (hsub : queue.Sublist (firstBlocks n)) (hn : n ≤ 65536)
    (hcapped : Capped (dm.withQueue queue cap)) (hroom : queue.length < dlQueueMax)
    (hslot : findSlot dm (BitVec.ofNat 256 (n + 1)) false = none) :
    let block : UInt256 × ℤ := (BitVec.ofNat 256 (n + 1), (n : ℤ) + 1)
    ∃ cap', queueBlock (k, dm.withQueue queue cap) block =
        (k + 1, dm.withQueue (queue ++ [block]) cap') ∧
      Capped (dm.withQueue (queue ++ [block]) cap') := by
  have hlast : ∀ e ∈ queue, dlSortKey e.2 ≤ dlSortKey ((n : ℤ) + 1) := by
    intro e he
    obtain ⟨i, hi, rfl⟩ := mem_map.mp (hsub.subset he)
    rw [mem_range] at hi
    rw [dlSortKey_succ, dlSortKey_succ]
    omega
  have hnew : ((dm.withQueue queue cap).queue.any fun e => e.1 == BitVec.ofNat 256 (n + 1)) =
      false := by
    rw [any_eq_false]
    intro e he heq
    have hmem := mem_map_of_mem (f := Prod.fst) (hsub.subset he)
    rw [eq_of_beq heq] at hmem
    have hle := (hash_firstBlocks hn (by omega) hmem).2
    omega
  obtain ⟨cap', hpush⟩ := dlQueuePush_last (BitVec.ofNat 256 (n + 1)) hcapped
    ((firstBlocks_sorted n).sublist hsub) hroom hlast
  refine ⟨cap', ?_, hcapped.push hpush⟩
  rw [queueBlock, findSlot_withQueue, hslot, hnew, hpush]
  rfl

theorem queueBlocks_firstBlocks (hn : n ≤ 65536) :
    ∃ cap, (firstBlocks n).foldl queueBlock (0, dlInit) =
      (n, dlInit.withQueue (firstBlocks n) cap) ∧
        Capped (dlInit.withQueue (firstBlocks n) cap) := by
  induction n with
  | zero => exact ⟨_, rfl, dlInit_capped⟩
  | succ n ih =>
    obtain ⟨cap, hqueued, hcapped⟩ := ih (by omega)
    have hslot := (findSlot_eq_none_iff dlInit_booked (BitVec.ofNat 256 (n + 1))).mpr
      (not_inFlight_replicate _ _)
    have hlast : firstBlocks (n + 1) =
        firstBlocks n ++ [(BitVec.ofNat 256 (n + 1), (n : ℤ) + 1)] := by
      rw [firstBlocks, range_succ, map_append]
      rfl
    rw [hlast, foldl_append, hqueued, foldl_cons, foldl_nil]
    exact queueBlock_next n (Sublist.refl (firstBlocks n)) (by omega) hcapped
      ((firstBlocks_length n).trans_lt hn) hslot

/-- The manager after block 1 alone was handed out to peer 1. -/
def handedOut : DownloadManager where
  slots := dlInit.slots.set 1316 { hash := 1, height := 1, peerId := 1, active := true }
  numActive := 1
  peers := [{ peerId := 1, blocksRequested := 1 }]
  queueCap := initialQueue
  totalRequested := 1

theorem assign_firstBlock (hn : 0 < n) (cap : ℕ) :
    dlAssignToPeer .blocksDownload 0 1 1 (dlInit.withQueue (firstBlocks n) cap) =
      ([1], handedOut.withQueue (firstBlocks n).tail cap) := by
  set dm := dlInit.withQueue (firstBlocks n) cap with hdm
  have hfirst : firstBlocks n = (1, 1) :: (firstBlocks n).tail := by
    rw [firstBlocks, ← Nat.succ_pred_eq_of_pos hn, range_succ_eq_map]
    rfl
  have hfree : findSlot dlInit 1 true = some 1316 := by decide +kernel
  have hpeer : (dlInit.slots.countP fun s => s.active && s.peerId == 1) = 0 := by decide +kernel
  have hgrow : maybeGrow dlInit = dlInit := by decide +kernel
  have havailable : dlAvailable .blocksDownload 1 1 dm = 1 := by
    have hlimit : dlPeerLimit dm 1 = 128 := rfl
    have hqueue : dm.queue.length = n := firstBlocks_length n
    have hslots : dm.slots = dlInit.slots := rfl
    unfold dlAvailable
    dsimp only
    rw [hslots, hpeer, hlimit, hqueue, show min (128 - 0) 1 = 1 from rfl, Nat.min_eq_left hn]
    rfl
  have hloop : assignLoop 0 1 1 (firstBlocks n) dm =
      ([1], (firstBlocks n).tail, fillSlot dm 1316 1 1 1 0) := by
    nth_rewrite 1 [hfirst]
    unfold assignLoop
    dsimp only
    rw [hdm, maybeGrow_withQueue, hgrow, findSlot_withQueue, hfree]
    dsimp only
    rw [assignLoop]
  unfold dlAssignToPeer
  rw [havailable, show dm.queue = firstBlocks n from rfl, hloop]
  rfl

theorem run_queueBlocks (blocks : List (UInt256 × ℤ)) :
    run dlStep dlInit [.queueBlocks blocks] = (blocks.foldl queueBlock (0, dlInit)).2 := rfl

theorem dlStep_queueBlock (dm : DownloadManager) (block : UInt256 × ℤ) :
    dlStep dm (.queueBlocks [block]) = (queueBlock (0, dm) block).2 := rfl

theorem handedOut_loses {cap : ℕ} (hn : n = 65536)
    (hcapped : Capped (dlInit.withQueue (firstBlocks n) cap)) :
    ¬Held (run dlStep (handedOut.withQueue (firstBlocks n).tail cap)
      [.queueBlocks [(BitVec.ofNat 256 (n + 1), n + 1)], .peerDisconnected 1]) 1 := by
  have hslot : findSlot handedOut (BitVec.ofNat 256 (n + 1)) false = none := by
    rw [hn]
    decide +kernel
  have hlength : (firstBlocks n).tail.length + 1 = dlQueueMax := by
    rw [length_tail, firstBlocks_length, hn]
    rfl
  have htail := tail_sublist (firstBlocks n)
  obtain ⟨cap', hblock, hcapped'⟩ := queueBlock_next 0 htail hn.le
    (hcapped.sublist handedOut htail) (by omega) hslot
  rw [run_cons, dlStep_queueBlock, hblock, run_cons, run_nil]
  apply not_held_peerDisconnected hcapped'
  · exact (length_append.trans hlength).ge
  · intro s hs hactive
    rcases mem_or_eq_of_mem_set hs with hold | rfl
    · rw [eq_of_mem_replicate hold] at hactive
      cases hactive
    · rfl
  · change 1 ∉ ((firstBlocks n).tail ++ _).map Prod.fst
    rw [firstBlocks, ← map_tail, tail_range, map_append, map_map, mem_append, not_or]
    constructor
    · intro hmem
      obtain ⟨i, hi, heq⟩ := mem_map.mp hmem
      rw [mem_range'_1] at hi
      have htoNat : (i + 1) % 2 ^ 256 = 1 := congrArg BitVec.toNat heq
      omega
    · rw [hn]
      decide

/-- The queue is filled, one block is handed out and another takes its place. When the peer leaves,
the block that was handed out is neither queued nor in flight. -/
theorem fullQueue_loses :
    DlAccepts (run dlStep dlInit [.queueBlocks (firstBlocks 65536)]) 1
        (.assignToPeer .blocksDownload 0 1 1) ∧
      ¬Held (run dlStep dlInit ([.queueBlocks (firstBlocks 65536)] ++
        .assignToPeer .blocksDownload 0 1 1 ::
          [.queueBlocks [(65537, 65537)], .peerDisconnected 1])) 1 := by
  obtain ⟨cap, hqueued, hcapped⟩ := queueBlocks_firstBlocks (le_refl 65536)
  have hassign := assign_firstBlock (n := 65536) (by decide) cap
  rw [run_append, run_queueBlocks, hqueued]
  constructor
  · rw [DlAccepts, hassign]
    exact mem_cons_self
  · rw [run_cons]
    change ¬Held (run dlStep (dlAssignToPeer _ _ _ _ _).2 _) 1
    rw [hassign]
    exact handedOut_loses rfl hcapped

end ZClassic
