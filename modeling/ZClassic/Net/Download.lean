import ZClassic.Lib.OpenAddressing
import ZClassic.Primitives.Transaction

/-!
# The block download manager

`lib/net/src/download.c`: a table of requests in flight, probed linearly, and a queue of blocks to
request, kept in the order of their heights.
-/

namespace ZClassic

inductive SyncState where
  | idle
  | findingPeers
  | headersDownload
  | blocksDownload
  | connectingBlocks
  | atTip
  | reorg
  | reorgRecovery
  | snapshotReceive
  | failed
  deriving DecidableEq

def dlMaxInFlightPerPeer : ℕ := 128

def dlMaxInFlightPerLoopback : ℕ := 512

def dlMaxInFlightTotal : ℕ := 1024

def dlMaxInFlightTotalIbd : ℕ := 4096

def dlRequestTimeoutSecs : ℤ := 30

def dlRequestTimeoutSecsIbd : ℤ := 15

def initialSlots : ℕ := 2048

def initialQueue : ℕ := 4096

def dlIsIbd : SyncState → Bool
  | .headersDownload | .blocksDownload | .connectingBlocks => true
  | _ => false

def dlGetMaxInFlightTotal (sync : SyncState) : ℕ :=
  if dlIsIbd sync then dlMaxInFlightTotalIbd else dlMaxInFlightTotal

def dlGetRequestTimeoutSecs (sync : SyncState) : ℤ :=
  if dlIsIbd sync then dlRequestTimeoutSecsIbd else dlRequestTimeoutSecs

structure DlInFlight where
  hash : UInt256 := 0
  height : ℤ := 0
  peerId : ℕ := 0
  requestTime : ℤ := 0
  active : Bool := false
  deriving DecidableEq

structure DlPeerStats where
  peerId : ℕ
  blocksRequested : ℕ := 0
  blocksReceived : ℕ := 0
  blocksTimedOut : ℕ := 0
  lastBlockTime : ℤ := 0
  avgDeliveryUs : ℤ := 0
  bandwidthScore : ℕ := 0
  active : Bool := true
  isLoopback : Bool := false
  deriving DecidableEq

/-- `struct download_manager`; `num_slots`, `num_peers` and `queue_len` are the lengths. -/
structure DownloadManager where
  slots : List DlInFlight
  numActive : ℕ := 0
  peers : List DlPeerStats := []
  queue : List (UInt256 × ℤ) := []
  queueCap : ℕ
  totalRequested : ℕ := 0
  totalReceived : ℕ := 0
  totalTimedOut : ℕ := 0
  totalDuplicate : ℕ := 0
  deriving DecidableEq

def dlInit : DownloadManager where
  slots := List.replicate initialSlots {}
  queueCap := initialQueue

namespace DownloadManager

variable (dm : DownloadManager)

def slot (i : ℕ) : DlInFlight := dm.slots.getD i {}

def setSlot (i : ℕ) (s : DlInFlight) : DownloadManager := { dm with slots := dm.slots.set i s }

def activeSlots : ℕ := dm.slots.countP (·.active)

end DownloadManager

def dlQueueMax : ℕ := 65536

/-- Unknown heights go to the back. -/
def dlSortKey (height : ℤ) : ℤ := if height < 0 then 2 ^ 63 - 1 else height

/-- The binary search for the first entry with a greater key; `fuel` bounds its turns. -/
def dlQueuePosition (queue : List (UInt256 × ℤ)) (key : ℤ) : (fuel lo hi : ℕ) → ℕ
  | 0, lo, _ => lo
  | fuel + 1, lo, hi =>
    if lo < hi then
      let mid := lo + (hi - lo) / 2
      if dlSortKey (queue.getD mid (0, 0)).2 ≤ key then dlQueuePosition queue key fuel (mid + 1) hi
      else dlQueuePosition queue key fuel lo mid
    else lo

section

variable (dm : DownloadManager)

/-- `none` when the queue is at its largest capacity and full. -/
def dlQueuePush (hash : UInt256) (height : ℤ) : Option DownloadManager :=
  if dm.queueCap ≤ dm.queue.length ∧ dlQueueMax ≤ dm.queueCap then none
  else
    let pos := dlQueuePosition dm.queue (dlSortKey height) dm.queue.length 0 dm.queue.length
    some { dm with
      queue := dm.queue.take pos ++ (hash, height) :: dm.queue.drop pos
      queueCap := if dm.queueCap ≤ dm.queue.length then dm.queueCap * 2 else dm.queueCap }

def dlQueueRemove (hash : UInt256) : DownloadManager :=
  { dm with queue := dm.queue.eraseP (·.1 == hash) }

def dlFindPeer (peerId : ℕ) : Option DlPeerStats :=
  dm.peers.find? (·.peerId == peerId)

/-- Changes the statistics of the peer; a missing one is added if asked for and there is room. -/
def dlUpdatePeer (peerId : ℕ) (create : Bool) (f : DlPeerStats → DlPeerStats) : DownloadManager :=
  match dm.peers.findIdx? (·.peerId == peerId) with
  | some i => { dm with peers := dm.peers.modify i f }
  | none =>
    if create && decide (dm.peers.length < 256) then
      { dm with peers := dm.peers ++ [f { peerId }] }
    else dm

def recordDelivery (now deliveryUs : ℤ) (ps : DlPeerStats) : DlPeerStats :=
  let avg := if ps.avgDeliveryUs = 0 then deliveryUs
    else (ps.avgDeliveryUs * 7 + deliveryUs).tdiv 8
  { ps with
    blocksReceived := ps.blocksReceived + 1
    lastBlockTime := now
    avgDeliveryUs := avg
    bandwidthScore :=
      if 0 < avg then min 255 (max 1 (128000000 / avg.toNat)) else ps.bandwidthScore }

/-- `dl_peer_adaptive_window`, which `dl_assign_to_peer` has inline. -/
def dlPeerLimit (peerId : ℕ) : ℕ :=
  match dlFindPeer dm peerId with
  | none => dlMaxInFlightPerPeer
  | some ps =>
    if ps.isLoopback then dlMaxInFlightPerLoopback
    else if 0 < ps.bandwidthScore then
      min dlMaxInFlightPerPeer (max 16 (ps.bandwidthScore * dlMaxInFlightPerPeer / 128))
    else dlMaxInFlightPerPeer

def fnv1a (h : UInt256) : UInt64 :=
  (List.range 32).foldl
    (fun fnv i => (fnv ^^^ UInt64.ofNat (h.toNat >>> (8 * i) % 256)) * 1099511628211)
    14695981039346656037

def hashSlot (h : UInt256) (mask : ℕ) : ℕ := (fnv1a h).toNat &&& mask

/-- A slot with the null hash was never used. -/
def findSlot (hash : UInt256) (findEmpty : Bool) : Option ℕ :=
  let n := dm.slots.length
  match probeWalk (fun i => (dm.slot i).active) (fun i => (dm.slot i).hash == hash)
      (fun i => (dm.slot i).hash == 0) (probe n (hashSlot hash (n - 1))) none with
  | .hit i => some i
  | .miss free => if findEmpty then free else none

def placeSlot (slots : List DlInFlight) (s : DlInFlight) : List DlInFlight :=
  let n := slots.length
  match (probe n (hashSlot s.hash (n - 1))).find? fun i => !(slots.getD i {}).active with
  | some i => slots.set i s
  | none => slots

def dlRehash (newSize : ℕ) : DownloadManager :=
  { dm with
    slots := (dm.slots.filter (·.active)).foldl placeSlot (List.replicate newSize {}) }

def maybeGrow : DownloadManager :=
  if dm.slots.length ≤ dm.numActive * 2 then dlRehash dm (dm.slots.length * 2)
  else if initialSlots < dm.slots.length ∧ dm.numActive * 4 < dm.slots.length then
    dlRehash dm dm.slots.length
  else dm

def dlIsInFlight (hash : UInt256) : Bool :=
  (findSlot dm hash false).any fun i => (dm.slot i).active

def fillSlot (i : ℕ) (hash : UInt256) (height : ℤ) (peerId : ℕ) (now : ℤ) : DownloadManager :=
  { dm.setSlot i
      { hash, height, peerId, requestTime := now, active := true } with
    numActive := dm.numActive + 1
    totalRequested := dm.totalRequested + 1 }

def dlMarkRequested (sync : SyncState) (now : ℤ) (hash : UInt256) (height : ℤ) (peerId : ℕ)
    (dm : DownloadManager) : Bool × DownloadManager :=
  match findSlot dm hash false with
  | some _ => (false, { dm with totalDuplicate := dm.totalDuplicate + 1 })
  | none =>
    if dlGetMaxInFlightTotal sync ≤ dm.numActive then (false, dm)
    else
      let dm := dlQueueRemove (maybeGrow dm) hash
      match findSlot dm hash true with
      | none => (false, dm)
      | some i =>
        (true, dlUpdatePeer (fillSlot dm i hash height peerId now) peerId true fun ps =>
          { ps with blocksRequested := ps.blocksRequested + 1 })

/-- The peer that was asked, or 0. -/
def dlMarkReceived (now : ℤ) (hash : UInt256) (dm : DownloadManager) : ℕ × DownloadManager :=
  match findSlot dm hash false with
  | none => (0, dm)
  | some i =>
    let s := dm.slot i
    let dm := { dm.setSlot i { s with active := false } with
      numActive := dm.numActive - 1
      totalReceived := dm.totalReceived + 1 }
    (s.peerId, dlUpdatePeer dm s.peerId false
      (recordDelivery now ((now - s.requestTime) * 1000000)))

def dlPeerBlockReceived (now : ℤ) (peerId : ℕ) (deliveryUs : ℤ) (dm : DownloadManager) :
    DownloadManager :=
  dlUpdatePeer dm peerId false (recordDelivery now deliveryUs)

def dlSetPeerLoopback (peerId : ℕ) (isLoopback : Bool) (dm : DownloadManager) : DownloadManager :=
  dlUpdatePeer dm peerId true fun ps => { ps with isLoopback }

/-- Takes the request in the slot back into the queue. A block that finds no room there is
dropped. -/
def requeueSlot (i : ℕ) : DownloadManager :=
  let s := dm.slot i
  let dm := (dlQueuePush dm s.hash s.height).getD dm
  { dm.setSlot i { s with active := false } with numActive := dm.numActive - 1 }

end

/-- The loop over all slots that takes back what is due, with what else is noted for it. -/
def requeueDue (due : DlInFlight → Bool) (note : DlInFlight → DownloadManager → DownloadManager)
    (dm : DownloadManager) : DownloadManager × ℕ :=
  (List.range dm.slots.length).foldl
    (fun acc i =>
      if (acc.1.slot i).active && due (acc.1.slot i) then
        (note (acc.1.slot i) (requeueSlot acc.1 i), acc.2 + 1)
      else acc)
    (dm, 0)

def noteTimeout (s : DlInFlight) (dm : DownloadManager) : DownloadManager :=
  let dm :=
    dlUpdatePeer dm s.peerId false fun ps => { ps with blocksTimedOut := ps.blocksTimedOut + 1 }
  { dm with totalTimedOut := dm.totalTimedOut + 1 }

def dlCheckTimeouts (sync : SyncState) (now : ℤ) (dm : DownloadManager) : ℕ × DownloadManager :=
  let (dm, reassigned) :=
    requeueDue (fun s => decide (dlGetRequestTimeoutSecs sync ≤ now - s.requestTime)) noteTimeout dm
  (reassigned, maybeGrow dm)

def dlPeerDisconnected (peerId : ℕ) (dm : DownloadManager) : ℕ × DownloadManager :=
  let (dm, requeued) := requeueDue (fun s => s.peerId == peerId) (fun _ dm => dm) dm
  (requeued, dlUpdatePeer dm peerId false fun ps => { ps with active := false })

/-- One block of `dl_queue_blocks`: not one in flight, nor one queued already. -/
def queueBlock (acc : ℕ × DownloadManager) (block : UInt256 × ℤ) : ℕ × DownloadManager :=
  if (findSlot acc.2 block.1 false).isSome || acc.2.queue.any (·.1 == block.1) then acc
  else match dlQueuePush acc.2 block.1 block.2 with
    | none => acc
    | some dm => (acc.1 + 1, dm)

/-- Without heights a caller queues the blocks at height -1. -/
def dlQueueBlocks (blocks : List (UInt256 × ℤ)) (dm : DownloadManager) : ℕ × DownloadManager :=
  blocks.foldl queueBlock (0, dm)

def dlQueuePriority (hash : UInt256) (height : ℤ) (dm : DownloadManager) : DownloadManager :=
  if (findSlot dm hash false).isSome then dm
  else
    let dm := dlQueueRemove dm hash
    (dlQueuePush dm hash height).getD dm

def dlDrainForBackpressure (dm : DownloadManager) : ℕ × DownloadManager :=
  (dm.queue.length + dm.numActive,
    { dm with
      queue := []
      slots := dm.slots.map fun s => { s with active := false }
      numActive := 0 })

def sizeSub (a b : ℕ) : ℕ := (a + 2 ^ 64 - b % 2 ^ 64) % 2 ^ 64

def dlAvailable (sync : SyncState) (peerId maxAssign : ℕ) (dm : DownloadManager) : ℕ :=
  let peerCount := dm.slots.countP fun s => s.active && s.peerId == peerId
  let available := min (min (dlPeerLimit dm peerId - peerCount) maxAssign) dm.queue.length
  let globalLimit := dlGetMaxInFlightTotal sync
  if globalLimit < dm.numActive + available then sizeSub globalLimit dm.numActive else available

/-- The loop from the front of the queue: what it assigned and what is left. -/
def assignLoop (now : ℤ) (peerId : ℕ) : (available : ℕ) → List (UInt256 × ℤ) → DownloadManager →
    List UInt256 × List (UInt256 × ℤ) × DownloadManager
  | 0, queue, dm => ([], queue, dm)
  | _ + 1, [], dm => ([], [], dm)
  | available + 1, (hash, height) :: queue, dm =>
    let dm := maybeGrow dm
    match findSlot dm hash true with
    | none => assignLoop now peerId (available + 1) queue dm
    | some i =>
      let (out, rest, dm) :=
        assignLoop now peerId available queue (fillSlot dm i hash height peerId now)
      (hash :: out, rest, dm)

/-- The hashes written to `out_hashes`, as many as the call returns. -/
def dlAssignToPeer (sync : SyncState) (now : ℤ) (peerId maxAssign : ℕ) (dm : DownloadManager) :
    List UInt256 × DownloadManager :=
  let (out, rest, dm') :=
    assignLoop now peerId (dlAvailable sync peerId maxAssign dm) dm.queue dm
  let dm' := { dm' with queue := rest }
  (out, if out = [] then dm' else dlUpdatePeer dm' peerId true fun ps =>
    { ps with blocksRequested := ps.blocksRequested + out.length })

end ZClassic
