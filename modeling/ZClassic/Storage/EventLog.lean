import ZClassic.Lib.Disk
import ZClassic.Lib.LittleEndian
import ZClassic.Lib.Run

/-!
# The event log

`lib/storage/src/event_log.c`: appending framed events with two `fsync`s each, the recovery scan of
an opened file, and streaming.
-/

namespace ZClassic

open List

def evtHdrLen : ℕ := 16

def evtSentinelLen : ℕ := 16

def eventLogMaxPayload : ℕ := 256 * 1024 * 1024

def eventLogSentinelMagic : ℕ := 0x474C5456454C435A

def crc32cTable (i : UInt32) : UInt32 :=
  (List.range 8).foldl (fun c _ => (c >>> 1) ^^^ (0x82F63B78 &&& (0 - (c &&& 1)))) i

def crc32cByte (crc : UInt32) (b : UInt8) : UInt32 :=
  (crc >>> 8) ^^^ crc32cTable ((crc ^^^ b.toUInt32) &&& 0xFF)

def crc32c (data : List UInt8) : UInt32 := data.foldl crc32cByte 0xFFFFFFFF ^^^ 0xFFFFFFFF

structure LogEvent where
  type : UInt32
  payload : List UInt8
  deriving DecidableEq

def LogEvent.header (ev : LogEvent) : List UInt8 :=
  leBytes 4 ev.payload.length ++ (leBytes 4 ev.type.toNat ++ (leBytes 4 0 ++
    leBytes 4 (crc32c ev.payload).toNat))

def eventSentinel (start : ℕ) : List UInt8 := leBytes 8 eventLogSentinelMagic ++ leBytes 8 start

structure EventLog where
  disk : Disk := {}
  endOffset : ℕ := 0

/-- The system calls of an append; an event that is too long is rejected before the first. -/
def appendCalls (start : ℕ) (ev : LogEvent) : List DiskCall :=
  [.pwrite start ev.header] ++
    (if 0 < ev.payload.length then [.pwrite (start + evtHdrLen) ev.payload] else []) ++
    [.fsync, .pwrite (start + evtHdrLen + ev.payload.length) (eventSentinel start), .fsync]

/-- The log after the call, and the offset it returns unless it fails. -/
def eventLogAppend (fault : Option (ℕ × ℕ)) (log : EventLog) (ev : LogEvent) :
    EventLog × Option ℕ :=
  if eventLogMaxPayload < ev.payload.length then (log, none)
  else
    let start := log.endOffset
    let (disk, ok) := log.disk.run fault (appendCalls start ev)
    if ok then (⟨disk, start + evtHdrLen + ev.payload.length + evtSentinelLen⟩, some start)
    else (⟨disk, start⟩, none)

def fullPread (file : List UInt8) (off n : ℕ) : Option (List UInt8) :=
  if off + n ≤ file.length then some ((file.drop off).take n) else none

def getU32 (bytes : List UInt8) (i : ℕ) : ℕ := leNat ((bytes.drop i).take 4)

def getU64 (bytes : List UInt8) (i : ℕ) : ℕ := leNat ((bytes.drop i).take 8)

def recoverEvent (file : List UInt8) (cursor : ℕ) : Option ℕ := do
  let hdr ← fullPread file cursor evtHdrLen
  let plen := getU32 hdr 0
  guard (plen ≤ eventLogMaxPayload)
  let need := evtHdrLen + plen + evtSentinelLen
  guard (cursor + need ≤ file.length)
  let sent ← fullPread file (cursor + evtHdrLen + plen) evtSentinelLen
  guard (getU64 sent 0 = eventLogSentinelMagic ∧ getU64 sent 8 = cursor)
  let payload ← fullPread file (cursor + evtHdrLen) plen
  guard (getU32 hdr 12 = (crc32c payload).toNat)
  return need

/-- The loop of `recover_truncate_partial`; an event has at least 32 bytes, so the length of the
file is enough fuel. -/
def recoverScan (file : List UInt8) : ℕ → ℕ → ℕ
  | 0, cursor => cursor
  | fuel + 1, cursor =>
    if cursor + evtHdrLen + evtSentinelLen ≤ file.length then
      match recoverEvent file cursor with
      | some need => recoverScan file fuel (cursor + need)
      | none => cursor
    else cursor

def recoverTruncatePartial (file : List UInt8) : List UInt8 :=
  file.take (recoverScan file file.length 0)

def eventLogOpen (file : List UInt8) : EventLog :=
  ⟨⟨recoverTruncatePartial file, []⟩, (recoverTruncatePartial file).length⟩

/-- The event that is streamed at the cursor; an empty payload has no checksum to compare. -/
def streamEvent (file : List UInt8) (endOffset cursor : ℕ) : Option LogEvent := do
  let hdr ← fullPread file cursor evtHdrLen
  let plen := getU32 hdr 0
  guard (plen ≤ eventLogMaxPayload)
  guard (cursor + evtHdrLen + plen + evtSentinelLen ≤ endOffset)
  let payload ← fullPread file (cursor + evtHdrLen) plen
  guard (plen = 0 ∨ (crc32c payload).toNat = getU32 hdr 12)
  let sent ← fullPread file (cursor + evtHdrLen + plen) evtSentinelLen
  guard (getU64 sent 0 = eventLogSentinelMagic ∧ getU64 sent 8 = cursor)
  return ⟨UInt32.ofNat (getU32 hdr 4), payload⟩

/-- The loop of `event_log_stream`: the events delivered, and whether it ends without an error. -/
def streamScan (file : List UInt8) (endOffset : ℕ) : ℕ → ℕ → List (ℕ × LogEvent) × Bool
  | 0, _ => ([], true)
  | fuel + 1, cursor =>
    if cursor + evtHdrLen + evtSentinelLen ≤ endOffset then
      match streamEvent file endOffset cursor with
      | some ev =>
        let (events, ok) := streamScan file endOffset fuel
          (cursor + evtHdrLen + ev.payload.length + evtSentinelLen)
        ((cursor, ev) :: events, ok)
      | none => ([], false)
    else ([], true)

def eventLogStream (log : EventLog) (startOffset : ℕ) : List (ℕ × LogEvent) × Bool :=
  streamScan log.disk.file log.endOffset log.endOffset startOffset

def LogEvent.frame (start : ℕ) (ev : LogEvent) : List UInt8 :=
  ev.header ++ (ev.payload ++ eventSentinel start)

def logBytes (start : ℕ) : List LogEvent → List UInt8
  | [] => []
  | ev :: evs => ev.frame start ++ logBytes (start + (ev.frame start).length) evs

def logEntries (start : ℕ) : List LogEvent → List (ℕ × LogEvent)
  | [] => []
  | ev :: evs => (start, ev) :: logEntries (start + (ev.frame start).length) evs

open LogEvent

@[simp]
theorem LogEvent.header_length (ev : LogEvent) : ev.header.length = 16 := by
  simp [header]

@[simp]
theorem eventSentinel_length (start : ℕ) : (eventSentinel start).length = 16 := by
  simp [eventSentinel]

@[simp]
theorem LogEvent.frame_length (start : ℕ) (ev : LogEvent) :
    (ev.frame start).length = 32 + ev.payload.length := by
  simp only [frame, length_append, header_length, eventSentinel_length]
  omega

theorem fullPread_append {pre bytes post : List UInt8} {off n : ℕ} (hoff : off = pre.length)
    (hn : n = bytes.length) : fullPread (pre ++ (bytes ++ post)) off n = some bytes := by
  subst hoff hn
  rw [fullPread, if_pos (by simp), drop_left, take_left]

variable {file : List UInt8} {endOffset : ℕ} {evs : List LogEvent}

section Header

variable (ev : LogEvent)

theorem getU32_header_length (h : ev.payload.length ≤ eventLogMaxPayload) :
    getU32 ev.header 0 = ev.payload.length := by
  have hlt : ev.payload.length < 256 ^ 4 := h.trans_lt (by decide)
  rw [getU32, header, drop_zero, take_left' (leBytes_length _ _), leNat_leBytes_of_lt hlt]

theorem getU32_header_type : getU32 ev.header 4 = ev.type.toNat := by
  rw [getU32, header, drop_left' (leBytes_length _ _),
    take_left' (leBytes_length _ _), leNat_leBytes_of_lt ev.type.toNat_lt]

theorem getU32_header_crc : getU32 ev.header 12 = (crc32c ev.payload).toNat := by
  have hpre : (leBytes 4 ev.payload.length ++ (leBytes 4 ev.type.toNat ++ leBytes 4 0)).length =
      12 := by simp
  have hassoc : ev.header = (leBytes 4 ev.payload.length ++ (leBytes 4 ev.type.toNat ++
      leBytes 4 0)) ++ leBytes 4 (crc32c ev.payload).toNat := by
    simp only [header, append_assoc]
  rw [getU32, hassoc, drop_left' hpre, take_of_length_le (by simp),
    leNat_leBytes_of_lt (crc32c ev.payload).toNat_lt]

theorem getU64_sentinel (start : ℕ) (h : start < 2 ^ 64) :
    getU64 (eventSentinel start) 0 = eventLogSentinelMagic ∧
      getU64 (eventSentinel start) 8 = start := by
  refine ⟨?_, ?_⟩
  · rw [getU64, eventSentinel, drop_zero, take_left' (leBytes_length _ _),
      leNat_leBytes_of_lt (by decide)]
  · rw [getU64, eventSentinel, drop_left' (leBytes_length _ _),
      take_of_length_le (by simp), leNat_leBytes_of_lt h]

end Header

section Frames

variable {pre post : List UInt8} {ev : LogEvent}

theorem fullPread_header :
    fullPread (pre ++ (ev.frame pre.length ++ post)) pre.length evtHdrLen = some ev.header := by
  rw [frame, append_assoc]
  exact fullPread_append rfl ev.header_length.symm

theorem fullPread_payload :
    fullPread (pre ++ (ev.frame pre.length ++ post)) (pre.length + evtHdrLen) ev.payload.length =
      some ev.payload := by
  have hassoc : pre ++ (ev.frame pre.length ++ post) =
      (pre ++ ev.header) ++ (ev.payload ++ (eventSentinel pre.length ++ post)) := by
    simp only [frame, append_assoc]
  rw [hassoc]
  exact fullPread_append (by simp [evtHdrLen]) rfl

theorem fullPread_sentinel :
    fullPread (pre ++ (ev.frame pre.length ++ post)) (pre.length + evtHdrLen + ev.payload.length)
      evtSentinelLen = some (eventSentinel pre.length) := by
  have hassoc : pre ++ (ev.frame pre.length ++ post) =
      (pre ++ (ev.header ++ ev.payload)) ++ (eventSentinel pre.length ++ post) := by
    simp only [frame, append_assoc]
  rw [hassoc]
  refine fullPread_append ?_ (eventSentinel_length _).symm
  simp [evtHdrLen, Nat.add_assoc]

section

variable (hlen : ev.payload.length ≤ eventLogMaxPayload)

include hlen

theorem recoverEvent_frame
    (hpre : pre.length < 2 ^ 64) :
    recoverEvent (pre ++ (ev.frame pre.length ++ post)) pre.length =
      some (ev.frame pre.length).length := by
  have hsize : pre.length + (ev.frame pre.length).length ≤
      (pre ++ (ev.frame pre.length ++ post)).length := by
    rw [length_append, length_append]
    omega
  have hneed : evtHdrLen + ev.payload.length + evtSentinelLen = (ev.frame pre.length).length := by
    rw [frame_length, evtHdrLen, evtSentinelLen]
    omega
  rw [recoverEvent, fullPread_header]
  simp only [Option.bind_eq_bind, Option.bind_some, getU32_header_length ev hlen,
    getU32_header_crc, fullPread_sentinel, fullPread_payload, getU64_sentinel _ hpre, guard, hlen,
    hsize, hneed, if_true, and_self]
  rfl

theorem streamEvent_frame
    (hpre : pre.length < 2 ^ 64) (hend : pre.length + (ev.frame pre.length).length ≤ endOffset) :
    streamEvent (pre ++ (ev.frame pre.length ++ post)) endOffset pre.length = some ev := by
  have hsize : pre.length + evtHdrLen + ev.payload.length + evtSentinelLen ≤ endOffset := by
    rw [frame_length] at hend
    rw [evtHdrLen, evtSentinelLen]
    omega
  rw [streamEvent, fullPread_header]
  simp only [Option.bind_eq_bind, Option.bind_some, getU32_header_length ev hlen,
    getU32_header_crc, getU32_header_type, fullPread_sentinel, fullPread_payload,
    getU64_sentinel _ hpre, guard, hlen, hsize, if_true, and_self, or_true, UInt32.ofNat_toNat]
  rfl

theorem recoverEvent_torn {k : ℕ}
    (hk : k < (ev.frame pre.length).length)
    (hroom : pre.length + evtHdrLen + evtSentinelLen ≤
      (pre ++ (ev.frame pre.length).take k).length) :
    recoverEvent (pre ++ (ev.frame pre.length).take k) pre.length = none := by
  rw [length_append, length_take_of_le hk.le, evtHdrLen, evtSentinelLen] at hroom
  -- the header is there in full, and it asks for more bytes than there are
  have hcut : (ev.frame pre.length).take k =
      ev.header ++ (ev.payload ++ eventSentinel pre.length).take (k - 16) := by
    rw [frame, take_append, ev.header_length, take_of_length_le (by simp; omega)]
  have hhdr : fullPread (pre ++ (ev.frame pre.length).take k) pre.length evtHdrLen =
      some ev.header := by
    rw [hcut]
    exact fullPread_append rfl ev.header_length.symm
  have hsize : ¬pre.length + (evtHdrLen + ev.payload.length + evtSentinelLen) ≤
      (pre ++ (ev.frame pre.length).take k).length := by
    rw [length_append, length_take_of_le hk.le, evtHdrLen, evtSentinelLen]
    rw [frame_length] at hk
    omega
  rw [recoverEvent, hhdr]
  simp only [Option.bind_eq_bind, Option.bind_some, getU32_header_length ev hlen, guard, hlen,
    hsize, if_true, if_false]
  rfl

end

end Frames

section Scans

theorem length_le_logBytes (start : ℕ) (evs : List LogEvent) :
    evs.length ≤ (logBytes start evs).length := by
  induction evs generalizing start with
  | nil => exact Nat.zero_le _
  | cons ev evs ih =>
    have hrest := ih (start + (ev.frame start).length)
    rw [logBytes, length_append, frame_length, length_cons]
    rw [frame_length] at hrest
    omega

theorem logBytes_append (start : ℕ) (evs evs' : List LogEvent) :
    logBytes start (evs ++ evs') =
      logBytes start evs ++ logBytes (start + (logBytes start evs).length) evs' := by
  induction evs generalizing start with
  | nil => rfl
  | cons ev evs ih =>
    rw [cons_append, logBytes, ih, logBytes, append_assoc, length_append, Nat.add_assoc]

theorem logEntries_append (start : ℕ) (evs evs' : List LogEvent) :
    logEntries start (evs ++ evs') =
      logEntries start evs ++ logEntries (start + (logBytes start evs).length) evs' := by
  induction evs generalizing start with
  | nil => rfl
  | cons ev evs ih =>
    rw [cons_append, logEntries, ih, logEntries, cons_append, logBytes,
      length_append, Nat.add_assoc]

/-- The events of a log that are short enough to be read. -/
def Readable (evs : List LogEvent) : Prop := ∀ ev ∈ evs, ev.payload.length ≤ eventLogMaxPayload

/-- The frames of the events follow one another in the file from the offset on. -/
def FramesAt (file : List UInt8) : ℕ → List LogEvent → Prop
  | _, [] => True
  | start, ev :: evs => (∃ pre post, pre.length = start ∧ file = pre ++ (ev.frame start ++ post)) ∧
    FramesAt file (start + (ev.frame start).length) evs

theorem framesAt_logBytes (pre tail : List UInt8) (evs : List LogEvent) :
    FramesAt (pre ++ (logBytes pre.length evs ++ tail)) pre.length evs := by
  induction evs generalizing pre with
  | nil => trivial
  | cons ev evs ih =>
    have hrest := ih (pre ++ ev.frame pre.length)
    rw [length_append, append_assoc] at hrest
    rw [logBytes, append_assoc]
    exact ⟨⟨pre, _, rfl, rfl⟩, hrest⟩

variable {start : ℕ}

section

variable (h : FramesAt file start evs) (hr : Readable evs)
  (hlen : start + (logBytes start evs).length < 2 ^ 64)

include h hr hlen

theorem recoverScan_frames (fuel : ℕ) :
    recoverScan file (evs.length + fuel) start =
      recoverScan file fuel (start + (logBytes start evs).length) := by
  induction evs generalizing start with
  | nil =>
    rw [length_nil, Nat.zero_add]
    rfl
  | cons ev evs ih =>
    obtain ⟨⟨pre, post, rfl, rfl⟩, hrest⟩ := h
    rw [Readable, forall_mem_cons] at hr
    rw [logBytes, length_append, ← Nat.add_assoc] at hlen ⊢
    have hroom : pre.length + evtHdrLen + evtSentinelLen ≤
        (pre ++ (ev.frame pre.length ++ post)).length := by
      simp only [length_append, frame_length, evtHdrLen, evtSentinelLen]
      omega
    rw [length_cons, Nat.add_right_comm, recoverScan, if_pos hroom,
      recoverEvent_frame hr.1 (by omega)]
    exact ih hrest hr.2 hlen

theorem streamScan_frames
    (hend : start + (logBytes start evs).length ≤ endOffset) (fuel : ℕ) :
    let r := streamScan file endOffset fuel (start + (logBytes start evs).length)
    streamScan file endOffset (evs.length + fuel) start = (logEntries start evs ++ r.1, r.2) := by
  induction evs generalizing start with
  | nil =>
    rw [length_nil, Nat.zero_add]
    rfl
  | cons ev evs ih =>
    obtain ⟨⟨pre, post, rfl, rfl⟩, hrest⟩ := h
    rw [Readable, forall_mem_cons] at hr
    rw [logBytes, length_append, ← Nat.add_assoc] at hlen hend ⊢
    intro r
    have hframe := ev.frame_length pre.length
    have hcursor : pre.length + evtHdrLen + ev.payload.length + evtSentinelLen =
        pre.length + (ev.frame pre.length).length := by
      rw [hframe, evtHdrLen, evtSentinelLen]
      omega
    rw [length_cons, Nat.add_right_comm, streamScan, if_pos (by omega),
      streamEvent_frame hr.1 (by omega) (by omega)]
    dsimp only
    rw [hcursor, ih hrest hr.2 hlen hend]
    rfl

end

def ScanStops (file : List UInt8) (cursor : ℕ) : Prop :=
  ¬cursor + evtHdrLen + evtSentinelLen ≤ file.length ∨ recoverEvent file cursor = none

theorem recoverScan_of_stops {cursor : ℕ} (h : ScanStops file cursor) (fuel : ℕ) :
    recoverScan file fuel cursor = cursor := by
  cases fuel with
  | zero => rfl
  | succ fuel =>
    rw [recoverScan]
    rcases h with h | h
    · rw [if_neg h]
    · rw [h, ite_self]

theorem recovered_logBytes {tail : List UInt8} (hr : Readable evs)
    (hlen : (logBytes 0 evs).length < 2 ^ 64)
    (hstop : ScanStops (logBytes 0 evs ++ tail) (logBytes 0 evs).length) :
    recoverTruncatePartial (logBytes 0 evs ++ tail) = logBytes 0 evs := by
  have hfuel : (logBytes 0 evs ++ tail).length =
      evs.length + ((logBytes 0 evs ++ tail).length - evs.length) := by
    have hle := length_le_logBytes 0 evs
    rw [length_append]
    omega
  have hscan := recoverScan_frames (framesAt_logBytes [] tail evs) hr (by simpa using hlen)
    ((logBytes 0 evs ++ tail).length - evs.length)
  rw [nil_append, length_nil, Nat.zero_add, ← hfuel, recoverScan_of_stops hstop] at hscan
  rw [recoverTruncatePartial, hscan, take_left]

theorem streamScan_end (file : List UInt8) (endOffset fuel : ℕ) :
    streamScan file endOffset fuel endOffset = ([], true) := by
  cases fuel with
  | zero => rfl
  | succ fuel =>
    rw [streamScan, if_neg]
    rw [evtHdrLen, evtSentinelLen]
    omega

def cleanLog (evs : List LogEvent) : EventLog :=
  ⟨⟨logBytes 0 evs, []⟩, (logBytes 0 evs).length⟩

theorem eventLogStream_cleanLog (hr : Readable evs) (hlen : (logBytes 0 evs).length < 2 ^ 64) :
    eventLogStream (cleanLog evs) 0 = (logEntries 0 evs, true) := by
  have hfuel : (logBytes 0 evs).length = evs.length + ((logBytes 0 evs).length - evs.length) := by
    have hle := length_le_logBytes 0 evs
    omega
  have hscan := streamScan_frames (framesAt_logBytes [] [] evs) hr (by simpa using hlen)
    (Nat.zero_add _).le ((logBytes 0 evs).length - evs.length)
  dsimp only at hscan
  rw [nil_append, length_nil, Nat.zero_add, append_nil, ← hfuel, streamScan_end,
    append_nil] at hscan
  exact hscan

end Scans

end ZClassic
