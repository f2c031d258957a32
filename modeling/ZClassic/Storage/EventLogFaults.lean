import ZClassic.Storage.EventLogCrash

/-!
# Appends that fail

A failed append leaves the end offset where it was and its bytes in the file, and a later append
overwrites them only as far as its own frame goes.
-/

namespace ZClassic

open List

/-- The events whose append returned, and behind them what failed appends have left. -/
structure Appended (log : EventLog) (evs : List LogEvent) (tail : List UInt8) : Prop where
  readable : Readable evs
  fits : (logBytes 0 evs).length < 2 ^ 63
  endOffset : log.endOffset = (logBytes 0 evs).length
  file : log.disk.file = logBytes 0 evs ++ tail

abbrev LogEvent.frameAfter (ev : LogEvent) (evs : List LogEvent) : List UInt8 :=
  ev.frame (logBytes 0 evs).length

/-- A system call of the append fails. -/
def AppendFails (call : AppendCall) : Prop :=
  ∃ f ∈ call.1, f.1 < (appendCalls 0 call.2).length

instance (call : AppendCall) : Decidable (AppendFails call) :=
  inferInstanceAs (Decidable (∃ f ∈ call.1, f.1 < (appendCalls 0 call.2).length))

/-- The bytes that an append leaves in the file. -/
def bytesLeft (call : AppendCall) : ℕ :=
  keptSize call.1 ((appendCalls 0 call.2).map DiskCall.size)

/-- The bytes by which an append moves the end offset. -/
def bytesReturned (call : AppendCall) : ℕ :=
  if AppendFails call then 0 else call.2.written

/-- The events after a failed append write over what it left, up to fewer bytes than a frame has.
After the last append, anything may be left but a whole frame. -/
def Overwritten : List AppendCall → Prop
  | [] => True
  | call :: calls =>
    (call.2.payload.length ≤ eventLogMaxPayload → AppendFails call →
      bytesLeft call < 32 + (calls.map bytesReturned).sum ∨
        calls = [] ∧ bytesLeft call < call.2.written) ∧
      Overwritten calls

theorem appended_empty : Appended (eventLogOpen []) [] [] where
  readable := fun _ hev => absurd hev not_mem_nil
  fits := by decide
  endOffset := rfl
  file := rfl

theorem map_size_appendCalls (start : ℕ) (ev : LogEvent) :
    (appendCalls start ev).map DiskCall.size = (appendCalls 0 ev).map DiskCall.size := by
  unfold appendCalls
  split <;> simp [DiskCall.size]

theorem length_appendCalls (start : ℕ) (ev : LogEvent) :
    (appendCalls start ev).length = (appendCalls 0 ev).length := by
  unfold appendCalls
  split <;> rfl

theorem sum_size_appendCalls (ev : LogEvent) :
    ((appendCalls 0 ev).map DiskCall.size).sum = 32 + ev.payload.length := by
  unfold appendCalls
  split
  · simp [DiskCall.size]
    omega
  · next hempty =>
    simp [DiskCall.size, Nat.eq_zero_of_not_pos hempty]

section Step

variable {log : EventLog} {evs : List LogEvent} {tail : List UInt8} (h : Appended log evs tail)

include h

/-- An append writes the front part of a frame at the end offset, over what was left there. -/
theorem Appended.run (fault : Option (ℕ × ℕ)) (ev : LogEvent)
    (hfits : log.endOffset + (32 + ev.payload.length) < 2 ^ 63) :
    (log.disk.run fault (appendCalls log.endOffset ev)).1.file = logBytes 0 evs ++
        ((ev.frameAfter evs).take (bytesLeft (fault, ev)) ++
          tail.drop ((ev.frameAfter evs).take (bytesLeft (fault, ev))).length) ∧
      ((log.disk.run fault (appendCalls log.endOffset ev)).2 = true ↔
        ¬AppendFails (fault, ev)) := by
  obtain ⟨hcons, hbytes⟩ := (appendCalls_consecutive log.endOffset ev).kept fault
  rw [callBytes_appendCalls, map_size_appendCalls] at hbytes
  have hsmall : ∀ c ∈ appendCalls log.endOffset ev, c.tooLarge = false :=
    appendCalls_not_tooLarge (by rwa [LogEvent.frame_length])
  have hle : log.endOffset ≤ log.disk.file.length := by
    rw [h.endOffset, h.file, length_append]
    exact Nat.le_add_right _ _
  rw [Disk.run_eq hsmall, Disk.file_foldl_call hcons hle, hbytes, h.file, h.endOffset]
  refine ⟨?_, ?_⟩
  · rw [take_left, append_assoc, ← drop_drop, drop_left]
    rfl
  · rw [length_appendCalls]
    simp [AppendFails, Option.all_eq_true]

theorem Appended.append (fault : Option (ℕ × ℕ)) (ev : LogEvent)
    (hfits : log.endOffset + ev.written < 2 ^ 63) :
    let out := eventLogAppend fault log ev
    let bytes := (ev.frameAfter evs).take (bytesLeft (fault, ev))
    (eventLogMaxPayload < ev.payload.length ∧ out = (log, none)) ∨
      (ev.payload.length ≤ eventLogMaxPayload ∧ AppendFails (fault, ev) ∧ out.2 = none ∧
        Appended out.1 evs (bytes ++ tail.drop bytes.length)) ∨
      (ev.payload.length ≤ eventLogMaxPayload ∧ ¬AppendFails (fault, ev) ∧
        out.2 = some (logBytes 0 evs).length ∧
        Appended out.1 (evs ++ [ev]) (tail.drop ev.written)) := by
  dsimp only
  rw [eventLogAppend]
  by_cases hev : eventLogMaxPayload < ev.payload.length
  · rw [if_pos hev]
    exact .inl ⟨hev, rfl⟩
  rw [LogEvent.written, if_neg hev] at hfits ⊢
  obtain ⟨hfile, hok⟩ := h.run fault ev hfits
  rw [if_neg hev]
  dsimp only
  by_cases hfails : AppendFails (fault, ev)
  · rw [if_neg fun htrue => hok.mp htrue hfails]
    exact .inr (.inl ⟨Nat.le_of_not_lt hev, hfails, rfl, h.readable, h.fits, h.endOffset, hfile⟩)
  · rw [if_pos (hok.mpr hfails)]
    have hsize : (logBytes 0 (evs ++ [ev])).length = log.endOffset + (32 + ev.payload.length) := by
      rw [logBytes_concat, length_append, LogEvent.frame_length, h.endOffset]
    refine .inr (.inr ⟨Nat.le_of_not_lt hev, hfails, congrArg some h.endOffset, ?_, ?_, ?_, ?_⟩)
    · intro e he
      rcases mem_append.mp he with he | he
      · exact h.readable e he
      · rw [mem_singleton.mp he]
        exact Nat.le_of_not_lt hev
    · rwa [hsize]
    · rw [hsize, evtHdrLen, evtSentinelLen]
      dsimp only
      omega
    · have hwhole : bytesLeft (fault, ev) = 32 + ev.payload.length := by
        rw [bytesLeft, keptSize_of_le]
        · exact sum_size_appendCalls ev
        · intro f hf
          rw [length_map]
          exact Nat.le_of_not_lt fun hlt => hfails ⟨f, hf, hlt⟩
      rw [hfile, hwhole, take_of_length_le (LogEvent.frame_length ..).le, LogEvent.frame_length,
        logBytes_concat, append_assoc]

omit h in
/-- A torn frame and what is left of shorter ones are no event. -/
theorem Appended.scanStops_torn {ev : LogEvent} {w : ℕ}
    (hlast : Appended log evs ((ev.frameAfter evs).take w ++
      tail.drop ((ev.frameAfter evs).take w).length))
    (hev : ev.payload.length ≤ eventLogMaxPayload) (hw : w < 32 + ev.payload.length)
    (htail : tail.length < 32) : ScanStops log.disk.file log.endOffset := by
  rw [hlast.file, hlast.endOffset, ScanStops, or_iff_not_imp_left, not_not]
  intro hroom
  rw [← ev.frame_length (logBytes 0 evs).length] at hw
  have hlen : ((ev.frameAfter evs).take w).length = w := length_take_of_le hw.le
  have hnil : tail.drop ((ev.frameAfter evs).take w).length = [] := by
    rw [hlen] at hroom ⊢
    simp only [length_append, length_drop, hlen, evtHdrLen, evtSentinelLen] at hroom
    exact drop_eq_nil_of_le (by omega)
  rw [hnil, append_nil] at hroom ⊢
  exact recoverEvent_torn hev hw hroom

end Step

theorem Appended.appendAll {log : EventLog} {evs : List LogEvent} {tail : List UInt8}
    (h : Appended log evs tail) (calls : List AppendCall)
    (hfits : log.endOffset + (calls.map fun call => call.2.written).sum < 2 ^ 63)
    (htail : tail.length < 32 + (calls.map bytesReturned).sum) (hover : Overwritten calls) :
    ∃ added tail', (appendAll log calls).2 = logEntries (logBytes 0 evs).length added ∧
      Appended (appendAll log calls).1 (evs ++ added) tail' ∧
      ScanStops (appendAll log calls).1.disk.file (appendAll log calls).1.endOffset := by
  induction calls generalizing log evs tail with
  | nil =>
    refine ⟨[], tail, rfl, by rwa [append_nil], .inl ?_⟩
    rw [ZClassic.appendAll, h.file, h.endOffset, length_append, evtHdrLen, evtSentinelLen]
    rw [map_nil, sum_nil] at htail
    omega
  | cons call calls ih =>
    obtain ⟨fault, ev⟩ := call
    rw [map_cons, sum_cons] at hfits htail
    dsimp only at hfits
    rw [ZClassic.appendAll]
    dsimp only
    rcases h.append fault ev (by omega) with ⟨hlong, hout⟩ | ⟨hev, hfails, hnone, hnext⟩ |
      ⟨hev, hfails, hsome, hnext⟩
    · rw [bytesReturned, LogEvent.written, if_pos hlong, ite_self, Nat.zero_add] at htail
      rw [hout]
      exact ih h (Nat.lt_of_le_of_lt (Nat.add_le_add_left (Nat.le_add_left ..) _) hfits) htail
        hover.2
    · -- the offset stays, and the next append writes over these bytes
      rw [bytesReturned, if_pos hfails, Nat.zero_add] at htail
      have hend : (eventLogAppend fault log ev).1.endOffset = log.endOffset :=
        hnext.endOffset.trans h.endOffset.symm
      rw [hnone]
      rcases hover.1 hev hfails with hcovered | ⟨rfl, htorn⟩
      · refine ih hnext (by omega) ?_ hover.2
        have hle := length_take_le (bytesLeft (fault, ev)) (ev.frameAfter evs)
        rw [length_append, length_drop]
        omega
      · rw [LogEvent.written, if_neg (Nat.not_lt.mpr hev)] at htorn
        exact ⟨[], _, rfl, by rw [append_nil]; exact hnext, hnext.scanStops_torn hev htorn htail⟩
    · rw [bytesReturned, if_neg hfails] at htail
      dsimp only at htail
      have hwritten : ev.written = (ev.frameAfter evs).length := by
        rw [LogEvent.written, if_neg (Nat.not_lt.mpr hev), LogEvent.frame_length]
      have hend : (eventLogAppend fault log ev).1.endOffset = log.endOffset + ev.written := by
        rw [hnext.endOffset, logBytes_concat, length_append, h.endOffset, hwritten]
      obtain ⟨added, tail', hreturned, hlog, hstops⟩ := ih hnext (by omega)
        (by rw [length_drop]; omega) hover.2
      rw [append_assoc] at hlog
      refine ⟨ev :: added, tail', ?_, hlog, hstops⟩
      rw [hsome, hreturned, logBytes_concat, length_append]
      rfl

/-- In a run whose failed appends are written over, the events whose append returned are delivered
after reopening, and no others. -/
theorem eventLogStream_reopened (calls : List AppendCall)
    (hfits : (calls.map fun call => call.2.written).sum < 2 ^ 63) (hover : Overwritten calls) :
    eventLogStream (eventLogOpen (appendAll (eventLogOpen []) calls).1.disk.file) 0 =
      ((appendAll (eventLogOpen []) calls).2, true) := by
  obtain ⟨evs, tail, hreturned, hlog, hstops⟩ := appended_empty.appendAll calls
    ((Nat.zero_add _).trans_lt hfits) (Nat.lt_add_right _ (by decide)) hover
  rw [nil_append] at hlog
  have hlen : (logBytes 0 evs).length < 2 ^ 64 := hlog.fits.trans (by decide)
  rw [hlog.file, hlog.endOffset] at hstops
  rw [hlog.file, eventLogOpen_eq_cleanLog (recovered_logBytes hlog.readable hlen hstops),
    eventLogStream_cleanLog hlog.readable hlen, hreturned]
  rfl

/-- An append that fails in its sentinel, the same event again, and another append that fails. -/
def retriedCalls : List AppendCall :=
  [(some (3, 8), ⟨2, replicate 40 7⟩), (none, ⟨2, replicate 40 7⟩),
    (some (2, 0), ⟨1, replicate 50 9⟩)]

theorem eventLogStream_reopened_retried :
    (appendAll (eventLogOpen []) retriedCalls).2 = [(0, ⟨2, replicate 40 7⟩)] ∧
      eventLogStream (eventLogOpen (appendAll (eventLogOpen []) retriedCalls).1.disk.file) 0 =
        ((appendAll (eventLogOpen []) retriedCalls).2, true) := by
  refine ⟨by decide +kernel, eventLogStream_reopened retriedCalls (by decide) ?_⟩
  simp only [retriedCalls, Overwritten]
  decide

/-- An event whose payload holds the frame of another event, in the place where that one would be
valid. -/
def framedPayload : LogEvent := ⟨2, replicate 16 0 ++ LogEvent.frame 32 ⟨6, []⟩⟩

/-- The first `fsync` of the first append fails. The second append is shorter, and after reopening
the stream delivers an event that was never appended. -/
theorem framedPayload_delivered :
    (appendAll (eventLogOpen []) [(some (2, 0), framedPayload), (none, ⟨1, []⟩)]).2 =
        [(0, ⟨1, []⟩)] ∧
      eventLogStream (eventLogOpen (appendAll (eventLogOpen [])
        [(some (2, 0), framedPayload), (none, ⟨1, []⟩)]).1.disk.file) 0 =
        ([(0, ⟨1, []⟩), (32, ⟨6, []⟩)], true) := by
  decide +kernel

end ZClassic
