import ZClassic.Storage.EventLog

/-!
# Crash safety of the event log

Runs of appends that end in a crash, each followed by a reopening.
-/

namespace ZClassic

open List LogEvent

/-- The fault that an append meets, and its event. -/
abbrev AppendCall := Option (ℕ × ℕ) × LogEvent

def appendAll (log : EventLog) : List AppendCall → EventLog × List (ℕ × LogEvent)
  | [] => (log, [])
  | (fault, ev) :: evs =>
    let (next, offset) := eventLogAppend fault log ev
    let (last, returned) := appendAll next evs
    (last, (offset.map fun off => (off, ev)).toList ++ returned)

structure CrashRun where
  /-- the events whose append had returned -/
  appends : List LogEvent
  /-- the event being appended, and the system calls of its append that were made -/
  inProgress : Option LogEvent := none
  calls : ℕ := 0
  /-- the pending bytes that the crash keeps -/
  kept : ℕ := 0
  /-- crashes while the file is opened again, and whether the truncation was kept -/
  reopenCrashes : List Bool := []

def EventLog.startAppend (log : EventLog) (ev : LogEvent) (calls : ℕ) : Disk :=
  if eventLogMaxPayload < ev.payload.length then log.disk
  else ((appendCalls log.endOffset ev).take calls).foldl Disk.call log.disk

def CrashRun.crashed (r : CrashRun) (log : EventLog) : List UInt8 :=
  let disk := r.inProgress.elim log.disk fun ev => log.startAppend ev r.calls
  r.reopenCrashes.foldl
    (fun file truncated => if truncated then recoverTruncatePartial file else file)
    (disk.crash r.kept)

/-- The bytes that an append writes; a longer event is rejected. -/
def LogEvent.written (ev : LogEvent) : ℕ :=
  if eventLogMaxPayload < ev.payload.length then 0 else 32 + ev.payload.length

def CrashRun.Fits (r : CrashRun) (log : EventLog) : Prop :=
  log.endOffset + (r.appends.map LogEvent.written).sum + (r.inProgress.elim 0 LogEvent.written) <
    2 ^ 63

/-- After each crash the stream delivers what was delivered before, the events of the run, and
nothing else or the event that was being appended. -/
def CrashSafe : List UInt8 → List (ℕ × LogEvent) → List CrashRun → Prop
  | _, _, [] => True
  | file, delivered, r :: runs =>
    r.Fits (eventLogOpen file) →
      let (log, returned) := appendAll (eventLogOpen file) (r.appends.map fun ev => (none, ev))
      let reopened := eventLogOpen (r.crashed log)
      (eventLogStream reopened 0 = (delivered ++ returned, true) ∨
        ∃ ev, r.inProgress = some ev ∧
          eventLogStream reopened 0 = (delivered ++ returned ++ [(log.endOffset, ev)], true)) ∧
      CrashSafe (r.crashed log) (eventLogStream reopened 0).1 runs

theorem appendCalls_consecutive (start : ℕ) (ev : LogEvent) :
    Consecutive start (appendCalls start ev) := by
  rw [appendCalls]
  split
  · simp [Consecutive, evtHdrLen]
  · next h =>
    have hnil : ev.payload.length = 0 := Nat.eq_zero_of_not_pos h
    simp [Consecutive, evtHdrLen, hnil]

theorem callBytes_appendCalls (start : ℕ) (ev : LogEvent) :
    callBytes (appendCalls start ev) = ev.frame start := by
  have hpayload : callBytes (if 0 < ev.payload.length then
      [DiskCall.pwrite (start + evtHdrLen) ev.payload] else []) = ev.payload := by
    split
    · exact append_nil _
    · next h => exact (eq_nil_of_length_eq_zero (Nat.eq_zero_of_not_pos h)).symm
  unfold appendCalls frame
  rw [callBytes_append, callBytes_append, hpayload]
  simp only [callBytes, append_nil, append_assoc]

theorem appendCalls_not_tooLarge {start : ℕ} {ev : LogEvent}
    (h : start + (ev.frame start).length < 2 ^ 63) :
    ∀ c ∈ appendCalls start ev, c.tooLarge = false := by
  rw [frame_length] at h
  intro c hc
  rw [appendCalls] at hc
  have hcase : c = .pwrite start ev.header ∨ c = .pwrite (start + evtHdrLen) ev.payload ∨
      c = .fsync ∨ c = .pwrite (start + evtHdrLen + ev.payload.length) (eventSentinel start) := by
    split at hc <;> simp at hc <;> tauto
  rcases hcase with rfl | rfl | rfl | rfl
  · exact decide_eq_false (by rw [header_length]; omega)
  · exact decide_eq_false (by rw [evtHdrLen]; omega)
  · rfl
  · exact decide_eq_false (by rw [eventSentinel_length, evtHdrLen]; omega)

theorem foldl_appendCalls (d : Disk) (start : ℕ) (ev : LogEvent) :
    (appendCalls start ev).foldl Disk.call d =
      ⟨((appendCalls start ev).foldl Disk.call d).file, []⟩ := by
  have hlast : appendCalls start ev = ([.pwrite start ev.header] ++
      (if 0 < ev.payload.length then [.pwrite (start + evtHdrLen) ev.payload] else []) ++
      [.fsync, .pwrite (start + evtHdrLen + ev.payload.length) (eventSentinel start)]) ++
      [.fsync] := by
    rw [appendCalls, append_assoc _ _ [DiskCall.fsync]]
    rfl
  rw [hlast, foldl_append]
  rfl

section Clean

variable {evs : List LogEvent} {ev : LogEvent}

theorem logBytes_concat (evs : List LogEvent) (ev : LogEvent) :
    logBytes 0 (evs ++ [ev]) = logBytes 0 evs ++ ev.frame (logBytes 0 evs).length := by
  rw [logBytes_append, Nat.zero_add, logBytes, logBytes, append_nil]

theorem cleanLog_endOffset (evs : List LogEvent) :
    (cleanLog evs).endOffset = (logBytes 0 evs).length := rfl

theorem holds_cleanLog (evs : List LogEvent) :
    (cleanLog evs).disk.Holds (logBytes 0 evs) [] := Disk.holds_synced _

theorem eventLogAppend_cleanLog (hev : ¬eventLogMaxPayload < ev.payload.length)
    (hfit : (logBytes 0 (evs ++ [ev])).length < 2 ^ 63) :
    eventLogAppend none (cleanLog evs) ev =
      (cleanLog (evs ++ [ev]), some (logBytes 0 evs).length) := by
  rw [logBytes_concat, length_append] at hfit
  have hfile := ((holds_cleanLog evs).call
    (appendCalls_consecutive (logBytes 0 evs).length ev)).file
  rw [nil_append, callBytes_appendCalls, ← logBytes_concat] at hfile
  have hrun : (cleanLog evs).disk.run none (appendCalls (logBytes 0 evs).length ev) =
      (⟨logBytes 0 (evs ++ [ev]), []⟩, true) := by
    rw [Disk.run_none (appendCalls_not_tooLarge hfit), foldl_appendCalls, hfile]
  have hend : (logBytes 0 evs).length + evtHdrLen + ev.payload.length + evtSentinelLen =
      (logBytes 0 (evs ++ [ev])).length := by
    rw [logBytes_concat, length_append, frame_length, evtHdrLen, evtSentinelLen]
    omega
  rw [eventLogAppend, if_neg hev, cleanLog_endOffset]
  dsimp only
  rw [hrun]
  rw [if_pos rfl, hend, cleanLog]

theorem crash_startAppend (evs : List LogEvent) (hev : ¬eventLogMaxPayload < ev.payload.length)
    (calls kept : ℕ) :
    ∃ k, ((cleanLog evs).startAppend ev calls).crash kept =
      logBytes 0 evs ++ (ev.frame (logBytes 0 evs).length).take k := by
  obtain ⟨hcons, hprefix⟩ := (appendCalls_consecutive (logBytes 0 evs).length ev).take calls
  rw [callBytes_appendCalls] at hprefix
  obtain ⟨k, hk⟩ := ((holds_cleanLog evs).call hcons).crash kept
  rw [nil_append, prefix_iff_eq_take.mp hprefix, take_take] at hk
  rw [EventLog.startAppend, if_neg hev]
  exact ⟨_, hk⟩

theorem scanStops_logBytes (evs : List LogEvent) :
    ScanStops (logBytes 0 evs ++ []) (logBytes 0 evs).length := by
  refine .inl ?_
  rw [append_nil, evtHdrLen, evtSentinelLen]
  omega

theorem recovered_clean (hr : Readable evs) (hlen : (logBytes 0 evs).length < 2 ^ 64) :
    recoverTruncatePartial (logBytes 0 evs) = logBytes 0 evs := by
  have h := recovered_logBytes hr hlen (scanStops_logBytes evs)
  rwa [append_nil] at h

theorem recoverTruncatePartial_torn (hr : Readable (evs ++ [ev]))
    (hlen : (logBytes 0 (evs ++ [ev])).length < 2 ^ 64) (k : ℕ) :
    recoverTruncatePartial (logBytes 0 evs ++ (ev.frame (logBytes 0 evs).length).take k) =
        logBytes 0 evs ∨
      recoverTruncatePartial (logBytes 0 evs ++ (ev.frame (logBytes 0 evs).length).take k) =
        logBytes 0 (evs ++ [ev]) := by
  by_cases hk : k < (ev.frame (logBytes 0 evs).length).length
  · left
    have hevs : Readable evs := fun e he => hr e (mem_append_left _ he)
    have hshort : (logBytes 0 evs).length < 2 ^ 64 := by
      rw [logBytes_concat, length_append] at hlen
      omega
    refine recovered_logBytes hevs hshort ?_
    rw [ScanStops, Classical.or_iff_not_imp_left, not_not]
    exact recoverEvent_torn (hr ev (by simp)) hk
  · right
    rw [take_of_length_le (Nat.le_of_not_lt hk), ← logBytes_concat]
    exact recovered_clean hr hlen

variable {file : List UInt8}

theorem recovered_reopenCrashes (hr : Readable evs)
    (hlen : (logBytes 0 evs).length < 2 ^ 64)
    (h : recoverTruncatePartial file = logBytes 0 evs) (crashes : List Bool) :
    recoverTruncatePartial (crashes.foldl
      (fun file truncated => if truncated then recoverTruncatePartial file else file) file) =
      logBytes 0 evs := by
  induction crashes generalizing file with
  | nil => exact h
  | cons truncated crashes ih =>
    refine ih ?_
    cases truncated with
    | false => exact h
    | true =>
      show recoverTruncatePartial (recoverTruncatePartial file) = logBytes 0 evs
      rw [h]
      exact recovered_clean hr hlen

theorem eventLogOpen_eq_cleanLog
    (h : recoverTruncatePartial file = logBytes 0 evs) : eventLogOpen file = cleanLog evs := by
  rw [eventLogOpen, h]
  rfl

def accepted (appends : List LogEvent) : List LogEvent :=
  appends.filter fun ev => ev.payload.length ≤ eventLogMaxPayload

theorem accepted_cons_of_le (h : ev.payload.length ≤ eventLogMaxPayload) (appends : List LogEvent) :
    accepted (ev :: appends) = ev :: accepted appends :=
  filter_cons_of_pos (decide_eq_true h)

theorem accepted_cons_of_lt (h : eventLogMaxPayload < ev.payload.length) (appends : List LogEvent) :
    accepted (ev :: appends) = accepted appends :=
  filter_cons_of_neg (by simpa using h)

theorem readable_append_accepted (hr : Readable evs) (appends : List LogEvent) :
    Readable (evs ++ accepted appends) := by
  intro e he
  rcases mem_append.mp he with he | he
  · exact hr e he
  · exact of_decide_eq_true (mem_filter.mp he).2

theorem length_logBytes_accepted (start : ℕ) (appends : List LogEvent) :
    (logBytes start (accepted appends)).length = (appends.map written).sum := by
  induction appends generalizing start with
  | nil => rfl
  | cons ev appends ih =>
    rw [map_cons, sum_cons, written]
    by_cases hev : eventLogMaxPayload < ev.payload.length
    · rw [if_pos hev, accepted_cons_of_lt hev, ih, Nat.zero_add]
    · rw [if_neg hev, accepted_cons_of_le (Nat.le_of_not_lt hev), logBytes, length_append, ih,
        frame_length]

theorem appendAll_cleanLog (appends : List LogEvent)
    (hfit : (logBytes 0 (evs ++ accepted appends)).length < 2 ^ 63) :
    appendAll (cleanLog evs) (appends.map fun ev => (none, ev)) =
      (cleanLog (evs ++ accepted appends),
        logEntries (logBytes 0 evs).length (accepted appends)) := by
  induction appends generalizing evs with
  | nil =>
    rw [accepted, filter_nil, append_nil]
    rfl
  | cons ev appends ih =>
    rw [map_cons, appendAll]
    by_cases hev : eventLogMaxPayload < ev.payload.length
    · rw [accepted_cons_of_lt hev] at hfit ⊢
      rw [eventLogAppend, if_pos hev]
      dsimp only
      rw [ih hfit]
      rfl
    · have hsplit : evs ++ accepted (ev :: appends) = (evs ++ [ev]) ++ accepted appends := by
        rw [accepted_cons_of_le (Nat.le_of_not_lt hev), append_assoc]
        rfl
      rw [hsplit] at hfit ⊢
      have hfirst : (logBytes 0 (evs ++ [ev])).length < 2 ^ 63 := by
        rw [logBytes_append, length_append] at hfit
        omega
      rw [eventLogAppend_cleanLog hev hfirst]
      dsimp only
      rw [ih hfit, accepted_cons_of_le (Nat.le_of_not_lt hev), logEntries, logBytes_concat,
        length_append]
      rfl

theorem recovered_crashed (r : CrashRun) (hr : Readable evs)
    (hfit : (logBytes 0 evs).length + r.inProgress.elim 0 written < 2 ^ 63) :
    recoverTruncatePartial (r.crashed (cleanLog evs)) = logBytes 0 evs ∨
      ∃ ev, r.inProgress = some ev ∧ Readable (evs ++ [ev]) ∧
        (logBytes 0 (evs ++ [ev])).length < 2 ^ 63 ∧
        recoverTruncatePartial (r.crashed (cleanLog evs)) = logBytes 0 (evs ++ [ev]) := by
  have hshort : (logBytes 0 evs).length < 2 ^ 64 := by omega
  -- the log as it is when no byte of an append has been written
  have huntouched : recoverTruncatePartial ((cleanLog evs).disk.crash r.kept) = logBytes 0 evs := by
    rw [Disk.crash, cleanLog, take_nil]
    exact recovered_clean hr hshort
  cases hprog : r.inProgress with
  | none =>
    left
    rw [CrashRun.crashed, hprog]
    exact recovered_reopenCrashes hr hshort huntouched _
  | some ev =>
    rw [hprog, Option.elim_some, written] at hfit
    rw [CrashRun.crashed, hprog, Option.elim_some]
    by_cases hev : eventLogMaxPayload < ev.payload.length
    · left
      rw [EventLog.startAppend, if_pos hev]
      exact recovered_reopenCrashes hr hshort huntouched _
    · have hr' : Readable (evs ++ [ev]) := by
        intro e he
        rcases mem_append.mp he with he | he
        · exact hr e he
        · rw [mem_singleton.mp he]
          exact Nat.le_of_not_lt hev
      have hlong : (logBytes 0 (evs ++ [ev])).length < 2 ^ 63 := by
        rw [if_neg hev] at hfit
        rwa [logBytes_concat, length_append, frame_length]
      obtain ⟨k, hk⟩ := crash_startAppend evs hev r.calls r.kept
      rw [hk]
      rcases recoverTruncatePartial_torn hr' (by omega) k with hcut | hwhole
      · exact .inl (recovered_reopenCrashes hr hshort hcut _)
      · exact .inr ⟨ev, rfl, hr', hlong, recovered_reopenCrashes hr' (by omega) hwhole _⟩

theorem crashSafe_of_recovered (runs : List CrashRun) (hr : Readable evs)
    (hlen : (logBytes 0 evs).length < 2 ^ 63)
    (hfile : recoverTruncatePartial file = logBytes 0 evs) :
    CrashSafe file (logEntries 0 evs) runs := by
  induction runs generalizing evs file with
  | nil => trivial
  | cons r runs ih =>
    intro hfits
    rw [eventLogOpen_eq_cleanLog hfile] at hfits ⊢
    rw [CrashRun.Fits, cleanLog_endOffset] at hfits
    have hsize : (logBytes 0 (evs ++ accepted r.appends)).length =
        (logBytes 0 evs).length + (r.appends.map written).sum := by
      rw [logBytes_append, length_append, length_logBytes_accepted]
    rw [← hsize] at hfits
    have hr' := readable_append_accepted hr r.appends
    rw [appendAll_cleanLog r.appends (by omega)]
    have hentries : logEntries 0 evs ++ logEntries (logBytes 0 evs).length (accepted r.appends) =
        logEntries 0 (evs ++ accepted r.appends) := by
      rw [logEntries_append, Nat.zero_add]
    dsimp only
    rw [hentries]
    rcases recovered_crashed r hr' hfits with hcut | ⟨ev, hprog, hr'', hlong, hwhole⟩
    · rw [eventLogOpen_eq_cleanLog hcut, eventLogStream_cleanLog hr' (by omega)]
      exact ⟨.inl rfl, ih hr' (by omega) hcut⟩
    · have hlast : logEntries 0 ((evs ++ accepted r.appends) ++ [ev]) =
          logEntries 0 (evs ++ accepted r.appends) ++
            [((cleanLog (evs ++ accepted r.appends)).endOffset, ev)] := by
        rw [logEntries_append, Nat.zero_add, cleanLog_endOffset]
        rfl
      rw [eventLogOpen_eq_cleanLog hwhole, eventLogStream_cleanLog hr'' (by omega)]
      exact ⟨.inr ⟨ev, hprog, by rw [hlast]⟩, ih hr'' hlong hwhole⟩

end Clean

/-- A log that starts as an empty file, through any number of runs that end in crashes. -/
theorem eventLog_crashSafe (runs : List CrashRun) : CrashSafe [] [] runs := by
  have hempty : recoverTruncatePartial [] = logBytes 0 [] := rfl
  exact crashSafe_of_recovered runs (fun ev hev => absurd hev not_mem_nil)
    (show 0 < 2 ^ 63 by decide) hempty

/-- The crash leaves 16 bytes of a second event. -/
def tornRun : CrashRun where
  appends := [{ type := 1, payload := [1, 2, 3] }]
  inProgress := some { type := 2, payload := [4] }
  calls := 1
  kept := 16

def laterRun : CrashRun where
  appends := [{ type := 3, payload := [] }]

def CrashRun.after (r : CrashRun) (file : List UInt8) : List UInt8 :=
  r.crashed (appendAll (eventLogOpen file) (r.appends.map fun ev => (none, ev))).1

/-- The next event is delivered from where the torn one began. -/
theorem eventLog_crashSafe_torn :
    CrashSafe [] [] [tornRun, laterRun] ∧ (tornRun.after []).length = 35 + 16 ∧
      eventLogStream (eventLogOpen (laterRun.after (tornRun.after []))) 0 =
        ([(0, { type := 1, payload := [1, 2, 3] }), (35, { type := 3, payload := [] })], true) :=
  ⟨eventLog_crashSafe _, by decide +kernel, by decide +kernel⟩

end ZClassic
