import Mathlib.Algebra.GroupWithZero.Nat
import Mathlib.Data.List.Basic

/-!
# A file with delayed writes

A file is its bytes as of the last `fsync`, and the bytes written since then with their places, in
the order of writing.
-/

namespace ZClassic

open List

def writeByte (file : List UInt8) (w : ℕ × UInt8) : List UInt8 :=
  if w.1 < file.length then file.set w.1 w.2
  else file ++ List.replicate (w.1 - file.length) 0 ++ [w.2]

structure Disk where
  synced : List UInt8 := []
  pending : List (ℕ × UInt8) := []

inductive DiskCall where
  | pwrite (off : ℕ) (bytes : List UInt8)
  | fsync

def placed (off : ℕ) (bytes : List UInt8) : List (ℕ × UInt8) :=
  (bytes.zipIdx off).map Prod.swap

def Disk.file (d : Disk) : List UInt8 := d.pending.foldl writeByte d.synced

/-- The bytes after a crash that keeps `kept` of the pending ones. -/
def Disk.crash (d : Disk) (kept : ℕ) : List UInt8 := (d.pending.take kept).foldl writeByte d.synced

def Disk.call (d : Disk) : DiskCall → Disk
  | .pwrite off bytes => { d with pending := d.pending ++ placed off bytes }
  | .fsync => ⟨d.file, []⟩

/-- A call that fails; of a write, `kept` bytes are in the file. -/
def Disk.failed (d : Disk) (kept : ℕ) : DiskCall → Disk
  | .pwrite off bytes => d.call (.pwrite off (bytes.take kept))
  | .fsync => d

/-- A write behind the largest file offset is refused. -/
def DiskCall.tooLarge : DiskCall → Bool
  | .pwrite off bytes => decide (2 ^ 63 ≤ off + bytes.length)
  | .fsync => false

/-- The calls up to the first one that fails, and whether none did. The fault names the call that
fails and what it keeps. -/
def Disk.run (d : Disk) (fault : Option (ℕ × ℕ)) : List DiskCall → Disk × Bool
  | [] => (d, true)
  | c :: calls =>
    if c.tooLarge then (d, false)
    else
      match fault with
      | none => (d.call c).run none calls
      | some (0, kept) => (d.failed kept c, false)
      | some (i + 1, kept) => (d.call c).run (some (i, kept)) calls

variable {off : ℕ} {d : Disk} {calls : List DiskCall}

section Writes

theorem placed_cons (off : ℕ) (b : UInt8) (bytes : List UInt8) :
    placed off (b :: bytes) = (off, b) :: placed (off + 1) bytes := by
  rw [placed, zipIdx_cons]
  rfl

theorem placed_append (off : ℕ) (bytes bytes' : List UInt8) :
    placed off (bytes ++ bytes') = placed off bytes ++ placed (off + bytes.length) bytes' := by
  rw [placed, zipIdx_append, map_append]
  rfl

theorem placed_take (off k : ℕ) (bytes : List UInt8) :
    (placed off bytes).take k = placed off (bytes.take k) := by
  induction bytes generalizing off k with
  | nil => rw [take_nil, placed, zipIdx_nil, map_nil, take_nil]
  | cons b bytes ih =>
    cases k with
    | zero => rfl
    | succ k => rw [placed_cons, take_succ_cons, ih, take_succ_cons, placed_cons]

theorem foldl_writeByte_placed {file : List UInt8} (bytes : List UInt8) (h : off ≤ file.length) :
    (placed off bytes).foldl writeByte file =
      file.take off ++ bytes ++ file.drop (off + bytes.length) := by
  induction bytes generalizing file off with
  | nil => simp [placed]
  | cons b bytes ih =>
    have hbyte : writeByte file (off, b) = file.take off ++ b :: file.drop (off + 1) := by
      rw [writeByte]
      split
      · next hlt => rw [set_eq_take_append_cons_drop, if_pos hlt]
      · next hge =>
        have heq : off = file.length := Nat.le_antisymm h (Nat.le_of_not_lt hge)
        rw [heq, Nat.sub_self, take_length, drop_of_length_le (Nat.le_succ _)]
        simp
    have hlen : (file.take off).length = off := length_take_of_le h
    rw [placed_cons, foldl_cons, hbyte, ih (by simp [hlen])]
    have htake : (file.take off ++ b :: file.drop (off + 1)).take (off + 1) =
        file.take off ++ [b] := by
      rw [take_append, hlen, Nat.add_sub_cancel_left, take_of_length_le (by omega)]
      rfl
    have hdrop : (file.take off ++ b :: file.drop (off + 1)).drop (off + 1 + bytes.length) =
        file.drop (off + (bytes.length + 1)) := by
      rw [drop_append, hlen, drop_of_length_le (by omega), nil_append,
        show off + 1 + bytes.length - off = bytes.length + 1 by omega, drop_succ_cons,
        drop_drop]
      congr 1
      omega
    rw [htake, hdrop]
    simp

end Writes

namespace Disk

theorem file_pwrite (bytes : List UInt8) (h : off ≤ d.file.length) :
    (d.call (.pwrite off bytes)).file =
      d.file.take off ++ bytes ++ d.file.drop (off + bytes.length) := by
  rw [call, file, foldl_append]
  exact foldl_writeByte_placed bytes h

end Disk

def callBytes : List DiskCall → List UInt8
  | [] => []
  | .pwrite _ bytes :: calls => bytes ++ callBytes calls
  | .fsync :: calls => callBytes calls

theorem callBytes_append (calls calls' : List DiskCall) :
    callBytes (calls ++ calls') = callBytes calls ++ callBytes calls' := by
  induction calls with
  | nil => rfl
  | cons c calls ih =>
    cases c with
    | pwrite off bytes => rw [cons_append, callBytes, ih, callBytes, append_assoc]
    | fsync => exact ih

def Consecutive : ℕ → List DiskCall → Prop
  | _, [] => True
  | off, .pwrite off' bytes :: calls => off' = off ∧ Consecutive (off + bytes.length) calls
  | off, .fsync :: calls => Consecutive off calls

theorem Consecutive.take (h : Consecutive off calls) (j : ℕ) :
    Consecutive off (calls.take j) ∧ callBytes (calls.take j) <+: callBytes calls := by
  induction calls generalizing off j with
  | nil =>
    rw [take_nil]
    exact ⟨trivial, prefix_rfl⟩
  | cons c calls ih =>
    cases j with
    | zero => exact ⟨trivial, nil_prefix⟩
    | succ j =>
      rw [take_succ_cons]
      cases c with
      | pwrite off' bytes =>
        obtain ⟨hnext, hprefix⟩ := ih h.2 j
        exact ⟨⟨h.1, hnext⟩, (prefix_append_right_inj _).mpr hprefix⟩
      | fsync => exact ih h j

/-- What is left of a call that fails. -/
def DiskCall.keep (kept : ℕ) : DiskCall → List DiskCall
  | .pwrite off bytes => [.pwrite off (bytes.take kept)]
  | .fsync => []

/-- The calls of a run up to the fault, and what is left of the one that fails. -/
def keptCalls : Option (ℕ × ℕ) → List DiskCall → List DiskCall
  | _, [] => []
  | none, c :: calls => c :: keptCalls none calls
  | some (0, kept), c :: _ => c.keep kept
  | some (i + 1, kept), c :: calls => c :: keptCalls (some (i, kept)) calls

def DiskCall.size : DiskCall → ℕ
  | .pwrite _ bytes => bytes.length
  | .fsync => 0

/-- The bytes that a run keeps, by the sizes of its calls. -/
def keptSize : Option (ℕ × ℕ) → List ℕ → ℕ
  | _, [] => 0
  | none, n :: sizes => n + keptSize none sizes
  | some (0, kept), n :: _ => min kept n
  | some (i + 1, kept), n :: sizes => n + keptSize (some (i, kept)) sizes

theorem keptSize_of_le {fault : Option (ℕ × ℕ)} {sizes : List ℕ}
    (h : ∀ f ∈ fault, sizes.length ≤ f.1) : keptSize fault sizes = sizes.sum := by
  induction sizes generalizing fault with
  | nil => rw [keptSize, sum_nil]
  | cons n sizes ih =>
    rw [sum_cons]
    rcases fault with _ | ⟨_ | i, kept⟩
    · rw [keptSize, ih fun f hf => absurd hf (Option.not_mem_none f)]
    · exact absurd (h (0, kept) rfl) (Nat.not_succ_le_zero _)
    · rw [keptSize, ih]
      intro f hf
      cases hf
      exact Nat.le_of_succ_le_succ (h (i + 1, kept) rfl)

theorem Consecutive.kept (h : Consecutive off calls) (fault : Option (ℕ × ℕ)) :
    Consecutive off (keptCalls fault calls) ∧ callBytes (keptCalls fault calls) =
      (callBytes calls).take (keptSize fault (calls.map DiskCall.size)) := by
  induction calls generalizing off fault with
  | nil =>
    rw [keptCalls]
    exact ⟨trivial, rfl⟩
  | cons c calls ih =>
    -- the calls behind one that succeeds
    have hnext : ∀ fault', Consecutive off (c :: keptCalls fault' calls) ∧
        callBytes (c :: keptCalls fault' calls) = (callBytes (c :: calls)).take
          (c.size + keptSize fault' (calls.map DiskCall.size)) := by
      intro fault'
      cases c with
      | fsync =>
        rw [DiskCall.size, Nat.zero_add]
        exact ih h fault'
      | pwrite off' bytes =>
        obtain ⟨hcons, hbytes⟩ := ih h.2 fault'
        refine ⟨⟨h.1, hcons⟩, ?_⟩
        rw [callBytes, callBytes, hbytes, DiskCall.size, take_length_add_append]
    rcases fault with _ | ⟨_ | i, kept⟩
    · exact hnext none
    · cases c with
      | fsync =>
        refine ⟨trivial, ?_⟩
        simp [keptCalls, DiskCall.keep, callBytes, keptSize, DiskCall.size]
      | pwrite off' bytes =>
        obtain ⟨rfl, -⟩ := h
        refine ⟨⟨rfl, trivial⟩, ?_⟩
        rw [keptCalls, DiskCall.keep, callBytes, callBytes, append_nil, callBytes, map_cons,
          keptSize, DiskCall.size, take_append_of_le_length (Nat.min_le_right ..),
          ← take_eq_take_min]
    · exact hnext (some (i, kept))

namespace Disk

theorem file_foldl_call (h : Consecutive off calls) (hoff : off ≤ d.file.length) :
    (calls.foldl call d).file = d.file.take off ++ callBytes calls ++
      d.file.drop (off + (callBytes calls).length) := by
  induction calls generalizing d off with
  | nil => simp [callBytes]
  | cons c calls ih =>
    cases c with
    | fsync => exact ih h hoff
    | pwrite off' bytes =>
      obtain ⟨rfl, hrest⟩ := h
      have hfile := file_pwrite bytes hoff
      have hlen : (d.file.take off' ++ bytes).length = off' + bytes.length := by
        rw [length_append, length_take_of_le hoff]
      rw [foldl_cons, ih hrest (by rw [hfile, length_append, hlen]; omega), hfile,
        take_left' hlen, drop_append, hlen, drop_of_length_le (by omega),
        nil_append, drop_drop, callBytes, length_append]
      simp only [append_assoc]
      congr 3
      congr 1
      omega

/-- The disk holds `file` followed by `bytes`, a front part of them synced and the rest pending. -/
def Holds (d : Disk) (file bytes : List UInt8) : Prop :=
  ∃ s p, bytes = s ++ p ∧ d.synced = file ++ s ∧ d.pending = placed (file.length + s.length) p

theorem holds_synced (file : List UInt8) : (Disk.mk file []).Holds file [] :=
  ⟨[], [], rfl, (append_nil file).symm, rfl⟩

theorem Holds.crash {file bytes : List UInt8} (h : d.Holds file bytes) (kept : ℕ) :
    ∃ k, d.crash kept = file ++ bytes.take k := by
  obtain ⟨s, p, rfl, hsynced, hpending⟩ := h
  refine ⟨s.length + kept, ?_⟩
  have hfull : s.take (s.length + kept) = s := take_of_length_le (Nat.le_add_right _ _)
  rw [Disk.crash, hsynced, hpending, placed_take, foldl_writeByte_placed _ (by simp),
    take_of_length_le (by simp), drop_of_length_le (by simp), append_nil,
    take_append, hfull, Nat.add_sub_cancel_left, append_assoc]

theorem Holds.file {file bytes : List UInt8} (h : d.Holds file bytes) : d.file = file ++ bytes := by
  obtain ⟨s, p, rfl, hsynced, hpending⟩ := h
  rw [Disk.file, hsynced, hpending, foldl_writeByte_placed _ (by simp),
    take_of_length_le (by simp), drop_of_length_le (by simp), append_nil,
    append_assoc]

theorem Holds.call {file bytes : List UInt8} (h : d.Holds file bytes)
    (hc : Consecutive (file.length + bytes.length) calls) :
    (calls.foldl Disk.call d).Holds file (bytes ++ callBytes calls) := by
  induction calls generalizing d bytes with
  | nil => rwa [callBytes, append_nil]
  | cons c calls ih =>
    cases c with
    | fsync =>
      have hsync : (d.call .fsync).Holds file bytes :=
        ⟨bytes, [], (append_nil _).symm, h.file, rfl⟩
      exact ih hsync hc
    | pwrite off more =>
      obtain ⟨rfl, hrest⟩ := hc
      have hwrite : (d.call (.pwrite (file.length + bytes.length) more)).Holds file
          (bytes ++ more) := by
        obtain ⟨s, p, rfl, hsynced, hpending⟩ := h
        refine ⟨s, p ++ more, append_assoc _ _ _, hsynced, ?_⟩
        rw [placed_append, ← hpending, length_append, Nat.add_assoc]
        rfl
      rw [Nat.add_assoc, ← length_append] at hrest
      rw [callBytes, ← append_assoc]
      exact ih hwrite hrest

theorem run_none (h : ∀ c ∈ calls, c.tooLarge = false) :
    d.run none calls = (calls.foldl Disk.call d, true) := by
  induction calls generalizing d with
  | nil => rfl
  | cons c calls ih =>
    rw [forall_mem_cons] at h
    rw [run, h.1, if_neg Bool.false_ne_true]
    exact ih h.2

/-- A run in which no write is refused makes the calls that it keeps, and it succeeds unless the
fault names one of the calls. -/
theorem run_eq (h : ∀ c ∈ calls, c.tooLarge = false) (fault : Option (ℕ × ℕ)) :
    d.run fault calls =
      ((keptCalls fault calls).foldl Disk.call d, fault.all fun f => calls.length ≤ f.1) := by
  induction calls generalizing d fault with
  | nil =>
    rw [keptCalls]
    exact congrArg (Prod.mk d) (by cases fault <;> simp)
  | cons c calls ih =>
    rw [forall_mem_cons] at h
    rw [run.eq_def]
    dsimp only
    rw [h.1, if_neg Bool.false_ne_true]
    rcases fault with _ | ⟨_ | i, kept⟩
    · exact ih h.2 none
    · cases c <;> simp [keptCalls, DiskCall.keep, failed]
    · dsimp only
      rw [ih h.2]
      simp [keptCalls]

end Disk

end ZClassic
