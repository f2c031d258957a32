import Mathlib.Data.Nat.Bitwise
import ZClassic.Storage.EventLog

/-!
# What the checksum of an event detects

The division behind `crc32c_sw` is linear and loses nothing, so no burst of 32 bits goes unnoticed.
-/

namespace ZClassic

open List Function Nat

/-- The checks of `event_log_read` are those of streaming, and the payload has to fit the buffer. -/
def eventLogRead (log : EventLog) (offset bufCap : ℕ) : Option LogEvent := do
  guard (offset + evtHdrLen ≤ log.endOffset)
  let ev ← streamEvent log.disk.file log.endOffset offset
  guard (ev.payload.length ≤ bufCap)
  return ev

/-- One bit of the division by the generator, whose lowest coefficients stand in the high bits. -/
def crcStep (x : ℕ) : ℕ := x / 2 ^^^ if x % 2 = 1 then 0x82F63B78 else 0

theorem crcStep_xor (x y : ℕ) : crcStep (x ^^^ y) = crcStep x ^^^ crcStep y := by
  rw [crcStep, crcStep, crcStep, xor_div_two, xor_mod_two_eq]
  split_ifs <;> first | omega | simp [Nat.xor_assoc, xor_left_comm, Nat.xor_comm]

theorem iterate_crcStep_xor (n x y : ℕ) :
    crcStep^[n] (x ^^^ y) = crcStep^[n] x ^^^ crcStep^[n] y :=
  Semiconj₂.iterate crcStep_xor n x y

theorem iterate_crcStep_mul (n x : ℕ) : crcStep^[n] (2 ^ n * x) = x := by
  induction n with
  | zero => exact Nat.one_mul x
  | succ n ih =>
    have hstep : crcStep (2 ^ (n + 1) * x) = 2 ^ n * x := by
      rw [crcStep, pow_succ', Nat.mul_assoc, if_neg (by omega), xor_zero]
      omega
    rw [iterate_succ_apply, hstep, ih]

theorem crcStep_pos {x : ℕ} (h : 0 < x ∧ x < 2 ^ 32) : 0 < crcStep x ∧ crcStep x < 2 ^ 32 := by
  unfold crcStep
  split_ifs
  · -- the highest bit of the generator is set, and that of the half is not
    refine ⟨Nat.pos_of_ne_zero fun hzero => ?_, xor_lt_two_pow (by omega) (by decide)⟩
    rw [Nat.xor_eq_zero_iff] at hzero
    omega
  · rw [xor_zero]
    omega

theorem iterate_crcStep_ne_zero {w : ℕ} (h : 0 < w ∧ w < 2 ^ 32) (n k : ℕ) :
    crcStep^[n] (2 ^ k * w) ≠ 0 := by
  intro hzero
  have hsteps : crcStep^[n] w = 0 := by
    rw [← iterate_crcStep_mul k w, ← iterate_add_apply, Nat.add_comm, iterate_add_apply, hzero]
    exact iterate_fixed rfl k
  have hpos := Iterate.rec (fun x => 0 < x ∧ x < 2 ^ 32) h (fun _ => crcStep_pos) n
  omega

theorem two_pow_mul_add_eq_xor {b : ℕ} (i a : ℕ) (h : b < 2 ^ i) :
    2 ^ i * a + b = 2 ^ i * a ^^^ b := by
  rw [← div_add_mod (2 ^ i * a ^^^ b) (2 ^ i), xor_div_two_pow, xor_mod_two_pow,
    Nat.mul_div_cancel_left a (Nat.two_pow_pos i), div_eq_of_lt h, mod_eq_of_lt h,
    mul_mod_right, xor_zero, Nat.zero_xor]

theorem toNat_crc32cTable (i : UInt32) : (crc32cTable i).toNat = crcStep^[8] i.toNat := by
  have hstep : Semiconj UInt32.toNat
      (fun c => (c >>> 1) ^^^ (0x82F63B78 &&& (0 - (c &&& 1)))) crcStep := by
    intro c
    have hbit : (c &&& 1).toNat = c.toNat % 2 := and_one_is_mod _
    rw [UInt32.toNat_xor, crcStep]
    rcases mod_two_eq_zero_or_one c.toNat with hc | hc
    · have hzero : c &&& 1 = 0 := UInt32.toNat_inj.mp (hbit.trans hc)
      rw [hzero, hc]
      rfl
    · have hone : c &&& 1 = 1 := UInt32.toNat_inj.mp (hbit.trans hc)
      rw [hone, hc]
      rfl
  exact hstep.iterate_right 8 i

theorem toNat_crc32cByte (crc : UInt32) (b : UInt8) :
    (crc32cByte crc b).toNat = crcStep^[8] (crc.toNat ^^^ b.toNat) := by
  have hlow : ((crc ^^^ b.toUInt32) &&& 0xFF).toNat = (crc.toNat ^^^ b.toNat) % 2 ^ 8 :=
    and_two_pow_sub_one_eq_mod _ 8
  have hhigh : (crc >>> 8).toNat = (crc.toNat ^^^ b.toNat) / 2 ^ 8 := by
    rw [xor_div_two_pow, div_eq_of_lt b.toNat_lt, xor_zero]
    exact shiftRight_eq_div_pow _ 8
  rw [crc32cByte, UInt32.toNat_xor, toNat_crc32cTable, hlow, hhigh]
  nth_rewrite 3 [← div_add_mod (crc.toNat ^^^ b.toNat) (2 ^ 8)]
  rw [two_pow_mul_add_eq_xor 8 _ (mod_lt _ (by decide)), iterate_crcStep_xor,
    iterate_crcStep_mul]

theorem toNat_foldl_crc32cByte (crc : UInt32) (data : List UInt8) :
    (data.foldl crc32cByte crc).toNat = crcStep^[8 * data.length] (crc.toNat ^^^ leNat data) := by
  induction data generalizing crc with
  | nil => exact (xor_zero _).symm
  | cons b data ih =>
    have hdata : leNat (b :: data) = 2 ^ 8 * leNat data ^^^ b.toNat := by
      rw [← two_pow_mul_add_eq_xor 8 _ b.toNat_lt, leNat]
      omega
    rw [foldl_cons, ih, toNat_crc32cByte, length_cons, mul_succ, iterate_add_apply, hdata,
      ← Nat.xor_assoc, xor_right_comm, iterate_crcStep_xor 8 _ (2 ^ 8 * _),
      iterate_crcStep_mul]

theorem iterate_crcStep_of_crc32c_eq {p q : List UInt8} (hlen : p.length = q.length)
    (h : crc32c p = crc32c q) : crcStep^[8 * q.length] (leNat p ^^^ leNat q) = 0 := by
  have hfold := congrArg UInt32.toNat ((UInt32.xor_left_inj 0xFFFFFFFF).mp h)
  rw [toNat_foldl_crc32cByte, toNat_foldl_crc32cByte, hlen] at hfold
  have hinit : leNat p ^^^ leNat q = ((0xFFFFFFFF : UInt32).toNat ^^^ leNat p) ^^^
      ((0xFFFFFFFF : UInt32).toNat ^^^ leNat q) := by
    rw [Nat.xor_assoc, xor_left_comm (leNat p), xor_xor_cancel_left]
  rw [hinit, iterate_crcStep_xor, hfold, Nat.xor_self]

/-- The bits of a payload are counted from the lowest one of its first byte, in the order in which
the checksum takes them. If two payloads of one length agree below bit `k` and from bit `k + 32` on,
their checksums differ, and where a header with the length and checksum of the one stands before
the other, nothing is recovered, streamed or read. -/
theorem crc32c_detects (p q : List UInt8) (k : ℕ) (hlen : p.length = q.length) (hne : p ≠ q)
    (hlow : leNat p % 2 ^ k = leNat q % 2 ^ k)
    (hhigh : leNat p / 2 ^ (k + 32) = leNat q / 2 ^ (k + 32)) :
    crc32c p ≠ crc32c q ∧ ∀ (log : EventLog) (hdr : List UInt8) (cursor bufCap : ℕ),
      fullPread log.disk.file cursor evtHdrLen = some hdr → getU32 hdr 0 = p.length →
      getU32 hdr 12 = (crc32c p).toNat →
      fullPread log.disk.file (cursor + evtHdrLen) p.length = some q →
      recoverEvent log.disk.file cursor = none ∧
        streamEvent log.disk.file log.endOffset cursor = none ∧
        eventLogRead log cursor bufCap = none := by
  have hcrc : (crc32c p).toNat ≠ (crc32c q).toNat := by
    intro heq
    have hzero := iterate_crcStep_of_crc32c_eq hlen (UInt32.toNat_inj.mp heq)
    have hmod : (leNat p ^^^ leNat q) % 2 ^ k = 0 := by
      rw [xor_mod_two_pow, hlow, Nat.xor_self]
    have hdiv : (leNat p ^^^ leNat q) / 2 ^ k / 2 ^ 32 = 0 := by
      rw [Nat.div_div_eq_div_mul, ← pow_add, xor_div_two_pow, hhigh, Nat.xor_self]
    have hburst := Nat.mul_div_cancel' (dvd_of_mod_eq_zero hmod)
    rw [← hburst] at hzero
    refine iterate_crcStep_ne_zero ⟨Nat.pos_of_ne_zero fun hnone => ?_, by omega⟩ _ k hzero
    rw [hnone, Nat.mul_zero, eq_comm, Nat.xor_eq_zero_iff] at hburst
    rw [← leBytes_leNat p, ← leBytes_leNat q, hburst, hlen] at hne
    exact hne rfl
  refine ⟨fun heq => hcrc (congrArg _ heq), ?_⟩
  intro log hdr cursor bufCap hhdr hplen hsum hpayload
  have hzero : p ≠ [] := by
    rintro rfl
    exact hne (length_eq_zero_iff.mp hlen.symm).symm
  have hstream : streamEvent log.disk.file log.endOffset cursor = none := by
    simp [streamEvent, guard, hhdr, hplen, hsum, hpayload, hcrc.symm, hzero]
  refine ⟨?_, hstream, ?_⟩
  · simp [recoverEvent, guard, hhdr, hplen, hsum, hpayload, hcrc]
  · simp [eventLogRead, hstream]

/-- Bits 4 to 35 of five bytes are all inverted. -/
theorem burst_detected : crc32c [0x5a, 1, 2, 3, 0x5a] ≠ crc32c [0xaa, 0xfe, 0xfd, 0xfc, 0x55] ∧
    recoverEvent (LogEvent.header ⟨7, [0x5a, 1, 2, 3, 0x5a]⟩ ++
      [0xaa, 0xfe, 0xfd, 0xfc, 0x55] ++ eventSentinel 0) 0 = none := by
  have h := crc32c_detects [0x5a, 1, 2, 3, 0x5a] [0xaa, 0xfe, 0xfd, 0xfc, 0x55] 4 rfl (by decide)
    rfl rfl
  exact ⟨h.1, (h.2 ⟨⟨_, []⟩, 37⟩ (LogEvent.header ⟨7, [0x5a, 1, 2, 3, 0x5a]⟩) 0 1 rfl (by decide)
    (by decide) rfl).1⟩

end ZClassic
