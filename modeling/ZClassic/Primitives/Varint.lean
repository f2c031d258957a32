import ZClassic.Lib.ByteStream

/-!
# Variable-length integers

`stream_write_varint` and `stream_read_varint` of `lib/core/src/serialize.c`: digits of seven bits,
the highest first, where each byte but the last also counts one.
-/

namespace ZClassic

open List

/-- The loop of `stream_write_varint`; `high` is set in all bytes but the last one written. -/
def varintBytes (high n : ℕ) : List UInt8 :=
  (if n ≤ 0x7f then [] else varintBytes 0x80 (n / 128 - 1)) ++ [UInt8.ofNat (n % 128 + high)]
termination_by n
decreasing_by omega

def streamWriteVarint (n : ℕ) : List UInt8 := varintBytes 0 n

def readVarintFrom : ℕ → List UInt8 → Option (ℕ × List UInt8)
  | _, [] => none
  | n, ch :: rest =>
    let n := (n * 128 + ch.toNat % 128) % 2 ^ 64
    if 0x80 ≤ ch.toNat then readVarintFrom ((n + 1) % 2 ^ 64) rest else some (n, rest)

def streamReadVarint : Reader ℕ := readVarintFrom 0

/-- The bytes after which the reader has come to `a`. -/
def carried (a : ℕ) : List UInt8 := if a = 0 then [] else varintBytes 0x80 (a - 1)

theorem varintBytes_eq (high n : ℕ) :
    varintBytes high n = carried (n / 128) ++ [UInt8.ofNat (n % 128 + high)] := by
  rw [varintBytes, carried]
  split_ifs <;> first | rfl | omega

theorem carried_succ (n : ℕ) :
    carried (n + 1) = carried (n / 128) ++ [UInt8.ofNat (n % 128 + 0x80)] := by
  rw [← varintBytes_eq, carried, if_neg n.succ_ne_zero, Nat.add_sub_cancel]

theorem readVarintFrom_cons {n high : ℕ} (hn : n < 2 ^ 64) (hhigh : high = 0 ∨ high = 0x80)
    (rest : List UInt8) : readVarintFrom (n / 128) (UInt8.ofNat (n % 128 + high) :: rest) =
      if high = 0 then some (n, rest) else readVarintFrom ((n + 1) % 2 ^ 64) rest := by
  have hch : (UInt8.ofNat (n % 128 + high)).toNat = n % 128 + high :=
    Nat.mod_eq_of_lt (by omega)
  have hvalue : (n / 128 * 128 + (n % 128 + high) % 128) % 2 ^ 64 = n := by omega
  rw [readVarintFrom, hch, hvalue]
  split_ifs <;> first | rfl | omega

theorem readVarintFrom_carried {a : ℕ} (ha : a < 2 ^ 64) (rest : List UInt8) :
    readVarintFrom 0 (carried a ++ rest) = readVarintFrom a rest := by
  induction a using Nat.strong_induction_on generalizing rest with
  | h a ih =>
    rcases a with _ | n
    · rfl
    · rw [carried_succ, append_assoc, ih (n / 128) (by omega) (by omega), singleton_append,
        readVarintFrom_cons (by omega) (.inr rfl), if_neg (by decide), Nat.mod_eq_of_lt ha]

theorem reads_varint {n : ℕ} (hn : n < 2 ^ 64) :
    Reads streamReadVarint (streamWriteVarint n) n := by
  intro rest
  rw [streamWriteVarint, varintBytes_eq, append_assoc]
  exact (readVarintFrom_carried (by omega) _).trans (readVarintFrom_cons hn (.inl rfl) rest)

theorem carried_append_of_read {a v : ℕ} {bytes : List UInt8}
    (hroom : (a + 2) * 128 ^ bytes.length ≤ 2 ^ 64) (h : readVarintFrom a bytes = some (v, [])) :
    carried a ++ bytes = streamWriteVarint v := by
  induction bytes generalizing a with
  | nil => cases h
  | cons ch rest ih =>
    -- with every byte read, what is left room for shrinks by as much as the number grows
    have hroom' : ((a * 128 + ch.toNat % 128 + 1) + 2) * 128 ^ rest.length ≤ 2 ^ 64 := by
      refine le_trans ?_ hroom
      rw [length_cons, pow_succ', ← Nat.mul_assoc]
      exact Nat.mul_le_mul_right _ (by omega)
    have hfits : a * 128 + ch.toNat % 128 + 3 ≤ 2 ^ 64 :=
      (Nat.le_mul_of_pos_right _ (Nat.pow_pos (by decide))).trans hroom'
    have hdiv : (a * 128 + ch.toNat % 128) / 128 = a := by omega
    have hmod : (a * 128 + ch.toNat % 128) % 128 = ch.toNat % 128 := by omega
    have hvalue : (a * 128 + ch.toNat % 128) % 2 ^ 64 = a * 128 + ch.toNat % 128 :=
      Nat.mod_eq_of_lt (by omega)
    have hch := ch.toNat_lt
    rw [readVarintFrom, hvalue] at h
    split_ifs at h with hhigh
    · rw [Nat.mod_eq_of_lt (by omega)] at h
      have hrest := ih hroom' h
      rwa [carried_succ, hdiv, hmod, show ch.toNat % 128 + 0x80 = ch.toNat by omega,
        UInt8.ofNat_toNat, append_assoc] at hrest
    · cases h
      rw [streamWriteVarint, varintBytes_eq, hdiv, hmod,
        show ch.toNat % 128 + 0 = ch.toNat by omega, UInt8.ofNat_toNat]

/-- Numbers and their encodings determine each other; no encoding begins another one, and nine
bytes are too few for a sum that wraps around. -/
theorem varint_encodes :
    (∀ n < 2 ^ 64, ∀ rest, streamReadVarint (streamWriteVarint n ++ rest) = some (n, rest)) ∧
      (∀ n < 2 ^ 64, ∀ m < 2 ^ 64, streamWriteVarint n <+: streamWriteVarint m → n = m) ∧
      ∀ bytes n, bytes.length ≤ 9 → streamReadVarint bytes = some (n, []) →
        bytes = streamWriteVarint n := by
  refine ⟨fun n hn => reads_varint hn, ?_, ?_⟩
  · rintro n hn m hm ⟨rest, heq⟩
    exact ((reads_varint hn).append_inj (reads_varint hm) (heq.trans (append_nil _).symm)).1
  · intro bytes n hlen hread
    refine carried_append_of_read (a := 0) ?_ hread
    calc (0 + 2) * 128 ^ bytes.length ≤ 2 * 128 ^ 9 :=
          Nat.mul_le_mul_left 2 (Nat.pow_le_pow_right (by decide) hlen)
      _ = 2 ^ 64 := by decide

end ZClassic
