import ZClassic.Consensus.SigOps
import ZClassic.Lib.Fold

/-!
# Encodings that scripts are checked for

Script numbers and minimal pushes (`lib/script/include/script/script.h`,
`domain/consensus/src/script_interp.c`), and the signature and key encodings of
`lib/script/src/sigencoding.c`.
-/

namespace ZClassic

/-- `ScriptError`, without the codes that nothing sets. -/
inductive ScriptError where
  | unknownError
  | evalFalse
  | opReturn
  | scriptSize
  | pushSize
  | opCount
  | stackSize
  | sigCount
  | pubkeyCount
  | verify
  | equalverify
  | checkmultisigverify
  | checksigverify
  | checkdatasigverify
  | numequalverify
  | badOpcode
  | disabledOpcode
  | invalidStackOperation
  | invalidAltstackOperation
  | unbalancedConditional
  | negativeLocktime
  | unsatisfiedLocktime
  | sigHashtype
  | sigDer
  | minimaldata
  | sigPushonly
  | sigHighS
  | sigNulldummy
  | pubkeytype
  | cleanstack
  | sigNullfail
  | discourageUpgradableNops
  deriving DecidableEq

def scriptVerifyStrictenc : UInt32 := 0x2

def scriptVerifyLowS : UInt32 := 0x8

def scriptVerifyNulldummy : UInt32 := 0x10

def scriptVerifySigpushonly : UInt32 := 0x20

def scriptVerifyMinimaldata : UInt32 := 0x40

def scriptVerifyDiscourageUpgradableNops : UInt32 := 0x80

def scriptVerifyCleanstack : UInt32 := 0x100

def scriptVerifyNullfail : UInt32 := 0x400

def hasFlag (flags bit : UInt32) : Bool := flags &&& bit != 0

def FlagsSubset (f g : UInt32) : Prop := f &&& g = f

instance (f g : UInt32) : Decidable (FlagsSubset f g) := inferInstanceAs (Decidable (_ = _))

theorem FlagsSubset.hasFlag {f g : UInt32} (h : FlagsSubset f g) {bit : UInt32}
    (hf : hasFlag f bit = true) : hasFlag g bit = true := by
  simp only [ZClassic.hasFlag, bne_iff_ne] at hf ⊢
  intro hg
  apply hf
  calc f &&& bit = f &&& g &&& bit := by rw [h]
    _ = f &&& (g &&& bit) := UInt32.and_assoc ..
    _ = 0 := by rw [hg, UInt32.and_zero]

def scriptNumDefaultMaxSize : ℕ := 4

def scriptNumMaxSize : ℕ := 8

/-- The last byte has no bits but the sign, and the byte before does not need it. -/
def scriptNumNonMinimal (data : List UInt8) : Bool :=
  match data.reverse with
  | [] => false
  | [b] => b &&& 0x7f == 0
  | b :: b' :: _ => b &&& 0x7f == 0 && b' &&& 0x80 == 0

/-- Little endian, with the sign in the top bit of the last byte. -/
def scriptNumFromBytes (data : List UInt8) (requireMinimal : Bool) (maxSize : ℕ) : Option ℤ :=
  if maxSize < data.length then none
  else if requireMinimal && scriptNumNonMinimal data then none
  else match data.getLast? with
    | none => some 0
    | some b =>
      if b &&& 0x80 != 0 then some (-(leNat data - 0x80 * 256 ^ (data.length - 1) : ℤ))
      else some (leNat data)

def magnitude : ℕ → ℕ → List UInt8
  | 0, _ => []
  | fuel + 1, n => if n = 0 then [] else UInt8.ofNat n :: magnitude fuel (n / 256)

/-- A sign byte of its own where the top bit is taken. A number that needs more than the buffer
gives no bytes. -/
def scriptNumSerialize (value : ℤ) (outsize : ℕ) : List UInt8 :=
  let digits := magnitude 8 value.natAbs
  match digits.getLast? with
  | none => []
  | some b =>
    if b &&& 0x80 != 0 then
      if outsize < digits.length + 1 then [] else digits ++ [if value < 0 then 0x80 else 0]
    else if outsize < digits.length then []
    else if value < 0 then digits.dropLast ++ [b ||| 0x80]
    else digits

def scriptNumGetInt (value : ℤ) : ℤ := max (-2 ^ 31) (min value (2 ^ 31 - 1))

theorem scriptNumFromBytes_minimal {data : List UInt8} {strict strict' : Bool} {maxSize : ℕ} {n : ℤ}
    (h : strict' = true → strict = true) (hn : scriptNumFromBytes data strict maxSize = some n) :
    scriptNumFromBytes data strict' maxSize = some n := by
  unfold scriptNumFromBytes at hn ⊢
  by_cases hlen : maxSize < data.length
  · rw [if_pos hlen] at hn
    cases hn
  · rw [if_neg hlen] at hn ⊢
    by_cases hmin : (strict && scriptNumNonMinimal data) = true
    · rw [if_pos hmin] at hn
      cases hn
    · rw [if_neg hmin] at hn
      rw [if_neg, hn]
      intro hmin'
      rw [Bool.and_eq_true] at hmin hmin'
      exact hmin ⟨h hmin'.1, hmin'.2⟩

theorem scriptNumSerialize_length (value : ℤ) (outsize : ℕ) :
    (scriptNumSerialize value outsize).length ≤ outsize := by
  cases hlast : (magnitude 8 value.natAbs).getLast? with
  | none => simp only [scriptNumSerialize, hlast, List.length_nil, Nat.zero_le]
  | some b =>
    have hne : magnitude 8 value.natAbs ≠ [] := fun h => by rw [h] at hlast; cases hlast
    have hpos := List.length_pos_of_ne_nil hne
    simp only [scriptNumSerialize, hlast]
    split_ifs <;> grind

def op1negate : UInt8 := 0x4f

/-- The shortest way to push the data. -/
def checkMinimalPush (data : List UInt8) (opcode : UInt8) : Bool :=
  match data with
  | [] => opcode == 0
  | [b] =>
    if 1 ≤ b ∧ b ≤ 16 then opcode.toNat == op1.toNat + (b.toNat - 1)
    else if b = 0x81 then opcode == op1negate
    else opcode == 1
  | _ =>
    if data.length ≤ 75 then opcode.toNat == data.length
    else if data.length ≤ 255 then opcode == opPushdata1
    else if data.length ≤ 65535 then opcode == opPushdata2
    else true

def castToBool : List UInt8 → Bool
  | [] => false
  | [b] => b != 0 && b != 0x80
  | b :: bs => b != 0 || castToBool bs

/-- The hashes of script opcodes, and whether a signature has a low S. -/
structure ScriptCrypto where
  ripemd160 : List UInt8 → Vector UInt8 20
  sha1 : List UInt8 → Vector UInt8 20
  sha256 : List UInt8 → Vector UInt8 32
  hash160 : List UInt8 → Vector UInt8 20
  hash256 : List UInt8 → Vector UInt8 32
  pubkeyCheckLowS : List UInt8 → Bool

/-- Strict DER: `0x30 len 0x02 lenR R 0x02 lenS S`, with positive numbers without padding. -/
def isValidSignatureEncoding (sig : List UInt8) : Bool :=
  let len := sig.length
  let byte i := sig.getD i 0
  let lenR := (byte 3).toNat
  let startS := lenR + 4
  let lenS := (byte (startS + 1)).toNat
  decide (8 ≤ len) && decide (len ≤ 72) && byte 0 == 0x30 && (byte 1).toNat == len - 2 &&
    byte 2 == 0x02 && lenR != 0 && byte 4 &&& 0x80 == 0 && decide (lenR ≤ len - 7) &&
    !(decide (1 < lenR) && byte 4 == 0 && byte 5 &&& 0x80 == 0) &&
    byte startS == 0x02 && lenS != 0 && byte (startS + 2) &&& 0x80 == 0 &&
    startS + lenS + 2 == len &&
    !(decide (1 < lenS) && byte (startS + 2) == 0 && byte (startS + 3) &&& 0x80 == 0)

def sighashAnyonecanpay : UInt8 := 0x80

def sighashIsDefined (hashType : UInt8) : Bool :=
  let base := hashType &&& ~~~sighashAnyonecanpay
  decide (1 ≤ base) && decide (base ≤ 3)

section

variable (crypto : ScriptCrypto) (flags : UInt32)

def checkRawSignatureEncoding (sig : List UInt8) : Except ScriptError Unit := do
  refuseIf (¬isValidSignatureEncoding sig) .sigDer
  refuseIf (hasFlag flags scriptVerifyLowS ∧ ¬crypto.pubkeyCheckLowS sig) .sigHighS

def checkDataSignatureEncoding (sig : List UInt8) : Except ScriptError Unit :=
  if sig = [] then .ok () else checkRawSignatureEncoding crypto flags sig

/-- The last byte is the hash type. -/
def checkTransactionSignatureEncoding (sig : List UInt8) : Except ScriptError Unit :=
  match sig.getLast? with
  | none => .ok ()
  | some hashType => do
    checkRawSignatureEncoding crypto flags sig.dropLast
    refuseIf (hasFlag flags scriptVerifyStrictenc ∧ ¬sighashIsDefined hashType) .sigHashtype

def checkPubkeyEncoding (pubkey : List UInt8) : Except ScriptError Unit :=
  refuseIf (hasFlag flags scriptVerifyStrictenc ∧
    ¬(pubkey.length = 33 ∧ (pubkey.head? = some 0x02 ∨ pubkey.head? = some 0x03) ∨
      pubkey.length = 65 ∧ pubkey.head? = some 0x04)) .pubkeytype

end

section Fewer

variable {crypto : ScriptCrypto} {f g : UInt32} (h : FlagsSubset f g)
include h

theorem refuseIf_flag_fewer {bit : UInt32} {p : Prop} [Decidable p] {e : ScriptError}
    (hg : refuseIf (hasFlag g bit ∧ p) e = .ok ()) : refuseIf (hasFlag f bit ∧ p) e = .ok () := by
  rw [refuseIf_eq_ok_iff] at hg ⊢
  exact fun hf => hg ⟨h.hasFlag hf.1, hf.2⟩

variable {sig : List UInt8}

theorem rawSignature_fewer (hg : checkRawSignatureEncoding crypto g sig = .ok ()) :
    checkRawSignatureEncoding crypto f sig = .ok () := by
  unfold checkRawSignatureEncoding at hg ⊢
  rw [refuseIf_bind_eq_ok] at hg ⊢
  exact ⟨hg.1, refuseIf_flag_fewer h hg.2⟩

theorem dataSignature_fewer (hg : checkDataSignatureEncoding crypto g sig = .ok ()) :
    checkDataSignatureEncoding crypto f sig = .ok () := by
  unfold checkDataSignatureEncoding at hg ⊢
  by_cases hsig : sig = []
  · rw [if_pos hsig]
  · rw [if_neg hsig] at hg ⊢
    exact rawSignature_fewer h hg

theorem transactionSignature_fewer
    (hg : checkTransactionSignatureEncoding crypto g sig = .ok ()) :
    checkTransactionSignatureEncoding crypto f sig = .ok () := by
  unfold checkTransactionSignatureEncoding at hg ⊢
  cases hlast : sig.getLast? with
  | none => rfl
  | some hashType =>
    simp only [hlast] at hg ⊢
    obtain ⟨⟨⟩, hraw, hdefined⟩ := bind_eq_ok hg
    rw [rawSignature_fewer h hraw, ok_bind]
    exact refuseIf_flag_fewer h hdefined

theorem checkPubkeyEncoding_fewer {pubkey : List UInt8}
    (hg : checkPubkeyEncoding g pubkey = .ok ()) : checkPubkeyEncoding f pubkey = .ok () :=
  refuseIf_flag_fewer h hg

end Fewer

section SignatureGrammar

open List

/-- A byte is read and checked; if it fails, the function ends and the reads behind are not made. -/
def readCheck (sig : List UInt8) (i : ℕ) (ok : UInt8 → Bool) (rest : UInt8 → Option Bool) :
    Option Bool := do
  let b ← sig[i]?
  if ok b then rest b else return false

/-- Whether there are several bytes of which the first is zero and not needed for the sign. -/
def zeroPadded (sig : List UInt8) (start len : ℕ) : Option Bool :=
  if 1 < len then
    readCheck sig start (· == 0) fun _ =>
    readCheck sig (start + 1) (· &&& 0x80 == 0) fun _ => some true
  else some false

/-- `is_valid_signature_encoding` read by read; a read outside of the string has no value. -/
def signatureEncodingReads (sig : List UInt8) : Option Bool :=
  let len := sig.length
  if len < 8 ∨ 72 < len then some false else
  readCheck sig 0 (· == 0x30) fun _ =>
  readCheck sig 1 (·.toNat == len - 2) fun _ =>
  readCheck sig 2 (· == 0x02) fun _ =>
  readCheck sig 3 (·.toNat != 0) fun lenR =>
  readCheck sig 4 (· &&& 0x80 == 0) fun _ =>
  if len - 7 < lenR.toNat then some false else do
  if ← zeroPadded sig 4 lenR.toNat then return false
  let startS := lenR.toNat + 4
  readCheck sig startS (· == 0x02) fun _ =>
  readCheck sig (startS + 1) (·.toNat != 0) fun lenS =>
  readCheck sig (startS + 2) (· &&& 0x80 == 0) fun _ =>
  if startS + lenS.toNat + 2 ≠ len then some false else do
  return !(← zeroPadded sig (startS + 2) lenS.toNat)

variable {sig : List UInt8} {i : ℕ}

theorem readCheck_eq {ok : UInt8 → Bool} {rest : UInt8 → Option Bool} {b : Bool}
    (hi : i < sig.length) (h : ok (sig.getD i 0) = true → rest (sig.getD i 0) = some b) :
    readCheck sig i ok rest = some (ok (sig.getD i 0) && b) := by
  have hread : sig[i]? = some (sig.getD i 0) := by simp [hi]
  rw [readCheck, hread, Option.bind_eq_bind, Option.bind_some]
  cases hok : ok (sig.getD i 0) with
  | false => rfl
  | true => exact h hok

theorem zeroPadded_eq {start len : ℕ} (h : start + len ≤ sig.length) :
    zeroPadded sig start len = some (decide (1 < len) && (sig.getD start 0 == 0 &&
      sig.getD (start + 1) 0 &&& 0x80 == 0)) := by
  unfold zeroPadded
  split_ifs with hlen
  · rw [decide_eq_true hlen, Bool.true_and]
    refine readCheck_eq (by omega) fun _ => ?_
    rw [← Bool.and_true (_ == _)]
    exact readCheck_eq (by omega) fun _ => rfl
  · rw [decide_eq_false hlen, Bool.false_and]

/-- No read is outside of the string. -/
theorem signatureEncodingReads_eq (sig : List UInt8) :
    signatureEncodingReads sig = some (isValidSignatureEncoding sig) := by
  unfold signatureEncodingReads isValidSignatureEncoding
  simp only [Bool.and_assoc]
  split_ifs with hlen
  · rcases hlen with hlen | hlen <;> simp [hlen]
  · rw [not_or, not_lt, not_lt] at hlen
    rw [decide_eq_true hlen.1, decide_eq_true hlen.2, Bool.true_and, Bool.true_and]
    refine readCheck_eq (by omega) fun _ => readCheck_eq (by omega) fun _ => ?_
    refine readCheck_eq (by omega) fun _ => readCheck_eq (by omega) fun _ => ?_
    refine readCheck_eq (by omega) fun _ => ?_
    split_ifs with hR
    · rw [decide_eq_false (not_le.mpr hR), Bool.false_and]
    · rw [zeroPadded_eq (by omega), decide_eq_true (not_lt.mp hR), Bool.true_and]
      cases decide (1 < (sig.getD 3 0).toNat) && (sig.getD 4 0 == 0 && sig.getD 5 0 &&& 0x80 == 0)
      · refine readCheck_eq (by omega) fun _ => readCheck_eq (by omega) fun _ => ?_
        refine readCheck_eq (by omega) fun _ => ?_
        split_ifs with hS
        · rw [beq_false_of_ne hS, Bool.false_and]
        · rw [not_not] at hS
          rw [zeroPadded_eq (by omega), beq_iff_eq.mpr hS]
          rfl
      · rfl

def IsDerInteger (x : List UInt8) : Prop :=
  x ≠ [] ∧ x.getD 0 0 &&& 0x80 = 0 ∧ (1 < x.length → x.getD 0 0 = 0 → x.getD 1 0 &&& 0x80 ≠ 0)

theorem signatureEncoding_parts {r s : List UInt8} {b0 b1 b2 b3 c0 c1 : UInt8}
    (hr : b3.toNat = r.length) :
    isValidSignatureEncoding (b0 :: b1 :: b2 :: b3 :: (r ++ c0 :: c1 :: s)) = true ↔
      (b0 = 0x30 ∧ b1.toNat = r.length + s.length + 4 ∧ b2 = 0x02 ∧ c0 = 0x02 ∧
        c1.toNat = s.length) ∧ IsDerInteger r ∧ IsDerInteger s ∧ r.length + s.length ≤ 66 := by
  have hS : ∀ i, (b0 :: b1 :: b2 :: b3 :: (r ++ c0 :: c1 :: s)).getD (r.length + 4 + i) 0 =
      (c0 :: c1 :: s).getD i 0 := by
    intro i
    rw [Nat.add_right_comm]
    simp [getElem?_append_right]
  have h3 : (b0 :: b1 :: b2 :: b3 :: (r ++ c0 :: c1 :: s)).getD 3 0 = b3 := rfl
  have h0 := hS 0
  rw [Nat.add_zero] at h0
  simp only [isValidSignatureEncoding, IsDerInteger, h3, hr, hS, h0]
  rcases r with _ | ⟨x, _ | ⟨x', r⟩⟩ <;> rcases s with _ | ⟨y, s⟩ <;> simp
  all_goals grind

theorem signatureEncoding_split (h : isValidSignatureEncoding sig = true) :
    ∃ b0 b1 b2 b3 r c0 c1 s, sig = b0 :: b1 :: b2 :: b3 :: (r ++ c0 :: c1 :: s) ∧
      b3.toNat = r.length := by
  have hlen : 8 ≤ sig.length ∧ (sig.getD 3 0).toNat ≤ sig.length - 7 := by
    simp only [isValidSignatureEncoding, Bool.and_eq_true, decide_eq_true_eq] at h
    tauto
  rcases sig with _ | ⟨b0, _ | ⟨b1, _ | ⟨b2, _ | ⟨b3, rest⟩⟩⟩⟩
  iterate 4 simp at hlen
  have hrest : b3.toNat + 2 ≤ rest.length := by
    simp at hlen
    omega
  have hdrop : (rest.drop b3.toNat).length = rest.length - b3.toNat := length_drop
  rcases ht : rest.drop b3.toNat with _ | ⟨c0, _ | ⟨c1, s⟩⟩
  · simp only [ht, length_nil] at hdrop
    omega
  · simp only [ht, length_cons, length_nil] at hdrop
    omega
  refine ⟨b0, b1, b2, b3, rest.take b3.toNat, c0, c1, s, ?_, ?_⟩
  · rw [← ht, take_append_drop]
  · rw [length_take]
    omega

/-- What is accepted is strict DER, and no byte behind the end is read. -/
theorem isValidSignatureEncoding_iff (sig : List UInt8) :
    signatureEncodingReads sig = some (isValidSignatureEncoding sig) ∧
      (isValidSignatureEncoding sig = true ↔ ∃ r s, IsDerInteger r ∧ IsDerInteger s ∧
        sig = 0x30 :: UInt8.ofNat (r.length + s.length + 4) :: 0x02 :: UInt8.ofNat r.length ::
          (r ++ 0x02 :: UInt8.ofNat s.length :: s) ∧ sig.length ≤ 72) := by
  refine ⟨signatureEncodingReads_eq sig, ?_⟩
  constructor
  · intro h
    obtain ⟨b0, b1, b2, b3, r, c0, c1, s, rfl, hr⟩ := signatureEncoding_split h
    obtain ⟨⟨rfl, hb1, rfl, rfl, hc1⟩, hrI, hsI, hlen⟩ := (signatureEncoding_parts hr).mp h
    refine ⟨r, s, hrI, hsI, ?_, ?_⟩
    · rw [← hr, ← hc1, UInt8.ofNat_toNat, UInt8.ofNat_toNat, hr, hc1, ← hb1, UInt8.ofNat_toNat]
    · simp
      omega
  · rintro ⟨r, s, hr, hs, rfl, hlen⟩
    simp only [length_cons, length_append] at hlen
    have htoNat : ∀ n, n ≤ r.length + s.length + 4 → (UInt8.ofNat n).toNat = n := fun n hn =>
      Nat.mod_eq_of_lt (by omega)
    rw [signatureEncoding_parts (htoNat _ (by omega))]
    exact ⟨⟨rfl, htoNat _ le_rfl, rfl, rfl, htoNat _ (by omega)⟩, hr, hs, by omega⟩

/-- The hash type is no part of the string. -/
theorem hashTypeEncoding_refused :
    isValidSignatureEncoding [0x30, 6, 2, 1, 1, 2, 1, 1, 1] = false := by
  decide

end SignatureGrammar

end ZClassic
