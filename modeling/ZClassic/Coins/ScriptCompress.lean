import ZClassic.Wallet.Ownership

/-!
# Compressed output scripts

`coins_math_script_compress` and `coins_math_script_decompress` of
`domain/consensus/src/coins_math.c`. The parity bit of an uncompressed public key is taken from the
last byte but one, so that half of these scripts come back with another key.
-/

namespace ZClassic

open List UInt8

/-- The curve operations of `keys/pubkey.h`. -/
structure PubkeyOps where
  isFullyValid : List UInt8 → Bool
  decompress : List UInt8 → Option (List UInt8)

def coinsMathScriptCompress (K : PubkeyOps) (s : Script) : Option (List UInt8) :=
  if scriptIsPayToPubkeyHash s then some (0x00 :: (s.data.drop 3).take 20)
  else if scriptIsPayToScriptHash s then some (0x01 :: (s.data.drop 2).take 20)
  else if scriptIsPayToPubkey 33 [0x02, 0x03] s then
    some (s.data.getD 1 0 :: (s.data.drop 2).take 32)
  else if scriptIsPayToPubkey 65 [0x04] s then
    if K.isFullyValid ((s.data.drop 1).take 65) then
      some ((0x04 ||| s.data.getD 64 0 &&& 0x01) :: (s.data.drop 2).take 32)
    else none
  else none

def coinsMathScriptDecompress (K : PubkeyOps) (nSize : ℕ) (bytes : List UInt8) :
    Option (List UInt8) :=
  match nSize with
  | 0x00 => some ([opDup, opHash160, 20] ++ bytes.take 20 ++ [opEqualverify, opChecksig])
  | 0x01 => some ([opHash160, 20] ++ bytes.take 20 ++ [opEqual])
  | 0x02 | 0x03 => some ([33, UInt8.ofNat nSize] ++ bytes.take 32 ++ [opChecksig])
  | 0x04 | 0x05 =>
    match K.decompress (UInt8.ofNat (nSize - 2) :: bytes.take 32) with
    | none => none
    | some vch => if vch.length ≠ 65 then none else some (65 :: vch ++ [opChecksig])
  | _ => none

def coinsMathScriptCompressSpecialSize : ℕ → ℕ
  | 0 | 1 => 20
  | 2 | 3 | 4 | 5 => 32
  | _ => 0

def parity (y : List UInt8) : ℕ := (y.getD 31 0).toNat % 2

/-- A key is valid when its point lies on the curve, and decompression finds the point with the
given x coordinate and parity. -/
structure PubkeyOps.Correct (K : PubkeyOps) (OnCurve : List UInt8 → List UInt8 → Prop) : Prop where
  isFullyValid : ∀ x y, x.length = 32 → y.length = 32 →
    (K.isFullyValid (0x04 :: x ++ y) = true ↔ OnCurve x y)
  decompress : ∀ p < 2, ∀ x, x.length = 32 → ∀ vch,
    K.decompress (UInt8.ofNat (2 + p) :: x) = some vch ↔
      ∃ y, y.length = 32 ∧ OnCurve x y ∧ parity y = p ∧ vch = 0x04 :: x ++ y

variable {K : PubkeyOps} {s : Script}

theorem exists_frame {l front back : List UInt8} {k : ℕ} (hfront : l.take front.length = front)
    (hback : l.drop (front.length + k) = back) (hlen : front.length + k ≤ l.length) :
    ∃ body, body.length = k ∧ l = front ++ body ++ back := by
  refine ⟨(l.drop front.length).take k, ?_, ?_⟩
  · rw [length_take, length_drop]
    omega
  · rw [← hback, ← drop_drop, append_assoc, take_append_drop]
    nth_rewrite 1 [← take_append_drop front.length l, hfront]
    rfl

theorem payToPubkeyHash_data (h : scriptIsPayToPubkeyHash s = true) :
    ∃ hash, hash.length = 20 ∧
      s.data = [opDup, opHash160, 20] ++ hash ++ [opEqualverify, opChecksig] := by
  simp only [scriptIsPayToPubkeyHash, Bool.and_eq_true, beq_iff_eq, Script.size] at h
  obtain ⟨⟨⟨⟨⟨hlen, h0⟩, h1⟩, h2⟩, h23⟩, h24⟩ := h
  apply exists_frame
  · simp only [length_cons, length_nil, take_add_one, h0, h1, h2]
    rfl
  · change s.data.drop 23 = _
    rw [drop_eq_getElem?_toList_append, drop_eq_getElem?_toList_append, h23, h24,
      drop_of_length_le hlen.le]
    rfl
  · rw [hlen]
    decide

theorem payToScriptHash_data (h : scriptIsPayToScriptHash s = true) :
    ∃ hash, hash.length = 20 ∧ s.data = [opHash160, 20] ++ hash ++ [opEqual] := by
  simp only [scriptIsPayToScriptHash, Bool.and_eq_true, beq_iff_eq, Script.size] at h
  obtain ⟨⟨⟨hlen, h0⟩, h1⟩, h22⟩ := h
  apply exists_frame
  · simp only [length_cons, length_nil, take_add_one, h0, h1]
    rfl
  · change s.data.drop 22 = _
    rw [drop_eq_getElem?_toList_append, h22, drop_of_length_le hlen.le]
    rfl
  · rw [hlen]
    decide

theorem payToPubkey_data {len : ℕ} {tags : List UInt8}
    (h : scriptIsPayToPubkey (len + 1) tags s = true) :
    ∃ tag ∈ tags, ∃ key, key.length = len ∧
      s.data = [ofNat (len + 1), tag] ++ key ++ [opChecksig] := by
  simp only [scriptIsPayToPubkey, Bool.and_eq_true, beq_iff_eq, Script.size,
    Option.any_eq_true] at h
  obtain ⟨⟨⟨hlen, h0⟩, hlast⟩, tag, h1, htag⟩ := h
  refine ⟨tag, contains_iff_mem.mp htag, exists_frame ?_ ?_ ?_⟩
  · simp only [length_cons, length_nil, take_add_one, h0, h1]
    rfl
  · change s.data.drop (2 + len) = _
    rw [Nat.add_comm 2 len, drop_eq_getElem?_toList_append, hlast, drop_of_length_le hlen.le]
    rfl
  · rw [hlen]
    change 2 + len ≤ len + 3
    omega

variable {body : List UInt8}

theorem scriptCompress_lossless {comp : List UInt8} (hkey : scriptIsPayToPubkey 65 [0x04] s = false)
    (h : coinsMathScriptCompress K s = some comp) :
    ∃ c : UInt8, ∃ body, comp = c :: body ∧ c.toNat < 4 ∧
      body.length = coinsMathScriptCompressSpecialSize c.toNat ∧
      coinsMathScriptDecompress K c.toNat body = some s.data := by
  unfold coinsMathScriptCompress at h
  rw [hkey, if_neg Bool.false_ne_true] at h
  split_ifs at h with hpkh hsh hshort
  · obtain ⟨hash, hlen, hdata⟩ := payToPubkeyHash_data hpkh
    cases h
    refine ⟨_, _, rfl, ?_, ?_, ?_⟩ <;>
      simp [coinsMathScriptCompressSpecialSize, coinsMathScriptDecompress, hdata, hlen]
  · obtain ⟨hash, hlen, hdata⟩ := payToScriptHash_data hsh
    cases h
    refine ⟨_, _, rfl, ?_, ?_, ?_⟩ <;>
      simp [coinsMathScriptCompressSpecialSize, coinsMathScriptDecompress, hdata, hlen]
  · obtain ⟨tag, htag, key, hlen, hdata⟩ := payToPubkey_data hshort
    cases h
    rw [hdata]
    rcases mem_pair.mp htag with rfl | rfl <;> refine ⟨_, _, rfl, ?_, ?_, ?_⟩ <;>
      simp [coinsMathScriptCompressSpecialSize, coinsMathScriptDecompress, hlen]

theorem and_one_eq (b : UInt8) : b &&& 1 = UInt8.ofNat (b.toNat % 2) := by
  apply UInt8.toNat_inj.mp
  rw [UInt8.toNat_and, UInt8.toNat_ofNat', Nat.mod_eq_of_lt (a := b.toNat % 2) (by omega)]
  exact Nat.and_one_is_mod _

theorem scriptDecompress_uncompressed {p : ℕ} (hp : p < 2) (bytes : List UInt8) :
    coinsMathScriptDecompress K (0x04 ||| ofNat p).toNat bytes =
      match K.decompress (ofNat (2 + p) :: bytes.take 32) with
      | none => none
      | some vch => if vch.length ≠ 65 then none else some (65 :: vch ++ [opChecksig]) := by
  match p, hp with
  | 0, _ => rfl
  | 1, _ => rfl

theorem uncompressed_lossless_iff {OnCurve : List UInt8 → List UInt8 → Prop}
    (hK : K.Correct OnCurve) {c : UInt8} (hkey : scriptIsPayToPubkey 65 [0x04] s = true)
    (h : coinsMathScriptCompress K s = some (c :: body)) :
    coinsMathScriptDecompress K c.toNat body = some s.data ↔
      (s.data.getD 64 0).toNat % 2 = (s.data.getD 65 0).toNat % 2 := by
  have hsize : s.size = 67 := by
    simp only [scriptIsPayToPubkey, Bool.and_eq_true, beq_iff_eq] at hkey
    exact hkey.1.1.1
  have hpkh : scriptIsPayToPubkeyHash s = false := by simp [scriptIsPayToPubkeyHash, hsize]
  have hsh : scriptIsPayToScriptHash s = false := by simp [scriptIsPayToScriptHash, hsize]
  have hshort : scriptIsPayToPubkey 33 [0x02, 0x03] s = false := by
    simp [scriptIsPayToPubkey, hsize]
  rw [coinsMathScriptCompress, hpkh, hsh, hshort, hkey] at h
  simp only [Bool.false_eq_true, if_false, if_true] at h
  obtain ⟨tag, htag, key, hlen, hdata⟩ := payToPubkey_data hkey
  cases mem_singleton.mp htag
  obtain ⟨x, y, hx, hy, rfl⟩ : ∃ x y : List UInt8, x.length = 32 ∧ y.length = 32 ∧ key = x ++ y :=
    ⟨key.take 32, key.drop 32, by simp [hlen], by simp [hlen], (take_append_drop 32 key).symm⟩
  rw [hdata] at h ⊢
  simp [hx, hy, take_append] at h ⊢
  obtain ⟨hvalid, rfl, rfl⟩ := h
  rw [take_of_length_le (by omega)] at hvalid
  have hparity : parity y = y[31].toNat % 2 := by simp [parity, hy]
  have hdec := hK.decompress (y[30].toNat % 2) (by omega) x hx
  rw [and_one_eq, scriptDecompress_uncompressed (by omega), take_of_length_le hx.le]
  constructor
  · intro hres
    cases hvch : K.decompress (ofNat (2 + y[30].toNat % 2) :: x) with
    | none =>
      rw [hvch] at hres
      cases hres
    | some vch =>
      obtain ⟨y', hy', -, hp, rfl⟩ := (hdec vch).mp hvch
      rw [hvch] at hres
      simp [hx, hy'] at hres
      rw [← hp, hres, hparity]
  · intro heq
    have hcurve := (hK.isFullyValid x y hx hy).mp hvalid
    rw [(hdec _).mpr ⟨y, hy, hcurve, hparity.trans heq.symm, rfl⟩]
    simp [hx, hy]

/-- A script that was compressed comes back exactly when it has no uncompressed key whose last two
bytes differ in their lowest bit. -/
theorem scriptCompress_lossless_iff {OnCurve : List UInt8 → List UInt8 → Prop}
    (hK : K.Correct OnCurve) {s : Script} {c : UInt8} {body : List UInt8}
    (h : coinsMathScriptCompress K s = some (c :: body)) :
    coinsMathScriptDecompress K c.toNat body = some s.data ↔
      ¬(scriptIsPayToPubkey 65 [0x04] s = true ∧
        (s.data.getD 64 0).toNat % 2 ≠ (s.data.getD 65 0).toNat % 2) := by
  cases hkey : scriptIsPayToPubkey 65 [0x04] s with
  | false =>
    obtain ⟨c', body', heq, -, -, hback⟩ := scriptCompress_lossless hkey h
    cases heq
    exact iff_of_true hback fun hand => nomatch hand.1
  | true =>
    rw [uncompressed_lossless_iff hK hkey h]
    tauto

/-- The coordinates of twice the generator of secp256k1 and of its negation, whose key has the tag 2
or 3 when it is compressed. -/
def doubledX : ℕ := 0xc6047f9441ed7d6d3045406e95c07cd85c778e4b8cef3ca7abac09b95c709ee5

def doubledY (tag : UInt8) : ℕ :=
  if tag = 2 then 0x1ae168fea63dc339a3c58419466ceaeef7f632653266d0e1236431a950cfe52a
  else 0xe51e970159c23cc65c3a7be6b99315110809cd9acd992f1edc9bce55af301705

def beBytes (n : ℕ) : List UInt8 := (leBytes 32 n).reverse

def DoubledPoint (x y : List UInt8) : Prop :=
  x = beBytes doubledX ∧ ∃ tag ∈ [2, 3], y = beBytes (doubledY tag)

/-- Only these two points are keys. -/
def doubledOps : PubkeyOps where
  isFullyValid key :=
    [2, 3].any fun tag => key == 0x04 :: beBytes doubledX ++ beBytes (doubledY tag)
  decompress
    | [] => none
    | tag :: x => if x = beBytes doubledX then some (0x04 :: x ++ beBytes (doubledY tag)) else none

theorem doubledOps_correct : doubledOps.Correct DoubledPoint := by
  constructor
  · intro x y hx hy
    have hinj : ∀ z, x ++ y = beBytes doubledX ++ z ↔ x = beBytes doubledX ∧ y = z := fun z =>
      ⟨fun h => append_inj h hx, fun h => by rw [h.1, h.2]⟩
    simp [doubledOps, DoubledPoint, hinj, and_or_left]
  · intro p hp x hx vch
    have htags : ∀ p < 2, (ofNat (2 + p) ∈ [2, 3]) ∧ ∀ tag ∈ [2, 3],
      (parity (beBytes (doubledY tag)) = p ↔ tag = ofNat (2 + p)) := by decide +kernel
    obtain ⟨hmem, hparity⟩ := htags p hp
    dsimp only [doubledOps]
    constructor
    · intro h
      split_ifs at h with heq
      cases h
      exact ⟨_, by simp [beBytes], ⟨heq, _, hmem, rfl⟩, (hparity _ hmem).mpr rfl, rfl⟩
    · rintro ⟨y, -, ⟨heq, tag, htag, rfl⟩, hp, rfl⟩
      rw [if_pos heq, (hparity tag htag).mp hp]

def keyScript (tag : UInt8) : Script where
  data := [65, 0x04] ++ beBytes doubledX ++ beBytes (doubledY tag) ++ [opChecksig]
  size_le := by simp [beBytes, maxScriptSize]

theorem oddKey_kept : coinsMathScriptDecompress doubledOps 5 (beBytes doubledX) =
    some (keyScript 3).data :=
  (scriptCompress_lossless_iff doubledOps_correct (c := 5) rfl).mpr fun h => h.2 rfl

/-- Both points are on the curve, and the even one comes back as the other. -/
theorem evenKey_lost :
    (∀ tag ∈ [2, 3], doubledY tag ^ 2 % (2 ^ 256 - 2 ^ 32 - 977) =
      (doubledX ^ 3 + 7) % (2 ^ 256 - 2 ^ 32 - 977)) ∧
    coinsMathScriptCompress doubledOps (keyScript 2) = some (5 :: beBytes doubledX) ∧
    coinsMathScriptDecompress doubledOps 5 (beBytes doubledX) = some (keyScript 3).data := by
  decide +kernel

end ZClassic
