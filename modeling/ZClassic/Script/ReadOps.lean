import ZClassic.Script.Interpreter

/-!
# Reading a script to its end

`script_get_op` without a data buffer takes pushes of any length.
-/

namespace ZClassic

open List

def scriptGetOpAnySize : List UInt8 → Option (UInt8 × List UInt8 × List UInt8)
  | [] => none
  | op :: rest =>
    if opPushdata4 < op then some (op, [], rest)
    else match pushSize op rest with
      | none => none
      | some (nsize, rest) =>
        if rest.length < nsize then none else some (op, rest.take nsize, rest.drop nsize)

theorem scriptGetOp_eq (bs : List UInt8) : scriptGetOp bs = (scriptGetOpAnySize bs).filter
    fun x => decide (x.2.1.length ≤ maxScriptElementSize) := by
  cases bs with
  | nil => rfl
  | cons op rest =>
    rw [scriptGetOp, scriptGetOpAnySize]
    split
    · rfl
    · cases pushSize op rest with
      | none => rfl
      | some x =>
        obtain ⟨nsize, after⟩ := x
        dsimp only
        by_cases hcut : after.length < nsize
        · simp [hcut]
        · by_cases hlong : maxScriptElementSize < nsize
          · simp [hcut, hlong, Option.filter, Nat.min_eq_left (Nat.not_lt.mp hcut)]
          · simp [hcut, hlong, Option.filter, Nat.min_eq_left (Nat.not_lt.mp hcut),
              Nat.not_lt.mp hlong]

/-- Pushes and small integers lead from one place of a script to another. -/
inductive PushesTo : List UInt8 → List UInt8 → Prop
  | refl (bs : List UInt8) : PushesTo bs bs
  | step {bs data rest tail : List UInt8} {op : UInt8}
      (hop : scriptGetOpAnySize bs = some (op, data, rest)) (hpush : op ≤ op16)
      (h : PushesTo rest tail) : PushesTo bs tail

/-- The length of the push at the front is there, but not all of its data. -/
def CutShort : List UInt8 → Prop
  | [] => False
  | op :: rest => op ≤ opPushdata4 ∧ ∃ x ∈ pushSize op rest, x.2.length < x.1

/-- The push at the front is an `OP_PUSHDATA4` with a declared length of at least `2 ^ 32 - 4`. -/
def DeclaresMost : List UInt8 → Prop
  | [] => False
  | op :: rest => op = opPushdata4 ∧ ∃ x ∈ pushSize op rest, 2 ^ 32 - 4 ≤ x.1

/-- The test returns for the bytes of a script that are left, and it says whether they can be read
to their end as pushes. -/
def TellsFrom (fuel : ℕ) (bs : List UInt8) : Prop :=
  ∃ pushOnly, scriptIsPushOnlyFrom fuel bs = some pushOnly ∧ (pushOnly = true ↔ PushesTo bs [])

def TellsPushOnly (s : Script) : Prop :=
  ∃ pushOnly, scriptIsPushOnly s = some pushOnly ∧ (pushOnly = true ↔ PushesTo s.data [])

variable {bs data rest : List UInt8} {op : UInt8}

theorem CutShort.getOp (h : CutShort bs) : scriptGetOpAnySize bs = none := by
  cases bs with
  | nil => rfl
  | cons op rest =>
    obtain ⟨hop, ⟨nsize, after⟩, hsize, hcut⟩ := h
    rw [scriptGetOpAnySize, if_neg (UInt8.not_lt.mpr hop), hsize]
    exact if_pos hcut

theorem pushesTo_iff (hop : scriptGetOpAnySize bs = some (op, data, rest)) (hpush : op ≤ op16)
    (tail : List UInt8) : PushesTo bs tail ↔ tail = bs ∨ PushesTo rest tail := by
  constructor
  · intro h
    cases h with
    | refl => exact .inl rfl
    | step hop' _ h =>
      rw [hop] at hop'
      cases hop'
      exact .inr h
  · rintro (rfl | h)
    · exact .refl _
    · exact .step hop hpush h

/-- Nothing leads on from an opcode that cannot be read, or that is no push. -/
theorem pushesTo_iff_eq (hop : ∀ op data rest, scriptGetOpAnySize bs = some (op, data, rest) →
    op16 < op) (tail : List UInt8) : PushesTo bs tail ↔ tail = bs := by
  constructor
  · intro h
    cases h with
    | refl => rfl
    | step hop' hpush => exact absurd (hop _ _ _ hop') (UInt8.not_lt.mpr hpush)
  · rintro rfl
    exact .refl _

theorem pushesTo_nil_iff (tail : List UInt8) : PushesTo [] tail ↔ tail = [] :=
  pushesTo_iff_eq (by simp [scriptGetOpAnySize]) tail

/-- At an opcode that can be read, the loop goes on behind it. -/
theorem scriptIsPushOnlyFrom_step (fuel : ℕ) (hsize : bs.length ≤ maxScriptSize)
    (hop : scriptGetOpAnySize bs = some (op, data, rest)) (hpush : op ≤ op16) :
    scriptIsPushOnlyFrom (fuel + 1) bs = scriptIsPushOnlyFrom fuel rest ∧
      rest.length < bs.length := by
  cases bs with
  | nil => cases hop
  | cons b bs =>
    rw [scriptGetOpAnySize] at hop
    rw [scriptIsPushOnlyFrom]
    split at hop
    · next hplain =>
      cases hop
      rw [if_neg (UInt8.not_lt.mpr hpush), if_pos hplain]
      exact ⟨rfl, Nat.lt_succ_self _⟩
    · next hplain =>
      cases hlen : pushSize b bs with
      | none =>
        rw [hlen] at hop
        cases hop
      | some x =>
        obtain ⟨len, after⟩ := x
        rw [hlen] at hop
        dsimp only at hop ⊢
        split at hop
        · cases hop
        · next hfits =>
          cases hop
          have hafter := pushSize_length hlen
          rw [length_cons, maxScriptSize] at hsize
          rw [if_neg (UInt8.not_lt.mpr hpush), if_neg hplain, if_neg (by omega), if_neg (by omega),
            length_drop, length_cons]
          exact ⟨rfl, by omega⟩

/-- The four bytes of a length of at least `2 ^ 32 - 4` are all greater than `OP_16`. -/
theorem lengthBytes_large {len : ℕ} {after : List UInt8} (hread : leRead 4 bs = some (len, after))
    (hlen : 2 ^ 32 - 4 ≤ len) (op : UInt8) :
    ∃ b tail, (op :: bs).drop (5 + len - 2 ^ 32) = b :: tail ∧ op16 < b := by
  rcases bs with _ | ⟨b0, _ | ⟨b1, _ | ⟨b2, _ | ⟨b3, tail⟩⟩⟩⟩
  iterate 4 cases hread
  have hsum : b0.toNat + 256 * (b1.toNat + 256 * (b2.toNat + 256 * b3.toNat)) = len := by
    have hval := congrArg (Option.map Prod.fst) hread
    simpa [leRead, leNat] using hval
  have hgreater : ∀ {b : UInt8}, 96 < b.toNat → op16 < b := fun h => UInt8.lt_iff_toNat_lt.mpr h
  have h0 := b0.toNat_lt
  have h1 := b1.toNat_lt
  have h2 := b2.toNat_lt
  have h3 := b3.toNat_lt
  obtain hd | hd | hd | hd : 5 + len - 2 ^ 32 = 1 ∨ 5 + len - 2 ^ 32 = 2 ∨
    5 + len - 2 ^ 32 = 3 ∨ 5 + len - 2 ^ 32 = 4 := by omega
  all_goals rw [hd]
  · exact ⟨b0, _, rfl, hgreater (by omega)⟩
  · exact ⟨b1, _, rfl, hgreater (by omega)⟩
  · exact ⟨b2, _, rfl, hgreater (by omega)⟩
  · exact ⟨b3, _, rfl, hgreater (by omega)⟩

/-- With such a length the sum wraps to at most 4, and the position moves into the length itself,
whose bytes are greater than `OP_16`. -/
theorem scriptIsPushOnlyFrom_cutShort {fuel : ℕ} (hfuel : bs.length ≤ fuel) (hcut : CutShort bs) :
    scriptIsPushOnlyFrom fuel bs = some false ↔ DeclaresMost bs := by
  cases bs with
  | nil => exact hcut.elim
  | cons op rest =>
    obtain ⟨hop, ⟨len, after⟩, hlen, hshort⟩ := hcut
    rw [length_cons] at hfuel
    obtain ⟨fuel, rfl⟩ : ∃ fuel', fuel = fuel' + 1 := ⟨fuel - 1, by omega⟩
    have hmost : DeclaresMost (op :: rest) ↔ op = opPushdata4 ∧ 2 ^ 32 - 4 ≤ len := by
      simp [DeclaresMost, Option.mem_def.mp hlen]
    have hsmall : ¬op16 < op := UInt8.not_lt.mpr (UInt8.le_trans hop (by decide))
    rw [hmost, scriptIsPushOnlyFrom, if_neg hsmall, if_neg (UInt8.not_lt.mpr hop),
      Option.mem_def.mp hlen]
    dsimp only
    have hpast : scriptIsPushOnlyFrom fuel (after.drop len) = some true := by
      rw [drop_eq_nil_of_le hshort.le]
      cases fuel <;> rfl
    split_ifs with hloop hwrap
    · refine iff_of_false (by simp) ?_
      omega
    · -- the next round reads a byte of the length
      obtain ⟨rfl, hwrap⟩ := hwrap
      have hread : leRead 4 rest = some (len, after) := hlen
      obtain ⟨b, tail, hdrop, hb⟩ := lengthBytes_large hread (by omega) opPushdata4
      have hne : fuel ≠ 0 := by
        rintro rfl
        rw [length_eq_zero_iff.mp (show rest.length = 0 by omega)] at hlen
        cases hlen
      obtain ⟨fuel, rfl⟩ := Nat.exists_eq_succ_of_ne_zero hne
      rw [hdrop, scriptIsPushOnlyFrom, if_pos hb]
      exact iff_of_true rfl ⟨rfl, by omega⟩
    · rw [hpast]
      refine iff_of_false (by simp) ?_
      rintro ⟨hop4, hle⟩
      rw [and_iff_right hop4] at hloop hwrap
      omega

/-- Where the loop stops at another opcode than a push that is cut short, it answers no. -/
theorem scriptIsPushOnlyFrom_stop (fuel : ℕ) (hne : bs ≠ []) (hcut : ¬CutShort bs)
    (hstop : ∀ op data rest, scriptGetOpAnySize bs = some (op, data, rest) → op16 < op) :
    scriptIsPushOnlyFrom (fuel + 1) bs = some false := by
  cases bs with
  | nil => exact absurd rfl hne
  | cons op tail =>
    rw [scriptIsPushOnlyFrom]
    by_cases hbig : op16 < op
    · exact if_pos hbig
    have hplain : ¬opPushdata4 < op := fun h => hbig (hstop op [] tail (if_pos h))
    rw [if_neg hbig, if_neg hplain]
    cases hlen : pushSize op tail with
    | none => rfl
    | some x =>
      have hfits : ¬x.2.length < x.1 := fun h => hcut ⟨UInt8.not_lt.mp hplain, x, hlen, h⟩
      refine absurd (hstop op (x.2.take x.1) (x.2.drop x.1) ?_) hbig
      rw [scriptGetOpAnySize, if_neg hplain, hlen]
      exact if_neg hfits

theorem tellsFrom_iff {fuel : ℕ} (hfuel : bs.length ≤ fuel) (hsize : bs.length ≤ maxScriptSize) :
    TellsFrom fuel bs ↔ ∀ tail, PushesTo bs tail → CutShort tail → DeclaresMost tail := by
  induction fuel generalizing bs with
  | zero =>
    obtain rfl := length_eq_zero_iff.mp (Nat.le_zero.mp hfuel)
    simp [pushesTo_nil_iff, TellsFrom, scriptIsPushOnlyFrom, CutShort]
  | succ fuel ih =>
    rcases eq_or_ne bs [] with rfl | hne
    · simp [pushesTo_nil_iff, TellsFrom, scriptIsPushOnlyFrom, CutShort]
    by_cases hstop : ∀ op data rest, scriptGetOpAnySize bs = some (op, data, rest) → op16 < op
    · have htells : TellsFrom (fuel + 1) bs ↔ scriptIsPushOnlyFrom (fuel + 1) bs = some false := by
        simp [TellsFrom, pushesTo_iff_eq hstop, hne.symm]
      simp only [htells, pushesTo_iff_eq hstop, forall_eq]
      by_cases hcut : CutShort bs
      · rw [scriptIsPushOnlyFrom_cutShort hfuel hcut]
        exact ⟨fun h _ => h, fun h => h hcut⟩
      · exact iff_of_true (scriptIsPushOnlyFrom_stop fuel hne hcut hstop) fun h => absurd h hcut
    · push Not at hstop
      obtain ⟨op, data, rest, hop, hpush⟩ := hstop
      rw [UInt8.not_lt] at hpush
      obtain ⟨hrun, hlt⟩ := scriptIsPushOnlyFrom_step fuel hsize hop hpush
      have hread : ¬CutShort bs := fun hcut => by simp [hcut.getOp] at hop
      have htells : TellsFrom (fuel + 1) bs ↔ TellsFrom fuel rest := by
        simp [TellsFrom, hrun, pushesTo_iff hop hpush, hne.symm]
      rw [htells, ih (by omega) (by omega)]
      simp only [pushesTo_iff hop hpush, or_imp, forall_and, forall_eq, hread, false_imp_iff,
        true_and]

/-- The test is right unless the script ends in the middle of a push; then it is right exactly if
that push is an `OP_PUSHDATA4` that declares at least `2 ^ 32 - 4` bytes. -/
theorem scriptIsPushOnly_iff (s : Script) :
    TellsPushOnly s ↔ ∀ tail, PushesTo s.data tail → CutShort tail → DeclaresMost tail :=
  tellsFrom_iff (Nat.le_refl _) s.size_le

/-- A push of five bytes that are not there passes, and with the length `2 ^ 32 - 5` the loop never
ends. -/
theorem truncatedPush_passes :
    (scriptIsPushOnly { data := [0x05] } = some true ∧ ¬PushesTo [0x05] []) ∧
      scriptIsPushOnly { data := [0x4e, 0xfb, 0xff, 0xff, 0xff] } = none := by
  refine ⟨⟨by decide, ?_⟩, by decide⟩
  have hop : scriptGetOpAnySize [0x05] = none := by decide
  rw [pushesTo_iff_eq (by simp [hop])]
  decide

/-- The opcodes up to the end of the script or to the first push that runs past it. -/
def opcodesFrom : ℕ → List UInt8 → List UInt8
  | 0, _ => []
  | fuel + 1, bs =>
    match scriptGetOpAnySize bs with
    | none => []
    | some (op, _, rest) => op :: opcodesFrom fuel rest

/-- Those from the first push of more than `MAX_SCRIPT_ELEMENT_SIZE` bytes on. -/
def opcodesFromLongPush : ℕ → List UInt8 → List UInt8
  | 0, _ => []
  | fuel + 1, bs =>
    match scriptGetOpAnySize bs with
    | none => []
    | some (op, data, rest) =>
      if data.length ≤ maxScriptElementSize then opcodesFromLongPush fuel rest
      else op :: opcodesFrom fuel rest

/-- What an opcode counts for, a multisig always with its maximum. -/
def sigOpsOf (flags : UInt32) (op : UInt8) : ℕ :=
  if op = opChecksig ∨ op = opChecksigverify then 1
  else if op = opCheckmultisig ∨ op = opCheckmultisigverify then 20
  else if (op = opCheckdatasig ∨ op = opCheckdatasigverify) ∧
    flags &&& scriptVerifyCheckdatasigSigops ≠ 0 then 1
  else 0

def sigOpsTotal (flags : UInt32) (ops : List UInt8) : ℕ := (ops.map (sigOpsOf flags)).sum

theorem opSigOps_false (flags : UInt32) (last op : UInt8) :
    opSigOps flags false last op = sigOpsOf flags op := by
  unfold opSigOps sigOpsOf
  by_cases hdata : op = opCheckdatasig ∨ op = opCheckdatasigverify
  · rcases hdata with rfl | rfl <;> simp [opCheckdatasig, opCheckdatasigverify, opChecksig,
      opChecksigverify, opCheckmultisig, opCheckmultisigverify, bne]
  · simp [hdata]

theorem sigOpCountFrom_add (flags : UInt32) (fuel : ℕ) (last : UInt8) (bs : List UInt8) :
    sigOpCountFrom flags false fuel last bs + sigOpsTotal flags (opcodesFromLongPush fuel bs) =
      sigOpsTotal flags (opcodesFrom fuel bs) := by
  induction fuel generalizing last bs with
  | zero => rfl
  | succ fuel ih =>
    rw [sigOpCountFrom, opcodesFromLongPush, opcodesFrom, scriptGetOp_eq]
    cases hop : scriptGetOpAnySize bs with
    | none => rfl
    | some x =>
      obtain ⟨op, data, rest⟩ := x
      by_cases hshort : data.length ≤ maxScriptElementSize
      · have hrest := ih op rest
        simp only [Option.filter, hshort, decide_true, if_true, opSigOps_false, sigOpsTotal,
          map_cons, sum_cons] at hrest ⊢
        omega
      · simp [Option.filter, hshort]

/-- The count covers the whole script exactly if nothing counts from the first push that does not
fit the buffer on. -/
theorem scriptGetSigOpCount_whole_iff (s : List UInt8) (flags : UInt32) :
    scriptGetSigOpCount s flags false = sigOpsTotal flags (opcodesFrom s.length s) ↔
      ∀ op ∈ opcodesFromLongPush s.length s, sigOpsOf flags op = 0 := by
  rw [← sigOpCountFrom_add flags s.length opInvalidopcode s, scriptGetSigOpCount,
    Nat.left_eq_add, sigOpsTotal, sum_eq_zero_iff]
  simp

def longPushScript : List UInt8 := [0x4d, 0x09, 0x02] ++ replicate 521 0 ++ [opChecksig]

theorem longPush_hidesChecksig : scriptGetSigOpCount longPushScript 0 false = 0 ∧
    sigOpsTotal 0 (opcodesFrom longPushScript.length longPushScript) = 1 := by
  decide +kernel

end ZClassic
