import ZClassic.Script.Multisig

/-!
# Signature checks of a script

How often one run of a script comes to the check of a transaction signature, against the count that
is made without running it.
-/

namespace ZClassic

open StackProg
open StackMachine (run_bind)

section Calls

variable (M : ScriptMachine) (E : ScriptEnv) (flags : UInt32) (script : Script)

abbrev SigPair := List UInt8 × List UInt8

/-- The pairs for which one run of the loop comes to `check_sig`. -/
def multisigAsked : ℕ → ℕ → ℕ → ℕ → TwoStacks M.Stack → List SigPair
  | _, _, _, 0, _ => []
  | 0, _, _, _, _ => []
  | nKeysCount + 1, ikey, isig, nSigsCount + 1, s =>
    match M.run (encodedPair E flags isig ikey) s with
    | .error _ => []
    | .ok ((sig, pk), s) =>
      let fOk := E.checkSig script sig pk
      let isig := if fOk then isig + 1 else isig
      let nSigsCount := if fOk then nSigsCount else nSigsCount + 1
      (sig, pk) :: if nKeysCount < nSigsCount then []
        else multisigAsked nKeysCount (ikey + 1) isig nSigsCount s

def opcodeAsked (nOpCount : ℕ) (opcode : UInt8) (s : TwoStacks M.Stack) : List SigPair :=
  if opcode = opChecksig ∨ opcode = opChecksigverify then
    match M.run (needItems 2 >>= fun _ => encodedPair E flags 2 1) s with
    | .error _ => []
    | .ok (pair, _) => [pair]
  else if opcode = opCheckmultisig ∨ opcode = opCheckmultisigverify then
    match M.run (multisigKeyCount flags nOpCount) s with
    | .error _ => []
    | .ok (nKeysCount, s) =>
      match M.run (multisigSigCount flags nKeysCount) s with
      | .error _ => []
      | .ok (nSigsCount, s) =>
        multisigAsked M E flags script nKeysCount 2 (nKeysCount + 3) nSigsCount s
  else []

/-- Those of the opcode loop, from the bytes on that are left. -/
def evalAsked : ℕ → List UInt8 → ScriptControl → TwoStacks M.Stack → List SigPair
  | 0, _, _, _ => []
  | fuel + 1, bs, c, s =>
    match scriptGetOp bs with
    | none => []
    | some (opcode, pushData, rest) =>
      (if c.fExec ∧ c.nOpCount < 201 then
        opcodeAsked M E flags script (c.nOpCount + 1) opcode s else []) ++
      match M.run (execRound E flags script M.nestCap c opcode pushData) s with
      | .error _ => []
      | .ok (c, s) => if M.tooLarge s then [] else evalAsked fuel rest c s

def evalScriptAsked (stack : M.Stack) : List SigPair :=
  evalAsked M E flags script script.size script.data {} ⟨stack, M.empty⟩

/-- How often it comes to it. -/
def evalScriptCalls (stack : M.Stack) : ℕ := (evalScriptAsked M E flags script stack).length

end Calls

section FailIf

variable {M : StackMachine (List UInt8)} {p : Prop} [Decidable p] {e : ScriptError}
  {s : TwoStacks M.Stack}

theorem run_failIf {x : Unit × TwoStacks M.Stack} (h : M.run (failIf p e) s = .ok x) :
    ¬p ∧ x = ((), s) := by
  unfold failIf at h
  split at h
  · cases h
  · next hp => exact ⟨hp, (Except.ok.inj h).symm⟩

theorem run_failIf_congr {α : Type}
    {f g : Unit × TwoStacks M.Stack → Except (ProgStop ScriptError) α}
    (h : ¬p → f ((), s) = g ((), s)) :
    M.run (failIf p e) s >>= f = M.run (failIf p e) s >>= g := by
  unfold failIf
  split
  · rfl
  · next hp => exact h hp

end FailIf

section Asked

variable {M : ScriptMachine} {E E' : ScriptEnv} {flags : UInt32} {script : Script}

/-- The environments differ in `check_sig` only, and answer the pairs alike. -/
structure SameAnswers (E E' : ScriptEnv) (script : Script) (pairs : List SigPair) : Prop where
  rest : E' = { E with checker := { E.checker with checkSig := E'.checker.checkSig } }
  answers : ∀ p ∈ pairs, E'.checkSig script p.1 p.2 = E.checkSig script p.1 p.2

theorem SameAnswers.encodedPair {pairs : List SigPair} (h : SameAnswers E E' script pairs)
    (isig ikey : ℕ) : encodedPair E' flags isig ikey = encodedPair E flags isig ikey := by
  rw [h.rest]
  rfl

theorem multisigLoop_same (nKeysCount ikey isig nSigsCount : ℕ) (s : TwoStacks M.Stack)
    (h : SameAnswers E E' script
      (multisigAsked M E flags script nKeysCount ikey isig nSigsCount s)) :
    M.run (multisigLoop E' flags script nKeysCount ikey isig nSigsCount) s =
      M.run (multisigLoop E flags script nKeysCount ikey isig nSigsCount) s := by
  induction nKeysCount generalizing ikey isig nSigsCount s with
  | zero => cases nSigsCount <;> rfl
  | succ n ih =>
    cases nSigsCount with
    | zero => rfl
    | succ m =>
      rw [multisigLoop, multisigLoop, h.encodedPair, run_bind, run_bind]
      rw [multisigAsked] at h
      cases hrun : M.run (encodedPair E flags isig ikey) s with
      | error e => rfl
      | ok x =>
        rw [hrun] at h
        obtain ⟨hfirst, hrest⟩ := List.forall_mem_cons.mp h.answers
        dsimp only at hfirst hrest
        simp only [ok_bind, hfirst]
        split_ifs at hrest ⊢
        all_goals first | rfl | exact ih _ _ _ _ ⟨h.rest, hrest⟩

theorem decodeOpcode_sig : ∀ (opcode : UInt8) (verify : Bool),
    (decodeOpcode opcode = .plain (.opChecksig verify) →
      opcode = opChecksig ∨ opcode = opChecksigverify) ∧
    (decodeOpcode opcode = .opCheckmultisig verify →
      opcode = opCheckmultisig ∨ opcode = opCheckmultisigverify) := by
  refine forall_uint8 ?_
  decide +kernel

theorem execOpcode_same {opcode : UInt8} {c : ScriptControl} {s : TwoStacks M.Stack}
    (h : SameAnswers E E' script (opcodeAsked M E flags script c.nOpCount opcode s)) :
    M.run (execOpcode E' flags script M.nestCap c (decodeOpcode opcode)) s =
      M.run (execOpcode E flags script M.nestCap c (decodeOpcode opcode)) s := by
  unfold opcodeAsked at h
  cases hop : decodeOpcode opcode with
  | opCheckmultisig verify =>
    have hopcode := (decodeOpcode_sig opcode verify).2 hop
    rw [if_neg (by rcases hopcode with rfl | rfl <;> decide), if_pos hopcode] at h
    simp only [execOpcode, execCheckmultisig, run_bind]
    cases hkeys : M.run (multisigKeyCount flags c.nOpCount) s with
    | error e => rfl
    | ok x =>
      rw [hkeys] at h
      simp only [ok_bind]
      cases hsigs : M.run (multisigSigCount flags x.1) x.2 with
      | error e => rfl
      | ok y =>
        simp only [hsigs] at h
        simp only [ok_bind, multisigLoop_same _ _ _ _ _ h]
  | plain op =>
    cases op with
    | opChecksig verify =>
      rw [if_pos ((decodeOpcode_sig opcode verify).1 hop), run_bind] at h
      simp only [execOpcode, execPlain, execChecksig, run_bind, h.encodedPair]
      cases hneed : M.run (needItems 2) s with
      | error e => rfl
      | ok x =>
        simp only [hneed, ok_bind] at h ⊢
        cases hpair : M.run (encodedPair E flags 2 1) x.2 with
        | error e => rfl
        | ok y =>
          rw [hpair] at h
          simp only [ok_bind, h.answers y.1 List.mem_cons_self]
    | _ => rw [h.rest]; rfl
  | _ => rfl

theorem execRound_same {opcode : UInt8} {pushData : List UInt8} {c : ScriptControl}
    {s : TwoStacks M.Stack} (h : SameAnswers E E' script (if c.fExec ∧ c.nOpCount < 201 then
      opcodeAsked M E flags script (c.nOpCount + 1) opcode s else [])) :
    M.run (execRound E' flags script M.nestCap c opcode pushData) s =
      M.run (execRound E flags script M.nestCap c opcode pushData) s := by
  -- what runs in a branch not taken asks for nothing
  have hbelow : opcode < opChecksig → ∀ n,
      SameAnswers E E' script (opcodeAsked M E flags script n opcode s) := by
    intro hlt n
    refine ⟨h.rest, ?_⟩
    rw [opcodeAsked, if_neg, if_neg]
    · nofun
    all_goals rintro (rfl | rfl) <;> exact absurd hlt (by decide)
  simp only [execRound, run_bind]
  refine run_failIf_congr fun _ => run_failIf_congr fun hcount => run_failIf_congr fun _ => ?_
  by_cases hpush : c.fExec = true ∧ opcode ≤ opPushdata4
  · rw [if_pos hpush, if_pos hpush]
  by_cases hexec : c.fExec = true ∨ opIf ≤ opcode ∧ opcode ≤ opEndif
  · rw [if_neg hpush, if_neg hpush, if_pos hexec, if_pos hexec]
    apply execOpcode_same
    by_cases hop : op16 < opcode
    · by_cases hc : c.fExec = true
      · rw [if_pos hop] at hcount ⊢
        rwa [if_pos ⟨hc, by_contra fun hmany => hcount ⟨hop, by omega⟩⟩] at h
      · have hend := (hexec.resolve_left hc).2
        exact hbelow (UInt8.lt_of_le_of_lt hend (by decide)) _
    · exact hbelow (UInt8.lt_of_le_of_lt (UInt8.not_lt.mp hop) (by decide)) _
  · rw [if_neg hpush, if_neg hpush, if_neg hexec, if_neg hexec]

theorem evalLoop_same (fuel : ℕ) (bs : List UInt8) (c : ScriptControl) (s : TwoStacks M.Stack)
    (h : SameAnswers E E' script (evalAsked M E flags script fuel bs c s)) :
    evalLoop M E' flags script fuel bs c s = evalLoop M E flags script fuel bs c s := by
  induction fuel generalizing bs c s with
  | zero => cases bs <;> rfl
  | succ fuel ih =>
    cases bs with
    | nil => rfl
    | cons b bs =>
      rw [evalLoop, evalLoop]
      rw [evalAsked] at h
      cases hop : scriptGetOp (b :: bs) with
      | none => rfl
      | some x =>
        simp only [hop] at h
        obtain ⟨hround, hrest⟩ := List.forall_mem_append.mp h.answers
        dsimp only
        rw [execRound_same ⟨h.rest, hround⟩]
        cases hrun : M.run (execRound E flags script M.nestCap c x.1 x.2.1) s with
        | error e => rfl
        | ok y =>
          simp only [hrun] at hrest ⊢
          split_ifs at hrest ⊢
          · rfl
          · exact ih _ _ _ ⟨h.rest, hrest⟩

/-- The result of a run depends on `check_sig` only through the answers to the pairs counted. -/
theorem evalScript_same {stack : M.Stack}
    (h : SameAnswers E E' script (evalScriptAsked M E flags script stack)) :
    evalScript M E' flags script stack = evalScript M E flags script stack := by
  have heval := evalLoop_same script.data.length script.data {} ⟨stack, M.empty⟩ h
  simp only [evalScript, evalFrom, heval]

end Asked

section Bound

variable {E : ScriptEnv} {flags : UInt32} {script : Script} {c : ScriptControl}
  {s : TwoStacks ScriptStack}

theorem multisigAsked_le {M : ScriptMachine} (nKeysCount ikey isig nSigsCount : ℕ)
    (s : TwoStacks M.Stack) :
    (multisigAsked M E flags script nKeysCount ikey isig nSigsCount s).length ≤ nKeysCount := by
  induction nKeysCount generalizing ikey isig nSigsCount s with
  | zero => cases nSigsCount <;> exact Nat.zero_le _
  | succ n ih =>
    cases nSigsCount with
    | zero => exact Nat.zero_le _
    | succ m =>
      rw [multisigAsked]
      split
      · exact Nat.zero_le _
      · refine Nat.succ_le_succ ?_
        split_ifs
        all_goals first | exact Nat.zero_le _ | exact ih ..

def smallIntegerItem (op : UInt8) : List UInt8 :=
  scriptNumSerialize ((op.toNat : ℤ) - (op1.toNat - 1)) scriptNumMaxSize

def OnTop (last : UInt8) (c : ScriptControl) (s : TwoStacks ScriptStack) : Prop :=
  op1 ≤ last ∧ last ≤ op16 → c.fExec = true → ∃ h, s.main.readTop 1 = .ok ⟨smallIntegerItem last, h⟩

variable {t : TwoStacks ScriptStack}

theorem run_top {item : List UInt8}
    (h : fixedMachine.run (top .main 1 : ScriptProg (List UInt8)) s = .ok (item, t)) :
    (s.main.readTop 1).map Subtype.val = .ok item := by
  cases hread : s.main.readTop 1 with
  | error f =>
    rw [top, StackMachine.run] at h
    simp only [TwoStacks.get, SlotStack.exec, hread] at h
    cases h
  | ok x =>
    rw [top, StackMachine.run] at h
    simp only [TwoStacks.get, SlotStack.exec, hread] at h
    cases h
    rfl

theorem multisigKeyCount_le {nOpCount nKeysCount : ℕ}
    (h : fixedMachine.run (multisigKeyCount flags nOpCount) s = .ok (nKeysCount, t)) :
    nKeysCount ≤ 20 ∧ ∃ item n, (s.main.readTop 1).map Subtype.val = .ok item ∧
      scriptNumFromBytes item (hasFlag flags scriptVerifyMinimaldata) scriptNumDefaultMaxSize =
        some n ∧ nKeysCount = (scriptNumGetInt n).toNat := by
  rw [multisigKeyCount, run_bind] at h
  obtain ⟨⟨⟨⟩, s₁⟩, hneed, h⟩ := bind_eq_ok h
  obtain ⟨-, hs₁⟩ := run_failIf hneed
  obtain ⟨-, rfl⟩ := Prod.mk.inj hs₁
  rw [run_bind, snFromTop, run_bind] at h
  obtain ⟨⟨n, s₂⟩, hsn, h⟩ := bind_eq_ok h
  obtain ⟨⟨item, s₃⟩, htop, hsn⟩ := bind_eq_ok hsn
  rw [run_bind] at h
  obtain ⟨⟨⟨⟩, s₄⟩, hrange, h⟩ := bind_eq_ok h
  rw [run_bind] at h
  obtain ⟨⟨⟨⟩, s₅⟩, -, h⟩ := bind_eq_ok h
  have hn : (scriptNumGetInt n).toNat = nKeysCount := congrArg Prod.fst (Except.ok.inj h)
  have hle := (run_failIf hrange).1
  dsimp only at hsn hle
  split at hsn
  · cases hsn
  · next m hm =>
    have hmn : m = n := congrArg Prod.fst (Except.ok.inj hsn)
    exact ⟨by omega, item, n, run_top htop, hmn ▸ hm, hn.symm⟩

variable {last : UInt8}

theorem OnTop.keyCount (h : OnTop last c s) (hexec : c.fExec = true) {nOpCount nKeysCount : ℕ}
    (hrun : fixedMachine.run (multisigKeyCount flags nOpCount) s = .ok (nKeysCount, t))
    (hlast : op1 ≤ last ∧ last ≤ op16) : nKeysCount = (last - (op1 - 1)).toNat := by
  obtain ⟨-, item, n, htop, hnum, rfl⟩ := multisigKeyCount_le hrun
  obtain ⟨hfits, hread⟩ := h hlast hexec
  rw [hread] at htop
  cases htop
  have hdecode : ∀ k ∈ List.range' 0x51 16, ∀ minimal : Bool,
      scriptNumFromBytes (smallIntegerItem (UInt8.ofNat k)) minimal scriptNumDefaultMaxSize =
        some ((UInt8.ofNat k - (op1 - 1)).toNat : ℤ) := by
    decide +kernel
  have hmem : last.toNat ∈ List.range' 0x51 16 :=
    List.mem_range'_1.mpr ⟨hlast.1, Nat.lt_succ_of_le hlast.2⟩
  have hlt := UInt8.toNat_lt (last - (op1 - 1))
  have hitem := hdecode _ hmem (hasFlag flags scriptVerifyMinimaldata)
  rw [UInt8.ofNat_toNat, hnum] at hitem
  rw [Option.some.inj hitem, scriptNumGetInt]
  omega

theorem readTop_push {stack t : ScriptStack} {x : List UInt8}
    (h : SlotStack.exec (.push x) stack = .ok ((), t)) : ∃ hx, t.readTop 1 = .ok ⟨x, hx⟩ := by
  rw [SlotStack.exec] at h
  split at h
  · next hroom =>
    obtain ⟨v, hwrite, hv⟩ := writeSlot_eq_ok stack.items hroom.1 ⟨x, hroom.2⟩
    rw [hwrite] at h
    cases h
    refine ⟨hroom.2, ?_⟩
    rw [SlotStack.readTop, if_neg (Nat.not_lt.mpr (Nat.le_add_left 1 _)), readSlot,
      Nat.add_sub_cancel, hv, if_pos rfl]
  · cases h

theorem onTop_round {nestCap : Option ℕ} {opcode : UInt8} {pushData : List UInt8}
    {c' : ScriptControl} {s' : TwoStacks ScriptStack}
    (h : fixedMachine.run (execRound E flags script nestCap c opcode pushData) s = .ok (c', s')) :
    OnTop opcode c' s' := by
  intro hop hexec
  have hpush : ¬opcode ≤ opPushdata4 :=
    UInt8.not_le.mpr (UInt8.lt_of_lt_of_le (show opPushdata4 < op1 by decide) hop.1)
  have hif : ¬(opIf ≤ opcode ∧ opcode ≤ opEndif) := fun hand =>
    UInt8.not_le.mpr (UInt8.lt_of_le_of_lt hop.2 (show op16 < opIf by decide)) hand.1
  have hdecode : decodeOpcode opcode =
      .plain (.smallInteger ((opcode.toNat : ℤ) - (op1.toNat - 1))) := if_pos (.inr hop)
  simp only [execRound, run_bind] at h
  obtain ⟨⟨⟨⟩, s₁⟩, h₁, h⟩ := bind_eq_ok h
  obtain ⟨⟨⟨⟩, s₂⟩, h₂, h⟩ := bind_eq_ok h
  obtain ⟨⟨⟨⟩, s₃⟩, h₃, h⟩ := bind_eq_ok h
  cases (run_failIf h₁).2
  cases (run_failIf h₂).2
  cases (run_failIf h₃).2
  rw [if_neg fun hand => hpush hand.2] at h
  by_cases hc : c.fExec = true
  · rw [if_pos (.inl hc), hdecode, execOpcode, run_bind] at h
    obtain ⟨⟨⟨⟩, t⟩, hplain, hc'⟩ := bind_eq_ok h
    cases hc'
    cases hpushed : SlotStack.exec (.push (smallIntegerItem opcode)) s.main with
    | error f => cases (fixedMachine.run_op_error hpushed).symm.trans hplain
    | ok x =>
      cases (fixedMachine.run_op_ok hpushed).symm.trans hplain
      exact readTop_push hpushed
  · rw [if_neg (by simp [hc, hif])] at h
    cases h
    exact absurd hexec hc

theorem opcodeAsked_le (h : OnTop last c s) (hexec : c.fExec = true) (nOpCount : ℕ)
    (opcode : UInt8) : (opcodeAsked fixedMachine E flags script nOpCount opcode s).length ≤
      opSigOps flags true last opcode := by
  unfold opcodeAsked
  split
  · next hsig =>
    rw [opSigOps, if_pos hsig]
    split <;> simp
  · next hsig =>
    split
    · next hmulti =>
      have hdata : ¬(opcode = opCheckdatasig ∨ opcode = opCheckdatasigverify) := by
        rcases hmulti with rfl | rfl <;> decide
      rw [opSigOps, if_neg hsig, if_neg hdata, if_pos hmulti]
      split
      · exact Nat.zero_le _
      · next nKeysCount t hkeys =>
        split
        · exact Nat.zero_le _
        · refine (multisigAsked_le ..).trans ?_
          by_cases hlast : op1 ≤ last ∧ last ≤ op16
          · rw [if_pos ⟨rfl, hlast⟩, h.keyCount hexec hkeys hlast]
          · rw [if_neg fun hand => hlast hand.2]
            exact (multisigKeyCount_le hkeys).1
    · exact Nat.zero_le _

theorem evalAsked_le (fuel : ℕ) (bs : List UInt8) (h : OnTop last c s) :
    (evalAsked fixedMachine E flags script fuel bs c s).length ≤
      sigOpCountFrom flags true fuel last bs := by
  induction fuel generalizing bs last c s with
  | zero => exact Nat.zero_le _
  | succ fuel ih =>
    rw [evalAsked, sigOpCountFrom]
    cases scriptGetOp bs with
    | none => exact Nat.zero_le _
    | some x =>
      obtain ⟨opcode, pushData, rest⟩ := x
      rw [List.length_append]
      refine Nat.add_le_add ?_ ?_
      · split
        · next hexec => exact opcodeAsked_le h hexec.1 _ opcode
        · exact Nat.zero_le _
      · split
        · exact Nat.zero_le _
        · next c' s' hround =>
          split
          · exact Nat.zero_le _
          · exact ih rest (onTop_round hround)

theorem sigOpCountFrom_accurate (fuel : ℕ) (last : UInt8) (bs : List UInt8) :
    sigOpCountFrom flags true fuel last bs ≤ sigOpCountFrom flags false fuel last bs := by
  induction fuel generalizing last bs with
  | zero => exact Nat.le_refl _
  | succ fuel ih =>
    rw [sigOpCountFrom, sigOpCountFrom]
    cases scriptGetOp bs with
    | none => exact Nat.le_refl _
    | some x =>
      obtain ⟨op, data, rest⟩ := x
      refine Nat.add_le_add ?_ (ih op rest)
      unfold opSigOps
      by_cases hlast : op1 ≤ last ∧ last ≤ op16
      · have hle : last.toNat ≤ 96 := hlast.2
        have hbase : (op1 - 1).toNat = 80 := by decide
        have hkeys := UInt8.toNat_sub_of_le last (op1 - 1) (UInt8.le_trans (by decide) hlast.1)
        simp only [hlast, and_self, Bool.false_eq_true, false_and, if_true, if_false]
        split_ifs <;> omega
      · simp only [hlast, and_false, if_false, Nat.le_refl]

end Bound

/-- Counting without running bounds the signature checks of every run. -/
theorem evalScriptCalls_le_sigOps (E : ScriptEnv) (flags : UInt32) (script : Script)
    (stack : ScriptStack) :
    evalScriptCalls fixedMachine E flags script stack ≤
        scriptGetSigOpCount script.data flags true ∧
      scriptGetSigOpCount script.data flags true ≤ scriptGetSigOpCount script.data flags false :=
  ⟨evalAsked_le _ _ fun hop => absurd hop.2 (by decide), sigOpCountFrom_accurate ..⟩

/-- One signature and two keys, of which the second one that is tried checks. -/
def oneOfTwo : Script where
  data := [0, 9] ++ encodedSig ++ [op1, 1, 2, 1, 3, 0x52, opCheckmultisig]
  size_le := by decide

theorem oneOfTwo_asked :
    evalScriptAsked fixedMachine oneKeyEnv 0 oneOfTwo fixedMachine.empty =
        [(encodedSig, [3]), (encodedSig, [2])] ∧
      2 ≤ scriptGetSigOpCount oneOfTwo.data 0 true := by
  have hasked : evalScriptAsked fixedMachine oneKeyEnv 0 oneOfTwo fixedMachine.empty =
      [(encodedSig, [3]), (encodedSig, [2])] := by decide +kernel
  have hle := (evalScriptCalls_le_sigOps oneKeyEnv 0 oneOfTwo fixedMachine.empty).1
  rw [evalScriptCalls, hasked] at hle
  exact ⟨hasked, hle⟩

end ZClassic
