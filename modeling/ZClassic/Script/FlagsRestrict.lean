import ZClassic.Script.Interpreter

/-!
# Verification flags only restrict

With more flags every opcode does what it does with fewer, or fails.
-/

namespace ZClassic

open StackProg

/-- The flags of `f` are among those of `g`, and no NOP is discouraged that `g` executes. -/
structure FewerFlags (f g : UInt32) : Prop where
  subset : FlagsSubset f g
  nops : hasFlag f scriptVerifyDiscourageUpgradableNops = false ∨
    hasFlag f scriptVerifyChecklocktimeverify = hasFlag g scriptVerifyChecklocktimeverify

variable {E : ScriptEnv} {f g : UInt32} {script : Script}

theorem looks_needItems (n : ℕ) : (needItems n).Looks :=
  (looks_count _).bind fun _ => looks_failIf ..

theorem looks_snFromTop (flags : UInt32) (i maxSize : ℕ) : (snFromTop flags i maxSize).Looks := by
  refine (looks_top ..).bind fun item => ?_
  split <;> trivial

theorem restricts_topEmptyIf {p q : Prop} [Decidable p] [Decidable q] (hqp : q → p)
    (e : ScriptError) : Restricts (topEmptyIf p e) (topEmptyIf q e) := by
  unfold topEmptyIf
  by_cases hp : p
  · rw [if_pos hp]
    by_cases hq : q
    · rw [if_pos hq]
      exact .refl _
    · rw [if_neg hq]
      exact .of_looks ((looks_top ..).bind fun _ => looks_failIf ..)
  · rw [if_neg hp, if_neg fun hq => hp (hqp hq)]
    exact .refl _

section Opcodes

variable (h : FewerFlags f g)
include h

theorem restricts_snFromTop (i maxSize : ℕ) :
    Restricts (snFromTop g i maxSize) (snFromTop f i maxSize) := by
  apply Restricts.after
  intro item
  cases hg : scriptNumFromBytes item (hasFlag g scriptVerifyMinimaldata) maxSize with
  | none => exact .fail _ _
  | some n =>
    rw [scriptNumFromBytes_minimal h.subset.hasFlag hg]
    exact .refl _

variable (sig : List UInt8) (verify : Bool) (nestCap : Option ℕ) (c : ScriptControl)

theorem restricts_signature :
    Restricts (ofExcept (checkTransactionSignatureEncoding E.crypto g sig) : ScriptProg Unit)
      (ofExcept (checkTransactionSignatureEncoding E.crypto f sig)) :=
  .ofExcept fun _ hg => transactionSignature_fewer h.subset hg

theorem restricts_dataSignature :
    Restricts (ofExcept (checkDataSignatureEncoding E.crypto g sig) : ScriptProg Unit)
      (ofExcept (checkDataSignatureEncoding E.crypto f sig)) :=
  .ofExcept fun _ hg => dataSignature_fewer h.subset hg

theorem restricts_pubkeyEncoding (pubkey : List UInt8) :
    Restricts (ofExcept (checkPubkeyEncoding g pubkey) : ScriptProg Unit)
      (ofExcept (checkPubkeyEncoding f pubkey)) :=
  .ofExcept fun _ hg => checkPubkeyEncoding_fewer h.subset hg

/-- Without the flag the opcode does nothing, unless NOPs are discouraged; then both have the
flag or none has. -/
theorem restricts_checklocktimeverify :
    Restricts (execChecklocktimeverify E g) (execChecklocktimeverify E f) := by
  unfold execChecklocktimeverify
  by_cases hf : hasFlag f scriptVerifyChecklocktimeverify = true
  · rw [if_pos (h.subset.hasFlag hf), if_pos hf]
    apply Restricts.after
    intro _
    exact (restricts_snFromTop h 1 5).bind fun _ => .refl _
  · rw [if_neg hf]
    by_cases hg : hasFlag g scriptVerifyChecklocktimeverify = true
    · have hnops : hasFlag f scriptVerifyDiscourageUpgradableNops = false := by
        rcases h.nops with hnops | hsame
        · exact hnops
        · exact absurd (hsame.trans hg) hf
      rw [if_pos hg, hnops]
      -- the program for `g` looks at the stack and may fail, nothing else
      exact .of_looks ((looks_needItems 1).bind fun _ => (looks_snFromTop g 1 5).bind fun _ =>
        (looks_failIf ..).bind fun _ => looks_failIf ..)
    · rw [if_neg hg]
      exact .failIf h.subset.hasFlag _

theorem restricts_nullfail {p q : Prop} [Decidable p] [Decidable q] (e : ScriptError) :
    Restricts (failIf (p ∧ hasFlag g scriptVerifyNullfail ∧ q) e : ScriptProg Unit)
      (failIf (p ∧ hasFlag f scriptVerifyNullfail ∧ q) e) :=
  .failIf (fun hf => ⟨hf.1, h.subset.hasFlag hf.2.1, hf.2.2⟩) e

theorem restricts_encodedPair (isig ikey : ℕ) :
    Restricts (encodedPair E g isig ikey) (encodedPair E f isig ikey) := by
  refine .after _ fun sig => .after _ fun pk => (restricts_signature h sig).bind fun _ => ?_
  exact (restricts_pubkeyEncoding h pk).bind fun _ => .refl _

theorem restricts_checksig :
    Restricts (execChecksig E g script verify) (execChecksig E f script verify) := by
  refine .after _ fun _ => (restricts_encodedPair h ..).bind fun _ => ?_
  exact (restricts_nullfail h _).bind fun _ => .refl _

theorem restricts_checkdatasig :
    Restricts (execCheckdatasig E g verify) (execCheckdatasig E f verify) := by
  refine .after _ fun _ => .after _ fun sig => .after _ fun msg => .after _ fun pk => ?_
  refine (restricts_dataSignature h sig).bind fun _ => ?_
  refine (restricts_pubkeyEncoding h pk).bind fun _ => ?_
  exact (restricts_nullfail h _).bind fun _ => .refl _

theorem restricts_execPlain (op : PlainOp) :
    Restricts (execPlain E g script op) (execPlain E f script op) := by
  cases op with
  | opChecklocktimeverify => exact restricts_checklocktimeverify h
  | upgradableNop => exact .failIf h.subset.hasFlag _
  | opPick =>
    exact .after _ fun _ => (restricts_snFromTop h _ _).bind fun _ => .refl _
  | opRoll =>
    exact .after _ fun _ => (restricts_snFromTop h _ _).bind fun _ => .refl _
  | unary u => exact .after _ fun _ => (restricts_snFromTop h _ _).bind fun _ => .refl _
  | binary b =>
    exact .after _ fun _ => (restricts_snFromTop h _ _).bind fun _ =>
      (restricts_snFromTop h _ _).bind fun _ => .refl _
  | opWithin =>
    exact .after _ fun _ => (restricts_snFromTop h _ _).bind fun _ =>
      (restricts_snFromTop h _ _).bind fun _ => (restricts_snFromTop h _ _).bind fun _ => .refl _
  | opChecksig verify => exact restricts_checksig h verify
  | opCheckdatasig verify => exact restricts_checkdatasig h verify
  | _ => exact .refl _

theorem restricts_multisigLoop (nKeysCount ikey isig nSigsCount : ℕ) :
    Restricts (multisigLoop E g script nKeysCount ikey isig nSigsCount)
      (multisigLoop E f script nKeysCount ikey isig nSigsCount) := by
  induction nKeysCount generalizing ikey isig nSigsCount with
  | zero =>
    cases nSigsCount with
    | zero => exact .refl _
    | succ n => exact .refl _
  | succ nKeysCount ih =>
    cases nSigsCount with
    | zero => exact .refl _
    | succ n =>
      refine (restricts_encodedPair h ..).bind fun (sig, pk) => ?_
      dsimp only
      generalize (if E.checkSig script sig pk = true then n else n + 1) = left
      by_cases hleft : nKeysCount < left
      · rw [if_pos hleft, if_pos hleft]
        exact .refl _
      · rw [if_neg hleft, if_neg hleft]
        exact ih ..

theorem restricts_multisigPops (fSuccess : Bool) (n ikey2 : ℕ) :
    Restricts (multisigPops g fSuccess n ikey2) (multisigPops f fSuccess n ikey2) := by
  induction n generalizing ikey2 with
  | zero => exact .refl _
  | succ n ih =>
    apply Restricts.bind
    · exact restricts_topEmptyIf (fun hf => ⟨hf.1, h.subset.hasFlag hf.2.1, hf.2.2⟩) _
    · exact fun _ => .after _ fun _ => ih _

theorem restricts_checkmultisig (nOpCount : ℕ) :
    Restricts (execCheckmultisig E g script verify nOpCount)
      (execCheckmultisig E f script verify nOpCount) := by
  have hcount : ∀ n i, ∀ k : ℤ → ScriptProg ℕ, Restricts
      (needItems n >>= fun _ => snFromTop g i scriptNumDefaultMaxSize >>= k)
      (needItems n >>= fun _ => snFromTop f i scriptNumDefaultMaxSize >>= k) :=
    fun n i k => .after _ fun _ => (restricts_snFromTop h _ _).bind fun _ => .refl _
  refine (hcount ..).bind fun nKeysCount => (hcount ..).bind fun nSigsCount => ?_
  refine (restricts_multisigLoop h ..).bind fun fSuccess => ?_
  refine (restricts_multisigPops h ..).bind fun _ => .after _ fun _ => ?_
  exact (restricts_topEmptyIf h.subset.hasFlag _).bind fun _ => .refl _

theorem restricts_execOpcode (op : Opcode) :
    Restricts (execOpcode E g script nestCap c op) (execOpcode E f script nestCap c op) := by
  cases op with
  | plain p => exact (restricts_execPlain h p).bind fun _ => .refl _
  | opCheckmultisig verify => exact (restricts_checkmultisig h verify _).bind fun _ => .refl _
  | _ => exact .refl _

theorem restricts_execRound (opcode : UInt8) (pushData : List UInt8) :
    Restricts (execRound E g script nestCap c opcode pushData)
      (execRound E f script nestCap c opcode pushData) := by
  refine .after _ fun _ => .after _ fun _ => .after _ fun _ => ?_
  by_cases hpush : c.fExec = true ∧ opcode ≤ opPushdata4
  · rw [if_pos hpush, if_pos hpush]
    apply Restricts.bind
    · exact .failIf (fun hf => ⟨h.subset.hasFlag hf.1, hf.2⟩) _
    · exact fun _ => .refl _
  · rw [if_neg hpush, if_neg hpush]
    by_cases hexec : c.fExec = true ∨ opIf ≤ opcode ∧ opcode ≤ opEndif
    · rw [if_pos hexec, if_pos hexec]
      exact restricts_execOpcode h ..
    · rw [if_neg hexec, if_neg hexec]
      exact .refl _

end Opcodes

section Scripts

variable {M : ScriptMachine} (hM : M.ReadsKeep) (h : FewerFlags f g)
include hM h

theorem evalFrom_fewer {bs : List UInt8} {c : ScriptControl} {s : TwoStacks M.Stack}
    {r : ScriptControl × TwoStacks M.Stack} (hg : evalFrom M E g script bs c s = .ok r) :
    evalFrom M E f script bs c s = .ok r := by
  induction bs using scriptInduction generalizing c s with
  | nil => exact hg
  | cons b bs ih =>
    rw [evalFrom_cons] at hg ⊢
    cases hop : scriptGetOp (b :: bs) with
    | none =>
      rw [hop] at hg
      cases hg
    | some x =>
      obtain ⟨opcode, pushData, rest⟩ := x
      simp only [hop] at hg ⊢
      cases hround : M.run (execRound E g script M.nestCap c opcode pushData) s with
      | error stop =>
        simp only [hround] at hg
        cases hg
      | ok y =>
        obtain ⟨c', s'⟩ := y
        simp only [hround] at hg
        rw [(restricts_execRound h _ _ _ _).run_eq_ok hM hround]
        by_cases hlarge : M.tooLarge s' = true
        · simp only [hlarge, if_true] at hg
          cases hg
        · simp only [hlarge] at hg ⊢
          exact ih _ _ _ hop hg

theorem evalScript_fewer {stack stack' : M.Stack}
    (hg : evalScript M E g script stack = .ok stack') :
    evalScript M E f script stack = .ok stack' := by
  unfold evalScript at hg ⊢
  rw [refuseIf_bind_eq_ok] at hg ⊢
  obtain ⟨hsize, hg⟩ := hg
  refine ⟨hsize, ?_⟩
  obtain ⟨r, hfrom, hrest⟩ := bind_eq_ok hg
  rw [evalFrom_fewer hM h hfrom]
  exact hrest

end Scripts

theorem fixedMachine_readsKeep : fixedMachine.ReadsKeep :=
  slotStacks_readsKeep maxStackItems emptyItem

theorem requirePushOnly_of_imp {p q : Prop} [Decidable p] [Decidable q] (hqp : q → p) {s : Script}
    (h : requirePushOnly p s = .ok ()) : requirePushOnly q s = .ok () := by
  by_cases hq : q
  · rw [requirePushOnly, if_pos hq]
    rwa [requirePushOnly, if_pos (hqp hq)] at h
  · exact if_neg hq

variable {scriptSig : Script}

theorem verifyRedeemScript_fewer (h : FewerFlags f g) {stack stackCopy stack' : ScriptStack}
    (hg : verifyRedeemScript E g scriptSig stack stackCopy = .ok stack') :
    verifyRedeemScript E f scriptSig stack stackCopy = .ok stack' := by
  unfold verifyRedeemScript at hg ⊢
  obtain ⟨⟨⟩, hpush, hg⟩ := bind_eq_ok hg
  rw [hpush, ok_bind]
  rw [refuseIf_bind_eq_ok] at hg ⊢
  refine ⟨hg.1, ?_⟩
  obtain ⟨serialized, htop, heval⟩ := bind_eq_ok hg.2
  rw [htop, ok_bind]
  obtain ⟨stack₁, heval, htrue⟩ := bind_eq_ok heval
  rw [evalScript_fewer fixedMachine_readsKeep h heval]
  exact htrue

theorem verifyP2sh_fewer (h : FewerFlags f g) (hf : hasFlag f scriptVerifyP2sh = true)
    {scriptPubKey : Script} {stack stackCopy stack' : ScriptStack}
    (hg : verifyP2sh E g scriptSig scriptPubKey stack stackCopy = .ok stack') :
    verifyP2sh E f scriptSig scriptPubKey stack stackCopy = .ok stack' := by
  unfold verifyP2sh at hg ⊢
  by_cases hp : scriptIsPayToScriptHash scriptPubKey = true
  · rw [if_pos ⟨h.subset.hasFlag hf, hp⟩] at hg
    rw [if_pos ⟨hf, hp⟩]
    exact verifyRedeemScript_fewer h hg
  · rw [if_neg fun hand => hp hand.2] at hg ⊢
    exact hg

/-- Flags only restrict: what is accepted with more of them is accepted with fewer. -/
theorem verifyScript_fewer (E : ScriptEnv) (scriptSig scriptPubKey : Script) (f g : UInt32)
    (hsubset : FlagsSubset f g)
    (hclean : hasFlag f scriptVerifyCleanstack → hasFlag f scriptVerifyP2sh)
    (hnops : ¬hasFlag f scriptVerifyDiscourageUpgradableNops ∨
      hasFlag f scriptVerifyChecklocktimeverify = hasFlag g scriptVerifyChecklocktimeverify)
    (hg : verifyScript E g scriptSig scriptPubKey = .ok ()) :
    verifyScript E f scriptSig scriptPubKey = .ok () := by
  have h : FewerFlags f g := ⟨hsubset, hnops.imp_left Bool.eq_false_of_not_eq_true⟩
  unfold verifyScript at hg ⊢
  obtain ⟨⟨⟩, hpush, hg⟩ := bind_eq_ok hg
  rw [requirePushOnly_of_imp hsubset.hasFlag hpush, ok_bind]
  obtain ⟨stack, hsig, hg⟩ := bind_eq_ok hg
  rw [evalScript_fewer fixedMachine_readsKeep h hsig, ok_bind]
  obtain ⟨stack₁, hpub, hg⟩ := bind_eq_ok hg
  rw [evalScript_fewer fixedMachine_readsKeep h hpub, ok_bind]
  obtain ⟨⟨⟩, htrue, hg⟩ := bind_eq_ok hg
  rw [htrue, ok_bind]
  obtain ⟨stack₂, hp2sh, hg⟩ := bind_eq_ok hg
  rw [refuseIf_bind_eq_ok, refuseIf_eq_ok_iff] at hg
  by_cases hf : hasFlag f scriptVerifyP2sh = true
  · -- with the flag in both sets the same branch is taken and the same stack is left
    rw [if_pos (hsubset.hasFlag hf)] at hp2sh
    rw [if_pos hf, verifyP2sh_fewer h hf hp2sh, ok_bind, refuseIf_bind_eq_ok, refuseIf_eq_ok_iff]
    exact ⟨fun hand => hand.2 hf, fun hand => hg.2 ⟨hsubset.hasFlag hand.1, hand.2⟩⟩
  · have hskip : ∀ copy, verifyP2sh E f scriptSig scriptPubKey stack₁ copy = .ok stack₁ :=
      fun copy => if_neg fun hand => hf hand.1
    rw [hskip, ok_bind, refuseIf_bind_eq_ok, refuseIf_eq_ok_iff]
    exact ⟨fun hand => hf (hclean hand.1), fun hand => hf (hclean hand.1)⟩

/-- `OP_1` spends `OP_CHECKLOCKTIMEVERIFY` with every flag, so also where it is a NOP. -/
theorem verifyScript_fewer_locktime :
    verifyScript plainEnv 0xfff { data := [0x51] } { data := [0xb1] } = .ok () ∧
      verifyScript plainEnv 0x1 { data := [0x51] } { data := [0xb1] } = .ok () := by
  have hall : verifyScript plainEnv 0xfff { data := [0x51] } { data := [0xb1] } = .ok () := by
    decide +kernel
  exact ⟨hall, verifyScript_fewer _ _ _ _ _ (by decide) (by decide) (.inl (by decide)) hall⟩

end ZClassic
