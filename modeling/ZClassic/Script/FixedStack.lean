import ZClassic.Script.Interpreter

/-!
# The fixed stacks are exact

Each opcode keeps to the slots in use, and one that finds no room would leave more than 1000 items.
-/

namespace ZClassic

open StackProg SlotStack

/-- An item that found no room shows in the sizes afterwards. -/
def TooLargeIfMet (n : TwoStacks ℕ) (met : Prop) : Prop := met → 1000 < n.main + n.alt

variable {E : ScriptEnv} {flags : UInt32} {script : Script} {m a : ℕ}

variable {Q : Unit → TwoStacks ℕ → Prop → Prop} {k : ℕ} {met : Prop} {n : TwoStacks ℕ}
  {e : ScriptError} {opcode : UInt8} {c : ScriptControl} {pushData : List UInt8}
  {s : TwoStacks ScriptStack}

@[simp]
theorem wp_needItems : wp 1000 FitsElement Q (needItems k) n met ↔
      (n.main < k → ¬met) ∧ (k ≤ n.main → Q () n met) := by
  simp [needItems]

@[simp]
theorem wp_snSerializePush {v : ℤ} : wp 1000 FitsElement Q (snSerializePush v) n met ↔
      Q () (n.set .main (n.main + 1)) (met ∨ 1000 ≤ n.main) := by
  have hfits : FitsElement (scriptNumSerialize v scriptNumMaxSize) :=
    Nat.le_trans (scriptNumSerialize_length ..) (by decide)
  simp [snSerializePush, hfits]

@[simp]
theorem wp_pushBool {b : Bool} : wp 1000 FitsElement Q (pushBool b) n met ↔
      Q () (n.set .main (n.main + 1)) (met ∨ 1000 ≤ n.main) := by
  have hfits : FitsElement (if b then [1] else []) := by cases b <;> decide
  simp [pushBool, hfits]

theorem wp_pushVerdict (hm : m < 1000) (fSuccess verify : Bool) (e : ScriptError)
    (hkeep : Q () ⟨m + 1, a⟩ False) (hpop : Q () ⟨m, a⟩ False) :
    wp 1000 FitsElement Q (pushVerdict fSuccess verify e) ⟨m, a⟩ False := by
  have hroom : ¬1000 ≤ m := by omega
  cases verify <;> cases fSuccess <;> simp [pushVerdict, hroom, hkeep, hpop]

theorem wp_needs (h : k ≤ m → Q () ⟨m, a⟩ False) :
    wp 1000 FitsElement Q (needItems k) ⟨m, a⟩ False :=
  wp_needItems.mpr ⟨fun _ => not_false, h⟩

theorem wp_read {Q : List UInt8 → TwoStacks ℕ → Prop → Prop} {i : ℕ} (hi : 1 ≤ i ∧ i ≤ m)
    (h : ∀ item, FitsElement item → Q item ⟨m, a⟩ False) :
    wp 1000 FitsElement Q (top .main i : ScriptProg (List UInt8)) ⟨m, a⟩ False :=
  wp_top.mpr ⟨hi, h⟩

theorem wp_snFromTop {Q : ℤ → TwoStacks ℕ → Prop → Prop} {i maxSize : ℕ} (hi : 1 ≤ i ∧ i ≤ m)
    (h : ∀ v, Q v ⟨m, a⟩ False) :
    wp 1000 FitsElement Q (snFromTop flags i maxSize) ⟨m, a⟩ False := by
  refine wp_seq (wp_read hi fun item _ => ?_)
  cases scriptNumFromBytes item (hasFlag flags scriptVerifyMinimaldata) maxSize with
  | none => exact not_false
  | some v => exact h v

theorem wp_checked (x : Except ScriptError Unit) (h : Q () ⟨m, a⟩ False) :
    wp 1000 FitsElement Q (ofExcept x) ⟨m, a⟩ False :=
  wp_ofExcept.mpr ⟨fun _ _ => not_false, fun _ _ => h⟩

theorem wp_guard {c : Prop} [Decidable c] (h : ¬c → Q () ⟨m, a⟩ False) :
    wp 1000 FitsElement Q (failIf c e) ⟨m, a⟩ False :=
  wp_failIf.mpr ⟨fun _ => not_false, h⟩

theorem wp_drop (h : Q () ⟨m - 1, a⟩ False) :
    wp 1000 FitsElement Q (pop .main : ScriptProg Unit) ⟨m, a⟩ False :=
  wp_pop.mpr h

theorem wp_execPickRoll (hsize : m + a ≤ 1000) (roll : Bool) :
    wp 1000 FitsElement (fun _ => TooLargeIfMet) (execPickRoll flags roll) ⟨m, a⟩ False := by
  refine wp_seq (wp_needs fun hcount => ?_)
  refine wp_seq (wp_snFromTop (by omega) fun bn => ?_)
  -- the popped index makes room for the copy
  cases roll <;> simp [TooLargeIfMet] <;> grind

theorem wp_execBinary (hsize : m + a ≤ 1000) (b : BinaryOp) :
    wp 1000 FitsElement (fun _ => TooLargeIfMet) (execBinary flags b) ⟨m, a⟩ False := by
  refine wp_seq (wp_needs fun hcount => ?_)
  refine wp_seq (wp_snFromTop (by omega) fun bn1 => ?_)
  refine wp_seq (wp_snFromTop (by omega) fun bn2 => ?_)
  simp [TooLargeIfMet]
  grind

theorem wp_execChecklocktimeverify :
    wp 1000 FitsElement (fun _ => TooLargeIfMet) (execChecklocktimeverify E flags) ⟨m, a⟩
      False := by
  refine wp_ite.mpr ⟨fun _ => ?_, fun _ => wp_guard fun _ => False.elim⟩
  refine wp_seq (wp_needs fun hcount => ?_)
  refine wp_seq (wp_snFromTop (by omega) fun lockTime => ?_)
  exact wp_seq (wp_guard fun _ => wp_guard fun _ => False.elim)

theorem wp_encodedPair {Q : List UInt8 × List UInt8 → TwoStacks ℕ → Prop → Prop} {isig ikey : ℕ}
    (hsig : 1 ≤ isig ∧ isig ≤ m) (hkey : 1 ≤ ikey ∧ ikey ≤ m) (h : ∀ p, Q p ⟨m, a⟩ False) :
    wp 1000 FitsElement Q (encodedPair E flags isig ikey) ⟨m, a⟩ False := by
  refine wp_seq (wp_read hsig fun sig _ => wp_seq (wp_read hkey fun pk _ => ?_))
  exact wp_seq (wp_checked _ (wp_seq (wp_checked _ (h _))))

theorem wp_execChecksig (hsize : m + a ≤ 1000) (verify : Bool) :
    wp 1000 FitsElement (fun _ => TooLargeIfMet) (execChecksig E flags script verify) ⟨m, a⟩
      False := by
  refine wp_seq (wp_needs fun hcount => ?_)
  refine wp_seq (wp_encodedPair (by omega) (by omega) fun _ => ?_)
  refine wp_seq (wp_guard fun _ => wp_seq (wp_drop (wp_seq (wp_drop ?_))))
  exact wp_pushVerdict (by omega) _ _ _ False.elim False.elim

theorem wp_execCheckdatasig (hsize : m + a ≤ 1000) (verify : Bool) :
    wp 1000 FitsElement (fun _ => TooLargeIfMet) (execCheckdatasig E flags verify) ⟨m, a⟩
      False := by
  refine wp_seq (wp_needs fun hcount => ?_)
  refine wp_seq (wp_read (by omega) fun sig _ => ?_)
  refine wp_seq (wp_read (by omega) fun msg _ => ?_)
  refine wp_seq (wp_read (by omega) fun pk _ => ?_)
  refine wp_seq (wp_checked _ (wp_seq (wp_checked _ ?_)))
  refine wp_seq (wp_guard fun _ => wp_seq (wp_drop (wp_seq (wp_drop (wp_seq (wp_drop ?_))))))
  exact wp_pushVerdict (by omega) _ _ _ False.elim False.elim

theorem HashOp.fitsElement (crypto : ScriptCrypto) (data : List UInt8) (h : HashOp) :
    FitsElement (h.apply crypto data) := by
  cases h <;> simp [HashOp.apply, FitsElement, maxScriptElementSize]

/-- Whatever finds no room leaves more than 1000 items: the opcodes that push more than they take
push at the end. -/
theorem wp_execPlain (hsize : m + a ≤ 1000) (op : PlainOp) :
    wp 1000 FitsElement (fun _ => TooLargeIfMet) (execPlain E flags script op) ⟨m, a⟩ False := by
  cases op with
  | opChecklocktimeverify => exact wp_execChecklocktimeverify
  | opPick => exact wp_execPickRoll hsize false
  | opRoll => exact wp_execPickRoll hsize true
  | binary b => exact wp_execBinary hsize b
  | opWithin =>
    refine wp_seq (wp_needs fun hcount => ?_)
    refine wp_seq (wp_snFromTop (by omega) fun bn1 => ?_)
    refine wp_seq (wp_snFromTop (by omega) fun bn2 => ?_)
    refine wp_seq (wp_snFromTop (by omega) fun bn3 => ?_)
    simp [TooLargeIfMet]
    omega
  | opChecksig verify => exact wp_execChecksig hsize verify
  | opCheckdatasig verify => exact wp_execCheckdatasig hsize verify
  | opEqual verify =>
    refine wp_seq (wp_needs fun hcount => ?_)
    refine wp_seq (wp_read (by omega) fun v1 _ => ?_)
    refine wp_seq (wp_read (by omega) fun v2 _ => ?_)
    refine wp_seq (wp_drop (wp_seq (wp_drop ?_)))
    exact wp_pushVerdict (by omega) _ _ _ False.elim False.elim
  | unary u =>
    refine wp_seq (wp_needs fun hcount => ?_)
    refine wp_seq (wp_snFromTop (by omega) fun bn => wp_seq (wp_drop ?_))
    simp [TooLargeIfMet]
    omega
  | hash h =>
    simp [execPlain, TooLargeIfMet, h.fitsElement]
    grind
  | _ => simp [execPlain, TooLargeIfMet] <;> grind

/-- After a round: as above, and not more open conditionals than counted opcodes. -/
def RoundPost (c : ScriptControl) (n : TwoStacks ℕ) (met : Prop) : Prop :=
  TooLargeIfMet n met ∧ c.vfExec.length ≤ c.nOpCount ∧ c.nOpCount ≤ 201

theorem wp_topEmptyIf {c : Prop} [Decidable c] (hm : c → 1 ≤ m) (h : Q () ⟨m, a⟩ False) :
    wp 1000 FitsElement Q (topEmptyIf c e) ⟨m, a⟩ False := by
  refine wp_ite.mpr ⟨fun hc => ?_, fun _ => h⟩
  exact wp_seq (wp_read ⟨Nat.le_refl 1, hm hc⟩ fun _ _ => wp_guard fun _ => h)

theorem wp_multisigLoop {Q : Bool → TwoStacks ℕ → Prop → Prop} {nKeysCount ikey isig nSigsCount : ℕ}
    (hikey : 1 ≤ ikey ∧ ikey + nKeysCount ≤ m + 1) (hisig : 1 ≤ isig ∧ isig + nSigsCount ≤ m + 1)
    (h : ∀ b, Q b ⟨m, a⟩ False) :
    wp 1000 FitsElement Q (multisigLoop E flags script nKeysCount ikey isig nSigsCount) ⟨m, a⟩
      False := by
  induction nKeysCount generalizing ikey isig nSigsCount with
  | zero => cases nSigsCount <;> exact h _
  | succ nKeysCount ih =>
    cases nSigsCount with
    | zero => exact h true
    | succ nSigsCount =>
      refine wp_seq (wp_encodedPair (by omega) (by omega) fun (sig, pk) => ?_)
      refine wp_ite.mpr ⟨fun _ => h false, fun _ => ?_⟩
      -- a signature is used up with its key, or the key alone
      cases E.checkSig script sig pk
      · exact ih (by omega) hisig
      · exact ih (by omega) (by simp only [if_true]; omega)

theorem wp_multisigPops (fSuccess : Bool) {n ikey2 : ℕ} (hn : n ≤ m) (h : Q () ⟨m - n, a⟩ False) :
    wp 1000 FitsElement Q (multisigPops flags fSuccess n ikey2) ⟨m, a⟩ False := by
  induction n generalizing m ikey2 with
  | zero => exact h
  | succ n ih =>
    refine wp_seq (wp_topEmptyIf (fun _ => by omega) (wp_seq (wp_drop ?_)))
    refine ih (by omega) ?_
    rwa [Nat.sub_sub, Nat.add_comm 1 n]

theorem wp_execCheckmultisig {Q : ℕ → TwoStacks ℕ → Prop → Prop} (hsize : m + a ≤ 1000)
    (verify : Bool) {nOpCount : ℕ} (h : ∀ n k, nOpCount ≤ k → k ≤ 201 → Q k n False) :
    wp 1000 FitsElement Q (execCheckmultisig E flags script verify nOpCount) ⟨m, a⟩ False := by
  refine wp_seq (wp_seq (wp_needs fun hone => ?_))
  refine wp_seq (wp_snFromTop (by omega) fun bnKeys => ?_)
  refine wp_seq (wp_guard fun _ => wp_seq (wp_guard fun hops => ?_))
  refine wp_seq (wp_seq (wp_needs fun hkeys => ?_))
  refine wp_seq (wp_snFromTop (by omega) fun bnSigs => ?_)
  refine wp_seq (wp_guard fun _ => wp_seq (wp_needs fun hsigs => ?_))
  refine wp_seq (wp_multisigLoop (by omega) (by omega) fun fSuccess => ?_)
  refine wp_seq (wp_multisigPops fSuccess (by omega) (wp_seq (wp_needs fun hdummy => ?_)))
  refine wp_seq (wp_topEmptyIf (fun _ => hdummy) (wp_seq (wp_drop ?_)))
  refine wp_seq (wp_pushVerdict (by omega) _ _ _ ?_ ?_)
  · exact h _ _ (by omega) (by omega)
  · exact h _ _ (by omega) (by omega)

theorem forall_uint8 {P : UInt8 → Prop} (h : ∀ n < 256, P (UInt8.ofNat n)) (b : UInt8) : P b := by
  have hb := h b.toNat b.toNat_lt
  rwa [UInt8.ofNat_toNat] at hb

theorem decodeOpcode_opIf : ∀ (opcode : UInt8) (notif : Bool),
    decodeOpcode opcode = .opIf notif → op16 < opcode := by
  refine forall_uint8 ?_
  decide +kernel

theorem wp_execOpcode (hsize : m + a ≤ 1000) {op : Opcode} (hnest : c.vfExec.length ≤ c.nOpCount)
    (hops : c.nOpCount ≤ 201) (hif : ∀ notif, op = .opIf notif → c.vfExec.length < c.nOpCount) :
    wp 1000 FitsElement RoundPost (execOpcode E flags script none c op) ⟨m, a⟩ False := by
  cases op with
  | plain p =>
    refine wp_seq ((wp_execPlain hsize p).mono ?_)
    exact fun _ n met hlarge => ⟨hlarge, hnest, hops⟩
  | opIf notif =>
    have hlt := hif notif rfl
    have hpost : ∀ fValue n, RoundPost { c with vfExec := fValue :: c.vfExec } n False :=
      fun fValue n => ⟨False.elim, hlt, hops⟩
    refine wp_ite.mpr ⟨fun _ => wp_seq ?_, fun _ => wp_seq (wp_seq (wp_guard fun _ => hpost _ _))⟩
    refine wp_seq (wp_count.mpr (wp_seq (wp_guard fun hcount => ?_)))
    have hone : 1 ≤ m := Nat.le_of_not_lt hcount
    refine wp_seq (wp_read ⟨Nat.le_refl 1, hone⟩ fun item _ => wp_seq (wp_drop ?_))
    exact wp_seq (wp_guard fun _ => hpost _ _)
  | opElse =>
    rw [execOpcode]
    cases hvf : c.vfExec with
    | nil => exact not_false
    | cons b bs =>
      rw [hvf] at hnest
      exact ⟨False.elim, hnest, hops⟩
  | opEndif =>
    rw [execOpcode]
    cases hvf : c.vfExec with
    | nil => exact not_false
    | cons b bs =>
      rw [hvf, List.length_cons] at hnest
      exact ⟨False.elim, Nat.le_of_succ_le hnest, hops⟩
  | opCheckmultisig verify =>
    refine wp_seq (wp_execCheckmultisig hsize verify fun n k hle hk => ?_)
    exact ⟨False.elim, hnest.trans hle, hk⟩
  | bad => exact not_false

theorem wp_execRound (hsize : m + a ≤ 1000) (hnest : c.vfExec.length ≤ c.nOpCount)
    (hops : c.nOpCount ≤ 201) (hdata : FitsElement pushData) :
    wp 1000 FitsElement RoundPost (execRound E flags script none c opcode pushData) ⟨m, a⟩
      False := by
  refine wp_seq (wp_guard fun _ => wp_seq (wp_guard fun hcount => wp_seq (wp_guard fun _ => ?_)))
  -- a counted opcode raises the count by one, so there is a conditional to spare
  have hraised : c.nOpCount ≤ (if op16 < opcode then c.nOpCount + 1 else c.nOpCount) ∧
      (if op16 < opcode then c.nOpCount + 1 else c.nOpCount) ≤ 201 := by
    by_cases hbyte : op16 < opcode
    · simp only [if_pos hbyte] at hcount ⊢
      have hle : ¬201 < c.nOpCount + 1 := fun hlt => hcount ⟨hbyte, hlt⟩
      omega
    · simp only [if_neg hbyte]
      omega
  refine wp_ite.mpr ⟨fun hpush => wp_seq (wp_guard fun _ => ?_), fun _ => ?_⟩
  · refine wp_seq (wp_push.mpr ⟨hdata, ?_, hnest.trans hraised.1, hraised.2⟩)
    simp [TooLargeIfMet]
    omega
  · refine wp_ite.mpr ⟨fun _ => ?_, fun _ => ⟨False.elim, hnest.trans hraised.1, hraised.2⟩⟩
    refine wp_execOpcode hsize (hnest.trans hraised.1) hraised.2 fun notif hif => ?_
    have hbyte := decodeOpcode_opIf _ _ hif
    simp only [if_pos hbyte]
    omega

/-- The same opcodes on lists, which are judged after each opcode. -/
@[reducible]
def unboundedMachine : ScriptMachine where
  toStackMachine := unlimitedStacks (List UInt8)
  tooLarge s := decide (1000 < s.main.length + s.alt.length) ||
    (s.main ++ s.alt).any fun item => decide (maxScriptElementSize < item.length)
  nestCap := none

/-- The machine of the source with an array of another size for the conditionals. -/
@[reducible]
def fixedMachineNest (nestCap : Option ℕ) : ScriptMachine := { fixedMachine with nestCap }

theorem failIf_of_not {p : Prop} [Decidable p] (h : ¬p) :
    (failIf p e : ScriptProg Unit) = pure () :=
  if_neg h

theorem execRound_nestCap {nestCap : Option ℕ} (h : ∀ cap ∈ nestCap, c.vfExec.length < cap)
    (opcode : UInt8) (pushData : List UInt8) :
    execRound E flags script nestCap c opcode pushData =
      execRound E flags script none c opcode pushData := by
  have hroom : ¬∃ cap ∈ nestCap, cap ≤ c.vfExec.length := by
    rintro ⟨cap, hcap, hle⟩
    exact absurd (h cap hcap) (Nat.not_lt.mpr hle)
  have hopcode : ∀ nOpCount op, execOpcode E flags script nestCap { c with nOpCount } op =
      execOpcode E flags script none { c with nOpCount } op := by
    intro nOpCount op
    cases op with
    | opIf notif =>
      simp only [execOpcode, execIf]
      rw [failIf_of_not hroom, failIf_of_not (by simp)]
    | _ => rfl
  simp only [execRound, hopcode]

theorem unboundedMachine_tooLarge (s : TwoStacks ScriptStack) :
    unboundedMachine.tooLarge (lists s) = fixedMachine.tooLarge s := by
  have hfits : ((lists s).main ++ (lists s).alt).any
      (fun item => decide (maxScriptElementSize < item.length)) = false := by
    rw [List.any_eq_false]
    intro item hitem
    rw [decide_eq_true_eq, Nat.not_lt]
    rcases List.mem_append.mp hitem with hmain | halt
    · exact allFit_lists s .main item hmain
    · exact allFit_lists s .alt item halt
  simp only [hfits, Bool.or_false]
  rw [lists, TwoStacks.map, length_toList, length_toList]

section Exact

variable (E flags script) {nestCap : Option ℕ} (hcap : ∀ cap ∈ nestCap, 201 < cap)
include hcap

/-- One round on slots and on lists: both fail alike, both go on alike, or the slots have no room
and the lists are too large after the round. -/
theorem round_lists (hnest : c.vfExec.length ≤ c.nOpCount) (hops : c.nOpCount ≤ 201)
    (hsize : s.main.count + s.alt.count ≤ 1000) (hdata : FitsElement pushData) :
    let round := execRound E flags script nestCap c opcode pushData
    (∃ e, (fixedMachineNest nestCap).run round s = .error (.failed e) ∧
      unboundedMachine.run (execRound E flags script none c opcode pushData) (lists s) =
        .error (.failed e)) ∨
    (∃ c' t, (fixedMachineNest nestCap).run round s = .ok (c', t) ∧
      unboundedMachine.run (execRound E flags script none c opcode pushData) (lists s) =
        .ok (c', lists t) ∧ c'.vfExec.length ≤ c'.nOpCount ∧ c'.nOpCount ≤ 201) ∨
    (∃ c' t, (fixedMachineNest nestCap).run round s = .error (.fault .full) ∧
      unboundedMachine.run (execRound E flags script none c opcode pushData) (lists s) =
        .ok (c', t) ∧ unboundedMachine.tooLarge t = true) := by
  have hroom : ∀ cap ∈ nestCap, c.vfExec.length < cap := by
    intro cap hmem
    have := hcap cap hmem
    omega
  rw [execRound_nestCap hroom]
  have hwp : wp maxStackItems FitsElement RoundPost
      (execRound E flags script none c opcode pushData) (sizes (lists s)) False := by
    have hsizes : sizes (lists s) = ⟨s.main.count, s.alt.count⟩ := by
      rw [sizes, lists, TwoStacks.map, TwoStacks.map, length_toList, length_toList]
    rw [hsizes]
    exact wp_execRound hsize hnest hops hdata
  rcases hwp.run_slots_cases emptyItem with hfail | ⟨c', t, hslots, hlists, hpost⟩ |
    ⟨c', t, hslots, hlists, hpost⟩
  · exact .inl hfail
  · exact .inr (.inl ⟨c', t, hslots, hlists, hpost.2⟩)
  · refine .inr (.inr ⟨c', t, hslots, hlists, ?_⟩)
    have hlarge : 1000 < t.main.length + t.alt.length := hpost.1 trivial
    rw [Bool.or_eq_true, decide_eq_true_eq]
    exact .inl hlarge

theorem evalFrom_lists (bs : List UInt8) (hnest : c.vfExec.length ≤ c.nOpCount)
    (hops : c.nOpCount ≤ 201) (hsize : s.main.count + s.alt.count ≤ 1000) :
    (evalFrom (fixedMachineNest nestCap) E flags script bs c s).map (fun r => (r.1, lists r.2)) =
        evalFrom unboundedMachine E flags script bs c (lists s) ∧
      evalFrom (fixedMachineNest nestCap) E flags script bs c s ≠ .error .outOfBounds := by
  induction bs using scriptInduction generalizing c s with
  | nil => exact ⟨rfl, nofun⟩
  | cons b bs ih =>
    rw [evalFrom_cons, evalFrom_cons]
    cases hop : scriptGetOp (b :: bs) with
    | none => exact ⟨rfl, nofun⟩
    | some x =>
      obtain ⟨opcode, pushData, rest⟩ := x
      dsimp only
      rcases round_lists E flags script hcap hnest hops hsize (scriptGetOp_length hop).2 with
        ⟨e, hslots, hlists⟩ | ⟨c', t, hslots, hlists, hnest', hops'⟩ |
          ⟨c', t, hslots, hlists, hlarge⟩
      · rw [hslots, hlists]
        exact ⟨rfl, nofun⟩
      · rw [hslots, hlists]
        dsimp only
        have hsame := unboundedMachine_tooLarge t
        by_cases hlarge : fixedMachine.tooLarge t = true
        · rw [if_pos hlarge, if_pos (hsame.trans hlarge)]
          exact ⟨rfl, nofun⟩
        · rw [if_neg hlarge, if_neg fun hlists => hlarge (hsame.symm.trans hlists)]
          rw [decide_eq_true_eq, Nat.not_lt] at hlarge
          exact ih _ _ _ hop hnest' hops' hlarge
      · rw [hslots, hlists]
        dsimp only
        rw [if_pos hlarge]
        exact ⟨rfl, nofun⟩

theorem evalScript_lists (stack : ScriptStack) :
    (evalScript (fixedMachineNest nestCap) E flags script stack).map toList =
        evalScript unboundedMachine E flags script stack.toList ∧
      evalScript (fixedMachineNest nestCap) E flags script stack ≠ .error .outOfBounds := by
  have hempty : lists ⟨stack, fixedMachine.empty⟩ = ⟨stack.toList, unboundedMachine.empty⟩ := by
    rw [lists, TwoStacks.map]
    rfl
  have hsize : stack.count + (empty emptyItem : ScriptStack).count ≤ 1000 :=
    stack.count_le
  have hloop := evalFrom_lists E flags script hcap script.data (c := {})
    (s := ⟨stack, fixedMachine.empty⟩) (Nat.zero_le _) (Nat.zero_le _) hsize
  rw [hempty] at hloop
  have hscript : ¬maxScriptSize < script.size := Nat.not_lt.mpr script.size_le
  have hsizeOk : refuseIf (maxScriptSize < script.size) (ScriptStop.failed .scriptSize) = .ok () :=
    refuseIf_eq_ok_iff.mpr hscript
  unfold evalScript
  rw [hsizeOk, ok_bind, ok_bind, ← hloop.1]
  cases hfrom : evalFrom (fixedMachineNest nestCap) E flags script script.data {}
      ⟨stack, fixedMachine.empty⟩ with
  | error stop =>
    rw [hfrom] at hloop
    exact ⟨rfl, fun h => hloop.2 (congrArg Except.error (Except.error.inj h))⟩
  | ok r =>
    obtain ⟨c, s⟩ := r
    change (refuseIf (c.vfExec ≠ []) _ >>= fun _ => pure s.main).map toList =
      (refuseIf (c.vfExec ≠ []) _ >>= fun _ => pure (lists s).main) ∧
      (refuseIf (c.vfExec ≠ []) _ >>= fun _ => pure s.main) ≠ _
    unfold refuseIf
    by_cases hopen : c.vfExec ≠ []
    · rw [if_pos hopen]
      exact ⟨rfl, nofun⟩
    · rw [if_neg hopen]
      exact ⟨rfl, nofun⟩

end Exact

/-- The machine of the source is exact: it gives what the same opcodes give on lists that are judged
after each opcode, errors included. No access lies outside of the slots, and no array for the
conditionals with more than 201 entries makes a difference. -/
theorem evalScript_fixed_exact (E : ScriptEnv) (flags : UInt32) (script : Script)
    (stack : ScriptStack) :
    (evalScript fixedMachine E flags script stack).map SlotStack.toList =
        evalScript unboundedMachine E flags script stack.toList ∧
      evalScript fixedMachine E flags script stack ≠ .error .outOfBounds ∧
      ∀ k : ℕ, (evalScript (fixedMachineNest (some (202 + k))) E flags script stack).map
        SlotStack.toList = (evalScript fixedMachine E flags script stack).map SlotStack.toList := by
  have hthousand : ∀ cap ∈ some maxStackItems, 201 < cap := by simp [maxStackItems]
  have hexact := evalScript_lists E flags script hthousand stack
  refine ⟨hexact.1, hexact.2, fun k => ?_⟩
  have hcap : ∀ cap ∈ some (202 + k), 201 < cap := by
    intro cap hmem
    cases hmem
    omega
  exact (evalScript_lists E flags script hcap stack).1.trans hexact.1.symm

end ZClassic
