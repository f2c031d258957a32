import ZClassic.Lib.SlotStack
import ZClassic.Script.Encoding

/-!
# The script interpreter

`domain/consensus/src/script_interp.c`: every opcode as a program over the main and the alt stack,
the opcode loop of `eval_script` on any machine for such programs, and `verify_script`.
-/

namespace ZClassic

open List hiding Vector

/-- The callbacks of `struct sig_checker`. A missing one is `none`. -/
structure SigChecker where
  checkSig : Option (List UInt8 → List UInt8 → Script → UInt32 → Bool) := none
  checkLockTime : Option (ℤ → Bool) := none
  verifySignature : Option (List UInt8 → List UInt8 → Vector UInt8 32 → Bool) := none

structure ScriptEnv where
  crypto : ScriptCrypto
  checker : SigChecker
  consensusBranchId : UInt32

inductive UnaryOp where
  | op1add
  | op1sub
  | opNegate
  | opAbs
  | opNot
  | op0notequal
  deriving DecidableEq

inductive BinaryOp where
  | opAdd
  | opSub
  | opBooland
  | opBoolor
  | opNumequal
  | opNumequalverify
  | opNumnotequal
  | opLessthan
  | opGreaterthan
  | opLessthanorequal
  | opGreaterthanorequal
  | opMin
  | opMax
  deriving DecidableEq

inductive HashOp where
  | opRipemd160
  | opSha1
  | opSha256
  | opHash160
  | opHash256
  deriving DecidableEq

/-- The cases of the opcode switch that leave the conditionals and the opcode count alone. -/
inductive PlainOp where
  | smallInteger (n : ℤ)
  | opNop
  | opChecklocktimeverify
  | upgradableNop
  | opVerify
  | opReturn
  | opToaltstack
  | opFromaltstack
  | op2drop
  | op2dup
  | op3dup
  | op2over
  | op2rot
  | op2swap
  | opIfdup
  | opDepth
  | opDrop
  | opDup
  | opNip
  | opOver
  | opPick
  | opRoll
  | opRot
  | opSwap
  | opTuck
  | opSize
  | opEqual (verify : Bool)
  | unary (u : UnaryOp)
  | binary (b : BinaryOp)
  | opWithin
  | hash (h : HashOp)
  | opChecksig (verify : Bool)
  | opCheckdatasig (verify : Bool)
  deriving DecidableEq

inductive Opcode where
  | plain (op : PlainOp)
  | opIf (notif : Bool)
  | opElse
  | opEndif
  | opCheckmultisig (verify : Bool)
  | bad
  deriving DecidableEq

def opIf : UInt8 := 0x63

def opEndif : UInt8 := 0x68

def decodeOpcode (opcode : UInt8) : Opcode :=
  if opcode = op1negate ∨ op1 ≤ opcode ∧ opcode ≤ op16 then
    .plain (.smallInteger ((opcode.toNat : ℤ) - (op1.toNat - 1)))
  else match opcode.toNat with
    | 0x61 => .plain .opNop
    | 0x63 => .opIf false
    | 0x64 => .opIf true
    | 0x67 => .opElse
    | 0x68 => .opEndif
    | 0x69 => .plain .opVerify
    | 0x6a => .plain .opReturn
    | 0x6b => .plain .opToaltstack
    | 0x6c => .plain .opFromaltstack
    | 0x6d => .plain .op2drop
    | 0x6e => .plain .op2dup
    | 0x6f => .plain .op3dup
    | 0x70 => .plain .op2over
    | 0x71 => .plain .op2rot
    | 0x72 => .plain .op2swap
    | 0x73 => .plain .opIfdup
    | 0x74 => .plain .opDepth
    | 0x75 => .plain .opDrop
    | 0x76 => .plain .opDup
    | 0x77 => .plain .opNip
    | 0x78 => .plain .opOver
    | 0x79 => .plain .opPick
    | 0x7a => .plain .opRoll
    | 0x7b => .plain .opRot
    | 0x7c => .plain .opSwap
    | 0x7d => .plain .opTuck
    | 0x82 => .plain .opSize
    | 0x87 => .plain (.opEqual false)
    | 0x88 => .plain (.opEqual true)
    | 0x8b => .plain (.unary .op1add)
    | 0x8c => .plain (.unary .op1sub)
    | 0x8f => .plain (.unary .opNegate)
    | 0x90 => .plain (.unary .opAbs)
    | 0x91 => .plain (.unary .opNot)
    | 0x92 => .plain (.unary .op0notequal)
    | 0x93 => .plain (.binary .opAdd)
    | 0x94 => .plain (.binary .opSub)
    | 0x9a => .plain (.binary .opBooland)
    | 0x9b => .plain (.binary .opBoolor)
    | 0x9c => .plain (.binary .opNumequal)
    | 0x9d => .plain (.binary .opNumequalverify)
    | 0x9e => .plain (.binary .opNumnotequal)
    | 0x9f => .plain (.binary .opLessthan)
    | 0xa0 => .plain (.binary .opGreaterthan)
    | 0xa1 => .plain (.binary .opLessthanorequal)
    | 0xa2 => .plain (.binary .opGreaterthanorequal)
    | 0xa3 => .plain (.binary .opMin)
    | 0xa4 => .plain (.binary .opMax)
    | 0xa5 => .plain .opWithin
    | 0xa6 => .plain (.hash .opRipemd160)
    | 0xa7 => .plain (.hash .opSha1)
    | 0xa8 => .plain (.hash .opSha256)
    | 0xa9 => .plain (.hash .opHash160)
    | 0xaa => .plain (.hash .opHash256)
    | 0xac => .plain (.opChecksig false)
    | 0xad => .plain (.opChecksig true)
    | 0xae => .opCheckmultisig false
    | 0xaf => .opCheckmultisig true
    | 0xb0 => .plain .upgradableNop
    | 0xb1 => .plain .opChecklocktimeverify
    | 0xb2 => .plain .upgradableNop
    | 0xb3 => .plain .upgradableNop
    | 0xb4 => .plain .upgradableNop
    | 0xb5 => .plain .upgradableNop
    | 0xb6 => .plain .upgradableNop
    | 0xb7 => .plain .upgradableNop
    | 0xb8 => .plain .upgradableNop
    | 0xb9 => .plain .upgradableNop
    | 0xba => .plain (.opCheckdatasig false)
    | 0xbb => .plain (.opCheckdatasig true)
    | _ => .bad

/-- `OP_CAT` to `OP_RIGHT`, `OP_INVERT` to `OP_XOR`, `OP_2MUL`, `OP_2DIV`, `OP_MUL` to `OP_RSHIFT`
and `OP_CODESEPARATOR`. -/
def isDisabledOpcode (opcode : UInt8) : Bool :=
  [0x7e, 0x7f, 0x80, 0x81, 0x83, 0x84, 0x85, 0x86, 0x8d, 0x8e, 0x95, 0x96, 0x97, 0x98, 0x99,
    0xab].contains opcode

def UnaryOp.apply (value : ℤ) : UnaryOp → ℤ
  | op1add => value + 1
  | op1sub => value - 1
  | opNegate => -value
  | opAbs => if value < 0 then -value else value
  | opNot => if value = 0 then 1 else 0
  | op0notequal => if value ≠ 0 then 1 else 0

def BinaryOp.apply (value1 value2 : ℤ) : BinaryOp → ℤ
  | opAdd => value1 + value2
  | opSub => value1 - value2
  | opBooland => if value1 ≠ 0 ∧ value2 ≠ 0 then 1 else 0
  | opBoolor => if value1 ≠ 0 ∨ value2 ≠ 0 then 1 else 0
  | opNumequal => if value1 = value2 then 1 else 0
  | opNumequalverify => if value1 = value2 then 1 else 0
  | opNumnotequal => if value1 ≠ value2 then 1 else 0
  | opLessthan => if value1 < value2 then 1 else 0
  | opGreaterthan => if value1 > value2 then 1 else 0
  | opLessthanorequal => if value1 ≤ value2 then 1 else 0
  | opGreaterthanorequal => if value1 ≥ value2 then 1 else 0
  | opMin => if value1 < value2 then value1 else value2
  | opMax => if value1 > value2 then value1 else value2

def HashOp.apply (crypto : ScriptCrypto) (data : List UInt8) : HashOp → List UInt8
  | opRipemd160 => (crypto.ripemd160 data).toList
  | opSha1 => (crypto.sha1 data).toList
  | opSha256 => (crypto.sha256 data).toList
  | opHash160 => (crypto.hash160 data).toList
  | opHash256 => (crypto.hash256 data).toList

abbrev ScriptProg := StackProg (List UInt8) ScriptError

open StackProg

def needItems (n : ℕ) : ScriptProg Unit := do
  let count ← count .main
  failIf (count < n) .invalidStackOperation

def snSerializePush (n : ℤ) : ScriptProg Unit :=
  push .main (scriptNumSerialize n scriptNumMaxSize)

def pushBool (fValue : Bool) : ScriptProg Unit := push .main (if fValue then [1] else [])

/-- The `VERIFY` form of an opcode takes its result off again. -/
def pushVerdict (fSuccess verify : Bool) (e : ScriptError) : ScriptProg Unit := do
  pushBool fSuccess
  if verify then
    if fSuccess then pop .main else fail e

section

variable (E : ScriptEnv) (flags : UInt32) (script : Script)

def snFromTop (i maxSize : ℕ) : ScriptProg ℤ := do
  let item ← top .main i
  match scriptNumFromBytes item (hasFlag flags scriptVerifyMinimaldata) maxSize with
  | none => fail .unknownError
  | some n => return n

/-- A missing callback fails. -/
def ScriptEnv.checkSig (sig pubkey : List UInt8) : Bool :=
  match E.checker.checkSig with
  | none => false
  | some check => check sig pubkey script E.consensusBranchId

def ScriptEnv.verifySignature (sig msg pubkey : List UInt8) : Bool :=
  match E.checker.verifySignature with
  | none => false
  | some verify => !sig.isEmpty && verify sig pubkey (E.crypto.sha256 msg)

/-- A missing callback enforces nothing. -/
def ScriptEnv.locktimeUnsatisfied (lockTime : ℤ) : Bool :=
  match E.checker.checkLockTime with
  | none => false
  | some check => !check lockTime

def execChecklocktimeverify : ScriptProg Unit :=
  if hasFlag flags scriptVerifyChecklocktimeverify then do
    needItems 1
    let nLockTime ← snFromTop flags 1 5
    failIf (nLockTime < 0) .negativeLocktime
    failIf (E.locktimeUnsatisfied nLockTime) .unsatisfiedLocktime
  else failIf (hasFlag flags scriptVerifyDiscourageUpgradableNops) .discourageUpgradableNops

def execPickRoll (roll : Bool) : ScriptProg Unit := do
  needItems 2
  let bn ← snFromTop flags 1 scriptNumDefaultMaxSize
  pop .main
  let n := scriptNumGetInt bn
  let count ← count .main
  failIf (n < 0 ∨ n ≥ count) .invalidStackOperation
  let v ← top .main (n.toNat + 1)
  if roll then eraseAt .main (n.toNat + 1)
  push .main v

def execBinary (b : BinaryOp) : ScriptProg Unit := do
  needItems 2
  let bn1 ← snFromTop flags 2 scriptNumDefaultMaxSize
  let bn2 ← snFromTop flags 1 scriptNumDefaultMaxSize
  pop .main
  pop .main
  snSerializePush (b.apply bn1 bn2)
  if b = .opNumequalverify then do
    let item ← top .main 1
    if castToBool item then pop .main else fail .numequalverify

/-- A signature and a key, with the checks that come before `check_sig`. -/
def encodedPair (isig ikey : ℕ) : ScriptProg (List UInt8 × List UInt8) := do
  let sig ← top .main isig
  let pk ← top .main ikey
  ofExcept (checkTransactionSignatureEncoding E.crypto flags sig)
  ofExcept (checkPubkeyEncoding flags pk)
  return (sig, pk)

def execChecksig (verify : Bool) : ScriptProg Unit := do
  needItems 2
  let (sig, pk) ← encodedPair E flags 2 1
  let fSuccess := E.checkSig script sig pk
  failIf (¬fSuccess ∧ hasFlag flags scriptVerifyNullfail ∧ sig ≠ []) .sigNullfail
  pop .main
  pop .main
  pushVerdict fSuccess verify .checksigverify

def execCheckdatasig (verify : Bool) : ScriptProg Unit := do
  needItems 3
  let sig ← top .main 3
  let msg ← top .main 2
  let pk ← top .main 1
  ofExcept (checkDataSignatureEncoding E.crypto flags sig)
  ofExcept (checkPubkeyEncoding flags pk)
  let fSuccess := E.verifySignature sig msg pk
  failIf (¬fSuccess ∧ hasFlag flags scriptVerifyNullfail ∧ sig ≠ []) .sigNullfail
  pop .main
  pop .main
  pop .main
  pushVerdict fSuccess verify .checkdatasigverify

def execPlain : PlainOp → ScriptProg Unit
  | .smallInteger n => snSerializePush n
  | .opNop => return
  | .opChecklocktimeverify => execChecklocktimeverify E flags
  | .upgradableNop =>
    failIf (hasFlag flags scriptVerifyDiscourageUpgradableNops) .discourageUpgradableNops
  | .opVerify => do
    needItems 1
    let item ← top .main 1
    if castToBool item then pop .main else fail .verify
  | .opReturn => fail .opReturn
  | .opToaltstack => do
    needItems 1
    let item ← top .main 1
    push .alt item
    pop .main
  | .opFromaltstack => do
    let count ← count .alt
    failIf (count < 1) .invalidAltstackOperation
    let item ← top .alt 1
    push .main item
    pop .alt
  | .op2drop => do
    needItems 2
    pop .main
    pop .main
  | .op2dup => do
    needItems 2
    let v1 ← top .main 2
    let v2 ← top .main 1
    push .main v1
    push .main v2
  | .op3dup => do
    needItems 3
    let v1 ← top .main 3
    let v2 ← top .main 2
    let v3 ← top .main 1
    push .main v1
    push .main v2
    push .main v3
  | .op2over => do
    needItems 4
    let v1 ← top .main 4
    let v2 ← top .main 3
    push .main v1
    push .main v2
  | .op2rot => do
    needItems 6
    let v1 ← top .main 6
    let v2 ← top .main 5
    eraseRange .main 6 4
    push .main v1
    push .main v2
  | .op2swap => do
    needItems 4
    swap .main 4 2
    swap .main 3 1
  | .opIfdup => do
    needItems 1
    let v ← top .main 1
    if castToBool v then push .main v
  | .opDepth => do
    let count ← count .main
    snSerializePush count
  | .opDrop => do
    needItems 1
    pop .main
  | .opDup => do
    needItems 1
    let v ← top .main 1
    push .main v
  | .opNip => do
    needItems 2
    eraseAt .main 2
  | .opOver => do
    needItems 2
    let v ← top .main 2
    push .main v
  | .opPick => execPickRoll flags false
  | .opRoll => execPickRoll flags true
  | .opRot => do
    needItems 3
    swap .main 3 2
    swap .main 2 1
  | .opSwap => do
    needItems 2
    swap .main 2 1
  | .opTuck => do
    needItems 2
    let v ← top .main 1
    insertAt .main 2 v
  | .opSize => do
    needItems 1
    let item ← top .main 1
    snSerializePush item.length
  | .opEqual verify => do
    needItems 2
    let v1 ← top .main 2
    let v2 ← top .main 1
    pop .main
    pop .main
    pushVerdict (v1 == v2) verify .equalverify
  | .unary u => do
    needItems 1
    let bn ← snFromTop flags 1 scriptNumDefaultMaxSize
    pop .main
    snSerializePush (u.apply bn)
  | .binary b => execBinary flags b
  | .opWithin => do
    needItems 3
    let bn1 ← snFromTop flags 3 scriptNumDefaultMaxSize
    let bn2 ← snFromTop flags 2 scriptNumDefaultMaxSize
    let bn3 ← snFromTop flags 1 scriptNumDefaultMaxSize
    pop .main
    pop .main
    pop .main
    pushBool (decide (bn2 ≤ bn1) && decide (bn1 < bn3))
  | .hash h => do
    needItems 1
    let item ← top .main 1
    pop .main
    push .main (h.apply E.crypto item)
  | .opChecksig verify => execChecksig E flags script verify
  | .opCheckdatasig verify => execCheckdatasig E flags verify

/-- The loop over the keys from `ikey` and the signatures from `isig`. There are never more
signatures than keys left, so it ends with the keys. -/
def multisigLoop : ℕ → ℕ → ℕ → ℕ → ScriptProg Bool
  | _, _, _, 0 => return true
  | 0, _, _, _ => return false
  | nKeysCount + 1, ikey, isig, nSigsCount + 1 => do
    let (sig, pk) ← encodedPair E flags isig ikey
    let fOk := E.checkSig script sig pk
    let isig := if fOk then isig + 1 else isig
    let nSigsCount := if fOk then nSigsCount else nSigsCount + 1
    if nKeysCount < nSigsCount then return false
    else multisigLoop nKeysCount (ikey + 1) isig nSigsCount

def topEmptyIf (p : Prop) [Decidable p] (e : ScriptError) : ScriptProg Unit :=
  if p then do
    let item ← top .main 1
    failIf (item ≠ []) e
  else return

/-- Takes off counts, keys and signatures. `ikey2` counts down to the first signature. -/
def multisigPops (fSuccess : Bool) : ℕ → ℕ → ScriptProg Unit
  | 0, _ => return
  | n + 1, ikey2 => do
    topEmptyIf (¬fSuccess ∧ hasFlag flags scriptVerifyNullfail ∧ ikey2 = 0) .sigNullfail
    pop .main
    multisigPops fSuccess n (ikey2 - 1)

def multisigKeyCount (nOpCount : ℕ) : ScriptProg ℕ := do
  needItems 1
  let bnKeys ← snFromTop flags 1 scriptNumDefaultMaxSize
  failIf (scriptNumGetInt bnKeys < 0 ∨ scriptNumGetInt bnKeys > 20) .pubkeyCount
  failIf (201 < nOpCount + (scriptNumGetInt bnKeys).toNat) .opCount
  return (scriptNumGetInt bnKeys).toNat

def multisigSigCount (nKeysCount : ℕ) : ScriptProg ℕ := do
  needItems (nKeysCount + 2)
  let bnSigs ← snFromTop flags (nKeysCount + 2) scriptNumDefaultMaxSize
  failIf (scriptNumGetInt bnSigs < 0 ∨ scriptNumGetInt bnSigs > nKeysCount) .sigCount
  needItems (nKeysCount + (scriptNumGetInt bnSigs).toNat + 3)
  return (scriptNumGetInt bnSigs).toNat

def execCheckmultisig (verify : Bool) (nOpCount : ℕ) : ScriptProg ℕ := do
  let nKeysCount ← multisigKeyCount flags nOpCount
  let nSigsCount ← multisigSigCount flags nKeysCount
  let fSuccess ← multisigLoop E flags script nKeysCount 2 (nKeysCount + 3) nSigsCount
  multisigPops flags fSuccess (nKeysCount + nSigsCount + 2) (nKeysCount + 2)
  needItems 1
  topEmptyIf (hasFlag flags scriptVerifyNulldummy) .sigNulldummy
  pop .main
  pushVerdict fSuccess verify .checkmultisigverify
  return nOpCount + nKeysCount

end

/-- The state of the opcode loop, the stacks apart: the open conditionals, innermost first, and the
number of opcodes so far. -/
structure ScriptControl where
  vfExec : List Bool := []
  nOpCount : ℕ := 0

def ScriptControl.fExec (c : ScriptControl) : Bool := c.vfExec.all id

section

variable (E : ScriptEnv) (flags : UInt32) (script : Script) (nestCap : Option ℕ)

def popCondition (notif : Bool) : ScriptProg Bool := do
  let count ← count .main
  failIf (count < 1) .unbalancedConditional
  let item ← top .main 1
  pop .main
  return (castToBool item != notif)

/-- `OP_IF` and `OP_NOTIF`: the condition is taken off the stack only where it is executed. -/
def execIf (notif : Bool) (c : ScriptControl) : ScriptProg ScriptControl := do
  let fValue ← if c.fExec then popCondition notif else pure false
  failIf (∃ cap ∈ nestCap, cap ≤ c.vfExec.length) .stackSize
  return { c with vfExec := fValue :: c.vfExec }

def execOpcode (c : ScriptControl) : Opcode → ScriptProg ScriptControl
  | .plain p => do
    execPlain E flags script p
    return c
  | .opIf notif => execIf nestCap notif c
  | .opElse =>
    match c.vfExec with
    | [] => fail .unbalancedConditional
    | b :: bs => return { c with vfExec := (!b) :: bs }
  | .opEndif =>
    match c.vfExec with
    | [] => fail .unbalancedConditional
    | _ :: bs => return { c with vfExec := bs }
  | .opCheckmultisig verify => do
    let nOpCount ← execCheckmultisig E flags script verify c.nOpCount
    return { c with nOpCount }
  | .bad => fail .badOpcode

/-- One round of the opcode loop, up to the test of the stack sizes. -/
def execRound (c : ScriptControl) (opcode : UInt8) (pushData : List UInt8) :
    ScriptProg ScriptControl := do
  failIf (maxScriptElementSize < pushData.length) .pushSize
  let nOpCount := if op16 < opcode then c.nOpCount + 1 else c.nOpCount
  failIf (op16 < opcode ∧ 201 < nOpCount) .opCount
  failIf (isDisabledOpcode opcode) .disabledOpcode
  if c.fExec ∧ opcode ≤ opPushdata4 then do
    failIf (hasFlag flags scriptVerifyMinimaldata ∧ ¬checkMinimalPush pushData opcode) .minimaldata
    push .main pushData
    return { c with nOpCount }
  else if c.fExec ∨ opIf ≤ opcode ∧ opcode ≤ opEndif then
    execOpcode E flags script nestCap { c with nOpCount } (decodeOpcode opcode)
  else return { c with nOpCount }

end

/-- A machine for script programs: when its stacks are too large after an opcode, and how many
conditionals it can hold. -/
structure ScriptMachine extends StackMachine (List UInt8) where
  tooLarge : TwoStacks Stack → Bool
  nestCap : Option ℕ

/-- Why a script is not accepted. The last three are no verdicts of the source. -/
inductive ScriptStop where
  | failed (e : ScriptError)
  | outOfBounds
  | assertFailed
  | neverReturns
  deriving DecidableEq

/-- A push without room is an error of the script. -/
def ScriptStop.ofProg : ProgStop ScriptError → ScriptStop
  | .failed e => .failed e
  | .fault .full => .failed .stackSize
  | .fault .outOfBounds => .outOfBounds

section

variable (M : ScriptMachine) (E : ScriptEnv) (flags : UInt32) (script : Script)

/-- The loop reads at least a byte in each round. -/
def evalLoop : ℕ → List UInt8 → ScriptControl → TwoStacks M.Stack →
    Except ScriptStop (ScriptControl × TwoStacks M.Stack)
  | _, [], c, s => .ok (c, s)
  | 0, _, _, _ => .error (.failed .unknownError)
  | fuel + 1, b :: bs, c, s =>
    match scriptGetOp (b :: bs) with
    | none => .error (.failed .badOpcode)
    | some (opcode, pushData, rest) =>
      match M.run (execRound E flags script M.nestCap c opcode pushData) s with
      | .error stop => .error (.ofProg stop)
      | .ok (c, s) =>
        if M.tooLarge s then .error (.failed .stackSize) else evalLoop fuel rest c s

/-- The rounds that remain from the bytes `bs` on. -/
def evalFrom (bs : List UInt8) (c : ScriptControl) (s : TwoStacks M.Stack) :
    Except ScriptStop (ScriptControl × TwoStacks M.Stack) :=
  evalLoop M E flags script bs.length bs c s

def evalScript (stack : M.Stack) : Except ScriptStop M.Stack := do
  refuseIf (maxScriptSize < script.size) (.failed .scriptSize)
  let (c, s) ← evalFrom M E flags script script.data {} ⟨stack, M.empty⟩
  refuseIf (c.vfExec ≠ []) (.failed .unbalancedConditional)
  return s.main

end

variable {opcode : UInt8}

theorem pushSize_length {bs after : List UInt8} {nsize : ℕ}
    (h : pushSize opcode bs = some (nsize, after)) : after.length ≤ bs.length := by
  have hread : ∀ {w : ℕ}, leRead w bs = some (nsize, after) → after.length ≤ bs.length := by
    intro w hw
    unfold leRead at hw
    split at hw
    · cases hw
    · cases hw
      rw [length_drop]
      exact Nat.sub_le ..
  unfold pushSize at h
  split_ifs at h
  · cases h
    exact Nat.le_refl _
  · exact hread h
  · exact hread h
  · exact hread h

theorem scriptGetOp_length {bs : List UInt8} {pushData rest : List UInt8}
    (h : scriptGetOp bs = some (opcode, pushData, rest)) :
    rest.length < bs.length ∧ pushData.length ≤ maxScriptElementSize := by
  cases bs with
  | nil => cases h
  | cons b bs =>
    rw [scriptGetOp] at h
    split at h
    · cases h
      exact ⟨Nat.lt_succ_self _, Nat.zero_le _⟩
    · split at h
      · cases h
      · next nsize after hsize =>
        split at h
        · cases h
        · next hfits =>
          cases h
          have hafter := pushSize_length hsize
          rw [length_drop, length_take, length_cons]
          omega

section

variable {M : ScriptMachine} {E : ScriptEnv} {flags : UInt32} {script : Script}

theorem evalLoop_eq_evalFrom {fuel : ℕ} {bs : List UInt8} (h : bs.length ≤ fuel)
    (c : ScriptControl) (s : TwoStacks M.Stack) :
    evalLoop M E flags script fuel bs c s = evalFrom M E flags script bs c s := by
  suffices hfuel : ∀ fuel', bs.length ≤ fuel' → evalLoop M E flags script fuel bs c s =
      evalLoop M E flags script fuel' bs c s from hfuel bs.length (Nat.le_refl _)
  induction fuel generalizing bs c s with
  | zero =>
    intro fuel' _
    obtain rfl : bs = [] := length_eq_zero_iff.mp (Nat.le_zero.mp h)
    rw [evalLoop, evalLoop]
  | succ fuel ih =>
    intro fuel' h'
    cases bs with
    | nil => rw [evalLoop, evalLoop]
    | cons b bs =>
      obtain ⟨fuel', rfl⟩ : ∃ n, fuel' = n + 1 :=
        ⟨fuel' - 1, by rw [length_cons] at h'; omega⟩
      rw [evalLoop, evalLoop]
      cases hop : scriptGetOp (b :: bs) with
      | none => rfl
      | some x =>
        obtain ⟨opcode, pushData, rest⟩ := x
        have hlt := (scriptGetOp_length hop).1
        rw [length_cons] at h h' hlt
        -- both sides run the same round and then the rest with less fuel
        have hrest : ∀ c s, evalLoop M E flags script fuel rest c s =
            evalLoop M E flags script fuel' rest c s :=
          fun c s => ih (by omega) c s fuel' (by omega)
        simp only [hrest]

theorem evalFrom_cons (b : UInt8) (bs : List UInt8) (c : ScriptControl) (s : TwoStacks M.Stack) :
    evalFrom M E flags script (b :: bs) c s =
      match scriptGetOp (b :: bs) with
      | none => .error (.failed .badOpcode)
      | some (opcode, pushData, rest) =>
        match M.run (execRound E flags script M.nestCap c opcode pushData) s with
        | .error stop => .error (.ofProg stop)
        | .ok (c, s) =>
          if M.tooLarge s then .error (.failed .stackSize)
          else evalFrom M E flags script rest c s := by
  rw [evalFrom, length_cons, evalLoop]
  cases hop : scriptGetOp (b :: bs) with
  | none => rfl
  | some x =>
    obtain ⟨opcode, pushData, rest⟩ := x
    have hlt := (scriptGetOp_length hop).1
    rw [length_cons] at hlt
    have hrest : ∀ c s, evalLoop M E flags script bs.length rest c s =
        evalFrom M E flags script rest c s :=
      evalLoop_eq_evalFrom (by omega)
    simp only [hrest]

end

theorem scriptInduction {P : List UInt8 → Prop} (nil : P [])
    (cons : ∀ b bs, (∀ opcode pushData rest, scriptGetOp (b :: bs) = some (opcode, pushData, rest) →
      P rest) → P (b :: bs)) (bs : List UInt8) : P bs := by
  induction h : bs.length using Nat.strong_induction_on generalizing bs with
  | _ n ih =>
    cases bs with
    | nil => exact nil
    | cons b bs =>
      apply cons
      intro opcode pushData rest hop
      exact ih rest.length (h ▸ (scriptGetOp_length hop).1) rest rfl

def maxStackItems : ℕ := 1000

def FitsElement (item : List UInt8) : Prop := item.length ≤ maxScriptElementSize

instance : DecidablePred FitsElement := fun _ => inferInstanceAs (Decidable (_ ≤ _))

abbrev ScriptStack := SlotStack FitsElement maxStackItems

def emptyItem : { item // FitsElement item } := ⟨[], Nat.zero_le _⟩

/-- Both stacks in fixed slots, and a fixed array for the conditionals. -/
@[reducible]
def fixedMachine : ScriptMachine where
  toStackMachine := slotStacks maxStackItems emptyItem
  tooLarge s := decide (1000 < s.main.count + s.alt.count)
  nestCap := some maxStackItems

/-- `none` if the loop never ends. It is not looked whether the data of a push is there. -/
def scriptIsPushOnlyFrom : ℕ → List UInt8 → Option Bool
  | _, [] => some true
  | 0, _ => none
  | fuel + 1, opcode :: rest =>
    if op16 < opcode then some false
    else if opPushdata4 < opcode then scriptIsPushOnlyFrom fuel rest
    else match pushSize opcode rest with
      | none => some false
      | some (len, after) =>
        -- `5 + len` is a 32-bit sum, and with 0 the position stays where it is
        if opcode = opPushdata4 ∧ 5 + len = 2 ^ 32 then none
        else if opcode = opPushdata4 ∧ 2 ^ 32 < 5 + len then
          scriptIsPushOnlyFrom fuel ((opcode :: rest).drop (5 + len - 2 ^ 32))
        else scriptIsPushOnlyFrom fuel (after.drop len)

def scriptIsPushOnly (s : Script) : Option Bool := scriptIsPushOnlyFrom s.size s.data

def requirePushOnly (needed : Prop) [Decidable needed] (s : Script) : Except ScriptStop Unit :=
  if needed then
    match scriptIsPushOnly s with
    | none => .error .neverReturns
    | some pushOnly => refuseIf (¬pushOnly) (.failed .sigPushonly)
  else .ok ()

def stackCopyActive (dst src : ScriptStack) : ScriptStack where
  items := Vector.ofFn fun i => if i < src.count then src.items.get i else dst.items.get i
  count := src.count
  count_le := src.count_le

def stackPop (stack : ScriptStack) : ScriptStack :=
  ⟨stack.items, stack.count - 1, Nat.le_trans (Nat.sub_le ..) stack.count_le⟩

def stackTopItem (stack : ScriptStack) : Except ScriptStop (List UInt8) :=
  match stack.readTop 1 with
  | .error _ => .error .outOfBounds
  | .ok item => .ok item.val

def requireTrue (stack : ScriptStack) : Except ScriptStop Unit := do
  refuseIf (stack.count = 0) (.failed .evalFalse)
  let item ← stackTopItem stack
  refuseIf (¬castToBool item) (.failed .evalFalse)

def scriptSet (data : List UInt8) : Script where
  data := data.take maxScriptSize
  size_le := by
    rw [length_take]
    exact Nat.min_le_left ..

section

variable (E : ScriptEnv) (flags : UInt32)

/-- The redeem script of a pay-to-script-hash output, on the stack that the signature script
left. -/
def verifyRedeemScript (scriptSig : Script) (stack stackCopy : ScriptStack) :
    Except ScriptStop ScriptStack := do
  requirePushOnly True scriptSig
  let stack := stackCopyActive stack stackCopy
  refuseIf (stack.count = 0) .assertFailed
  let serialized ← stackTopItem stack
  let stack ← evalScript fixedMachine E flags (scriptSet serialized) (stackPop stack)
  requireTrue stack
  return stack

def verifyP2sh (scriptSig scriptPubKey : Script) (stack stackCopy : ScriptStack) :
    Except ScriptStop ScriptStack :=
  if hasFlag flags scriptVerifyP2sh ∧ scriptIsPayToScriptHash scriptPubKey then
    verifyRedeemScript E flags scriptSig stack stackCopy
  else .ok stack

def verifyScript (scriptSig scriptPubKey : Script) : Except ScriptStop Unit := do
  requirePushOnly (hasFlag flags scriptVerifySigpushonly) scriptSig
  let stack ← evalScript fixedMachine E flags scriptSig fixedMachine.empty
  let stackCopy :=
    if hasFlag flags scriptVerifyP2sh then stackCopyActive fixedMachine.empty stack
    else fixedMachine.empty
  let stack ← evalScript fixedMachine E flags scriptPubKey stack
  requireTrue stack
  let stack ← verifyP2sh E flags scriptSig scriptPubKey stack stackCopy
  refuseIf (hasFlag flags scriptVerifyCleanstack ∧ ¬hasFlag flags scriptVerifyP2sh) .assertFailed
  refuseIf (hasFlag flags scriptVerifyCleanstack ∧ stack.count ≠ 1) (.failed .cleanstack)

end

/-- No signature is accepted. -/
def plainEnv : ScriptEnv where
  crypto := {
    ripemd160 _ := Vector.replicate 20 0
    sha1 _ := Vector.replicate 20 0
    sha256 _ := Vector.replicate 32 0
    hash160 _ := Vector.replicate 20 0
    hash256 _ := Vector.replicate 32 0
    pubkeyCheckLowS _ := true }
  checker := {}
  consensusBranchId := 0

end ZClassic
