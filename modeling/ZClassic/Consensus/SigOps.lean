import ZClassic.Lib.LittleEndian
import ZClassic.Primitives.Transaction

/-!
# Signature operations

Reading a script opcode by opcode (`script_get_op`), and the counts of
`domain/consensus/src/sigops.c` and `lib/script/src/script.c` that feed the block limit.
-/

namespace ZClassic

def scriptVerifyNone : UInt32 := 0

def scriptVerifyP2sh : UInt32 := 0x1

def scriptVerifyChecklocktimeverify : UInt32 := 0x200

def scriptVerifyCheckdatasigSigops : UInt32 := 0x800

def opPushdata1 : UInt8 := 0x4c

def opPushdata2 : UInt8 := 0x4d

def opPushdata4 : UInt8 := 0x4e

def op1 : UInt8 := 0x51

def op16 : UInt8 := 0x60

def opEqual : UInt8 := 0x87

def opHash160 : UInt8 := 0xa9

def opChecksig : UInt8 := 0xac

def opChecksigverify : UInt8 := 0xad

def opCheckmultisig : UInt8 := 0xae

def opCheckmultisigverify : UInt8 := 0xaf

def opCheckdatasig : UInt8 := 0xba

def opCheckdatasigverify : UInt8 := 0xbb

def opInvalidopcode : UInt8 := 0xff

def maxScriptElementSize : ℕ := 520

def pushSize (op : UInt8) (rest : List UInt8) : Option (ℕ × List UInt8) :=
  if op < opPushdata1 then some (op.toNat, rest)
  else if op = opPushdata1 then leRead 1 rest
  else if op = opPushdata2 then leRead 2 rest
  else leRead 4 rest

/-- The opcode at the front with the data it pushes, and the bytes behind it. -/
def scriptGetOp : List UInt8 → Option (UInt8 × List UInt8 × List UInt8)
  | [] => none
  | op :: rest =>
    if opPushdata4 < op then some (op, [], rest)
    else match pushSize op rest with
      | none => none
      | some (nsize, rest) =>
        if rest.length < nsize ∨ maxScriptElementSize < nsize then none
        else some (op, rest.take nsize, rest.drop nsize)

/-- What one opcode counts for, after the opcode `last`. -/
def opSigOps (flags : UInt32) (accurate : Bool) (last op : UInt8) : ℕ :=
  if op = opChecksig ∨ op = opChecksigverify then 1
  else if op = opCheckdatasig ∨ op = opCheckdatasigverify then
    if flags &&& scriptVerifyCheckdatasigSigops != 0 then 1 else 0
  else if op = opCheckmultisig ∨ op = opCheckmultisigverify then
    if accurate ∧ op1 ≤ last ∧ last ≤ op16 then (last - (op1 - 1)).toNat else 20
  else 0

/-- The loop stops at the first malformed push. Every opcode takes a byte, so the script's length
bounds the passes. -/
def sigOpCountFrom (flags : UInt32) (accurate : Bool) : ℕ → UInt8 → List UInt8 → ℕ
  | 0, _, _ => 0
  | fuel + 1, last, bs =>
    match scriptGetOp bs with
    | none => 0
    | some (op, _, rest) =>
      opSigOps flags accurate last op + sigOpCountFrom flags accurate fuel op rest

def scriptGetSigOpCount (s : List UInt8) (flags : UInt32) (accurate : Bool) : ℕ :=
  sigOpCountFrom flags accurate s.length opInvalidopcode s

def scriptIsPayToScriptHash (s : Script) : Bool :=
  s.size == 23 && s.data[0]? == some opHash160 && s.data[1]? == some 0x14 &&
    s.data[22]? == some opEqual

def lastPush : ℕ → List UInt8 → List UInt8 → Option (List UInt8)
  | _, last, [] => some last
  | 0, last, _ => some last
  | fuel + 1, _, b :: bs =>
    match scriptGetOp (b :: bs) with
    | none => none
    | some (op, data, rest) => if op16 < op then none else lastPush fuel data rest

def scriptGetSigOpCountP2sh (scriptPubKey scriptSig : Script) (flags : UInt32) : ℕ :=
  if flags &&& scriptVerifyP2sh = 0 ∨ ¬scriptIsPayToScriptHash scriptPubKey then
    scriptGetSigOpCount scriptPubKey.data flags true
  else match lastPush scriptSig.size [] scriptSig.data with
    | none => 0
    | some redeem => scriptGetSigOpCount redeem flags true

def getLegacySigOpCount (tx : Transaction) (flags : UInt32) : ℕ :=
  (tx.vin.map fun i => scriptGetSigOpCount i.scriptSig.data flags false).sum +
    (tx.vout.map fun o => scriptGetSigOpCount o.scriptPubKey.data flags false).sum

def getP2shSigOpCount (tx : Transaction) (prevout : Outpoint → Option TxOut) (flags : UInt32) : ℕ :=
  if flags &&& scriptVerifyP2sh = 0 ∨ transactionIsCoinbase tx then 0
  else (tx.vin.map fun i =>
    match prevout i.prevout with
    | none => 0
    | some out =>
      if scriptIsPayToScriptHash out.scriptPubKey then
        scriptGetSigOpCountP2sh out.scriptPubKey i.scriptSig flags
      else 0).sum

def maxBlockSigops : ℕ := 20000

theorem getLegacySigOpCount_congr (tx : Transaction) {flags flags' : UInt32}
    (h : flags &&& scriptVerifyCheckdatasigSigops = flags' &&& scriptVerifyCheckdatasigSigops) :
    getLegacySigOpCount tx flags = getLegacySigOpCount tx flags' := by
  have hop : ∀ accurate last op, opSigOps flags accurate last op =
      opSigOps flags' accurate last op := by
    intro accurate last op
    simp only [opSigOps, h]
  have hfrom : ∀ fuel last bs, sigOpCountFrom flags false fuel last bs =
      sigOpCountFrom flags' false fuel last bs := by
    intro fuel
    induction fuel with
    | zero => intros; rfl
    | succ fuel ih =>
      intro last bs
      rw [sigOpCountFrom, sigOpCountFrom]
      split
      · rfl
      · rw [hop, ih]
  simp only [getLegacySigOpCount, scriptGetSigOpCount, hfrom]

def trueScript : Script := { data := [op1] }

def checksigScript : Script := { data := [opChecksig] }

def pushedChecksig : Script := { data := [0x01, opChecksig] }

end ZClassic
