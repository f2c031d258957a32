import ZClassic.Consensus.SigOps

/-!
# Whose an output is

The destinations of `domain/consensus/src/script_standard.c`, the keystore
(`lib/wallet/src/keystore.c`), and `wallet_is_mine`.
-/

namespace ZClassic

abbrev UInt160 := Vector UInt8 20

inductive TxDestination where
  | none
  | keyId (key : UInt160)
  | scriptId (hash : UInt160)
  deriving DecidableEq

def opDup : UInt8 := 0x76

def opEqualverify : UInt8 := 0x88

def scriptIsPayToPubkeyHash (s : Script) : Bool :=
  s.size == 25 && s.data[0]? == some opDup && s.data[1]? == some opHash160 &&
    s.data[2]? == some 20 && s.data[23]? == some opEqualverify && s.data[24]? == some opChecksig

/-- A public key of `len` bytes that starts with one of `tags`, and `OP_CHECKSIG`. -/
def scriptIsPayToPubkey (len : ℕ) (tags : List UInt8) (s : Script) : Bool :=
  s.size == len + 2 && s.data[0]? == some (UInt8.ofNat len) &&
    s.data[len + 1]? == some opChecksig && (s.data[1]?.any fun tag => tags.contains tag)

def uint160At (s : Script) (offset : ℕ) : UInt160 := .ofFn fun i => s.data.getD (offset + i) 0

/-- `script_extract_destination`. Data carriers and multisig scripts have no destination, and no
template for those fits one of these. -/
def scriptExtractDestination (hash160 : List UInt8 → UInt160) (s : Script) :
    Option TxDestination :=
  if scriptIsPayToScriptHash s then some (.scriptId (uint160At s 2))
  else if scriptIsPayToPubkeyHash s then some (.keyId (uint160At s 3))
  else if scriptIsPayToPubkey 33 [0x02, 0x03] s then
    some (.keyId (hash160 ((s.data.drop 1).take 33)))
  else if scriptIsPayToPubkey 65 [0x04] s then some (.keyId (hash160 ((s.data.drop 1).take 65)))
  else Option.none

def scriptForDestination : TxDestination → Script
  | .none => { data := [] }
  | .keyId key =>
    { data := [opDup, opHash160, 20] ++ key.toList ++ [opEqualverify, opChecksig]
      size_le := by simp [maxScriptSize] }
  | .scriptId hash =>
    { data := [opHash160, 20] ++ hash.toList ++ [opEqual]
      size_le := by simp [maxScriptSize] }

structure PrivKey where
  vch : Vector UInt8 32
  fValid : Bool
  fCompressed : Bool
  deriving DecidableEq

/-- An entry of one of the three tables of the keystore. -/
structure KeystoreEntry (α : Type) where
  id : UInt160
  val : α
  used : Bool := true

def KeystoreEntry.fits {α : Type} (id : UInt160) (e : KeystoreEntry α) : Bool :=
  e.used && e.id == id

structure BasicKeystore where
  keys : List (KeystoreEntry PrivKey) := []
  scripts : List (KeystoreEntry Script) := []
  watching : List (KeystoreEntry (List UInt8)) := []

def keystoreHaveKey (ks : BasicKeystore) (keyid : UInt160) : Bool := ks.keys.any (·.fits keyid)

def keystoreGetKey (ks : BasicKeystore) (keyid : UInt160) : Option PrivKey :=
  (ks.keys.find? (·.fits keyid)).map (·.val)

def keystoreHaveCscript (ks : BasicKeystore) (scriptId : UInt160) : Bool :=
  ks.scripts.any (·.fits scriptId)

def keystoreHaveWatchOnly (ks : BasicKeystore) (keyid : UInt160) : Bool :=
  ks.watching.any (·.fits keyid)

section Mine

variable (hash160 : List UInt8 → UInt160) (ks : BasicKeystore)

def walletIsMine (txout : TxOut) : Bool :=
  match scriptExtractDestination hash160 txout.scriptPubKey with
  | some (.keyId key) => keystoreHaveKey ks key || keystoreHaveWatchOnly ks key
  | some (.scriptId hash) => keystoreHaveCscript ks hash
  | _ => false

/-- The test of `wallet_available_coins` for a key to spend with. -/
def walletCanSpend (txout : TxOut) : Bool :=
  match scriptExtractDestination hash160 txout.scriptPubKey with
  | some (.keyId key) => (keystoreGetKey ks key).isSome
  | _ => false

end Mine

end ZClassic
