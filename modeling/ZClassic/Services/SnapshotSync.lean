import Mathlib.Data.Finset.Sort
import Mathlib.Data.Prod.Lex
import ZClassic.Net.Download
import ZClassic.Net.FlyClient
import ZClassic.Storage.CoinsKv

/-!
# The snapshot session

The snapshot service (`app/services/src/snapshot_offer.c`, `snapshot_fetch.c`, `snapshot_verify.c`,
`snapshot_apply.c`, `snapshot_sync_service.c`): a peer offers a UTXO snapshot, answers a FlyClient
challenge, streams the rows into a staging table, and ends the stream; the staged rows are promoted
when their SHA3 commitment is the one of the offer. Statements of the database succeed, apart from
the constraints of the schema.
-/

namespace ZClassic

def syncTransition : SyncState → SyncState → Bool
  | .idle, .findingPeers | .idle, .headersDownload | .idle, .snapshotReceive
  | .findingPeers, .headersDownload | .findingPeers, .snapshotReceive | .findingPeers, .idle
  | .findingPeers, .failed
  | .headersDownload, .blocksDownload | .headersDownload, .connectingBlocks
  | .headersDownload, .atTip | .headersDownload, .idle | .headersDownload, .findingPeers
  | .headersDownload, .failed | .headersDownload, .snapshotReceive
  | .blocksDownload, .connectingBlocks | .blocksDownload, .atTip | .blocksDownload, .headersDownload
  | .blocksDownload, .idle | .blocksDownload, .failed | .blocksDownload, .snapshotReceive
  | .connectingBlocks, .atTip | .connectingBlocks, .headersDownload
  | .connectingBlocks, .blocksDownload | .connectingBlocks, .idle | .connectingBlocks, .failed
  | .connectingBlocks, .snapshotReceive
  | .atTip, .headersDownload | .atTip, .reorg | .atTip, .idle
  | .reorg, .atTip | .reorg, .connectingBlocks | .reorg, .reorgRecovery | .reorg, .failed
  | .blocksDownload, .reorgRecovery | .connectingBlocks, .reorgRecovery | .idle, .reorgRecovery
  | .reorgRecovery, .connectingBlocks | .reorgRecovery, .blocksDownload | .reorgRecovery, .idle
  | .reorgRecovery, .failed
  | .snapshotReceive, .connectingBlocks | .snapshotReceive, .headersDownload
  | .snapshotReceive, .atTip | .snapshotReceive, .idle | .snapshotReceive, .failed
  | .failed, .idle | .failed, .findingPeers => true
  | _, _ => false

/-- The answer of `sync_set_state`, and the state it leaves. -/
def syncSetState (cur new : SyncState) : Bool × SyncState :=
  if cur = new then (true, cur)
  else if syncTransition cur new then (true, new)
  else (false, cur)

structure SnapshotManifest where
  height : Int32
  blockHash : UInt256
  utxoRoot : UInt256
  mmrRoot : UInt256
  numUtxos : UInt64
  totalBytes : UInt64
  mmbRoot : UInt256
  protocolVersion : UInt32
  snapshotSchemaVersion : UInt32
  peerTipHeight : Int32
  chainWork : UInt256

structure SnapshotOfferParams extends SnapshotManifest where
  peerId : UInt32
  ourHeight : ℤ

inductive SnapshotManifestResult where
  | ok
  | truncated
  | trailingBytes
  | range
  | staleSchema
  | unfinal
  | weakWork
  | noMmr
  | noMmb
  | notAhead
  deriving DecidableEq

def readManifest : Reader SnapshotManifest := do
  let height ← readI32
  let blockHash ← readU256
  let utxoRoot ← readU256
  let mmrRoot ← readU256
  let numUtxos ← readU64
  let totalBytes ← readU64
  let mmbRoot ← readU256
  let protocolVersion ← readU32
  let snapshotSchemaVersion ← readU32
  let peerTipHeight ← readI32
  let chainWork ← readU256
  return { height, blockHash, utxoRoot, mmrRoot, numUtxos, totalBytes, mmbRoot, protocolVersion,
           snapshotSchemaVersion, peerTipHeight, chainWork }

def snapshotManifestParse (bytes : List UInt8) : Except SnapshotManifestResult SnapshotManifest :=
  match readManifest.run bytes with
  | none => .error .truncated
  | some (m, []) => .ok m
  | some (_, _ :: _) => .error .trailingBytes

def fastSyncProtocolVersion : UInt32 := 2

def fastSyncSnapshotSchemaVersion : UInt32 := 1

def zclImmutableHeight (tipHeight : ℤ) : ℤ :=
  if tipHeight < 0 then -1 else tipHeight - zclFinalityDepth

def zclIsFinalitySafeAnchor (anchorHeight peerTipHeight : ℤ) : Bool :=
  decide (0 ≤ zclImmutableHeight peerTipHeight ∧ 0 ≤ anchorHeight ∧
    anchorHeight ≤ zclImmutableHeight peerTipHeight)

/-- A live-tip offer is acceptable too: FlyClient and SHA3 still have to pass. -/
def zclIsSnapshotAnchorAcceptable (anchorHeight peerTipHeight : ℤ) : Bool :=
  zclIsFinalitySafeAnchor anchorHeight peerTipHeight ||
    decide (0 ≤ anchorHeight ∧ anchorHeight = peerTipHeight)

def snapshotManifestValidateCommon (m : SnapshotManifest) : SnapshotManifestResult :=
  if m.height < 0 ∨ m.numUtxos = 0 ∨ m.totalBytes = 0 ∨ 100000000 < m.numUtxos ∨
      100 * 1024 * 1024 * 1024 < m.totalBytes then .range
  else if m.protocolVersion ≠ fastSyncProtocolVersion ∨
      m.snapshotSchemaVersion ≠ fastSyncSnapshotSchemaVersion then .staleSchema
  else if !zclIsSnapshotAnchorAcceptable m.height.toInt m.peerTipHeight.toInt then .unfinal
  else if m.chainWork = 0 then .weakWork
  else if m.mmrRoot = 0 then .noMmr
  else if m.mmbRoot = 0 then .noMmb
  else .ok

def snapshotManifestValidateOffer (m : SnapshotManifest) (ourHeight : ℤ) : SnapshotManifestResult :=
  match snapshotManifestValidateCommon m with
  | .ok => if m.height.toInt ≤ ourHeight + 5000 then .notAhead else .ok
  | r => r

inductive SnapsyncOfferResult where
  | accepted
  | rejectedRange
  | rejectedNoMmr
  | rejectedNotAhead
  | rejectedBusy
  | rejectedBlacklisted
  | rejectedParse
  | rejectedStaleSchema
  | rejectedUnfinal
  | rejectedWeakWork
  deriving DecidableEq

def snapsyncOfferResultFromManifest : SnapshotManifestResult → SnapsyncOfferResult
  | .ok => .accepted
  | .range => .rejectedRange
  | .staleSchema => .rejectedStaleSchema
  | .unfinal => .rejectedUnfinal
  | .weakWork => .rejectedWeakWork
  | .noMmr | .noMmb => .rejectedNoMmr
  | .notAhead => .rejectedNotAhead
  | .truncated | .trailingBytes => .rejectedParse

/-- `utxos` and `snapshot_staging_utxos`. While a transaction is open, `saved` is the staging table
it started from; the snapshot code writes to no other table inside it. -/
structure SnapshotDb where
  utxos : CoinSet
  staging : CoinSet
  saved : Option CoinSet := none

namespace SnapshotDb

def begin (db : SnapshotDb) : SnapshotDb := { db with saved := some db.staging }

def commit (db : SnapshotDb) : SnapshotDb := { db with saved := none }

def rollback (db : SnapshotDb) : SnapshotDb :=
  { db with staging := db.saved.getD db.staging, saved := none }

def discardStaging (db : SnapshotDb) : SnapshotDb := { db with staging := ∅ }

end SnapshotDb

/-- `INSERT OR REPLACE INTO snapshot_staging_utxos`, which the table's `CHECK`s may refuse. -/
def snapStoreStagingInsert (staging : CoinSet) (op : Outpoint) (row : Coin) : Option CoinSet :=
  if 0 ≤ row.value ∧ row.value ≤ 2100000000000000 ∧ 0 ≤ row.height then some (staging.insert op row)
  else none

/-- The rank of a hash among blobs: the first byte is the least significant one of the number. -/
def blobRank (h : UInt256) : ℕ := leNat (leBytes 32 h.toNat).reverse

/-- `ORDER BY txid, vout`; the index is stored as an `int`. -/
def rowKey (op : Outpoint) : ℕ ×ₗ ℤ := toLex (blobRank op.hash, op.n.toInt32.toInt)

theorem blobRank_injective : Function.Injective blobRank := by
  intro a b h
  have hlen : ∀ x : UInt256, (leBytes 32 x.toNat).reverse.length = 32 := by simp
  have hrev : (leBytes 32 a.toNat).reverse = (leBytes 32 b.toNat).reverse := by
    rw [← leBytes_leNat (leBytes 32 a.toNat).reverse, ← leBytes_leNat (leBytes 32 b.toNat).reverse,
      hlen, hlen]
    exact congrArg (leBytes 32) h
  have hbytes := congrArg leNat (List.reverse_inj.mp hrev)
  rw [leNat_leBytes_of_lt a.isLt, leNat_leBytes_of_lt b.isLt] at hbytes
  exact BitVec.toNat_inj.mp hbytes

theorem rowKey_injective : Function.Injective rowKey := by
  rintro ⟨h, n⟩ ⟨h', n'⟩ hkey
  have hpair := Prod.mk.inj (toLex.injective hkey)
  have hhash : h = h' := blobRank_injective hpair.1
  have hidx : n = n' := by
    have hint : n.toInt32 = n'.toInt32 := Int32.toInt_inj.mp hpair.2
    exact congrArg Int32.toUInt32 hint
  rw [hhash, hidx]

def rowLe (a b : Outpoint) : Prop := rowKey a ≤ rowKey b

instance : DecidableRel rowLe := fun a b => inferInstanceAs (Decidable (rowKey a ≤ rowKey b))

instance : IsTrans Outpoint rowLe := ⟨fun _ _ _ hab hbc => le_trans hab hbc⟩

instance : Std.Antisymm rowLe := ⟨fun _ _ hab hba => rowKey_injective (le_antisymm hab hba)⟩

instance : Std.Total rowLe := ⟨fun a b => le_total (rowKey a) (rowKey b)⟩

def utxoSha3SerializeRecord (op : Outpoint) (row : Coin) : List UInt8 :=
  leBytes 32 op.hash.toNat ++ leBytes 4 op.n.toNat ++ leBytes 8 row.value.toUInt64.toNat ++
    leBytes 4 row.script.length ++ row.script ++ leBytes 4 row.height.toUInt32.toNat ++
    [if row.isCoinbase then 1 else 0]

def utxoCommitmentSha3ComputeTable (sha3 : List UInt8 → UInt256) (t : CoinSet) : UInt256 × UInt64 :=
  (sha3 ((t.keys.sort rowLe).flatMap fun op =>
    ((t.lookup op).map (utxoSha3SerializeRecord op)).getD []),
   UInt64.ofNat t.keys.card)

inductive SnapshotSyncState where
  | idle
  | negotiating
  | receiving
  | verifying
  | complete
  | failed
  deriving DecidableEq

/-- `struct snapshot_sync_service`; the defaults are what `snapsync_init` and `snapsync_reset`
write. -/
structure SnapshotSyncService where
  state : SnapshotSyncState := .idle
  offeredUtxoRoot : UInt256 := 0
  offeredMmbRoot : UInt256 := 0
  offeredBlockHash : UInt256 := 0
  offeredChainWork : UInt256 := 0
  offeredHeight : Int32 := 0
  offeredPeerTipHeight : Int32 := 0
  offeredCount : UInt64 := 0
  offeredProtocolVersion : UInt32 := 0
  offeredSchemaVersion : UInt32 := 0
  fcChallenge : FcChallenge := {}
  fcVerified : Bool := false
  receivedUtxos : UInt64 := 0
  startTimeUs : ℤ := 0
  servingPeerId : UInt32 := 0
  lastProgressTimeUs : ℤ := 0
  lastProgressUtxos : UInt64 := 0
  /-- peer and time of each entry; the order of the array is not looked at -/
  blacklist : List (UInt32 × ℤ) := []
  turboActive : Bool := false
  lastCommitAt : UInt64 := 0

structure SnapshotSession where
  svc : SnapshotSyncService := {}
  db : SnapshotDb
  syncState : SyncState

def snapsyncInit (db : SnapshotDb) (syncState : SyncState) : SnapshotSession where
  db
  syncState

structure SnapshotEnv extends FlyClientEnv where
  sha3 : List UInt8 → UInt256
  params : ChainParams
  nMinimumChainWork : UInt256
  /-- `block_source_policy_snapshot_offer_allowed` on a valid offer: local, snapshot, peer height -/
  offerAllowed : ℤ → ℤ → ℤ → Bool

section

variable (env : SnapshotEnv) (s : SnapshotSession)

def snapsyncReset : SnapshotSession :=
  { s with
    svc := { blacklist := s.svc.blacklist }
    db := s.db.rollback.discardStaging }

def snapsyncBlacklistUs : ℤ := 600 * 1000000

def snapsyncMaxBlacklist : ℕ := 16

def snapsyncIsPeerBlacklisted (svc : SnapshotSyncService) (peerId : UInt32) (now : ℤ) : Bool :=
  peerId != 0 && svc.blacklist.any fun e =>
    e.1 == peerId && decide (now - e.2 < snapsyncBlacklistUs)

def snapsyncBlacklistPeer (svc : SnapshotSyncService) (peerId : UInt32) (now : ℤ) :
    SnapshotSyncService :=
  if peerId = 0 then svc
  else if svc.blacklist.any fun e => e.1 == peerId then
    { svc with blacklist := svc.blacklist.map fun e => if e.1 = peerId then (e.1, now) else e }
  else
    let kept := svc.blacklist.filter fun e => decide (now - e.2 < snapsyncBlacklistUs)
    if kept.length < snapsyncMaxBlacklist then { svc with blacklist := kept ++ [(peerId, now)] }
    else { svc with blacklist := kept }

def snapsyncAcceptOffer (o : SnapshotOfferParams) (now : ℤ) : Option SnapshotSession :=
  if s.svc.state ≠ .idle ∨ o.height ≤ 0 ∨ o.numUtxos = 0 ∨ 100000000 < o.numUtxos then none
  -- a node that has a real UTXO set takes no snapshot
  else if 100000 < s.db.utxos.keys.card then none
  else some { s with svc := { s.svc with
    offeredUtxoRoot := o.utxoRoot
    offeredBlockHash := o.blockHash
    offeredMmbRoot := o.mmbRoot
    offeredHeight := o.height
    offeredCount := o.numUtxos
    servingPeerId := o.peerId
    startTimeUs := now
    state := .negotiating } }

def offerChallenge (o : SnapshotOfferParams) (seed : UInt256) : FcChallenge where
  seed
  chainLength := o.height.toInt64.toUInt64 + 1
  mmbRoot := o.mmbRoot

/-- What `snapsync_handle_offer` stores once the policy has agreed. -/
def storeOffer (o : SnapshotOfferParams) (seed : UInt256) : SnapshotSession :=
  { s with svc := { s.svc with
      offeredChainWork := o.chainWork
      offeredPeerTipHeight := o.peerTipHeight
      offeredProtocolVersion := o.protocolVersion
      offeredSchemaVersion := o.snapshotSchemaVersion
      fcChallenge := offerChallenge o seed
      fcVerified := false } }

def takeOffer (o : SnapshotOfferParams) (now : ℤ)
    (seed : UInt256) : SnapsyncOfferResult × SnapshotSession :=
  match snapsyncAcceptOffer s o now with
  | none => (.rejectedBusy, s)
  | some s' =>
    if !env.offerAllowed o.ourHeight o.height.toInt o.peerTipHeight.toInt then
      (.rejectedBusy, snapsyncReset s')
    else (.accepted, storeOffer s' o seed)

def snapsyncHandleOffer (o : SnapshotOfferParams)
    (now : ℤ) (seed : UInt256) : SnapsyncOfferResult × SnapshotSession :=
  let checked := snapshotManifestValidateOffer o.toSnapshotManifest o.ourHeight
  if checked ≠ .ok then (snapsyncOfferResultFromManifest checked, s)
  else if snapsyncIsPeerBlacklisted s.svc o.peerId now then (.rejectedBlacklisted, s)
  -- the peer we receive from may have dropped and another one may take its place
  else if s.svc.state = .receiving ∧ s.svc.servingPeerId ≠ o.peerId then
    takeOffer env (snapsyncReset s) o now seed
  else if s.svc.state ≠ .idle then (.rejectedBusy, s)
  else takeOffer env s o now seed

abbrev ZclResult := Except ℤ Unit

def snapsyncBeginReceive (now : ℤ) : ZclResult × SnapshotSession :=
  if s.svc.state ≠ .negotiating then (.error (-2), s)
  else
    let svc := { s.svc with turboActive := true, receivedUtxos := 0, lastCommitAt := 0 }
    let s := { s with svc, db := s.db.commit.discardStaging.begin }
    match syncSetState s.syncState .snapshotReceive with
    | (false, _) => (.error (-7), snapsyncReset { s with db := s.db.rollback })
    | (true, syncState) =>
      (.ok (), { s with
        syncState
        svc := { s.svc with
          state := .receiving, lastProgressTimeUs := now, lastProgressUtxos := 0 } })

/-- `zcl_chainwork_below_floor`: a zero floor rejects nothing. -/
def zclChainworkBelowFloor (chainWork floor : UInt256) : Bool :=
  floor != 0 && decide (chainWork < floor)

/-- The checks of `snapsync_verify_flyclient` on a response, in the order of their codes' tests. -/
def flyclientChecks (env : SnapshotEnv) (svc : SnapshotSyncService) (resp : FcResponse) :
    ZclResult := do
  if svc.state ≠ .negotiating then throw (-2)
  if !fcVerifyResponse env.toFlyClientEnv resp svc.fcChallenge then throw (-3)
  if svc.offeredChainWork = 0 then throw (-4)
  if zclChainworkBelowFloor svc.offeredChainWork env.nMinimumChainWork then throw (-9)
  if resp.samples.any fun x => !checkProofOfWork x.leaf.blockHash x.leaf.nBits env.params then
    throw (-6)
  if resp.samples.any fun x =>
      x.leaf.chainWork == 0 || decide (svc.offeredChainWork < x.leaf.chainWork) then throw (-7)

def snapsyncVerifyFlyclient (resp : FcResponse) (now : ℤ) : ZclResult × SnapshotSession :=
  match flyclientChecks env s.svc resp with
  | .error e => (.error e, s)
  | .ok () =>
    match snapsyncBeginReceive { s with svc := { s.svc with fcVerified := false } } now with
    | (.error _, s) => (.error (-8), s)
    | (.ok (), s) => (.ok (), { s with svc := { s.svc with fcVerified := true } })

/-- The length of a script: one byte, or two or four after 253 and 254. -/
def readScriptLength : Reader ℕ := do
  let n ← readLe 1
  if n = 253 then readLe 2
  else if n = 254 then readLe 4
  else return n

def readChunkEntry : Reader (Outpoint × Coin) := do
  let hash ← readU256
  let n ← readU32
  let value ← readI64
  let height ← readI32
  let isCoinbase ← readU8
  let scriptLen ← readScriptLength
  let script ← readBytes scriptLen
  return (⟨hash, n⟩, { value, height, isCoinbase := isCoinbase != 0, script })

/-- The loop of `snapsync_apply_chunk_local`: the rows it wrote, and whether it came to its end. -/
def applyEntries : ℕ → List UInt8 → CoinSet → Bool × CoinSet
  | 0, _, staging => (true, staging)
  | n + 1, bytes, staging =>
    match readChunkEntry.run bytes with
    | none => (false, staging)
    | some ((op, row), rest) =>
      match snapStoreStagingInsert staging op row with
      | none => (false, staging)
      | some staging => applyEntries n rest staging

def snapsyncBatchCommitRows : UInt64 := 25000

/-- `snapsync_apply_chunk_local` on a chunk of at least four bytes. -/
def snapsyncApplyChunkLocal (chunk : List UInt8) (now : ℤ) : Option ℕ × SnapshotSession :=
  let entries := leNat (chunk.take 4)
  if entries = 0 ∨ 1000 < entries then (none, s)
  else
    match applyEntries entries (chunk.drop 4) s.db.staging with
    | (false, staging) => (none, { s with db := { s.db with staging } })
    | (true, staging) =>
      let received := s.svc.receivedUtxos + UInt64.ofNat entries
      let s := { s with
        db := { s.db with staging }
        svc := { s.svc with receivedUtxos := received, lastProgressTimeUs := now } }
      if snapsyncBatchCommitRows ≤ received - s.svc.lastCommitAt then
        (some entries, { s with
          db := s.db.commit.begin
          svc := { s.svc with lastCommitAt := received } })
      else (some entries, s)

def snapsyncApplyChunk (chunk : List UInt8) (now : ℤ) : ℤ × SnapshotSession :=
  if chunk.length < 4 then (-1, s)
  else if s.svc.state ≠ .receiving then (0, s)
  else
    match snapsyncApplyChunkLocal s chunk now with
    | (some applied, s) => (applied, s)
    | (none, s') =>
      let db := if s.svc.turboActive then s'.db.rollback else s'.db
      (-1, { s' with db, svc := { s'.svc with state := .failed, turboActive := false } })

def snapsyncFinalizeFail : SnapshotSession :=
  { s with db := s.db.discardStaging, svc := { s.svc with state := .failed, turboActive := false } }

/-- `snapsync_stage_promote_active_internal` in its transaction: the active table is emptied and
takes every staged row. The evidence record it is given claims only the two checks made here, so
the branch that imports snapshot evidence is never taken. -/
def snapsyncStagePromoteActive (db : SnapshotDb) (localCount : UInt64) : Option SnapshotDb :=
  if UInt64.ofNat db.staging.keys.card ≠ localCount then none
  else some { db with utxos := db.staging, staging := ∅ }

def snapsyncFinalize : ZclResult × SnapshotSession :=
  if s.svc.state ≠ .receiving then (.error (-2), s)
  else
    let s := { s with db := s.db.commit, svc := { s.svc with state := .verifying } }
    if !s.svc.fcVerified then (.error (-3), snapsyncFinalizeFail s)
    else if s.svc.offeredCount = 0 ∨ s.svc.receivedUtxos ≠ s.svc.offeredCount then
      (.error (-3), snapsyncFinalizeFail s)
    else
      let (localRoot, localCount) := utxoCommitmentSha3ComputeTable env.sha3 s.db.staging
      if localRoot ≠ s.svc.offeredUtxoRoot ∨ localCount ≠ s.svc.offeredCount then
        (.error (-3), snapsyncFinalizeFail s)
      else
        match snapsyncStagePromoteActive s.db localCount with
        | none =>
          (.error (-3), { s with svc := { s.svc with state := .failed, turboActive := false } })
        | some db =>
          (.ok (), { s with
            db
            svc := { s.svc with state := .complete, turboActive := false } })

def snapsyncHandleEnd (peerId : UInt32) : ZclResult × SnapshotSession :=
  -- only from the peer we are syncing from
  if s.svc.servingPeerId ≠ peerId then (.error (-2), s)
  else if s.svc.state ≠ .receiving then (.error (-3), s)
  else snapsyncFinalize env s

def snapsyncStallTimeoutUs : ℤ := 120 * 1000000

/-- Blacklists the serving peer and resets; `SYNC_SNAPSHOT_RECEIVE` goes back to headers. -/
def blacklistReset (now : ℤ) : SnapshotSession :=
  snapsyncReset { s with svc := snapsyncBlacklistPeer s.svc s.svc.servingPeerId now }

def resumeHeaders : SnapshotSession :=
  if s.syncState = .snapshotReceive then
    { s with syncState := (syncSetState s.syncState .headersDownload).2 }
  else s

def snapsyncCheckStall (now : ℤ) : SnapshotSession :=
  if s.svc.state ≠ .receiving ∨ s.svc.lastProgressTimeUs = 0 then s
  else if s.svc.lastProgressUtxos < s.svc.receivedUtxos then
    { s with svc := { s.svc with
        lastProgressTimeUs := now
        lastProgressUtxos := s.svc.receivedUtxos } }
  else if now - s.svc.lastProgressTimeUs < snapsyncStallTimeoutUs then s
  else resumeHeaders (blacklistReset s now)

def snapsyncCheckNegotiationStall (now : ℤ) : SnapshotSession :=
  if s.svc.state ≠ .negotiating ∨ s.svc.startTimeUs = 0 then s
  else if now - s.svc.startTimeUs < snapsyncStallTimeoutUs then s
  else blacklistReset s now

def snapsyncCheckFailedReset (now : ℤ) : SnapshotSession :=
  if s.svc.state ≠ .failed then s else resumeHeaders (blacklistReset s now)

end

end ZClassic
