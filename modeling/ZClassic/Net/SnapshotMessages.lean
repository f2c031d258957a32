import ZClassic.Services.SnapshotActivation

/-!
# Snapshot messages from several peers

The receiving half of `mp_handle_zcl23_sync` (`lib/net/src/msgprocessor_snapshot.c`): the router
parses a message and hands it to the snapshot session.
-/

namespace ZClassic

inductive PeerState where
  | disconnected
  | connecting
  | connected
  | versionSent
  | versionReceived
  | handshakeComplete
  | active
  | syncingHeaders
  | syncingBlocks
  | snapshotServing
  | snapshotReceiving
  | stale
  | disconnecting
  | banned
  deriving DecidableEq

def peerTransitionValid : PeerState → PeerState → Bool
  | .disconnected, .connecting | .disconnected, .connected
  | .connecting, .connected | .connecting, .versionSent | .connecting, .disconnected
  | .connecting, .disconnecting
  | .connected, .versionSent | .connected, .versionReceived | .connected, .disconnecting
  | .versionSent, .versionReceived | .versionSent, .handshakeComplete | .versionSent, .disconnecting
  | .versionReceived, .versionSent | .versionReceived, .handshakeComplete
  | .versionReceived, .disconnecting
  | .handshakeComplete, .active | .handshakeComplete, .syncingHeaders
  | .handshakeComplete, .syncingBlocks | .handshakeComplete, .snapshotServing
  | .handshakeComplete, .snapshotReceiving | .handshakeComplete, .disconnecting
  | .active, .syncingHeaders | .active, .syncingBlocks | .active, .snapshotServing
  | .active, .snapshotReceiving | .active, .stale | .active, .disconnecting
  | .syncingHeaders, .syncingBlocks | .syncingHeaders, .active | .syncingHeaders, .snapshotReceiving
  | .syncingHeaders, .snapshotServing | .syncingHeaders, .stale | .syncingHeaders, .disconnecting
  | .syncingBlocks, .active | .syncingBlocks, .syncingHeaders | .syncingBlocks, .snapshotReceiving
  | .syncingBlocks, .snapshotServing | .syncingBlocks, .stale | .syncingBlocks, .disconnecting
  | .snapshotServing, .active | .snapshotServing, .disconnecting
  | .snapshotReceiving, .active | .snapshotReceiving, .disconnecting
  | .stale, .active | .stale, .syncingHeaders | .stale, .disconnecting
  | .disconnecting, .disconnected | .banned, .disconnected
  | .active, .banned | .syncingHeaders, .banned | .syncingBlocks, .banned
  | .handshakeComplete, .banned | .snapshotServing, .banned | .snapshotReceiving, .banned => true
  | _, _ => false

def peerSetStateChecked (current new : PeerState) : PeerState :=
  if peerTransitionValid current new then new else current

inductive SnapshotCommand where
  | zsnapshot
  | zfcproofs
  | zsnapdata
  | zsnapend
  deriving DecidableEq

/-- A message, with what the router reads beside it: the clock, the seed drawn for a challenge and
the height of the active chain. -/
structure SnapshotMessage where
  peer : UInt32
  command : SnapshotCommand
  payload : List UInt8 := []
  now : ℤ := 0
  seed : UInt256 := 0
  ourHeight : ℤ := 0

structure SnapshotRouter where
  session : SnapshotSession
  peerState : UInt32 → PeerState

def msgShouldIgnoreSnapshotOffer (snapsyncState : SnapshotSyncState) (peerState : PeerState)
    (syncState : SyncState) : Bool :=
  syncState == .atTip || peerState == .snapshotReceiving || snapsyncState == .negotiating ||
    snapsyncState == .receiving || snapsyncState == .verifying

def SnapshotRouter.setPeer (r : SnapshotRouter) (peer : UInt32) (new : PeerState) :
    SnapshotRouter :=
  { r with
    peerState := Function.update r.peerState peer (peerSetStateChecked (r.peerState peer) new) }

def SnapshotRouter.setSync (r : SnapshotRouter) (new : SyncState) : SnapshotRouter :=
  { r with
    session := { r.session with syncState := (syncSetState r.session.syncState new).2 } }

section

variable (env : SnapshotEnv) (r : SnapshotRouter) (m : SnapshotMessage)

def routeOffer (manifest : SnapshotManifest) : SnapshotRouter :=
  if msgShouldIgnoreSnapshotOffer r.session.svc.state (r.peerState m.peer) r.session.syncState then
    r
  else
    let o := { manifest with peerId := m.peer, ourHeight := m.ourHeight }
    match snapsyncHandleOffer env r.session o m.now m.seed with
    | (.accepted, s) =>
      ({ r with session := s }.setPeer m.peer .snapshotReceiving).setSync .snapshotReceive
    | (_, s) => { r with session := s }

def mpHandleZcl23Sync : SnapshotRouter :=
  match m.command with
  | .zsnapshot =>
    match snapshotManifestParse m.payload with
    | .error _ => r
    | .ok manifest => routeOffer env r m manifest
  | .zfcproofs =>
    match snapsyncParseFcResponse m.payload with
    | none => r
    | some resp => { r with session := (snapsyncVerifyFlyclient env r.session resp m.now).2 }
  | .zsnapdata => { r with session := (snapsyncApplyChunk r.session m.payload m.now).2 }
  | .zsnapend =>
    match snapsyncHandleEnd env r.session m.peer with
    | (.ok (), s) => ({ r with session := s }.setPeer m.peer .active).setSync .headersDownload
    | (.error _, s) => { r with session := s }

theorem mpHandleZcl23Sync_session :
    ∃ calls, (mpHandleZcl23Sync env r m).session = run (snapshotStep env) r.session calls := by
  unfold mpHandleZcl23Sync
  split
  · cases snapshotManifestParse m.payload with
    | error e => exact ⟨[], rfl⟩
    | ok manifest =>
      dsimp only
      unfold routeOffer
      split
      · exact ⟨[], rfl⟩
      · dsimp only
        split
        · next s heq =>
          refine ⟨[.offer ⟨manifest, m.peer, m.ourHeight⟩ m.now m.seed,
            .syncMoves (syncSetState s.syncState .snapshotReceive).2], ?_⟩
          rw [run_cons, run_cons, run_nil, snapshotStep, heq]
          rfl
        · next s heq =>
          refine ⟨[.offer ⟨manifest, m.peer, m.ourHeight⟩ m.now m.seed], ?_⟩
          rw [run_cons, run_nil, snapshotStep, heq]
  · cases snapsyncParseFcResponse m.payload with
    | none => exact ⟨[], rfl⟩
    | some resp => exact ⟨[.proofs resp m.now], rfl⟩
  · exact ⟨[.chunk m.payload m.now], rfl⟩
  · split
    · next s heq =>
      refine ⟨[.finish m.peer, .syncMoves (syncSetState s.syncState .headersDownload).2], ?_⟩
      rw [run_cons, run_cons, run_nil, snapshotStep, heq]
      rfl
    · next s heq =>
      refine ⟨[.finish m.peer], ?_⟩
      rw [run_cons, run_nil, snapshotStep, heq]

end

/-- Whatever the peers send, a session in progress is bound to the offer it accepted last. -/
theorem routedSession_bound (env : SnapshotEnv) (db : SnapshotDb) (syncState : SyncState)
    (peerState : UInt32 → PeerState) (msgs : List SnapshotMessage) :
    let s₀ := snapsyncInit db syncState
    let s := (run (mpHandleZcl23Sync env) ⟨s₀, peerState⟩ msgs).session
    ∃ calls, s = run (snapshotStep env) s₀ calls ∧ SessionBound env s₀ calls s := by
  intro s₀ s
  obtain ⟨calls, hs⟩ : ∃ calls, s = run (snapshotStep env) s₀ calls := by
    refine List.foldlRecOn (motive := fun r => ∃ calls, r.session = run (snapshotStep env) s₀ calls)
      msgs (mpHandleZcl23Sync env) (b := ⟨s₀, peerState⟩) ⟨[], rfl⟩ ?_
    rintro r ⟨calls, hr⟩ m -
    obtain ⟨more, hmore⟩ := mpHandleZcl23Sync_session env r m
    exact ⟨calls ++ more, by rw [hmore, hr, run_append]⟩
  exact ⟨calls, hs, hs ▸ sessionBound_run rfl calls⟩

/-- Proofs, a chunk or an end that does not come from the serving peer. -/
def ForeignMessage (r : SnapshotRouter) (m : SnapshotMessage) : Prop :=
  m.command ≠ .zsnapshot ∧ m.peer ≠ r.session.svc.servingPeerId

instance (r : SnapshotRouter) (m : SnapshotMessage) : Decidable (ForeignMessage r m) :=
  inferInstanceAs (Decidable (_ ∧ _))

/-- Proofs that pass every check while the session waits for them, or bytes that it reads as a
chunk. -/
def isHeard (env : SnapshotEnv) (svc : SnapshotSyncService) (m : SnapshotMessage) : Bool :=
  match m.command with
  | .zfcproofs => (snapsyncParseFcResponse m.payload).any fun resp =>
      (flyclientChecks env svc resp).isOk
  | .zsnapdata => svc.state == .receiving && decide (4 ≤ m.payload.length)
  | .zsnapshot | .zsnapend => false

/-- Nobody but the serving peer sends proofs or chunks that the session listens to. -/
def ServedAlone (env : SnapshotEnv) (r : SnapshotRouter) (m : SnapshotMessage) : Prop :=
  ForeignMessage r m → isHeard env r.session.svc m = false

instance (env : SnapshotEnv) (r : SnapshotRouter) (m : SnapshotMessage) :
    Decidable (ServedAlone env r m) :=
  inferInstanceAs (Decidable (_ → _))

/-- What an observer sees of the session. -/
structure SnapshotView where
  state : SnapshotSyncState
  receivedUtxos : UInt64
  staging : CoinSet
  utxos : CoinSet
  deriving DecidableEq

def SnapshotRouter.view (r : SnapshotRouter) : SnapshotView where
  state := r.session.svc.state
  receivedUtxos := r.session.svc.receivedUtxos
  staging := r.session.db.staging
  utxos := r.session.db.utxos

theorem ServedAlone.unchanged {env : SnapshotEnv} {r : SnapshotRouter} {m : SnapshotMessage}
    (hok : ServedAlone env r m) (hforeign : ForeignMessage r m) :
    mpHandleZcl23Sync env r m = r := by
  have hdeaf := hok hforeign
  obtain ⟨hcmd, hpeer⟩ := hforeign
  unfold mpHandleZcl23Sync
  unfold isHeard at hdeaf
  cases hm : m.command with
  | zsnapshot => exact absurd hm hcmd
  | zfcproofs =>
    rw [hm] at hdeaf
    cases hparse : snapsyncParseFcResponse m.payload with
    | none => rfl
    | some resp =>
      rw [hparse, Option.any_some] at hdeaf
      dsimp only
      unfold snapsyncVerifyFlyclient
      cases hcheck : flyclientChecks env r.session.svc resp with
      | error e => rfl
      | ok _ => rw [hcheck] at hdeaf; cases hdeaf
  | zsnapdata =>
    rw [hm] at hdeaf
    unfold snapsyncApplyChunk
    by_cases hlen : m.payload.length < 4
    · rw [if_pos hlen]
    · have hstate : r.session.svc.state ≠ .receiving := by
        intro hstate
        rw [hstate, decide_eq_true (not_lt.mp hlen)] at hdeaf
        cases hdeaf
      rw [if_neg hlen, if_pos hstate]
  | zsnapend =>
    unfold snapsyncHandleEnd
    rw [if_pos (Ne.symm hpeer)]

/-- In every run in which only the serving peer is heard, the messages of the other peers can be
deleted: the remaining messages meet the same sessions, and the run ends in the same one. -/
theorem foreignMessages_unseen (env : SnapshotEnv) (r : SnapshotRouter)
    (msgs : List SnapshotMessage)
    (hok : MeetsAll (mpHandleZcl23Sync env) (ServedAlone env) r msgs) :
    (statesMet (mpHandleZcl23Sync env) ForeignMessage r msgs).map SnapshotRouter.view =
        (statesMet (mpHandleZcl23Sync env) (fun _ _ => False) r
          (purge (mpHandleZcl23Sync env) ForeignMessage r msgs)).map SnapshotRouter.view ∧
      (run (mpHandleZcl23Sync env) r msgs).view =
        (run (mpHandleZcl23Sync env) r
          (purge (mpHandleZcl23Sync env) ForeignMessage r msgs)).view := by
  have hquiet : MeetsAll (mpHandleZcl23Sync env)
      (fun r m => ForeignMessage r m → mpHandleZcl23Sync env r m = r) r msgs :=
    hok.imp fun _ _ => ServedAlone.unchanged
  exact ⟨congrArg _ (statesMet_purge hquiet), congrArg _ (run_purge hquiet)⟩

/-! Peer 1 serves a snapshot of one row; peer 2 sends messages of its own. -/

def oneRowManifestBytes : List UInt8 :=
  leBytes 4 6000 ++ leBytes 32 1 ++ leBytes 32 53 ++ leBytes 32 1 ++ leBytes 8 1 ++ leBytes 8 54 ++
    leBytes 32 1 ++ leBytes 4 2 ++ leBytes 4 1 ++ leBytes 4 6000 ++ leBytes 32 1

def genesisSampleBytes : List UInt8 :=
  leBytes 32 0 ++ leBytes 4 0 ++ leBytes 4 0 ++ leBytes 4 0x200f0f0f ++ leBytes 32 0 ++
    leBytes 32 1 ++ leBytes 8 0 ++ leBytes 32 0 ++ leBytes 4 0 ++ leBytes 4 0 ++ leBytes 8 1

def fiftySamplesBytes : List UInt8 :=
  leBytes 4 50 ++ (List.replicate 50 genesisSampleBytes).flatten

def freshRouter : SnapshotRouter where
  session := snapsyncInit ⟨∅, ∅, none⟩ .headersDownload
  peerState _ := .active

def earlyMessages : List SnapshotMessage :=
  [{ peer := 1, command := .zsnapshot, payload := oneRowManifestBytes },
   { peer := 2, command := .zsnapend },
   { peer := 2, command := .zsnapdata, payload := oneRowChunk },
   { peer := 1, command := .zfcproofs, payload := fiftySamplesBytes }]

theorem earlyMessages_unseen :
    MeetsAll (mpHandleZcl23Sync lengthEnv) (ServedAlone lengthEnv) freshRouter earlyMessages ∧
      (run (mpHandleZcl23Sync lengthEnv) freshRouter earlyMessages).view =
        (run (mpHandleZcl23Sync lengthEnv) freshRouter
          (purge (mpHandleZcl23Sync lengthEnv) ForeignMessage freshRouter earlyMessages)).view := by
  have hok : MeetsAll (mpHandleZcl23Sync lengthEnv) (ServedAlone lengthEnv) freshRouter
      earlyMessages := by decide +kernel
  exact ⟨hok, (foreignMessages_unseen lengthEnv freshRouter earlyMessages hok).2⟩

def brokenMessages : List SnapshotMessage :=
  [{ peer := 1, command := .zsnapshot, payload := oneRowManifestBytes },
   { peer := 1, command := .zfcproofs, payload := fiftySamplesBytes },
   { peer := 2, command := .zsnapdata, payload := [0, 0, 0, 0] }]

/-- A chunk of another peer that cannot be read ends the session. -/
theorem foreignChunk_fails :
    (run (mpHandleZcl23Sync lengthEnv) freshRouter brokenMessages).view.state = .failed ∧
      (run (mpHandleZcl23Sync lengthEnv) freshRouter
        (purge (mpHandleZcl23Sync lengthEnv) ForeignMessage freshRouter
          brokenMessages)).view.state = .receiving := by
  decide +kernel

end ZClassic
