import ZClassic.Services.SnapshotSync

/-!
# An activated snapshot is the one that was offered

Runs of a snapshot session, from `snapsync_init`.
-/

namespace ZClassic

/-- The calls of a session. The last one is any other part of the node moving the sync state. -/
inductive SnapshotCall where
  | offer (o : SnapshotOfferParams) (now : ℤ) (seed : UInt256)
  | proofs (resp : FcResponse) (now : ℤ)
  | chunk (bytes : List UInt8) (now : ℤ)
  | finish (peerId : UInt32)
  | reset
  | checkStall (now : ℤ)
  | checkNegotiationStall (now : ℤ)
  | checkFailedReset (now : ℤ)
  | syncMoves (syncState : SyncState)

section

variable (env : SnapshotEnv) (s : SnapshotSession)

def snapshotStep : SnapshotCall → SnapshotSession
  | .offer o now seed => (snapsyncHandleOffer env s o now seed).2
  | .proofs resp now => (snapsyncVerifyFlyclient env s resp now).2
  | .chunk bytes now => (snapsyncApplyChunk s bytes now).2
  | .finish peerId => (snapsyncHandleEnd env s peerId).2
  | .reset => snapsyncReset s
  | .checkStall now => snapsyncCheckStall s now
  | .checkNegotiationStall now => snapsyncCheckNegotiationStall s now
  | .checkFailedReset now => snapsyncCheckFailedReset s now
  | .syncMoves syncState => { s with syncState }

def AcceptsOffer (c : SnapshotCall) : Prop :=
  ∃ o now seed, c = .offer o now seed ∧ (snapsyncHandleOffer env s o now seed).1 = .accepted

/-- A response to the session's challenge passes `snapsync_verify_flyclient`. -/
def PassesProof (challenge : FcChallenge) (s : SnapshotSession) (c : SnapshotCall) : Prop :=
  ∃ resp now, c = .proofs resp now ∧ (snapsyncVerifyFlyclient env s resp now).1 = .ok () ∧
    s.svc.fcChallenge = challenge

def chunkRows (chunk : List UInt8) : List (Outpoint × Coin) :=
  (((readMany readChunkEntry (leNat (chunk.take 4))).run (chunk.drop 4)).map Prod.fst).getD []

def ReceivesRow (op : Outpoint) (row : Coin) (s : SnapshotSession) (c : SnapshotCall) : Prop :=
  ∃ bytes now, c = .chunk bytes now ∧ 0 < (snapsyncApplyChunk s bytes now).1 ∧
    (op, row) ∈ chunkRows bytes

/-- The end of a stream is accepted, or the active table changes. -/
def ReplacesUtxos (c : SnapshotCall) : Prop :=
  (∃ peerId, c = .finish peerId ∧ (snapsyncHandleEnd env s peerId).1 = .ok ()) ∨
    (snapshotStep env s c).db.utxos ≠ s.db.utxos

/-- What a session keeps of its offer until it is over. -/
def SnapshotSyncService.offer (svc : SnapshotSyncService) : UInt256 × UInt64 × FcChallenge :=
  (svc.offeredUtxoRoot, svc.offeredCount, svc.fcChallenge)

def SnapshotSyncState.isOver : SnapshotSyncState → Bool
  | .idle | .complete | .failed => true
  | .negotiating | .receiving | .verifying => false

inductive SnapshotMove (c : SnapshotCall) (s' : SnapshotSession) : Prop
  | accept (o : SnapshotOfferParams) (now : ℤ) (seed : UInt256) (hc : c = .offer o now seed)
      (haccepted : (snapsyncHandleOffer env s o now seed).1 = .accepted)
      (hstate : s'.svc.state = .negotiating)
      (hoffer : s'.svc.offer = (o.utxoRoot, o.numUtxos, offerChallenge o seed))
  | pass (hnot : ¬AcceptsOffer env s c) (hpasses : PassesProof env s.svc.fcChallenge s c)
      (hbefore : s.svc.state = .negotiating) (hstate : s'.svc.state = .receiving)
      (hoffer : s'.svc.offer = s.svc.offer) (hstaging : s'.db.staging = ∅)
  | stage (hnot : ¬AcceptsOffer env s c) (hbefore : s.svc.state = .receiving)
      (hstate : s'.svc.state = .receiving) (hoffer : s'.svc.offer = s.svc.offer)
      (hstaging : ∀ op row, s'.db.staging.lookup op = some row →
        s.db.staging.lookup op = some row ∨ ReceivesRow op row s c)
  | keep (hnot : ¬AcceptsOffer env s c) (hstate : s'.svc.state = s.svc.state)
      (hoffer : s'.svc.offer = s.svc.offer) (hstaging : s'.db.staging = s.db.staging)
  | ended (hnot : ¬AcceptsOffer env s c) (hstate : s'.svc.state.isOver = true)

end

variable {now : ℤ} {c : SnapshotCall} {env : SnapshotEnv} {s : SnapshotSession}

section Moves

theorem snapsyncOfferResult_ne_accepted {r : SnapshotManifestResult} (h : r ≠ .ok) :
    snapsyncOfferResultFromManifest r ≠ .accepted := by
  cases r <;> simp [snapsyncOfferResultFromManifest] at h ⊢

theorem acceptOffer_eq_some {o : SnapshotOfferParams} {s' : SnapshotSession}
    (h : snapsyncAcceptOffer s o now = some s') :
    s'.svc.state = .negotiating ∧ s'.svc.offeredUtxoRoot = o.utxoRoot ∧
      s'.svc.offeredCount = o.numUtxos ∧ s'.db = s.db := by
  unfold snapsyncAcceptOffer at h
  rw [Option.ite_none_left_eq_some, Option.ite_none_left_eq_some] at h
  rw [← Option.some.inj h.2.2]
  exact ⟨rfl, rfl, rfl, rfl⟩

variable (env s)

theorem takeOffer_cases (o : SnapshotOfferParams) (now : ℤ) (seed : UInt256) :
    let r := takeOffer env s o now seed
    (r.1 = .accepted ∧ r.2.svc.state = .negotiating ∧
        r.2.svc.offer = (o.utxoRoot, o.numUtxos, offerChallenge o seed)) ∨
      (r.1 ≠ .accepted ∧ (r.2 = s ∨ r.2.svc.state = .idle)) := by
  unfold takeOffer
  cases hs : snapsyncAcceptOffer s o now with
  | none => exact .inr ⟨nofun, .inl rfl⟩
  | some s' =>
    obtain ⟨hstate, hroot, hcount, -⟩ := acceptOffer_eq_some hs
    dsimp only
    split
    · exact .inr ⟨nofun, .inr rfl⟩
    · exact .inl ⟨rfl, hstate, by rw [← hroot, ← hcount]; rfl⟩

theorem snapsyncHandleOffer_cases (o : SnapshotOfferParams) (now : ℤ) (seed : UInt256) :
    let r := snapsyncHandleOffer env s o now seed
    (r.1 = .accepted ∧ r.2.svc.state = .negotiating ∧
        r.2.svc.offer = (o.utxoRoot, o.numUtxos, offerChallenge o seed)) ∨
      (r.1 ≠ .accepted ∧ (r.2 = s ∨ r.2.svc.state = .idle)) := by
  unfold snapsyncHandleOffer
  dsimp only
  split_ifs with hcheck hblack hreconnect hbusy
  · exact .inr ⟨snapsyncOfferResult_ne_accepted hcheck, .inl rfl⟩
  · exact .inr ⟨nofun, .inl rfl⟩
  · rcases takeOffer_cases env (snapsyncReset s) o now seed with h | ⟨h, h'⟩
    · exact .inl h
    · exact .inr ⟨h, .inr (h'.elim (fun h' => by rw [h']; rfl) id)⟩
  · exact .inr ⟨nofun, .inl rfl⟩
  · exact takeOffer_cases env s o now seed

theorem snapsyncBeginReceive_cases (now : ℤ) :
    let r := snapsyncBeginReceive s now
    (r.1 = .ok () ∧ s.svc.state = .negotiating ∧ r.2.svc.state = .receiving ∧
        r.2.svc.offer = s.svc.offer ∧ r.2.db.staging = ∅) ∨
      (r.1 ≠ .ok () ∧ (r.2 = s ∨ r.2.svc.state = .idle)) := by
  unfold snapsyncBeginReceive
  by_cases hstate : s.svc.state = .negotiating
  · rw [if_neg (not_not.mpr hstate)]
    dsimp only
    split
    · exact .inr ⟨nofun, .inr rfl⟩
    · exact .inl ⟨rfl, hstate, rfl, rfl, rfl⟩
  · rw [if_pos hstate]
    exact .inr ⟨nofun, .inl rfl⟩

theorem verifyFlyclient_cases (resp : FcResponse) (now : ℤ) :
    let r := snapsyncVerifyFlyclient env s resp now
    (r.1 = .ok () ∧ s.svc.state = .negotiating ∧ r.2.svc.state = .receiving ∧
        r.2.svc.offer = s.svc.offer ∧ r.2.db.staging = ∅) ∨
      (r.1 ≠ .ok () ∧ (r.2.svc.state = s.svc.state ∧ r.2.svc.offer = s.svc.offer ∧
        r.2.db.staging = s.db.staging ∨ r.2.svc.state = .idle)) := by
  unfold snapsyncVerifyFlyclient
  cases flyclientChecks env s.svc resp with
  | error e => exact .inr ⟨nofun, .inl ⟨rfl, rfl, rfl⟩⟩
  | ok _ =>
    have hbegin :=
      snapsyncBeginReceive_cases { s with svc := { s.svc with fcVerified := false } } now
    dsimp only at hbegin ⊢
    split
    · next s' heq =>
      rw [heq] at hbegin
      rcases hbegin with ⟨h, -⟩ | ⟨-, hs | hs⟩
      · cases h
      · exact .inr ⟨nofun, .inl (hs ▸ ⟨rfl, rfl, rfl⟩)⟩
      · exact .inr ⟨nofun, .inr hs⟩
    · next s' heq =>
      rw [heq] at hbegin
      rcases hbegin with ⟨-, hbefore, hstate, hoffer, hstaging⟩ | ⟨h, -⟩
      · exact .inl ⟨rfl, hbefore, hstate, hoffer, hstaging⟩
      · exact absurd rfl h

end Moves

theorem applyEntries_eq_true {n : ℕ} {bytes : List UInt8} {staging staging' : CoinSet}
    (h : applyEntries n bytes staging = (true, staging')) :
    ∃ rows rest, (readMany readChunkEntry n).run bytes = some (rows, rest) ∧
      staging' = staging.putAll rows := by
  induction n generalizing bytes staging with
  | zero =>
    obtain ⟨-, rfl⟩ := Prod.mk.inj h
    exact ⟨[], bytes, rfl, rfl⟩
  | succ n ih =>
    unfold applyEntries at h
    cases hentry : readChunkEntry.run bytes with
    | none => rw [hentry] at h; cases h
    | some entry =>
      obtain ⟨⟨op, row⟩, rest⟩ := entry
      rw [hentry] at h
      dsimp only at h
      cases hins : snapStoreStagingInsert staging op row with
      | none => rw [hins] at h; cases h
      | some staging₁ =>
        rw [hins] at h
        obtain ⟨rows, rest', hrows, rfl⟩ := ih h
        have hput : staging₁ = staging.insert op row := by
          unfold snapStoreStagingInsert at hins
          rw [Option.ite_none_right_eq_some] at hins
          exact (Option.some.inj hins.2).symm
        refine ⟨(op, row) :: rows, rest', ?_, by rw [hput, Table.putAll_cons]⟩
        rw [readMany, StateT.run_bind, hentry]
        change ((readMany readChunkEntry n >>= fun xs => pure ((op, row) :: xs)).run rest) = _
        rw [StateT.run_bind, hrows]
        rfl

theorem applyChunkLocal_eq_some {s s' : SnapshotSession} {chunk : List UInt8} {applied : ℕ}
    (h : snapsyncApplyChunkLocal s chunk now = (some applied, s')) :
    0 < applied ∧ s'.svc.state = s.svc.state ∧ s'.svc.offer = s.svc.offer ∧
      s'.db.staging = s.db.staging.putAll (chunkRows chunk) := by
  unfold snapsyncApplyChunkLocal at h
  by_cases hentries : leNat (chunk.take 4) = 0 ∨ 1000 < leNat (chunk.take 4)
  · rw [if_pos hentries] at h
    cases h
  rw [if_neg hentries] at h
  have hpos : 0 < leNat (chunk.take 4) := by omega
  cases happly : applyEntries (leNat (chunk.take 4)) (chunk.drop 4) s.db.staging with
  | mk done staging =>
    rw [happly] at h
    cases done with
    | false => cases h
    | true =>
      obtain ⟨rows, rest, hrows, rfl⟩ := applyEntries_eq_true happly
      have hchunk : chunkRows chunk = rows := by rw [chunkRows, hrows]; rfl
      rw [hchunk]
      -- the batch commit moves only the transaction and its mark
      dsimp only at h
      split at h
      · cases h
        exact ⟨hpos, rfl, rfl, rfl⟩
      · cases h
        exact ⟨hpos, rfl, rfl, rfl⟩

theorem snapsyncApplyChunk_cases (s : SnapshotSession) (chunk : List UInt8) (now : ℤ) :
    let r := snapsyncApplyChunk s chunk now
    (s.svc.state = .receiving ∧ 0 < r.1 ∧ r.2.svc.state = .receiving ∧
        r.2.svc.offer = s.svc.offer ∧ r.2.db.staging = s.db.staging.putAll (chunkRows chunk)) ∨
      r.2 = s ∨ r.2.svc.state = .failed := by
  unfold snapsyncApplyChunk
  by_cases hlen : chunk.length < 4
  · rw [if_pos hlen]
    exact .inr (.inl rfl)
  by_cases hstate : s.svc.state = .receiving
  · rw [if_neg hlen, if_neg (not_not.mpr hstate)]
    split
    · next applied s' happly =>
      obtain ⟨hpos, hstate', hoffer, hstaging⟩ := applyChunkLocal_eq_some happly
      exact .inl ⟨hstate, Int.natCast_pos.mpr hpos, hstate'.trans hstate, hoffer, hstaging⟩
    · exact .inr (.inr rfl)
  · rw [if_neg hlen, if_pos hstate]
    exact .inr (.inl rfl)

/-- The end of a stream that is accepted promotes the staging table, whose commitment and count are
those of the offer; any other end leaves the active table alone. -/
theorem snapsyncHandleEnd_cases (env : SnapshotEnv) (s : SnapshotSession) (peerId : UInt32) :
    let r := snapsyncHandleEnd env s peerId
    (r.1 = .ok () ∧ s.svc.state = .receiving ∧ r.2.svc.state = .complete ∧
        r.2.db.utxos = s.db.staging ∧
        utxoCommitmentSha3ComputeTable env.sha3 s.db.staging =
          (s.svc.offeredUtxoRoot, s.svc.offeredCount)) ∨
      (r.1 ≠ .ok () ∧ r.2.db.utxos = s.db.utxos ∧ (r.2 = s ∨ r.2.svc.state = .failed)) := by
  unfold snapsyncHandleEnd
  split_ifs with hpeer hstate
  · exact .inr ⟨nofun, rfl, .inl rfl⟩
  · exact .inr ⟨nofun, rfl, .inl rfl⟩
  unfold snapsyncFinalize
  rw [if_neg hstate]
  dsimp only
  split_ifs with hproof hcount hroot
  · exact .inr ⟨nofun, rfl, .inr rfl⟩
  · exact .inr ⟨nofun, rfl, .inr rfl⟩
  · exact .inr ⟨nofun, rfl, .inr rfl⟩
  · split
    · exact .inr ⟨nofun, rfl, .inr rfl⟩
    · next db hdb =>
      rw [not_or, not_not, not_not] at hroot
      unfold snapsyncStagePromoteActive at hdb
      rw [Option.ite_none_left_eq_some] at hdb
      rw [← Option.some.inj hdb.2]
      exact .inl ⟨rfl, not_not.mp hstate, rfl, rfl, Prod.ext hroot.1 hroot.2⟩

theorem resumeHeaders_eq (s : SnapshotSession) :
    (resumeHeaders s).svc = s.svc ∧ (resumeHeaders s).db = s.db := by
  unfold resumeHeaders
  split
  · exact ⟨rfl, rfl⟩
  · exact ⟨rfl, rfl⟩

theorem not_acceptsOffer (h : ∀ o now seed, c ≠ .offer o now seed) : ¬AcceptsOffer env s c := by
  rintro ⟨o, now, seed, hc, -⟩
  exact h o now seed hc

theorem SnapshotMove.of_eq {s' : SnapshotSession} (hnot : ¬AcceptsOffer env s c) (h : s' = s) :
    SnapshotMove env s c s' := by
  subst h
  exact .keep hnot rfl rfl rfl

theorem snapshotStep_move (env : SnapshotEnv) (s : SnapshotSession) (c : SnapshotCall) :
    SnapshotMove env s c (snapshotStep env s c) := by
  cases c with
  | offer o now seed =>
    rcases snapsyncHandleOffer_cases env s o now seed with ⟨h, hstate, hoffer⟩ | ⟨h, hs⟩
    · exact .accept o now seed rfl h hstate hoffer
    · have hnot : ¬AcceptsOffer env s (.offer o now seed) := by
        rintro ⟨o', now', seed', hc, h'⟩
        cases hc
        exact h h'
      rcases hs with hs | hs
      · exact .of_eq hnot hs
      · exact .ended hnot (by rw [snapshotStep, hs]; rfl)
  | proofs resp now =>
    have hnot : ¬AcceptsOffer env s (.proofs resp now) := not_acceptsOffer nofun
    rcases verifyFlyclient_cases env s resp now with
      ⟨h, hbefore, hstate, hoffer, hstaging⟩ | ⟨-, ⟨hstate, hoffer, hstaging⟩ | hstate⟩
    · exact .pass hnot ⟨resp, now, rfl, h, rfl⟩ hbefore hstate hoffer hstaging
    · exact .keep hnot hstate hoffer hstaging
    · exact .ended hnot (by rw [snapshotStep, hstate]; rfl)
  | chunk bytes now =>
    have hnot : ¬AcceptsOffer env s (.chunk bytes now) := not_acceptsOffer nofun
    rcases snapsyncApplyChunk_cases s bytes now with
      ⟨hbefore, hpos, hstate, hoffer, hstaging⟩ | hs | hstate
    · refine .stage hnot hbefore hstate hoffer fun op row hrow => ?_
      rw [snapshotStep, hstaging] at hrow
      rcases Table.lookup_putAll_eq_some hrow with h | h
      · exact .inl h
      · exact .inr ⟨bytes, now, rfl, hpos, h⟩
    · exact .of_eq hnot hs
    · exact .ended hnot (by rw [snapshotStep, hstate]; rfl)
  | finish peerId =>
    have hnot : ¬AcceptsOffer env s (.finish peerId) := not_acceptsOffer nofun
    rcases snapsyncHandleEnd_cases env s peerId with ⟨-, -, hstate, -⟩ | ⟨-, -, hs | hstate⟩
    · exact .ended hnot (by rw [snapshotStep, hstate]; rfl)
    · exact .of_eq hnot hs
    · exact .ended hnot (by rw [snapshotStep, hstate]; rfl)
  | reset => exact .ended (not_acceptsOffer nofun) rfl
  | checkStall now =>
    have hnot : ¬AcceptsOffer env s (.checkStall now) := not_acceptsOffer nofun
    rw [snapshotStep, snapsyncCheckStall]
    split_ifs
    · exact .keep hnot rfl rfl rfl
    · exact .keep hnot rfl rfl rfl
    · exact .keep hnot rfl rfl rfl
    · exact .ended hnot (by rw [(resumeHeaders_eq _).1]; rfl)
  | checkNegotiationStall now =>
    have hnot : ¬AcceptsOffer env s (.checkNegotiationStall now) := not_acceptsOffer nofun
    rw [snapshotStep, snapsyncCheckNegotiationStall]
    split_ifs
    · exact .keep hnot rfl rfl rfl
    · exact .keep hnot rfl rfl rfl
    · exact .ended hnot rfl
  | checkFailedReset now =>
    have hnot : ¬AcceptsOffer env s (.checkFailedReset now) := not_acceptsOffer nofun
    rw [snapshotStep, snapsyncCheckFailedReset]
    split_ifs
    · exact .keep hnot rfl rfl rfl
    · exact .ended hnot (by rw [(resumeHeaders_eq _).1]; rfl)
  | syncMoves syncState => exact .keep (not_acceptsOffer nofun) rfl rfl rfl

section

variable (env s)

theorem takeOffer_utxos (o : SnapshotOfferParams) (now : ℤ)
    (seed : UInt256) : (takeOffer env s o now seed).2.db.utxos = s.db.utxos := by
  unfold takeOffer
  cases hs : snapsyncAcceptOffer s o now with
  | none => rfl
  | some s' =>
    have hdb : s'.db.utxos = s.db.utxos :=
      congrArg SnapshotDb.utxos (acceptOffer_eq_some hs).2.2.2
    dsimp only
    split
    · exact hdb
    · exact hdb

theorem snapsyncBeginReceive_utxos (s : SnapshotSession) (now : ℤ) :
    (snapsyncBeginReceive s now).2.db.utxos = s.db.utxos := by
  unfold snapsyncBeginReceive
  split
  · rfl
  · dsimp only
    split
    · rfl
    · rfl

theorem verifyFlyclient_utxos (resp : FcResponse)
    (now : ℤ) : (snapsyncVerifyFlyclient env s resp now).2.db.utxos = s.db.utxos := by
  unfold snapsyncVerifyFlyclient
  cases flyclientChecks env s.svc resp with
  | error e => rfl
  | ok _ =>
    have hbegin :=
      snapsyncBeginReceive_utxos { s with svc := { s.svc with fcVerified := false } } now
    dsimp only at hbegin ⊢
    split
    · next heq => rw [heq] at hbegin; exact hbegin
    · next heq => rw [heq] at hbegin; exact hbegin

theorem applyChunkLocal_utxos (s : SnapshotSession) (chunk : List UInt8) (now : ℤ) :
    (snapsyncApplyChunkLocal s chunk now).2.db.utxos = s.db.utxos := by
  unfold snapsyncApplyChunkLocal
  dsimp only
  split_ifs
  · rfl
  all_goals
    split
    · rfl
    · rfl

theorem snapsyncApplyChunk_utxos (s : SnapshotSession) (chunk : List UInt8) (now : ℤ) :
    (snapsyncApplyChunk s chunk now).2.db.utxos = s.db.utxos := by
  have hlocal := applyChunkLocal_utxos s chunk now
  unfold snapsyncApplyChunk
  split
  · rfl
  split
  · rfl
  split
  · next heq => rw [heq] at hlocal; exact hlocal
  · next heq =>
    rw [heq] at hlocal
    split
    · exact hlocal
    · exact hlocal

theorem snapshotStep_utxos
    (hc : ∀ peerId, c ≠ .finish peerId) : (snapshotStep env s c).db.utxos = s.db.utxos := by
  cases c with
  | offer o now seed =>
    rw [snapshotStep, snapsyncHandleOffer]
    split_ifs
    · rfl
    · rfl
    · exact takeOffer_utxos env (snapsyncReset s) o now seed
    · rfl
    · exact takeOffer_utxos env s o now seed
  | proofs resp now => exact verifyFlyclient_utxos env s resp now
  | chunk bytes now => exact snapsyncApplyChunk_utxos s bytes now
  | finish peerId => exact absurd rfl (hc peerId)
  | reset => rfl
  | checkStall now =>
    rw [snapshotStep, snapsyncCheckStall]
    split_ifs
    · rfl
    · rfl
    · rfl
    · rw [(resumeHeaders_eq _).2]
      rfl
  | checkNegotiationStall now =>
    rw [snapshotStep, snapsyncCheckNegotiationStall]
    split_ifs
    · rfl
    · rfl
    · rfl
  | checkFailedReset now =>
    rw [snapshotStep, snapsyncCheckFailedReset]
    split_ifs
    · rfl
    · rw [(resumeHeaders_eq _).2]
      rfl
  | syncMoves syncState => rfl

end

theorem ReplacesUtxos.promotes (h : ReplacesUtxos env s c) :
    s.svc.state = .receiving ∧ (snapshotStep env s c).db.utxos = s.db.staging ∧
      utxoCommitmentSha3ComputeTable env.sha3 s.db.staging =
        (s.svc.offeredUtxoRoot, s.svc.offeredCount) := by
  by_cases hc : ∃ peerId, c = .finish peerId
  · obtain ⟨peerId, rfl⟩ := hc
    rcases snapsyncHandleEnd_cases env s peerId with
      ⟨-, hstate, -, hutxos, hcommit⟩ | ⟨hfail, hutxos, -⟩
    · exact ⟨hstate, hutxos, hcommit⟩
    · rcases h with ⟨peerId', hc, hok⟩ | h
      · cases hc
        exact absurd hok hfail
      · exact absurd hutxos h
  · have hne : ∀ peerId, c ≠ .finish peerId := fun peerId hp => hc ⟨peerId, hp⟩
    rcases h with ⟨peerId, hp, -⟩ | h
    · exact absurd hp (hne peerId)
    · exact absurd (snapshotStep_utxos env s hne) h

section Runs

variable {s₀ t : SnapshotSession} {calls since : List SnapshotCall} {o : SnapshotOfferParams}
  {seed : UInt256}

/-- The offer a run accepted last, the session `t` it opened, and the calls since. -/
structure AcceptedLast (env : SnapshotEnv) (s₀ : SnapshotSession) (calls : List SnapshotCall)
    (o : SnapshotOfferParams) (seed : UInt256) (t : SnapshotSession) (since : List SnapshotCall) :
    Prop where
  accepted : ∃ earlier now, calls = earlier ++ .offer o now seed :: since ∧
    snapsyncHandleOffer env (run (snapshotStep env) s₀ earlier) o now seed = (.accepted, t)
  none_since : MeetsAll (snapshotStep env) (fun s c => ¬AcceptsOffer env s c) t since

namespace AcceptedLast

theorem run_eq (h : AcceptedLast env s₀ calls o seed t since) :
    run (snapshotStep env) s₀ calls = run (snapshotStep env) t since := by
  obtain ⟨earlier, now, rfl, haccept⟩ := h.accepted
  rw [run_append, run_cons, snapshotStep, haccept]

theorem concat (h : AcceptedLast env s₀ calls o seed t since)
    (hc : ¬AcceptsOffer env (run (snapshotStep env) s₀ calls) c) :
    AcceptedLast env s₀ (calls ++ [c]) o seed t (since ++ [c]) where
  accepted := by
    obtain ⟨earlier, now, hcalls, haccept⟩ := h.accepted
    refine ⟨earlier, now, ?_, haccept⟩
    rw [hcalls, List.append_assoc, List.cons_append]
  none_since := by
    rw [h.run_eq] at hc
    exact meetsAll_append.mpr ⟨h.none_since, hc, trivial⟩

end AcceptedLast

/-- What a session in progress has behind it. -/
structure SessionBound (env : SnapshotEnv) (s₀ : SnapshotSession) (calls : List SnapshotCall)
    (s : SnapshotSession) : Prop where
  negotiating : s.svc.state = .negotiating → ∃ o seed t since,
    AcceptedLast env s₀ calls o seed t since ∧
      s.svc.offer = (o.utxoRoot, o.numUtxos, offerChallenge o seed)
  receiving : s.svc.state = .receiving → ∃ o seed t since,
    AcceptedLast env s₀ calls o seed t since ∧
      s.svc.offer = (o.utxoRoot, o.numUtxos, offerChallenge o seed) ∧
      MeetsSome (snapshotStep env) (PassesProof env (offerChallenge o seed)) t since ∧
      ∀ op row, s.db.staging.lookup op = some row →
        MeetsSome (snapshotStep env) (ReceivesRow op row) t since

theorem sessionBound_of_isOver (h : s.svc.state.isOver = true) :
    SessionBound env s₀ calls s where
  negotiating hs := by rw [hs] at h; cases h
  receiving hs := by rw [hs] at h; cases h

theorem SessionBound.step (h : SessionBound env s₀ calls (run (snapshotStep env) s₀ calls))
    (c : SnapshotCall) :
    SessionBound env s₀ (calls ++ [c]) (snapshotStep env (run (snapshotStep env) s₀ calls) c) := by
  cases snapshotStep_move env (run (snapshotStep env) s₀ calls) c with
  | accept o now seed hc haccepted hstate hoffer =>
    subst hc
    have hlast : AcceptedLast env s₀ (calls ++ [.offer o now seed]) o seed
        (snapshotStep env (run (snapshotStep env) s₀ calls) (.offer o now seed)) [] :=
      ⟨⟨calls, now, rfl, Prod.ext haccepted rfl⟩, trivial⟩
    exact ⟨fun _ => ⟨o, seed, _, [], hlast, hoffer⟩, fun hs => nomatch hstate.symm.trans hs⟩
  | pass hnot hpasses hbefore hstate hoffer hstaging =>
    refine ⟨fun hs => (nomatch hstate.symm.trans hs), fun _ => ?_⟩
    obtain ⟨o, seed, t, since, hlast, hkept⟩ := h.negotiating hbefore
    have hchallenge : (run (snapshotStep env) s₀ calls).svc.fcChallenge = offerChallenge o seed :=
      congrArg (fun p => p.2.2) hkept
    rw [hchallenge, hlast.run_eq] at hpasses
    refine ⟨o, seed, t, since ++ [c], hlast.concat hnot, hoffer.trans hkept,
      meetsSome_concat hpasses, fun op row hrow => ?_⟩
    rw [hstaging, Finmap.lookup_empty] at hrow
    cases hrow
  | stage hnot hbefore hstate hoffer hstaging =>
    refine ⟨fun hs => (nomatch hstate.symm.trans hs), fun _ => ?_⟩
    obtain ⟨o, seed, t, since, hlast, hkept, hpassed, hrows⟩ := h.receiving hbefore
    refine ⟨o, seed, t, since ++ [c], hlast.concat hnot, hoffer.trans hkept, hpassed.append [c],
      fun op row hrow => ?_⟩
    -- a staged row is an old one, or this chunk brought it
    rcases hstaging op row hrow with hold | hnew
    · exact (hrows op row hold).append [c]
    · rw [hlast.run_eq] at hnew
      exact meetsSome_concat hnew
  | keep hnot hstate hoffer hstaging =>
    refine ⟨fun hs => ?_, fun hs => ?_⟩
    · obtain ⟨o, seed, t, since, hlast, hkept⟩ := h.negotiating (hstate ▸ hs)
      exact ⟨o, seed, t, since ++ [c], hlast.concat hnot, hoffer.trans hkept⟩
    · obtain ⟨o, seed, t, since, hlast, hkept, hpassed, hrows⟩ := h.receiving (hstate ▸ hs)
      refine ⟨o, seed, t, since ++ [c], hlast.concat hnot, hoffer.trans hkept, hpassed.append [c],
        fun op row hrow => ?_⟩
      rw [hstaging] at hrow
      exact (hrows op row hrow).append [c]
  | ended hnot hstate => exact sessionBound_of_isOver hstate

theorem sessionBound_run (h₀ : s₀.svc.state = .idle) (calls : List SnapshotCall) :
    SessionBound env s₀ calls (run (snapshotStep env) s₀ calls) := by
  induction calls using List.reverseRecOn with
  | nil => exact sessionBound_of_isOver (by rw [run_nil, h₀]; rfl)
  | append_singleton calls c ih =>
    rw [run_append]
    exact ih.step c

end Runs

/-- Whenever a call replaces the active table, the new table has the commitment and the count of the
offer accepted last, all its rows were received since, and a FlyClient response passed since for the
challenge of that offer. -/
theorem snapshotActivation_bound (env : SnapshotEnv) (db : SnapshotDb) (syncState : SyncState)
    (before : List SnapshotCall) (c : SnapshotCall)
    (h : ReplacesUtxos env (run (snapshotStep env) (snapsyncInit db syncState) before) c) :
    let table := (run (snapshotStep env) (snapsyncInit db syncState) (before ++ [c])).db.utxos
    ∃ o seed t since, AcceptedLast env (snapsyncInit db syncState) before o seed t since ∧
      utxoCommitmentSha3ComputeTable env.sha3 table = (o.utxoRoot, o.numUtxos) ∧
      (∀ op row, table.lookup op = some row →
        MeetsSome (snapshotStep env) (ReceivesRow op row) t since) ∧
      MeetsSome (snapshotStep env) (PassesProof env (offerChallenge o seed)) t since := by
  intro table
  obtain ⟨hstate, hutxos, hcommit⟩ := h.promotes
  have htable : table = (run (snapshotStep env) (snapsyncInit db syncState) before).db.staging := by
    rw [← hutxos]
    exact congrArg (fun s : SnapshotSession => s.db.utxos) (run_append _ before [c])
  obtain ⟨o, seed, t, since, hlast, hkept, hpassed, hrows⟩ :=
    (sessionBound_run rfl before).receiving hstate
  refine ⟨o, seed, t, since, hlast, ?_, ?_, hpassed⟩
  · rw [htable, hcommit]
    exact congrArg (fun p => (p.1, p.2.1)) hkept
  · rw [htable]
    exact hrows

/-! A session of one row: an offer of peer 1, a response of fifty samples, one chunk and its end. -/

/-- Proofs hold, and the digest of a string of bytes is its length. -/
def lengthEnv : SnapshotEnv where
  fcIndex _ _ _ := 0
  mmbHashLeaf _ := 0
  mmbVerify _ _ := true
  sha3 bytes := BitVec.ofNat 256 bytes.length
  params := regtestParams
  nMinimumChainWork := 0
  offerAllowed _ _ _ := true

def oneRowOffer : SnapshotOfferParams where
  height := 6000
  blockHash := 1
  utxoRoot := 53
  mmrRoot := 1
  numUtxos := 1
  totalBytes := 54
  mmbRoot := 1
  protocolVersion := 2
  snapshotSchemaVersion := 1
  peerTipHeight := 6000
  chainWork := 1
  peerId := 1
  ourHeight := 0

def genesisSample : FcSample where
  leaf := ⟨0, 0, 0, 0x200f0f0f, 0, 1⟩
  proof := ⟨0, 0, [], [], 1⟩

def oneRowChunk : List UInt8 :=
  leBytes 4 1 ++ leBytes 32 5 ++ leBytes 4 0 ++ leBytes 8 1000 ++ leBytes 4 7 ++ [0, 0]

def oneRowCalls : List SnapshotCall :=
  [.offer oneRowOffer 1 9, .proofs ⟨List.replicate 50 genesisSample⟩ 2, .chunk oneRowChunk 3]

theorem oneRow_replaces : ReplacesUtxos lengthEnv
    (run (snapshotStep lengthEnv) (snapsyncInit ⟨∅, ∅, none⟩ .headersDownload) oneRowCalls)
    (.finish 1) :=
  .inl ⟨1, rfl, by decide +kernel⟩

theorem oneRow_bound :
    ∃ o seed t since,
      AcceptedLast lengthEnv (snapsyncInit ⟨∅, ∅, none⟩ .headersDownload) oneRowCalls o seed t
        since ∧
        utxoCommitmentSha3ComputeTable lengthEnv.sha3
          (run (snapshotStep lengthEnv) (snapsyncInit ⟨∅, ∅, none⟩ .headersDownload)
            (oneRowCalls ++ [.finish 1])).db.utxos = (o.utxoRoot, o.numUtxos) := by
  obtain ⟨o, seed, t, since, hlast, hcommit, -⟩ :=
    snapshotActivation_bound lengthEnv ⟨∅, ∅, none⟩ .headersDownload oneRowCalls (.finish 1)
      oneRow_replaces
  exact ⟨o, seed, t, since, hlast, hcommit⟩

end ZClassic
