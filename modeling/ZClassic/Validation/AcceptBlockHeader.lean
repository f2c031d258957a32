import ZClassic.Chain.ActiveChain
import ZClassic.Consensus.CheckBlock
import ZClassic.Lib.Table

/-!
# Header acceptance

`accept_block_header` of `lib/validation/src/accept_block_header.c` and the policy of
`lib/validation/src/process_block_contextual_header.c` that leaves the contextual check out.
-/

namespace ZClassic

/-- `struct block_index`: a header and its place in the tree. The status bits are kept beside. -/
structure IndexEntry where
  header : BlockHeader
  pprev : Option UInt256 := none
  nHeight : ℤ := 0
  nChainWork : UInt256 := 0
  deriving DecidableEq

structure MainState where
  mapBlockIndex : Table UInt256 IndexEntry
  nStatus : UInt256 → UInt32 := fun _ => 0
  /-- what `active_chain_height` and `active_chain_tip` answer -/
  activeHeight : ℤ := -1
  activeTip : Option UInt256 := none
  fCheckpointsEnabled : Bool := true

namespace MainState

variable (ms : MainState)

def find (b : UInt256) : Option IndexEntry := ms.mapBlockIndex.lookup b

def insert (b : UInt256) (e : IndexEntry) : MainState :=
  { ms with mapBlockIndex := ms.mapBlockIndex.insert b e }

def modify (b : UInt256) (f : IndexEntry → IndexEntry) : MainState :=
  match ms.find b with
  | none => ms
  | some e => ms.insert b (f e)

def index : HeaderIndex where
  pprev b := (ms.find b).bind (·.pprev)
  nHeight b := ((ms.find b).map (·.nHeight)).getD 0
  nTime b := ((ms.find b).map (·.header.nTime)).getD 0
  nBits b := ((ms.find b).map (·.header.nBits)).getD 0

def nChainWork (b : UInt256) : UInt256 := ((ms.find b).map (·.nChainWork)).getD 0

end MainState

def scrambled (ms : MainState) (b : UInt256) : Bool :=
  match ms.index.pprev b with
  | none => false
  | some p => ms.index.nHeight b != ms.index.nHeight p + 1

def fixHeight (ms : MainState) (b : UInt256) : MainState :=
  ms.modify b fun e => match e.pprev with
    | none => e
    | some p =>
      { e with
        nHeight := ms.index.nHeight p + 1
        nChainWork := ms.nChainWork p + getBlockProof e.header.nBits }

/-- The walk up to the first ancestor that is in place or cannot be, and down again; the number
bounds the stack. -/
def repairWalk : ℕ → MainState → UInt256 → MainState
  | 0, ms, cur => if scrambled ms cur then fixHeight ms cur else ms
  | depth + 1, ms, cur =>
    match ms.index.pprev cur with
    | none => ms
    | some p =>
      if ms.index.nHeight p < ms.index.nHeight cur ∧ scrambled ms cur = true then
        fixHeight (repairWalk depth ms p) cur
      else if scrambled ms cur then fixHeight ms cur
      else ms

def repairHeights (ms : MainState) (b : UInt256) : MainState :=
  if scrambled ms b then repairWalk 2048 ms b else ms

/-- The retarget part of the walk: the entry `n` generations up, if every link on the way is in
place. -/
def windowStart (index : HeaderIndex) : ℕ → UInt256 → Option UInt256
  | 0, cursor => some cursor
  | n + 1, cursor =>
    match index.pprev cursor with
    | none => none
    | some p =>
      if index.nTime cursor = 0 ∨ index.nHeight cursor ≠ index.nHeight p + 1 then none
      else windowStart index n p

/-- The median part: `n` entries with a time, with links between them. -/
def medianComplete (index : HeaderIndex) : ℕ → UInt256 → Bool
  | 0, _ => true
  | n + 1, cursor =>
    index.nTime cursor != 0 && (n == 0 || match index.pprev cursor with
      | none => false
      | some p => index.nHeight cursor == index.nHeight p + 1 && medianComplete index n p)

def processBlockPowWindowComplete (index : HeaderIndex) (pindexPrev : UInt256) (powWindow : ℕ) :
    Bool :=
  powWindow == 0 || match windowStart index powWindow pindexPrev with
    | none => false
    | some cursor => medianComplete index HeaderIndex.medianTimeSpan cursor

/-- `tipH` is what `active_chain_height` answers. -/
def processBlockShouldSkipContextualHeader (p : ChainParams) (index : HeaderIndex) (tipH : ℤ)
    (pindexPrev : UInt256) : Bool :=
  (decide (100000 < tipH) && decide (index.nHeight pindexPrev < tipH - 1000)) ||
    !processBlockPowWindowComplete index pindexPrev p.nPowAveragingWindow

/-- The contextual check as a header meets it: not without a parent, nor where the policy leaves
it out. -/
def contextualHeaderGate (env : CheckEnv) (index : HeaderIndex) (tipH : ℤ)
    (checkpointsEnabled : Bool) (header : BlockHeader) : Option UInt256 → Except Reject Unit
  | none => .ok ()
  | some prev =>
    if processBlockShouldSkipContextualHeader env.params index tipH prev then .ok ()
    else contextualCheckBlockHeader env index header (some prev) checkpointsEnabled

/-- Links the entry under `prev` at the height, unless it is there already. -/
def relink (ms : MainState) (b prev : UInt256) (height : ℤ) : MainState :=
  ms.modify b fun e =>
    if e.pprev = some prev ∧ e.nHeight = height then e
    else
      { e with
        pprev := some prev
        nHeight := height
        nChainWork := ms.nChainWork prev + getBlockProof e.header.nBits }

/-- The parent of the active tip is put below the height that the active chain reports. -/
def lowerParent (ms : MainState) (prev : UInt256) : MainState :=
  ms.modify prev fun e =>
    if e.nHeight = ms.activeHeight - 1 then e
    else
      { e with
        nHeight := ms.activeHeight - 1
        nChainWork := match e.pprev with
          | none => e.nChainWork
          | some p => ms.nChainWork p + getBlockProof e.header.nBits }

section

variable (p : ChainParams) (ms : MainState) (header : BlockHeader) (hash : UInt256)

/-- The place of a header that is known already, as the active chain has it. -/
def relinkKnown : Except Reject MainState :=
  if hash = p.hashGenesisBlock then .ok ms
  else match ms.find header.hashPrevBlock with
    | none => .error ⟨"bad-prevblk", 0, false, false⟩
    | some headerPrev =>
      if 0 < ms.activeHeight ∧ ms.activeTip = some hash then
        .ok (relink (lowerParent ms header.hashPrevBlock) hash header.hashPrevBlock ms.activeHeight)
      else if ms.activeTip = some header.hashPrevBlock then
        .ok (relink ms hash header.hashPrevBlock (ms.activeHeight + 1))
      else .ok (relink ms hash header.hashPrevBlock (headerPrev.nHeight + 1))

/-- A re-arriving header is no longer the child of a failed one and has at least a tree. -/
def promoteKnown (nStatus : UInt32) : UInt32 :=
  let nStatus :=
    if nStatus &&& blockFailedMask = blockFailedChild then nStatus &&& ~~~blockFailedChild
    else nStatus
  if nStatus &&& blockValidMask < blockValidTree ∧ nStatus &&& blockFailedMask = 0 then
    (nStatus &&& ~~~blockValidMask) ||| blockValidTree
  else nStatus

def acceptKnownHeader : Except Reject UInt256 × MainState :=
  match relinkKnown p ms header hash with
  | .error e => (.error e, ms)
  | .ok ms =>
    let ms := repairHeights ms hash
    (.ok hash,
      { ms with nStatus := Function.update ms.nStatus hash (promoteKnown (ms.nStatus hash)) })

/-- The new entry, linked to its parent if the map has it, with a tree. -/
def addToBlockIndex (ms : MainState) (header : BlockHeader) (hash : UInt256) : MainState :=
  let ms := { ms with nStatus := Function.update ms.nStatus hash blockValidTree }
  match ms.find header.hashPrevBlock with
  | none => ms.insert hash { header, nChainWork := getBlockProof header.nBits }
  | some prev =>
    ms.insert hash
      { header := header
        pprev := some header.hashPrevBlock
        nHeight := prev.nHeight + 1
        nChainWork := prev.nChainWork + getBlockProof header.nBits }

def findParent : Except Reject (Option UInt256) := do
  if hash = p.hashGenesisBlock then .ok none
  else
    refuseIf (ms.find header.hashPrevBlock = none) ⟨"bad-prevblk", 0, false, false⟩
    refuseIf (ms.nStatus header.hashPrevBlock &&& blockFailedMask ≠ 0)
      ⟨"bad-prevblk", 0, false, false⟩
    .ok (some header.hashPrevBlock)

end

def acceptNewHeader (env : CheckEnv) (ms : MainState) (header : BlockHeader) (hash : UInt256) :
    Except Reject UInt256 × MainState :=
  match findParent env.params ms header hash, checkBlockHeader env header true with
  | .error e, _ => (.error e, ms)
  | .ok _, .error e => (.error e, ms)
  | .ok pindexPrev, .ok () =>
    let ms := pindexPrev.elim ms (repairHeights ms)
    match contextualHeaderGate env ms.index ms.activeHeight ms.fCheckpointsEnabled header
        pindexPrev with
    | .error e => (.error e, ms)
    | .ok () => (.ok hash, addToBlockIndex ms header hash)

def acceptBlockHeader (env : CheckEnv) (ms : MainState) (header : BlockHeader) :
    Except Reject UInt256 × MainState :=
  let hash := env.blockHeaderGetHash header
  match ms.find hash with
  | some _ => acceptKnownHeader env.params ms header hash
  | none => acceptNewHeader env ms header hash

end ZClassic
