import ZClassic.Chain.ActiveChain
import ZClassic.Storage.ProgressStore

/-!
# Stages

The step framework of `lib/util/src/stage.c`: a stage reads its persisted cursor, runs its step
inside a transaction and either commits the step's writes together with the new cursor or rolls them
back.
-/

namespace ZClassic

/-- What does not change while the node runs. A block's hash determines its content. -/
structure World where
  params : ConsensusParams
  index : BlockIndex
  content : UInt256 → Block

structure Node where
  db : ProgressStore := {}
  chain : ActiveChain := {}
  nStatus : UInt256 → UInt32 := fun _ => 0
  /-- the Sprout nullifiers in `node.db` -/
  sproutNullifiers : Finset UInt256 := ∅

/-- `struct blocker_record`, as `block_apply_failure` fills it. -/
structure Blocker where
  height : ℕ
  status : String
  kind : String
  detail : Option (List UInt8) := none
  deriving DecidableEq

inductive JobResult where
  | advanced
  | idle
  | blocked (blocker : Blocker)
  | fatal
  deriving DecidableEq

/-- What a step hands back: its verdict, the node with its writes, and `cursor_out`. `block` is not
in the source: it names the block that an advance validated, applied or finalized. -/
structure StepResult where
  result : JobResult
  node : Node
  cursorOut : ℕ := 0
  block : Option UInt256 := none

/-- The end of `stage_run_once`: an advance is committed with its cursor, everything else is
rolled back. -/
def stageFinish (name : StageName) (commits : Bool) (node : Node) (out : StepResult) :
    StepResult :=
  let cur := node.db.cursor name
  let rollback := { out.node with db := node.db }
  match out.result with
  | .advanced =>
    if out.cursorOut ≤ cur then { result := .fatal, node := rollback }
    else if commits then
      { out with node := { out.node with db := out.node.db.setCursor name out.cursorOut } }
    else { result := .fatal, node := rollback }
  | r => { result := r, node := rollback }

def stageRunOnce (name : StageName) (step : ℕ → Node → StepResult) (commits : Bool)
    (node : Node) : StepResult :=
  stageFinish name commits node (step (node.db.cursor name) node)

theorem stageFinish_cases (name : StageName) (commits : Bool) (node : Node) (out : StepResult) :
    (stageFinish name commits node out).result ≠ .advanced ∧
        (stageFinish name commits node out).node = { out.node with db := node.db } ∨
      out.result = .advanced ∧ commits = true ∧
        stageFinish name commits node out =
          { out with
            node := { out.node with db := out.node.db.setCursor name out.cursorOut } } := by
  obtain ⟨result, node', cursorOut, block⟩ := out
  cases result with
  | advanced =>
    unfold stageFinish
    dsimp only
    split_ifs with hle hcommits
    · exact .inl ⟨nofun, rfl⟩
    · exact .inr ⟨rfl, hcommits, rfl⟩
    · exact .inl ⟨nofun, rfl⟩
  | idle => exact .inl ⟨nofun, rfl⟩
  | blocked b => exact .inl ⟨nofun, rfl⟩
  | fatal => exact .inl ⟨nofun, rfl⟩

/-- The step leaves the chain, and an advance writes what `P` says, its cursor included. -/
structure StepWrites (name : StageName) (node : Node) (P : ProgressStore → Option UInt256 → Prop)
    (out : StepResult) : Prop where
  chain : out.node.chain = node.chain
  advanced : out.result = .advanced → P (out.node.db.setCursor name out.cursorOut) out.block

/-- One run of a stage: the store changes only by an advance, and then as `P` says. -/
def StageWrites (node : Node) (P : ProgressStore → Option UInt256 → Prop) (out : StepResult) :
    Prop :=
  out.node.chain = node.chain ∧ (out.result ≠ .advanced ∧ out.node.db = node.db ∨
    out.result = .advanced ∧ P out.node.db out.block)

theorem StepWrites.finish {name : StageName} {node : Node} {out : StepResult}
    {P : ProgressStore → Option UInt256 → Prop} (h : StepWrites name node P out) (commits : Bool) :
    StageWrites node P (stageFinish name commits node out) := by
  rcases stageFinish_cases name commits node out with ⟨hne, hroll⟩ | ⟨hadv, -, hout⟩
  · rw [StageWrites, hroll]
    exact ⟨h.chain, .inl ⟨hne, rfl⟩⟩
  · rw [hout]
    exact ⟨h.chain, .inr ⟨hadv, h.advanced hadv⟩⟩

/-- `(int)cursor_in`, where a negative height makes the step fatal. -/
def nextHeight (cursor : ℕ) : Option ℕ :=
  if (Int32.ofNat cursor).toInt < 0 then none else some (Int32.ofNat cursor).toInt.toNat

variable {cursor : ℕ}

theorem nextHeight_of_lt (h : cursor < 2 ^ 31) : nextHeight cursor = some cursor := by
  have htoInt : (Int32.ofNat cursor).toInt = cursor := Int32.toInt_ofNat_of_lt h
  rw [nextHeight, htoInt, if_neg (by omega), Int.toNat_natCast]

variable {h : ℕ}

theorem nextHeight_some (hle : cursor ≤ 2 ^ 31) (hnext : nextHeight cursor = some h) :
    h = cursor ∧ cursor < 2 ^ 31 := by
  rcases Nat.lt_or_eq_of_le hle with hlt | rfl
  · rw [nextHeight_of_lt hlt] at hnext
    cases hnext
    exact ⟨rfl, hlt⟩
  · have hnone : nextHeight (2 ^ 31) = none := by decide
    rw [hnone] at hnext
    cases hnext

theorem nextHeight_lt (hnext : nextHeight cursor = some h) : h < 2 ^ 31 := by
  unfold nextHeight at hnext
  split_ifs at hnext
  have hlt := (Int32.ofNat cursor).toInt_lt
  cases hnext
  omega

inductive Gate (ρ : Type) where
  | fatal
  | idle
  | row (h : ℕ) (upstream : ρ)

/-- Every stage works below the cursor of the stage before it, on a height that stage has logged. -/
def upstreamGate {ρ : Type} (cursorIn upstreamCursor : ℕ) (log : Table ℕ ρ) : Gate ρ :=
  match nextHeight cursorIn with
  | none => .fatal
  | some h =>
    if upstreamCursor ≤ h then .idle
    else match log.lookup h with
      | none => .idle
      | some upstream => .row h upstream

theorem upstreamGate_row {ρ : Type} {cursorIn upstreamCursor : ℕ} {log : Table ℕ ρ}
    {upstream : ρ} (hgate : upstreamGate cursorIn upstreamCursor log = .row h upstream) :
    nextHeight cursorIn = some h ∧ h < upstreamCursor ∧ log.lookup h = some upstream := by
  unfold upstreamGate at hgate
  cases hnext : nextHeight cursorIn with
  | none => rw [hnext] at hgate; cases hgate
  | some k =>
    rw [hnext] at hgate
    dsimp only at hgate
    split_ifs at hgate with hle
    cases hrow : log.lookup k with
    | none => rw [hrow] at hgate; cases hgate
    | some r =>
      rw [hrow] at hgate
      cases hgate
      exact ⟨rfl, by omega, hrow⟩

/-- The block on the active chain at `h`, if its data is there and the reader succeeds. -/
def readActiveBlock (readable : UInt256 → Bool) (node : Node) (h : ℕ) : Option UInt256 :=
  match activeChainAt node.chain h with
  | none => none
  | some bi =>
    if node.nStatus bi &&& blockHaveData = 0 then none
    else if readable bi then some bi else none

theorem readActiveBlock_some {readable : UInt256 → Bool} {node : Node} {bi : UInt256}
    (hbi : readActiveBlock readable node h = some bi) : activeChainAt node.chain h = some bi := by
  unfold readActiveBlock at hbi
  cases hat : activeChainAt node.chain h with
  | none => rw [hat] at hbi; cases hbi
  | some b =>
    rw [hat] at hbi
    dsimp only at hbi
    split_ifs at hbi
    exact hbi

/-- Sets the validity level in the low bits of `nStatus`. -/
def raiseValidity (nStatus : UInt256 → UInt32) (bi : UInt256) : UInt256 → UInt32 :=
  Function.update nStatus bi ((nStatus bi &&& ~~~blockValidMask) ||| blockValidScripts)

end ZClassic
