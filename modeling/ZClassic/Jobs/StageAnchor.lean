import ZClassic.Storage.ProgressStore

/-!
# Anchors

`tip_finalize_stage_seed_anchor` writes an anchor row and pulls the cursors of all stages up to it,
each in a transaction of its own, so it can also stop between two of them.
-/

namespace ZClassic

def anchorStages : List StageName :=
  [.headerAdmit, .validateHeaders, .bodyFetch, .bodyPersist, .scriptValidate, .proofValidate,
    .utxoApply]

/-- `anchor_target_for_stage`: utxo_apply is not pulled past the applied coins. -/
def anchorTargetForStage (db : ProgressStore) (name : StageName) (requested : ℕ) : Option ℕ :=
  if name = .utxoApply then
    match db.getAppliedHeight with
    | none => none
    | some none => some requested
    | some (some applied) =>
      if applied < 0 then none else some (min requested applied.toInt.toNat)
  else some requested

/-- A transaction that can fail; the error carries the store that stays. -/
abbrev StoreTx := ProgressStore → Except ProgressStore ProgressStore

def anchorStage (target : ℕ) (name : StageName) : StoreTx := fun db =>
  match anchorTargetForStage db name target with
  | none => .error db
  | some stageTarget => .ok (db.setCursorIfBehind name stageTarget)

def anchorRow (height : ℕ) (hash : UInt256) : StoreTx := fun db =>
  .ok { db with
    tipFinalizeLog := db.tipFinalizeLog.insert height
      { status := .anchor, ok := true, utxoSizeAfter := 0, tipHash := some hash } }

def seedAnchorTxs (height : ℕ) (hash : UInt256) : List StoreTx :=
  anchorRow height hash :: anchorStages.map (anchorStage (height + 1)) ++
    [fun db => .ok (db.setCursor .tipFinalize (height + 1))]

/-- The store after `tip_finalize_stage_seed_anchor`, of which the first `completed` transactions
were run. -/
def tipFinalizeStageSeedAnchor (height : Int32) (hash : UInt256) (completed : ℕ)
    (db : ProgressStore) : ProgressStore :=
  if height < 0 then db
  else final
    (((seedAnchorTxs height.toInt.toNat hash).take completed).foldlM (fun db tx => tx db) db)

def coinsKvBackfillAppliedHeightIfAbsent (commits : Bool) (db : ProgressStore) : ProgressStore :=
  match db.getAppliedHeight with
  | some none =>
    match db.stageCursor.lookup .utxoApply with
    | none => db
    | some cursor => if commits then db.setAppliedHeight (Int32.ofNat cursor) else db
  | _ => db

end ZClassic
