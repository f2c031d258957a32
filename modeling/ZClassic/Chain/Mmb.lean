import ZClassic.Lib.LazyForest
import ZClassic.Lib.LittleEndian
import ZClassic.Lib.Run
import ZClassic.Primitives.Transaction

/-!
# The Merkle mountain belt

`lib/chain/src/mmb.c`: appending leaves with at most two merges each, the cached root, and inclusion
proofs.
-/

namespace ZClassic

open List

def mmbMaxMountains : ℕ := 64

def mmbMaxHeight : ℕ := 64

structure MmbLeaf where
  blockHash : UInt256
  height : UInt32
  timestamp : UInt32
  nBits : UInt32
  saplingRoot : UInt256
  chainWork : UInt256
  deriving DecidableEq

structure MmbProof where
  leafIndex : UInt64
  leafHash : UInt256
  siblings : List UInt256
  peaks : List UInt256
  mmbSize : UInt64

structure Mmb where
  numLeaves : UInt64 := 0
  /-- the rightmost one first -/
  mountains : List (Mountain UInt256) := []
  rootCache : UInt256 := 0
  rootDirty : Bool := true

def mmbLeafMessage (leaf : MmbLeaf) : List UInt8 :=
  0x10 :: (leBytes 32 leaf.blockHash.toNat ++ (leBytes 4 leaf.height.toNat ++
    (leBytes 4 leaf.timestamp.toNat ++ (leBytes 4 leaf.nBits.toNat ++
      (leBytes 32 leaf.saplingRoot.toNat ++ leBytes 32 leaf.chainWork.toNat)))))

def mmbInternalMessage (left right : UInt256) : List UInt8 :=
  0x11 :: (leBytes 32 left.toNat ++ leBytes 32 right.toNat)

def mmbRootMessage (peaks : List UInt256) : List UInt8 :=
  0x14 :: peaks.flatMap fun p => leBytes 32 p.toNat

section Operations

variable (sha3 : List UInt8 → UInt256)

def mmbHashLeaf (leaf : MmbLeaf) : UInt256 := sha3 (mmbLeafMessage leaf)

def mmbHashInternal (left right : UInt256) : UInt256 := sha3 (mmbInternalMessage left right)

/-- One merge of `mmb_merge_after_insert`: the mountains, and the number of merges unless the height
cap is met. -/
def mmbMergePair (pair : Option (MountainPair UInt256)) (ms : List (Mountain UInt256)) :
    List (Mountain UInt256) × Option ℕ :=
  match pair with
  | none => (ms, some 0)
  | some p =>
    if mmbMaxHeight ≤ p.left.height then (ms, none)
    else (p.merged (mmbHashInternal sha3), some 1)

def mmbMergeAfterInsert (ms : List (Mountain UInt256)) : List (Mountain UInt256) × Option ℕ :=
  match mmbMergePair sha3 (topPair ms) ms with
  | (ms, none) => (ms, none)
  | (ms, some merges) =>
    let (ms, deferred) := mmbMergePair sha3 (firstPair ms) ms
    (ms, deferred.map (merges + ·))

/-- The belt after the append, and the number of merges unless it failed. -/
def mmbAppendHash (m : Mmb) (leafHash : UInt256) : Mmb × Option ℕ :=
  if mmbMaxMountains ≤ m.mountains.length then (m, none)
  else
    let (ms, merges) := mmbMergeAfterInsert sha3 (⟨leafHash, 0⟩ :: m.mountains)
    ({ m with numLeaves := m.numLeaves + 1, mountains := ms, rootDirty := true }, merges)

def mmbAppend (m : Mmb) (leaf : MmbLeaf) : Mmb × Option ℕ :=
  mmbAppendHash sha3 m (mmbHashLeaf sha3 leaf)

def mmbBagPeaks : List UInt256 → UInt256
  | [p] => p
  | peaks => sha3 (mmbRootMessage peaks)

def mmbRoot (m : Mmb) : UInt256 × Mmb :=
  if m.mountains.isEmpty then (0, m)
  else if !m.rootDirty then (m.rootCache, m)
  else
    let root := mmbBagPeaks sha3 (m.mountains.map Mountain.peak).reverse
    (root, { m with rootCache := root, rootDirty := false })

inductive MmbAppend where
  | append (leaf : MmbLeaf)
  | appendHash (leafHash : UInt256)

def MmbAppend.leafHash : MmbAppend → UInt256
  | append leaf => mmbHashLeaf sha3 leaf
  | appendHash leafHash => leafHash

def MmbAppend.call (m : Mmb) : MmbAppend → Mmb × Option ℕ
  | append leaf => mmbAppend sha3 m leaf
  | appendHash leafHash => mmbAppendHash sha3 m leafHash

end Operations

section Shape

variable {sha3 : List UInt8 → UInt256}

/-- The mountains over the first `n` leaves, where a new leaf may come. -/
structure BeltOver (sha3 : List UInt8 → UInt256) (leaf : ℕ → UInt256) (n : ℕ)
    (ms : List (Mountain UInt256)) : Prop where
  belt : Belt 0 false (ms.map Mountain.height)
  size : forestSize ms = n
  covers : Covers (mmbHashInternal sha3) leaf ms

variable {leaf : ℕ → UInt256} {n : ℕ} {ms : List (Mountain UInt256)} {k : ℕ}

theorem BeltOver.height_lt (h : BeltOver sha3 leaf n ms) (hn : n < 2 ^ k)
    {m : Mountain UInt256} (hm : m ∈ ms) : m.height < k := by
  apply (Nat.pow_lt_pow_iff_right (a := 2) (by decide)).mp
  exact ((two_pow_height_le_forestSize hm).trans_eq h.size).trans_lt hn

theorem BeltOver.length_le (h : BeltOver sha3 leaf n ms) (hn : n < 2 ^ k) : ms.length ≤ k := by
  have hlen := h.belt.length_le (k := k) fun x hx => by
    obtain ⟨m, hm, rfl⟩ := mem_map.mp hx
    rw [Nat.zero_add]
    exact h.height_lt hn hm
  rwa [length_map] at hlen

variable {pair : Option (MountainPair UInt256)}

theorem mmbMergePair_eq (sha3 : List UInt8 → UInt256) (ms : List (Mountain UInt256))
    (h : ∀ p, pair = some p → p.left.height < mmbMaxHeight) :
    ∃ merges ≤ 1, mmbMergePair sha3 pair ms =
      (mergePair (mmbHashInternal sha3) ms pair, some merges) := by
  cases pair with
  | none => exact ⟨0, Nat.zero_le 1, rfl⟩
  | some p =>
    refine ⟨1, le_rfl, ?_⟩
    rw [mmbMergePair, if_neg (h p rfl).not_ge]
    rfl

theorem covers_mergePair
    (hpair : ∀ p, pair = some p → p.stack = ms ∧ p.left.height = p.right.height)
    (hcov : Covers (mmbHashInternal sha3) leaf ms) :
    Covers (mmbHashInternal sha3) leaf (mergePair (mmbHashInternal sha3) ms pair) ∧
      forestSize (mergePair (mmbHashInternal sha3) ms pair) = forestSize ms := by
  cases pair with
  | none => exact ⟨hcov, rfl⟩
  | some p =>
    obtain ⟨rfl, hheight⟩ := hpair p rfl
    exact ⟨MountainPair.covers_merged hheight hcov, MountainPair.forestSize_merged _ hheight⟩

theorem left_height_lt {p : MountainPair UInt256} (hstack : p.stack = ms)
    (h : forestSize ms < 2 ^ k) : p.left.height < k := by
  apply (Nat.pow_lt_pow_iff_right (a := 2) (by decide)).mp
  refine (two_pow_height_le_forestSize ?_).trans_lt h
  rw [← hstack, MountainPair.stack]
  simp

/-- The mountains after an append: what the two merges leave. -/
def beltPush (sha3 : List UInt8 → UInt256) (x : UInt256) (ms : List (Mountain UInt256)) :
    List (Mountain UInt256) :=
  let pushed := ⟨x, 0⟩ :: ms
  let merged := mergePair (mmbHashInternal sha3) pushed (topPair pushed)
  mergePair (mmbHashInternal sha3) merged (firstPair merged)

theorem BeltOver.push (h : BeltOver sha3 leaf n ms) :
    BeltOver sha3 leaf (n + 1) (beltPush sha3 (leaf n) ms) := by
  have hcov : Covers (mmbHashInternal sha3) leaf (⟨leaf n, 0⟩ :: ms) :=
    h.covers.push (by rw [h.size])
  have hbelt : Belt 0 true ((⟨leaf n, 0⟩ :: ms : List (Mountain UInt256)).map Mountain.height) :=
    h.belt.push
  obtain ⟨hcov', hsize'⟩ := covers_mergePair (fun p hp => topPair_spec hp) hcov
  obtain ⟨hcov'', hsize''⟩ := covers_mergePair (fun p hp => firstPair_spec hp) hcov'
  refine ⟨?_, ?_, hcov''⟩
  · -- a pair on top is the first pair, so the first merge already frees the belt
    apply Belt.mergePair_firstPair
    rcases htop : topPair (⟨leaf n, 0⟩ :: ms : List (Mountain UInt256)) with _ | p
    · exact hbelt
    · rw [← htop, ← firstPair_eq_topPair (by rw [htop]; exact Option.some_ne_none p)]
      exact (hbelt.mergePair_firstPair _).toFree
  · rw [beltPush, hsize'', hsize', forestSize_cons, h.size, Nat.add_comm]
    rfl

theorem BeltOver.mmbMergeAfterInsert (h : BeltOver sha3 leaf n ms) (hn : n + 1 < 2 ^ 64) :
    ∃ merges ≤ 2, mmbMergeAfterInsert sha3 (⟨leaf n, 0⟩ :: ms) =
      (beltPush sha3 (leaf n) ms, some merges) := by
  have hcov : Covers (mmbHashInternal sha3) leaf (⟨leaf n, 0⟩ :: ms) :=
    h.covers.push (by rw [h.size])
  have hsize : forestSize (⟨leaf n, 0⟩ :: ms : List (Mountain UInt256)) < 2 ^ mmbMaxHeight := by
    rw [forestSize_cons, h.size, Nat.add_comm]
    exact hn
  obtain ⟨-, hsize'⟩ := covers_mergePair (fun p hp => topPair_spec hp) hcov
  obtain ⟨k, hk, htop⟩ := mmbMergePair_eq sha3 (⟨leaf n, 0⟩ :: ms) fun p hp =>
    left_height_lt (topPair_spec hp).1 hsize
  obtain ⟨k', hk', hfirst⟩ := mmbMergePair_eq sha3 (mergePair (mmbHashInternal sha3)
    (⟨leaf n, 0⟩ :: ms) (topPair (⟨leaf n, 0⟩ :: ms))) fun p hp =>
      left_height_lt (firstPair_spec hp).1 (hsize'.trans_lt hsize)
  refine ⟨k + k', Nat.add_le_add hk hk', ?_⟩
  rw [ZClassic.mmbMergeAfterInsert, htop]
  simp only [hfirst]
  rfl

theorem MmbAppend.call_eq (m : Mmb) (a : MmbAppend) :
    a.call sha3 m = mmbAppendHash sha3 m (a.leafHash sha3) := by
  cases a <;> rfl

theorem BeltOver.append {m : Mmb} (h : BeltOver sha3 leaf n m.mountains) (hn : n + 1 < 2 ^ 63)
    {x : UInt256} (hx : leaf n = x) :
    m.mountains.length < mmbMaxMountains ∧
      BeltOver sha3 leaf (n + 1) (mmbAppendHash sha3 m x).1.mountains ∧
      ∃ merges ≤ 2, mmbAppendHash sha3 m x = ({ m with
        numLeaves := m.numLeaves + 1
        mountains := beltPush sha3 x m.mountains
        rootDirty := true }, some merges) := by
  subst hx
  have hlength : m.mountains.length < mmbMaxMountains :=
    (h.length_le ((Nat.lt_succ_self n).trans hn)).trans_lt (by decide)
  obtain ⟨merges, hle, hmerge⟩ := h.mmbMergeAfterInsert (hn.trans (by decide))
  have happend : mmbAppendHash sha3 m (leaf n) = ({ m with
      numLeaves := m.numLeaves + 1
      mountains := beltPush sha3 (leaf n) m.mountains
      rootDirty := true }, some merges) := by
    rw [mmbAppendHash, if_neg hlength.not_ge, hmerge]
  refine ⟨hlength, ?_, merges, hle, happend⟩
  rw [happend]
  exact h.push

end Shape

section Runs

variable {sha3 : List UInt8 → UInt256}

def mmbStep (sha3 : List UInt8 → UInt256) (m : Mmb) (a : MmbAppend) : Mmb := (a.call sha3 m).1

def mmbLeafAt (sha3 : List UInt8 → UInt256) (appends : List MmbAppend) (i : ℕ) : UInt256 :=
  (appends[i]?.map (MmbAppend.leafHash sha3)).getD 0

/-- What every append of a run finds and does: there is room, and at most two merges follow. -/
def MmbAppend.Succeeds (sha3 : List UInt8 → UInt256) (m : Mmb) (a : MmbAppend) : Prop :=
  m.mountains.length < mmbMaxMountains ∧ ∃ merges ≤ 2, (a.call sha3 m).2 = some merges

variable {appends : List MmbAppend}

theorem BeltOver.run {leaf : ℕ → UInt256} {n : ℕ} {m : Mmb} (h : BeltOver sha3 leaf n m.mountains)
    (hn : n + appends.length < 2 ^ 63)
    (hleaf : ∀ i < appends.length, leaf (n + i) = mmbLeafAt sha3 appends i) :
    BeltOver sha3 leaf (n + appends.length) (run (mmbStep sha3) m appends).mountains ∧
      (run (mmbStep sha3) m appends).mountains =
        appends.foldl (fun ms a => beltPush sha3 (a.leafHash sha3) ms) m.mountains ∧
      MeetsAll (mmbStep sha3) (MmbAppend.Succeeds sha3) m appends := by
  induction appends generalizing n m with
  | nil => exact ⟨h, rfl, trivial⟩
  | cons a appends ih =>
    rw [length_cons] at hn hleaf ⊢
    obtain ⟨hlength, hnext, merges, hle, hcall⟩ := h.append (by omega) (hleaf 0 (Nat.succ_pos _))
    change mmbAppendHash sha3 m (a.leafHash sha3) = _ at hcall
    change BeltOver sha3 leaf (n + 1) (mmbAppendHash sha3 m (a.leafHash sha3)).1.mountains at hnext
    rw [← MmbAppend.call_eq] at hnext hcall
    obtain ⟨hover, hmountains, hmeets⟩ := ih hnext (by omega) fun i hi => by
      rw [Nat.add_assoc, Nat.add_comm 1]
      exact hleaf (i + 1) (Nat.succ_lt_succ hi)
    rw [Nat.add_comm appends.length, ← Nat.add_assoc]
    refine ⟨hover, ?_, ⟨hlength, merges, hle, congrArg Prod.snd hcall⟩, hmeets⟩
    rw [run_cons, mmbStep, hmountains, hcall]
    rfl

theorem beltOver_run (sha3 : List UInt8 → UInt256) (hn : appends.length < 2 ^ 63) :
    BeltOver sha3 (mmbLeafAt sha3 appends) appends.length
        (run (mmbStep sha3) {} appends).mountains ∧
      (run (mmbStep sha3) {} appends).mountains =
        appends.foldl (fun ms a => beltPush sha3 (a.leafHash sha3) ms) [] ∧
      MeetsAll (mmbStep sha3) (MmbAppend.Succeeds sha3) {} appends := by
  have hempty : BeltOver sha3 (mmbLeafAt sha3 appends) 0 ({} : Mmb).mountains :=
    ⟨.nil, rfl, trivial⟩
  have hrun := hempty.run ((Nat.zero_add _).trans_lt hn) fun i _ => congrArg _ (Nat.zero_add i)
  rwa [Nat.zero_add] at hrun

/-- The belt after any number of appends: heights that do not rise from left to right, each at most
twice, over all leaves in their order. No append fails. -/
theorem mmb_shape (sha3 : List UInt8 → UInt256) (appends : List MmbAppend)
    (hn : appends.length < 2 ^ 30) :
    ((run (mmbStep sha3) {} appends).mountains.reverse.map Mountain.height).Pairwise (· ≥ ·) ∧
    (∀ h, ((run (mmbStep sha3) {} appends).mountains.map Mountain.height).count h ≤ 2) ∧
    ((run (mmbStep sha3) {} appends).mountains.map fun mt => 2 ^ mt.height).sum = appends.length ∧
    (∀ right mt left, (run (mmbStep sha3) {} appends).mountains = right ++ mt :: left →
      mt.peak = treeRoot (mmbHashInternal sha3) (mmbLeafAt sha3 appends) mt.height
        (left.map fun mt => 2 ^ mt.height).sum) ∧
    (run (mmbStep sha3) {} appends).mountains.length < mmbMaxMountains ∧
    MeetsAll (mmbStep sha3) (MmbAppend.Succeeds sha3) {} appends := by
  obtain ⟨hover, -, hmeets⟩ := beltOver_run sha3 (hn.trans (by decide))
  refine ⟨?_, hover.belt.count_le_two, hover.size, ?_, ?_, hmeets⟩
  · rw [map_reverse, pairwise_reverse]
    exact hover.belt.pairwise_le
  · intro right mt left heq
    have hcov := hover.covers
    rw [heq] at hcov
    exact hcov.peak_eq
  · exact (hover.length_le hn).trans_lt (by decide)

def leHash (message : List UInt8) : UInt256 := BitVec.ofNat 256 (leNat message)

theorem mmb_shape_threeLeaves :
    ([.appendHash 5, .appendHash 6, .appendHash 7] : List MmbAppend).length < 2 ^ 30 ∧
      (run (mmbStep leHash) {}
        [.appendHash 5, .appendHash 6, .appendHash 7]).mountains.length < mmbMaxMountains := by
  obtain ⟨-, -, -, -, hlength, -⟩ := mmb_shape leHash
    [.appendHash 5, .appendHash 6, .appendHash 7] (by decide)
  exact ⟨by decide, hlength⟩

end Runs

end ZClassic
