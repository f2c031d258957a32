import ZClassic.Lib.ByteStream
import ZClassic.Lib.PerfectForest
import ZClassic.Lib.Run
import ZClassic.Primitives.Transaction

/-!
# The Merkle mountain range

`lib/chain/src/mmr.c`: appending block hashes, the root, the serialized state, and inclusion proofs.
-/

namespace ZClassic

open List MountainPair Nat Mountain

def mmrMaxPeaks : ℕ := 64

structure Mmr where
  numLeaves : UInt64 := 0
  /-- in the order of the array -/
  peaks : List UInt256 := []
  deriving DecidableEq

structure MmrProof where
  leafIndex : UInt64
  leafHash : UInt256
  siblings : List UInt256
  peakHashes : List UInt256
  mmrSize : UInt64

def mmrLeafMessage (blockHash : UInt256) : List UInt8 := 0x00 :: leBytes 32 blockHash.toNat

def mmrInternalMessage (left right : UInt256) : List UInt8 :=
  0x01 :: (leBytes 32 left.toNat ++ leBytes 32 right.toNat)

def mmrRootMessage (peaks : List UInt256) : List UInt8 :=
  0x02 :: peaks.flatMap fun p => leBytes 32 p.toNat

section Operations

variable (sha3 : List UInt8 → UInt256)

def mmrHashLeaf (blockHash : UInt256) : UInt256 := sha3 (mmrLeafMessage blockHash)

def mmrHashInternal (left right : UInt256) : UInt256 := sha3 (mmrInternalMessage left right)

/-- The loop of `mmr_append_prehashed` on the peaks, the last one first: the peaks after it, with
the new one pushed, and the number of merges. -/
def mmrMergePeaks : List UInt256 → UInt256 → UInt64 → List UInt256 × ℕ
  | [], h, _ => ([h], 0)
  | p :: ps, h, n =>
    if n % 2 = 0 then
      let (peaks, merges) := mmrMergePeaks ps (mmrHashInternal sha3 p h) (n / 2)
      (peaks, merges + 1)
    else (h :: p :: ps, 0)

def mmrAppendPrehashed (m : Mmr) (h : UInt256) : Mmr × ℕ :=
  let (peaks, merges) := mmrMergePeaks sha3 m.peaks.reverse h (m.numLeaves + 1)
  ({ numLeaves := m.numLeaves + 1, peaks := peaks.reverse }, merges)

def mmrAppend (m : Mmr) (blockHash : UInt256) : Mmr × ℕ :=
  mmrAppendPrehashed sha3 m (mmrHashLeaf sha3 blockHash)

def mmrBagPeaks (peaks : List UInt256) : UInt256 := sha3 (mmrRootMessage peaks)

def mmrRoot (m : Mmr) : UInt256 :=
  match m.peaks with
  | [] => 0
  | [p] => p
  | peaks => mmrBagPeaks sha3 peaks

def mmrOf (blocks : List UInt256) : Mmr := run (fun m b => (mmrAppend sha3 m b).1) {} blocks

end Operations

/-- No bytes are written when the buffer is too small. -/
def mmrSerialize (m : Mmr) (buflen : ℕ) : List UInt8 :=
  if buflen < 8 + 4 + m.peaks.length * 32 then []
  else leBytes 8 m.numLeaves.toNat ++ (leBytes 4 m.peaks.length ++
    m.peaks.flatMap fun p => leBytes 32 p.toNat)

def readMmr : Reader Mmr := do
  let numLeaves ← readU64
  let np ← readLe 4
  guard (np ≤ mmrMaxPeaks)
  let peaks ← readMany readU256 np
  return ⟨numLeaves, peaks⟩

/-- Bytes after the last peak are ignored. -/
def mmrDeserialize (buf : List UInt8) : Option Mmr := readMmr.run' buf

/-- The loop variables of `mmr_prove_from_leaves`; the stack has its top first, and `targetIdx`
counts from its bottom. -/
structure MmrProver where
  stack : List (Mountain UInt256) := []
  targetIdx : Option ℕ := none
  siblings : List UInt256 := []

section Proofs

variable (sha3 : List UInt8 → UInt256)

/-- The inner loop: the top of the stack is merged while the next one has its height. -/
def mmrProveMerge (top : Mountain UInt256) (targetIdx : Option ℕ) (siblings : List UInt256) :
    List (Mountain UInt256) → MmrProver
  | [] => ⟨[top], targetIdx, siblings⟩
  | left :: stack =>
    if top.height = left.height then
      let parent := ⟨mmrHashInternal sha3 left.peak top.peak, left.height + 1⟩
      if targetIdx = some stack.length then
        mmrProveMerge parent targetIdx (siblings ++ [top.peak]) stack
      else if targetIdx = some (stack.length + 1) then
        mmrProveMerge parent (some stack.length) (siblings ++ [left.peak]) stack
      else mmrProveMerge parent targetIdx siblings stack
    else ⟨top :: left :: stack, targetIdx, siblings⟩

def mmrProveStep (leafIndex : ℕ) (s : MmrProver) (b : UInt256 × ℕ) : MmrProver :=
  let targetIdx := if b.2 = leafIndex then some s.stack.length else s.targetIdx
  mmrProveMerge sha3 ⟨mmrHashLeaf sha3 b.1, 0⟩ targetIdx s.siblings s.stack

def mmrProveFromLeaves (allLeaves : List UInt256) (leafIndex : UInt64) : Option MmrProof :=
  if allLeaves.length ≤ leafIndex.toNat then none
  else
    let s := run (mmrProveStep sha3 leafIndex.toNat) {} allLeaves.zipIdx
    some {
      leafIndex
      leafHash := mmrHashLeaf sha3 (allLeaves.getD leafIndex.toNat 0)
      siblings := s.siblings
      peakHashes := (s.stack.map Mountain.peak).reverse
      mmrSize := UInt64.ofNat allLeaves.length }

def mmrWalk : UInt64 → UInt256 → List UInt256 → UInt256
  | _, current, [] => current
  | idx, current, s :: siblings =>
    mmrWalk (idx / 2)
      (if idx % 2 = 0 then mmrHashInternal sha3 current s else mmrHashInternal sha3 s current)
      siblings

def mmrVerify (proof : MmrProof) (expectedRoot : UInt256) : Bool :=
  let current := mmrWalk sha3 proof.leafIndex proof.leafHash proof.siblings
  let root := match proof.peakHashes with
    | [p] => p
    | peaks => mmrBagPeaks sha3 peaks
  proof.peakHashes.contains current && root == expectedRoot

end Proofs

variable {sha3 : List UInt8 → UInt256} {α : Type} {d : ℕ} {n : UInt64} {leaf : ℕ → UInt256}
  {st stack : List (Mountain UInt256)} {x b : UInt256} {m : Mmr} {blocks : List UInt256}
  {top : Mountain UInt256} {s : MmrProver}

section Peaks

/-- The peaks are the trees of the one bits of `n`, over the first `n` leaves. -/
structure MmrOver (sha3 : List UInt8 → UInt256) (leaf : ℕ → UInt256) (n : ℕ) (m : Mmr)
    (st : List (Mountain UInt256)) : Prop where
  numLeaves : m.numLeaves.toNat = n
  peaks : m.peaks.reverse = st.map Mountain.peak
  heights : st.map Mountain.height = n.bitIndices
  covers : Covers (mmrHashInternal sha3) leaf st

theorem forestSize_of_heights {st : List (Mountain α)} {n : ℕ}
    (h : st.map height = n.bitIndices) : forestSize st = n := by
  rw [forestSize_eq_heights, h, sum_map_two_pow_bitIndices]

theorem uint64_half (h : n.toNat = 2 * d) : n % 2 = 0 ∧ (n / 2).toNat = d := by
  have hdiv : (n / 2).toNat = n.toNat / 2 := UInt64.toNat_div n 2
  refine ⟨UInt64.toNat_inj.mp ?_, ?_⟩
  · rw [UInt64.toNat_mod, h]
    exact mul_mod_right 2 d
  · rw [hdiv, h]
    omega

theorem uint64_odd (h : n.toNat = 2 * d + 1) : ¬n % 2 = 0 := by
  intro hmod
  have hnat : n.toNat % 2 = 0 := (UInt64.toNat_mod n 2).symm.trans (congrArg UInt64.toNat hmod)
  omega

theorem mmrMergePeaks_spec {c k : ℕ} (hcov : Covers (mmrHashInternal sha3) leaf st)
    (hheights : st.map height = c.bitIndices.map (· + k))
    (hx : x = treeRoot (mmrHashInternal sha3) leaf k (forestSize st)) (hn : n.toNat = c + 1) :
    ∃ st' : List (Mountain UInt256),
      (mmrMergePeaks sha3 (st.map peak) x n).1 = st'.map peak ∧
      Covers (mmrHashInternal sha3) leaf st' ∧
      st'.map height = (c + 1).bitIndices.map (· + k) := by
  -- along the peaks that are left, with the level and the carried root
  induction st generalizing c k x n with
  | nil =>
    have hc : c = 0 := by
      rw [← sum_map_two_pow_bitIndices c, map_eq_nil_iff.mp hheights.symm]
      rfl
    subst hc
    refine ⟨[⟨x, k⟩], rfl, ⟨hx, trivial⟩, ?_⟩
    simp
  | cons m st ih =>
    obtain ⟨d, rfl | rfl⟩ : ∃ d, c = 2 * d ∨ c = 2 * d + 1 := ⟨c / 2, by omega⟩
    · -- the bit of this level is free
      refine ⟨⟨x, k⟩ :: m :: st, ?_, ⟨hx, hcov⟩, ?_⟩
      · rw [map_cons, mmrMergePeaks, if_neg (uint64_odd hn)]
        rfl
      · rw [map_cons, hheights, bitIndices_two_mul_add_one, bitIndices_two_mul, map_cons, zero_add]
    · rw [bitIndices_two_mul_add_one, map_cons, map_cons, map_map] at hheights
      obtain ⟨hm, hrest⟩ := cons_eq_cons.mp hheights
      rw [zero_add] at hm
      obtain ⟨hhalf, hdiv⟩ := uint64_half (d := d + 1) (n := n) (by omega)
      have hshift : ∀ l : List ℕ, (l.map (· + 1)).map (· + k) = l.map (· + (k + 1)) := by
        intro l
        rw [map_map]
        congr 1
        funext j
        exact add_right_comm j 1 k
      have hparent : mmrHashInternal sha3 m.peak x =
          treeRoot (mmrHashInternal sha3) leaf (k + 1) (forestSize st) := by
        rw [treeRoot, hx, hcov.1, hm, forestSize_cons, hm, add_comm]
      rw [← map_map, hshift] at hrest
      obtain ⟨st', hpeaks, hcov', hheights'⟩ := ih hcov.2 hrest hparent hdiv
      refine ⟨st', ?_, hcov', ?_⟩
      · rw [map_cons, mmrMergePeaks, if_pos hhalf]
        exact hpeaks
      · rw [hheights', show 2 * d + 1 + 1 = 2 * (d + 1) by ring, bitIndices_two_mul, hshift]

theorem MmrOver.append {n : ℕ} (h : MmrOver sha3 leaf n m st) (hn : n + 1 < 2 ^ 64)
    (hb : leaf n = mmrHashLeaf sha3 b) :
    ∃ st', MmrOver sha3 leaf (n + 1) (mmrAppend sha3 m b).1 st' := by
  have hcount : (m.numLeaves + 1).toNat = n + 1 := by
    rw [UInt64.toNat_add, h.numLeaves]
    exact mod_eq_of_lt hn
  have hsize := forestSize_of_heights h.heights
  obtain ⟨st', hpeaks, hcov, hheights⟩ := mmrMergePeaks_spec (k := 0) (x := mmrHashLeaf sha3 b)
    h.covers (by simpa using h.heights) (by rw [hsize]; exact hb.symm) hcount
  refine ⟨st', hcount, ?_, by simpa using hheights, hcov⟩
  rw [← hpeaks, ← h.peaks]
  exact reverse_reverse _

theorem MmrOver.run {n : ℕ} (h : MmrOver sha3 leaf n m st) (hn : n + blocks.length < 2 ^ 64)
    (hleaf : ∀ i < blocks.length, leaf (n + i) = mmrHashLeaf sha3 (blocks.getD i 0)) :
    ∃ st', MmrOver sha3 leaf (n + blocks.length)
      (ZClassic.run (fun m b => (mmrAppend sha3 m b).1) m blocks) st' := by
  induction blocks generalizing n m st with
  | nil => exact ⟨st, h⟩
  | cons b blocks ih =>
    rw [length_cons] at hn hleaf ⊢
    obtain ⟨st', h'⟩ := h.append (by omega) (hleaf 0 (succ_pos _))
    rw [add_comm blocks.length, ← add_assoc]
    refine ih h' (by omega) fun i hi => ?_
    rw [add_assoc, add_comm 1]
    exact hleaf (i + 1) (succ_lt_succ hi)

def mmrLeafAt (sha3 : List UInt8 → UInt256) (blocks : List UInt256) (i : ℕ) : UInt256 :=
  mmrHashLeaf sha3 (blocks.getD i 0)

theorem mmrOver_mmrOf (sha3 : List UInt8 → UInt256) (h : blocks.length < 2 ^ 64) :
    ∃ st, MmrOver sha3 (mmrLeafAt sha3 blocks) blocks.length (mmrOf sha3 blocks) st := by
  have hempty : MmrOver sha3 (mmrLeafAt sha3 blocks) 0 {} [] :=
    ⟨rfl, rfl, bitIndices_zero.symm, trivial⟩
  have hrun := hempty.run ((zero_add _).trans_lt h) fun i _ => congrArg _ (zero_add i)
  rwa [zero_add] at hrun

end Peaks

section Prover

/-- The prover has followed leaf `i` from its hash `x` to a mountain of its stack. -/
def MmrProver.Follows (sha3 : List UInt8 → UInt256) (x : UInt256) (i : ℕ) (s : MmrProver) : Prop :=
  ∃ path t, s.targetIdx = some t ∧ s.siblings = path.map Prod.snd ∧
    Tracks (mmrHashInternal sha3) x i path t s.stack

/-- The stack after `n` leaves: heights that differ, over the leaves so far. -/
structure MmrProver.Over (sha3 : List UInt8 → UInt256) (leaf : ℕ → UInt256) (n : ℕ)
    (s : MmrProver) : Prop where
  size : forestSize s.stack = n
  sorted : (s.stack.map Mountain.height).Pairwise (· < ·)
  covers : Covers (mmrHashInternal sha3) leaf s.stack

theorem mmrProveMerge_cons (sha3 : List UInt8 → UInt256) {top left : Mountain UInt256}
    (h : top.height = left.height) (stack : List (Mountain UInt256)) (targetIdx : Option ℕ)
    (siblings : List UInt256) :
    ∃ targetIdx' siblings', mmrProveMerge sha3 top targetIdx siblings (left :: stack) =
        mmrProveMerge sha3 ⟨mmrHashInternal sha3 left.peak top.peak, left.height + 1⟩ targetIdx'
          siblings' stack ∧
      (targetIdx = none → targetIdx' = none ∧ siblings' = siblings) ∧
      ∀ (path : List (Bool × UInt256)) t, t ≤ stack.length + 1 → targetIdx = some t →
        siblings = path.map Prod.snd →
        targetIdx' = some ((mk [] top left stack).follow t path).1 ∧
          siblings' = (((mk [] top left stack).follow t path).2).map Prod.snd := by
  rw [mmrProveMerge, if_pos h]
  by_cases hleft : targetIdx = some stack.length
  · refine ⟨targetIdx, siblings ++ [top.peak], by rw [if_pos hleft], ?_, ?_⟩
    · simp [hleft]
    · rintro path t - rfl rfl
      rw [follow, if_pos (Option.some.inj hleft), map_append]
      exact ⟨rfl, rfl⟩
  · by_cases hright : targetIdx = some (stack.length + 1)
    · refine
        ⟨some stack.length, siblings ++ [left.peak], by rw [if_neg hleft, if_pos hright], ?_, ?_⟩
      · simp [hright]
      · rintro path t - rfl rfl
        have ht := Option.some.inj hright
        rw [follow, if_neg fun h => hleft (congrArg some h), if_pos ht, map_append]
        exact ⟨rfl, rfl⟩
    · refine ⟨targetIdx, siblings, by rw [if_neg hleft, if_neg hright], fun h => ⟨h, rfl⟩, ?_⟩
      rintro path t hle rfl rfl
      have hne : t ≠ stack.length := fun h => hleft (congrArg some h)
      have hne' : t ≠ stack.length + 1 := fun h => hright (congrArg some h)
      have hle' : ¬stack.length + 1 < t := hle.not_gt
      rw [follow, if_neg hne, if_neg hne', if_neg hle']
      exact ⟨rfl, rfl⟩

theorem mmrProveMerge_over (hsorted : (stack.map height).Pairwise (· < ·))
    (htop : ∀ m ∈ stack, top.height ≤ m.height)
    (hcov : Covers (mmrHashInternal sha3) leaf (top :: stack)) (targetIdx : Option ℕ)
    (siblings : List UInt256) :
    (mmrProveMerge sha3 top targetIdx siblings stack).Over sha3 leaf
      (forestSize (top :: stack)) := by
  induction stack generalizing top targetIdx siblings with
  | nil => exact ⟨rfl, pairwise_singleton _ _, hcov⟩
  | cons left stack ih =>
    rw [map_cons, pairwise_cons] at hsorted
    have hleft : ∀ m ∈ stack, left.height < m.height := fun m hm =>
      hsorted.1 _ (mem_map_of_mem hm)
    rw [forall_mem_cons] at htop
    by_cases heq : top.height = left.height
    · obtain ⟨targetIdx', siblings', hstep, -⟩ :=
        mmrProveMerge_cons sha3 heq stack targetIdx siblings
      have hpair : (mk [] top left stack).left.height =
          (mk [] top left stack).right.height := heq.symm
      rw [hstep, show forestSize (top :: left :: stack) = _ from
        (forestSize_merged (mmrHashInternal sha3) hpair).symm]
      refine ih hsorted.2 ?_ (covers_merged hpair hcov) targetIdx' siblings'
      exact hleft
    · have hlt : top.height < left.height := lt_of_le_of_ne htop.1 heq
      rw [mmrProveMerge, if_neg heq]
      refine ⟨rfl, ?_, hcov⟩
      rw [map_cons, map_cons, pairwise_cons, forall_mem_cons, forall_mem_map, pairwise_cons]
      exact ⟨⟨hlt, fun m hm => hlt.trans (hleft m hm)⟩, hsorted⟩

theorem mmrProveMerge_none {siblings : List UInt256} :
    (mmrProveMerge sha3 top none siblings stack).targetIdx = none ∧
      (mmrProveMerge sha3 top none siblings stack).siblings = siblings := by
  induction stack generalizing top with
  | nil => exact ⟨rfl, rfl⟩
  | cons left stack ih =>
    by_cases heq : top.height = left.height
    · obtain ⟨targetIdx', siblings', hstep, hnone, -⟩ :=
        mmrProveMerge_cons sha3 heq stack none siblings
      obtain ⟨rfl, rfl⟩ := hnone rfl
      rw [hstep]
      exact ih
    · rw [mmrProveMerge, if_neg heq]
      exact ⟨rfl, rfl⟩

theorem mmrProveMerge_follows {i t : ℕ} {path : List (Bool × UInt256)}
    (h : Tracks (mmrHashInternal sha3) x i path t (top :: stack)) :
    (mmrProveMerge sha3 top (some t) (path.map Prod.snd) stack).Follows sha3 x i := by
  induction stack generalizing top t path with
  | nil => exact ⟨path, t, rfl, rfl, h⟩
  | cons left stack ih =>
    by_cases heq : top.height = left.height
    · obtain ⟨targetIdx', siblings', hstep, -, hfollow⟩ :=
        mmrProveMerge_cons sha3 heq stack (some t) (path.map Prod.snd)
      obtain ⟨rfl, rfl⟩ := hfollow path t (Nat.lt_succ_iff.mp h.lt) rfl rfl
      rw [hstep]
      exact ih (Tracks.merge (p := ⟨[], top, left, stack⟩) heq.symm h)
    · rw [mmrProveMerge, if_neg heq]
      exact ⟨path, t, rfl, rfl, h⟩

structure MmrProver.At (sha3 : List UInt8 → UInt256) (leaf : ℕ → UInt256) (i n : ℕ)
    (s : MmrProver) : Prop where
  toOver : s.Over sha3 leaf n
  followed : i < n → s.Follows sha3 (leaf i) i
  notMet : n ≤ i → s.targetIdx = none ∧ s.siblings = []

theorem MmrProver.At.step {i n : ℕ} (h : s.At sha3 leaf i n) (hb : leaf n = mmrHashLeaf sha3 b) :
    (mmrProveStep sha3 i s (b, n)).At sha3 leaf i (n + 1) := by
  have hsize := h.toOver.size
  have hpush : Covers (mmrHashInternal sha3) leaf (⟨mmrHashLeaf sha3 b, 0⟩ :: s.stack) := by
    apply h.toOver.covers.push
    rw [hsize, hb]
  refine ⟨?_, fun hi => ?_, fun hi => ?_⟩
  · have hover := mmrProveMerge_over h.toOver.sorted (fun m _ => zero_le _) hpush
      (if n = i then some s.stack.length else s.targetIdx) s.siblings
    rw [forestSize_cons, hsize, add_comm] at hover
    exact hover
  · rw [mmrProveStep]
    rcases Nat.lt_succ_iff_lt_or_eq.mp hi with hlt | rfl
    · obtain ⟨path, t, htarget, hsiblings, ht⟩ := h.followed hlt
      rw [if_neg hlt.ne', htarget, hsiblings]
      exact mmrProveMerge_follows (.inr ht)
    · have htrack := tracks_push (mmrHashInternal sha3) (leaf i) s.stack
      rw [hsize, hb] at htrack
      rw [if_pos rfl, (h.notMet le_rfl).2, hb]
      exact mmrProveMerge_follows htrack
  · rw [mmrProveStep, if_neg (by omega), (h.notMet (by omega)).1, (h.notMet (by omega)).2]
    exact mmrProveMerge_none

theorem MmrProver.At.run {i n : ℕ} (h : s.At sha3 leaf i n)
    (hleaf : ∀ j < blocks.length, leaf (n + j) = mmrHashLeaf sha3 (blocks.getD j 0)) :
    (ZClassic.run (mmrProveStep sha3 i) s (blocks.zipIdx n)).At sha3 leaf i
      (n + blocks.length) := by
  induction blocks generalizing n s with
  | nil => exact h
  | cons b blocks ih =>
    rw [length_cons] at hleaf ⊢
    rw [add_comm blocks.length, ← add_assoc]
    refine ih (h.step (hleaf 0 (succ_pos _))) fun j hj => ?_
    rw [add_assoc, add_comm 1]
    exact hleaf (j + 1) (succ_lt_succ hj)

theorem mmrProver_at (sha3 : List UInt8 → UInt256) (blocks : List UInt256) (i : ℕ) :
    (run (mmrProveStep sha3 i) {} blocks.zipIdx).At sha3 (mmrLeafAt sha3 blocks) i
      blocks.length := by
  have hempty : MmrProver.At sha3 (mmrLeafAt sha3 blocks) i 0 {} :=
    ⟨⟨rfl, Pairwise.nil, trivial⟩, fun hi => absurd hi (not_lt_zero i), fun _ => ⟨rfl, rfl⟩⟩
  have hrun := hempty.run fun j (_ : j < blocks.length) => congrArg _ (zero_add j)
  rwa [zero_add] at hrun

end Prover

section Verifier

theorem mmrWalk_eq_climb (idx : UInt64) (x : UInt256) (siblings : List UInt256) :
    mmrWalk sha3 idx x siblings =
      climb (mmrHashInternal sha3) x (indexPath idx.toNat siblings) := by
  induction siblings generalizing idx x with
  | nil => rfl
  | cons s siblings ih =>
    have hdiv : (idx / 2).toNat = idx.toNat / 2 := UInt64.toNat_div idx 2
    rw [mmrWalk, ih, hdiv, indexPath]
    obtain ⟨d, hd | hd⟩ : ∃ d, idx.toNat = 2 * d ∨ idx.toNat = 2 * d + 1 :=
      ⟨idx.toNat / 2, by omega⟩
    · have hbit : decide (idx.toNat % 2 = 1) = false := decide_eq_false (by omega)
      rw [if_pos (uint64_half hd).1, hbit]
      rfl
    · have hbit : decide (idx.toNat % 2 = 1) = true := decide_eq_true (by omega)
      rw [if_neg (uint64_odd hd), hbit]
      rfl

theorem mmrVerify_iff {proof : MmrProof} {root : UInt256} :
    mmrVerify sha3 proof root = true ↔
      mmrWalk sha3 proof.leafIndex proof.leafHash proof.siblings ∈ proof.peakHashes ∧
        mmrRoot sha3 { peaks := proof.peakHashes } = root := by
  rw [mmrVerify, Bool.and_eq_true, contains_iff_mem]
  refine and_congr_right fun hmem => ?_
  match hpeaks : proof.peakHashes with
  | [] => rw [hpeaks] at hmem; exact absurd hmem not_mem_nil
  | [p] => simp only [mmrRoot, beq_iff_eq]
  | p :: q :: peaks => simp only [mmrRoot, beq_iff_eq]

theorem mmrDeserialize_mmrSerialize (hpeaks : m.peaks.length ≤ mmrMaxPeaks) {buflen : ℕ}
    (hlen : 8 + 4 + m.peaks.length * 32 ≤ buflen) (rest : List UInt8) :
    mmrDeserialize (mmrSerialize m buflen ++ rest) = some m := by
  have hnp : m.peaks.length < 256 ^ 4 := lt_of_le_of_lt hpeaks (by decide)
  have hread : Reads readMmr (mmrSerialize m buflen) m := by
    rw [mmrSerialize, if_neg hlen.not_gt]
    refine (reads_u64 _).bind ((reads_le hnp).bind (.guard_bind hpeaks ?_))
    have hmany := reads_many (r := readU256) (g := id) fun p (_ : p ∈ m.peaks) => reads_u256 p
    rw [map_id] at hmany
    exact hmany.bind_pure
  change (fun x => x.1) <$> readMmr.run (mmrSerialize m buflen ++ rest) = some m
  rw [hread]
  rfl

/-- Entry `i` of a stack, counted from its bottom, is the tree over the block of leaves that
follows those of the entries below it. -/
theorem Covers.peak_of_height {node : α → α → α} {leaf : ℕ → α} {st : List (Mountain α)}
    (hc : Covers node leaf st) {i h : ℕ} (hi : (st.map height).reverse[i]? = some h) :
    (st.map peak).reverse[i]? = some (treeRoot node leaf h
      ((((st.map height).reverse.take i).map fun k => 2 ^ k).sum)) := by
  induction st with
  | nil => simp at hi
  | cons m st ih =>
    have hlength : (st.map height).reverse.length = st.length := by simp
    have hlength' : (st.map peak).reverse.length = st.length := by simp
    rw [map_cons, reverse_cons] at hi ⊢
    rcases lt_trichotomy i st.length with hlt | rfl | hgt
    · rw [getElem?_append_left (by omega)] at hi
      rw [map_cons, reverse_cons, getElem?_append_left (by omega),
        take_append_of_le_length (by omega)]
      exact ih hc.2 hi
    · rw [← hlength, getElem?_concat_length, Option.some_inj] at hi
      rw [map_cons, reverse_cons, ← hlength', getElem?_concat_length, hc.1, hi,
        take_left' (hlength.trans hlength'.symm), map_reverse, sum_reverse,
        ← forestSize_eq_heights]
    · rw [getElem?_eq_none (by simp; omega)] at hi
      exact absurd hi (by simp)

theorem MmrProver.Follows.verify {i : UInt64} {n : ℕ} (hover : s.Over sha3 leaf n)
    (h : s.Follows sha3 x i.toNat) : mmrWalk sha3 i x s.siblings ∈ s.stack.map peak := by
  obtain ⟨path, t, -, hsiblings, ht⟩ := h
  obtain ⟨above, m, below, hst, hlen, hclimb, hi⟩ := ht.exists_mountain
  have hsorted := hover.sorted
  rw [hst] at hsorted
  -- the mountain starts at a multiple of its size, so the path is spelled by the low bits
  have hmod : i.toNat % 2 ^ path.length = pathIndex path := by
    have hdvd : 2 ^ path.length ∣ forestSize below := by
      rw [hlen]
      exact (pow_dvd_pow 2 (le_succ _)).trans (two_pow_dvd_below hsorted)
    rw [← hi, add_mod, mod_eq_zero_of_dvd hdvd, zero_add, mod_mod, mod_eq_of_lt (pathIndex_lt path)]
  rw [mmrWalk_eq_climb, hsiblings, indexPath_pathIndex hmod, hclimb, hst]
  simp

theorem bitIndices_length_le {n k : ℕ} (h : n < 2 ^ k) : n.bitIndices.length ≤ k := by
  have hsub : n.bitIndices ⊆ range k := fun i hi =>
    mem_range.mpr ((Nat.pow_lt_pow_iff_right (by decide)).mp
      ((Nat.two_pow_le_of_mem_bitIndices hi).trans_lt h))
  simpa using (subperm_of_subset bitIndices_nodup hsub).length_le

/-- The three descriptions of the forest agree: the peaks are the trees over the blocks that the one
bits of the leaf count cut the leaves into, the state survives its serialization, and the prover's
proof of every leaf is accepted. -/
theorem mmr_correct (sha3 : List UInt8 → UInt256) (blocks : List UInt256)
    (hlen : blocks.length < 2 ^ 63) : (mmrOf sha3 blocks).numLeaves.toNat = blocks.length ∧
    (mmrOf sha3 blocks).peaks.length = blocks.length.bitIndices.length ∧
    (∀ i h, blocks.length.bitIndices.reverse[i]? = some h →
      (mmrOf sha3 blocks).peaks[i]? =
        some (treeRoot (mmrHashInternal sha3) (mmrLeafAt sha3 blocks) h
        (((blocks.length.bitIndices.reverse.take i).map fun k => 2 ^ k).sum))) ∧
    (∀ buflen rest, 8 + 4 + (mmrOf sha3 blocks).peaks.length * 32 ≤ buflen →
      mmrDeserialize (mmrSerialize (mmrOf sha3 blocks) buflen ++ rest) = some (mmrOf sha3 blocks)) ∧
    ∀ i : UInt64, i.toNat < blocks.length → ∃ proof,
      mmrProveFromLeaves sha3 blocks i = some proof ∧
        mmrVerify sha3 proof (mmrRoot sha3 (mmrOf sha3 blocks)) = true := by
  obtain ⟨st, hst⟩ := mmrOver_mmrOf sha3 (hlen.trans (by decide))
  have hpeaks : (mmrOf sha3 blocks).peaks = (st.map peak).reverse := by
    rw [← hst.peaks, reverse_reverse]
  have hcount : (mmrOf sha3 blocks).peaks.length = blocks.length.bitIndices.length := by
    rw [hpeaks, length_reverse, length_map, ← hst.heights, length_map]
  refine ⟨hst.numLeaves, hcount, fun i h hi => ?_, fun buflen rest hbuf => ?_, fun i hi => ?_⟩
  · rw [← hst.heights] at hi ⊢
    rw [hpeaks]
    exact hst.covers.peak_of_height hi
  · refine mmrDeserialize_mmrSerialize ?_ hbuf rest
    rw [hcount]
    exact (bitIndices_length_le hlen).trans (by decide)
  · have hat := mmrProver_at sha3 blocks i.toNat
    have hstack : (run (mmrProveStep sha3 i.toNat) {} blocks.zipIdx).stack = st := by
      refine hat.toOver.covers.ext hst.covers ?_
      rw [heights_eq_bitIndices hat.toOver.sorted, hat.toOver.size, hst.heights]
    refine ⟨_, by rw [mmrProveFromLeaves, if_neg hi.not_ge], mmrVerify_iff.mpr ⟨?_, ?_⟩⟩
    · exact mem_reverse.mpr ((hat.followed hi).verify hat.toOver)
    · dsimp only
      rw [hstack, ← hpeaks]
      rfl

def polynomialHash (message : List UInt8) : UInt256 :=
  message.foldl (fun h b => 257 * h + BitVec.ofNat 256 (b.toNat + 1)) 0

def threeBlocks : List UInt256 := [5, 6, 7]

theorem mmr_correct_threeBlocks :
    threeBlocks.length < 2 ^ 63 ∧
      (mmrOf polynomialHash threeBlocks).peaks.length = threeBlocks.length.bitIndices.length ∧
      ∃ proof, mmrProveFromLeaves polynomialHash threeBlocks 1 = some proof ∧
        mmrVerify polynomialHash proof (mmrRoot polynomialHash (mmrOf polynomialHash threeBlocks)) =
          true := by
  obtain ⟨-, hpeaks, -, -, hproof⟩ := mmr_correct polynomialHash threeBlocks (by decide)
  exact ⟨by decide, hpeaks, hproof 1 (by decide)⟩

end Verifier

end ZClassic
