import Mathlib.Data.Nat.Bitwise
import ZClassic.Chain.Mmb

/-!
# Inclusion proofs of the mountain belt

`mmb_prove` replays the appends on a stack of its own and records, for each merge of the mountain
that holds the target leaf, the other peak and a direction bit.
-/

namespace ZClassic

open List MountainPair Nat

/-- The loop variables of `mmb_prove`; the stack has its top first, and `targetSp` counts from its
bottom. -/
structure MmbProver where
  stack : List (Mountain UInt256) := []
  targetSp : Option ℕ := none
  siblings : List UInt256 := []
  lrBits : UInt64 := 0

section Proofs

variable (sha3 : List UInt8 → UInt256)

/-- A merge in which the target takes part gives a sibling, and a bit if the target is right. -/
def mmbRecord (p : MountainPair UInt256) (s : MmbProver) : MmbProver :=
  if s.targetSp = some (p.below.length + 1) then
    { s with
      siblings := s.siblings ++ [p.left.peak]
      lrBits := s.lrBits ||| (1 <<< UInt64.ofNat s.siblings.length)
      targetSp := some p.below.length }
  else if s.targetSp = some p.below.length then
    { s with siblings := s.siblings ++ [p.right.peak] }
  else s

def mmbProveRightmost (s : MmbProver) : MmbProver :=
  match topPair s.stack with
  | none => s
  | some p => { mmbRecord p s with stack := p.merged (mmbHashInternal sha3) }

/-- The mountains above the merged pair move down by one, and the target with them. -/
def mmbProveDeferred (s : MmbProver) : MmbProver :=
  match firstPair s.stack with
  | none => s
  | some p =>
    let s := mmbRecord p s
    { s with
      stack := p.merged (mmbHashInternal sha3)
      targetSp := s.targetSp.map fun t => if p.below.length + 1 < t then t - 1 else t }

def mmbProveStep (leafIndex : ℕ) (s : MmbProver) (x : UInt256 × ℕ) : MmbProver :=
  mmbProveDeferred sha3 (mmbProveRightmost sha3 { s with
    stack := ⟨x.1, 0⟩ :: s.stack
    targetSp := if x.2 = leafIndex then some s.stack.length else s.targetSp })

/-- The number of leaves in the low 40 bits and the direction bits above them. -/
def mmbPackSize (numLeaves lrBits : UInt64) : UInt64 :=
  (numLeaves &&& (0xFFFFFFFFFF : UInt64)) ||| ((lrBits &&& 0xFFFFFF) <<< 40)

def mmbProve (allLeafHashes : List UInt256) (leafIndex : UInt64) : Option MmbProof :=
  if allLeafHashes.length ≤ leafIndex.toNat then none
  else
    let s := run (mmbProveStep sha3 leafIndex.toNat) {} allLeafHashes.zipIdx
    some {
      leafIndex
      leafHash := allLeafHashes.getD leafIndex.toNat 0
      siblings := s.siblings
      peaks := (s.stack.map Mountain.peak).reverse
      mmbSize := mmbPackSize (UInt64.ofNat allLeafHashes.length) s.lrBits }

/-- The walk up the tree from level `i`, left or right by the direction bits. -/
def mmbWalk (lrBits : UInt64) : ℕ → UInt256 → List UInt256 → UInt256
  | _, current, [] => current
  | i, current, s :: siblings =>
    mmbWalk lrBits (i + 1)
      (if (lrBits &&& (1 <<< UInt64.ofNat i)) ≠ 0 then mmbHashInternal sha3 s current
        else mmbHashInternal sha3 current s) siblings

def MmbProof.lrBits (proof : MmbProof) : UInt64 := (proof.mmbSize >>> 40) &&& 0xFFFFFF

def mmbVerify (proof : MmbProof) (expectedRoot : UInt256) : Bool :=
  !proof.peaks.isEmpty &&
    (proof.peaks.contains (mmbWalk sha3 proof.lrBits 0 proof.leafHash proof.siblings) &&
      mmbBagPeaks sha3 proof.peaks == expectedRoot)

def mmbOf (leafHashes : List UInt256) : Mmb :=
  run (mmbStep sha3) {} (leafHashes.map MmbAppend.appendHash)

end Proofs

variable {k t n : ℕ} {proof : MmbProof} {p : MountainPair UInt256} {path : List (Bool × UInt256)}
  {s : MmbProver} {leaf : ℕ → UInt256} {leafHashes : List UInt256}

section Bits

theorem uint64_toNat_one_shiftLeft (hk : k < 64) :
    ((1 : UInt64) <<< UInt64.ofNat k).toNat = 2 ^ k := by
  rw [UInt64.toNat_shiftLeft, UInt64.toNat_ofNat_of_lt' (hk.trans (by decide)),
    Nat.mod_eq_of_lt hk, Nat.shiftLeft_eq, UInt64.toNat_one, Nat.one_mul,
    Nat.mod_eq_of_lt (Nat.pow_lt_pow_right (by decide) hk)]

theorem uint64_toNat_or_bit {x : UInt64} (hk : k < 64) (hx : x.toNat < 2 ^ k) :
    (x ||| (1 <<< UInt64.ofNat k)).toNat = x.toNat + 2 ^ k := by
  have hor := two_pow_add_eq_or_of_lt hx 1
  rw [Nat.mul_one] at hor
  rw [UInt64.toNat_or, uint64_toNat_one_shiftLeft hk, Nat.or_comm, ← hor, Nat.add_comm]

theorem uint64_test_bit (x : UInt64) (hk : k < 64) :
    (x &&& (1 <<< UInt64.ofNat k)) ≠ 0 ↔ x.toNat / 2 ^ k % 2 = 1 := by
  rw [Ne, ← UInt64.toNat_inj, UInt64.toNat_and, uint64_toNat_one_shiftLeft hk, and_two_pow,
    UInt64.toNat_zero, testBit_eq_decide_div_mod_eq]
  by_cases h : x.toNat / 2 ^ k % 2 = 1 <;> simp [h]

variable {lrBits : UInt64}

theorem uint64_toNat_and_24 (x : UInt64) : (x &&& 0xFFFFFF).toNat = x.toNat % 2 ^ 24 :=
  and_two_pow_sub_one_eq_mod _ 24

theorem mmbPackSize_toNat (numLeaves : UInt64) (hbits : lrBits.toNat < 2 ^ 24) :
    (mmbPackSize numLeaves lrBits).toNat = 2 ^ 40 * lrBits.toNat + numLeaves.toNat % 2 ^ 40 := by
  have hlow : (numLeaves &&& 0xFFFFFFFFFF).toNat = numLeaves.toNat % 2 ^ 40 :=
    and_two_pow_sub_one_eq_mod _ 40
  have hhigh : ((lrBits &&& 0xFFFFFF) <<< 40).toNat = 2 ^ 40 * lrBits.toNat := by
    rw [UInt64.toNat_shiftLeft, uint64_toNat_and_24, mod_eq_of_lt hbits, shiftLeft_eq]
    change lrBits.toNat * 2 ^ 40 % 2 ^ 64 = _
    omega
  rw [mmbPackSize, UInt64.toNat_or, hlow, hhigh, Nat.or_comm,
    Nat.two_pow_add_eq_or_of_lt (Nat.mod_lt _ (by decide))]

theorem lrBits_mmbPackSize {numLeaves : UInt64}
    (h : proof.mmbSize = mmbPackSize numLeaves lrBits) (hbits : lrBits.toNat < 2 ^ 24) :
    proof.lrBits = lrBits := by
  apply UInt64.toNat_inj.mp
  rw [MmbProof.lrBits, h, uint64_toNat_and_24, UInt64.toNat_shiftRight, mmbPackSize_toNat _ hbits,
    shiftRight_eq_div_pow]
  change (2 ^ 40 * lrBits.toNat + numLeaves.toNat % 2 ^ 40) / 2 ^ 40 % 2 ^ 24 = _
  omega

def lrPath (lrBits : UInt64) : ℕ → List UInt256 → List (Bool × UInt256)
  | _, [] => []
  | i, s :: siblings =>
    (decide ((lrBits &&& (1 <<< UInt64.ofNat i)) ≠ 0), s) :: lrPath lrBits (i + 1) siblings

theorem mmbWalk_eq_climb {sha3 : List UInt8 → UInt256} (lrBits : UInt64) (i : ℕ) (x : UInt256)
    (siblings : List UInt256) :
    mmbWalk sha3 lrBits i x siblings =
      climb (mmbHashInternal sha3) x (lrPath lrBits i siblings) := by
  induction siblings generalizing i x with
  | nil => rfl
  | cons s siblings ih =>
    rw [mmbWalk, ih, lrPath]
    by_cases hbit : (lrBits &&& (1 <<< UInt64.ofNat i)) ≠ 0
    · rw [if_pos hbit, decide_eq_true hbit]
      rfl
    · rw [if_neg hbit, decide_eq_false hbit]
      rfl

theorem lrPath_eq_indexPath {i : ℕ} {siblings : List UInt256} (h : i + siblings.length ≤ 64) :
    lrPath lrBits i siblings = indexPath (lrBits.toNat / 2 ^ i) siblings := by
  induction siblings generalizing i with
  | nil => rfl
  | cons s siblings ih =>
    rw [length_cons] at h
    rw [lrPath, indexPath, ih (by omega), Nat.div_div_eq_div_mul, ← pow_succ,
      decide_eq_decide.mpr (uint64_test_bit lrBits (by omega))]

end Bits

section Prover

variable {sha3 : List UInt8 → UInt256} {x : UInt256} {i : ℕ}

/-- The prover has followed leaf `i` from its hash `x` to a mountain of its stack, and the direction
bits are the leaf's place in that mountain. -/
def MmbProver.Follows (sha3 : List UInt8 → UInt256) (x : UInt256) (i : ℕ) (s : MmbProver) : Prop :=
  ∃ path t, s.targetSp = some t ∧ s.siblings = path.map Prod.snd ∧
    s.lrBits.toNat = pathIndex path ∧ Tracks (mmbHashInternal sha3) x i path t s.stack

/-- The place of the target after the mountains above a merged pair have moved down. -/
def MountainPair.shifted (p : MountainPair UInt256) (t : ℕ) : ℕ :=
  if p.below.length + 1 < t then t - 1 else t

theorem mmbRecord_follow (htarget : s.targetSp = some t)
    (hsiblings : s.siblings = path.map Prod.snd) (hbits : s.lrBits.toNat = pathIndex path)
    (hlen : path.length < 64) :
    (mmbRecord p s).targetSp.map p.shifted = some (p.follow t path).1 ∧
      (mmbRecord p s).siblings = (p.follow t path).2.map Prod.snd ∧
      (mmbRecord p s).lrBits.toNat = pathIndex (p.follow t path).2 := by
  have hcount : s.siblings.length = path.length := by rw [hsiblings, length_map]
  by_cases hright : t = p.below.length + 1
  · subst hright
    rw [mmbRecord, if_pos htarget, follow, if_neg (succ_ne_self _), if_pos rfl]
    refine ⟨?_, ?_, ?_⟩
    · rw [Option.map_some, shifted, if_neg (by omega)]
    · rw [map_append, ← hsiblings]
      rfl
    · rw [hcount, uint64_toNat_or_bit hlen (by rw [hbits]; exact pathIndex_lt path), hbits,
        pathIndex_concat, Bool.toNat_true, mul_one]
  · have hne : ¬s.targetSp = some (p.below.length + 1) := by
      rw [htarget]
      exact fun h => hright (Option.some.inj h)
    rw [mmbRecord, if_neg hne]
    by_cases hleft : t = p.below.length
    · subst hleft
      rw [if_pos htarget, follow, if_pos rfl]
      refine ⟨?_, ?_, ?_⟩
      · rw [htarget, Option.map_some, shifted, if_neg (by omega)]
      · rw [map_append, ← hsiblings]
        rfl
      · rw [hbits, pathIndex_concat, Bool.toNat_false, mul_zero, add_zero]
    · have hne' : ¬s.targetSp = some p.below.length := by
        rw [htarget]
        exact fun h => hleft (Option.some.inj h)
      rw [if_neg hne', htarget, follow, if_neg hleft, if_neg hright, Option.map_some,
        shifted, hsiblings, hbits]
      split <;> exact ⟨rfl, rfl, rfl⟩

theorem Tracks.length_lt {st : List (Mountain UInt256)}
    (h : Tracks (mmbHashInternal sha3) x i path t st) (hsize : forestSize st < 2 ^ k) :
    path.length < k := by
  obtain ⟨above, m, below, rfl, hlen, -⟩ := h.exists_mountain
  rw [hlen]
  apply (Nat.pow_lt_pow_iff_right (a := 2) (by decide)).mp
  exact (two_pow_height_le_forestSize (by simp)).trans_lt hsize

theorem MmbProver.Follows.merge (h : s.Follows sha3 x i) (hsize : forestSize s.stack < 2 ^ 64)
    (hstack : p.stack = s.stack) (hheight : p.left.height = p.right.height) :
    MmbProver.Follows sha3 x i { mmbRecord p s with
      stack := p.merged (mmbHashInternal sha3)
      targetSp := (mmbRecord p s).targetSp.map p.shifted } := by
  obtain ⟨path, t, htarget, hsiblings, hbits, ht⟩ := h
  obtain ⟨htarget', hsiblings', hbits'⟩ :=
    mmbRecord_follow (p := p) htarget hsiblings hbits (ht.length_lt hsize)
  rw [← hstack] at ht
  exact ⟨_, _, htarget', hsiblings', hbits', ht.merge hheight⟩

theorem mmbProveRightmost_stack (s : MmbProver) :
    (mmbProveRightmost sha3 s).stack =
      mergePair (mmbHashInternal sha3) s.stack (topPair s.stack) := by
  rw [mmbProveRightmost]
  cases topPair s.stack <;> rfl

theorem mmbProveDeferred_stack (s : MmbProver) :
    (mmbProveDeferred sha3 s).stack =
      mergePair (mmbHashInternal sha3) s.stack (firstPair s.stack) := by
  rw [mmbProveDeferred]
  cases firstPair s.stack <;> rfl

theorem mmbProveStep_stack (i : ℕ) (s : MmbProver) (y : UInt256 × ℕ) :
    (mmbProveStep sha3 i s y).stack = beltPush sha3 y.1 s.stack := by
  rw [mmbProveStep, mmbProveDeferred_stack, mmbProveRightmost_stack, beltPush]

theorem MmbProver.Follows.rightmost (h : s.Follows sha3 x i) (hsize : forestSize s.stack < 2 ^ 64) :
    (mmbProveRightmost sha3 s).Follows sha3 x i := by
  rw [mmbProveRightmost]
  cases hpair : topPair s.stack with
  | none => exact h
  | some p =>
    obtain ⟨hstack, hheight⟩ := topPair_spec hpair
    have hmerge := h.merge hsize hstack hheight
    -- nothing is above the pair, so the target needs no shift
    have hshift : (mmbRecord p s).targetSp.map p.shifted = (mmbRecord p s).targetSp := by
      obtain ⟨path, t, htarget, -, -, ht⟩ := h
      have hlt := ht.lt
      rw [← hstack, MountainPair.stack, topPair_above hpair, nil_append, length_cons,
        length_cons] at hlt
      rw [mmbRecord]
      split
      · rw [Option.map_some, shifted, if_neg (by omega)]
      · split <;> rw [htarget, Option.map_some, shifted, if_neg (by omega)]
    rw [hshift] at hmerge
    exact hmerge

theorem MmbProver.Follows.deferred (h : s.Follows sha3 x i) (hsize : forestSize s.stack < 2 ^ 64) :
    (mmbProveDeferred sha3 s).Follows sha3 x i := by
  rw [mmbProveDeferred]
  cases hpair : firstPair s.stack with
  | none => exact h
  | some p =>
    obtain ⟨hstack, hheight⟩ := firstPair_spec hpair
    exact h.merge hsize hstack hheight

def MmbProver.Idle (s : MmbProver) : Prop := s.targetSp = none ∧ s.siblings = [] ∧ s.lrBits = 0

theorem MmbProver.Idle.record (h : s.Idle) (p : MountainPair UInt256) : mmbRecord p s = s := by
  rw [mmbRecord, h.1, if_neg (Option.some_ne_none _).symm, if_neg (Option.some_ne_none _).symm]

theorem MmbProver.Idle.merges (h : s.Idle) :
    (mmbProveDeferred sha3 (mmbProveRightmost sha3 s)).Idle := by
  have hright : (mmbProveRightmost sha3 s).Idle := by
    rw [mmbProveRightmost]
    cases topPair s.stack with
    | none => exact h
    | some p =>
      dsimp only
      rw [h.record]
      exact h
  rw [mmbProveDeferred]
  cases firstPair (mmbProveRightmost sha3 s).stack with
  | none => exact hright
  | some p =>
    dsimp only
    rw [hright.record]
    exact ⟨by rw [hright.1]; rfl, hright.2⟩

/-- After `n` leaves the stack is the belt, and the prover has followed leaf `i` or not met it. -/
structure MmbProver.At (sha3 : List UInt8 → UInt256) (leaf : ℕ → UInt256) (i n : ℕ)
    (s : MmbProver) : Prop where
  belt : BeltOver sha3 leaf n s.stack
  followed : i < n → s.Follows sha3 (leaf i) i
  notMet : n ≤ i → s.Idle

theorem MmbProver.At.step (h : s.At sha3 leaf i n) (hn : n + 1 < 2 ^ 64) :
    (mmbProveStep sha3 i s (leaf n, n)).At sha3 leaf i (n + 1) := by
  refine ⟨?_, fun hi => ?_, fun hi => ?_⟩
  · rw [mmbProveStep_stack]
    exact h.belt.push
  · -- followed before, or the leaf that is pushed
    have hpushed : MmbProver.Follows sha3 (leaf i) i { s with
        stack := ⟨leaf n, 0⟩ :: s.stack
        targetSp := if n = i then some s.stack.length else s.targetSp } := by
      rcases Nat.lt_succ_iff_lt_or_eq.mp hi with hlt | rfl
      · obtain ⟨path, t, htarget, hsiblings, hbits, ht⟩ := h.followed hlt
        exact ⟨path, t, (if_neg hlt.ne').trans htarget, hsiblings, hbits, .inr ht⟩
      · obtain ⟨-, hsiblings, hbits⟩ := h.notMet le_rfl
        have htrack := tracks_push (mmbHashInternal sha3) (leaf i) s.stack
        rw [h.belt.size] at htrack
        refine ⟨[], s.stack.length, if_pos rfl, hsiblings, ?_, htrack⟩
        rw [hbits]
        rfl
    have hsize : forestSize (⟨leaf n, 0⟩ :: s.stack : List (Mountain UInt256)) < 2 ^ 64 := by
      rw [forestSize_cons, h.belt.size, add_comm]
      exact hn
    refine (hpushed.rightmost hsize).deferred ?_
    rw [mmbProveRightmost_stack]
    have hcov : Covers (mmbHashInternal sha3) leaf (⟨leaf n, 0⟩ :: s.stack) :=
      h.belt.covers.push (by rw [h.belt.size])
    exact (covers_mergePair (fun p hp => topPair_spec hp) hcov).2.trans_lt hsize
  · obtain ⟨htarget, hrest⟩ := h.notMet (by omega)
    refine MmbProver.Idle.merges ⟨?_, hrest⟩
    rw [if_neg (by omega), htarget]

theorem MmbProver.At.run (h : s.At sha3 leaf i n) (hn : n + leafHashes.length < 2 ^ 64)
    (hleaf : ∀ j < leafHashes.length, leaf (n + j) = leafHashes.getD j 0) :
    (ZClassic.run (mmbProveStep sha3 i) s (leafHashes.zipIdx n)).At sha3 leaf i
      (n + leafHashes.length) := by
  induction leafHashes generalizing n s with
  | nil => exact h
  | cons y leafHashes ih =>
    rw [length_cons] at hn hleaf ⊢
    have hstep := h.step (by omega)
    rw [show leaf n = y from hleaf 0 (succ_pos _)] at hstep
    rw [add_comm leafHashes.length, ← add_assoc]
    refine ih hstep (by omega) fun j hj => ?_
    rw [add_assoc, add_comm 1]
    exact hleaf (j + 1) (succ_lt_succ hj)

end Prover

section Verifier

variable {sha3 : List UInt8 → UInt256}

theorem mmbVerify_iff {root : UInt256} :
    mmbVerify sha3 proof root = true ↔
      climb (mmbHashInternal sha3) proof.leafHash (lrPath proof.lrBits 0 proof.siblings) ∈
          proof.peaks ∧
        mmbBagPeaks sha3 proof.peaks = root := by
  rw [mmbVerify, Bool.and_eq_true, Bool.and_eq_true, contains_iff_mem, beq_iff_eq, mmbWalk_eq_climb]
  refine ⟨fun h => h.2, fun h => ⟨?_, h⟩⟩
  cases hpeaks : proof.peaks with
  | nil =>
    rw [hpeaks] at h
    exact absurd h.1 not_mem_nil
  | cons p peaks => rfl

theorem mmbLeafAt_appendHash (leafHashes : List UInt256) (i : ℕ) :
    mmbLeafAt sha3 (leafHashes.map MmbAppend.appendHash) i = leafHashes.getD i 0 := by
  rw [mmbLeafAt, getElem?_map, Option.map_map, getD]
  cases leafHashes[i]? <;> rfl

theorem beltOver_mmbOf (sha3 : List UInt8 → UInt256) (hn : leafHashes.length < 2 ^ 63) :
    BeltOver sha3 (fun i => leafHashes.getD i 0) leafHashes.length
      (mmbOf sha3 leafHashes).mountains := by
  have hlen : (leafHashes.map MmbAppend.appendHash).length < 2 ^ 63 := by rwa [length_map]
  obtain ⟨hover, -, -⟩ := beltOver_run sha3 hlen
  rw [length_map] at hover
  have hleaf : mmbLeafAt sha3 (leafHashes.map MmbAppend.appendHash) =
      fun i => leafHashes.getD i 0 := by
    funext i
    exact mmbLeafAt_appendHash leafHashes i
  rwa [hleaf] at hover

theorem mmbProver_stack (leafHashes : List UInt256) (i n : ℕ) (s : MmbProver) :
    (run (mmbProveStep sha3 i) s (leafHashes.zipIdx n)).stack =
      leafHashes.foldl (fun ms x => beltPush sha3 x ms) s.stack := by
  induction leafHashes generalizing n s with
  | nil => rfl
  | cons y leafHashes ih =>
    rw [zipIdx_cons, run_cons, ih, mmbProveStep_stack]
    rfl

variable (sha3)

theorem mmbProver_stack_eq (hn : leafHashes.length < 2 ^ 63) (i : ℕ) :
    (run (mmbProveStep sha3 i) {} leafHashes.zipIdx).stack = (mmbOf sha3 leafHashes).mountains := by
  have hlen : (leafHashes.map MmbAppend.appendHash).length < 2 ^ 63 := by rwa [length_map]
  rw [mmbProver_stack, mmbOf, (beltOver_run sha3 hlen).2.1, foldl_map]
  rfl

theorem mmbOf_rootDirty (leafHashes : List UInt256) : (mmbOf sha3 leafHashes).rootDirty = true := by
  have hall : MeetsAll (mmbStep sha3) (fun _ _ => True) {}
      (leafHashes.map MmbAppend.appendHash) := meetsAll_of_forall (fun _ _ _ => trivial) _
  refine run_invariant (fun m : Mmb => m.rootDirty = true) ?_ rfl hall
  intro m a hdirty _
  rw [mmbStep, MmbAppend.call_eq, mmbAppendHash]
  split
  · exact hdirty
  · rfl

theorem mmbRoot_mmbOf (hne : leafHashes ≠ []) (hn : leafHashes.length < 2 ^ 63) :
    (mmbRoot sha3 (mmbOf sha3 leafHashes)).1 =
      mmbBagPeaks sha3 ((mmbOf sha3 leafHashes).mountains.map Mountain.peak).reverse := by
  have hmountains : ¬(mmbOf sha3 leafHashes).mountains.isEmpty = true := by
    rw [List.isEmpty_iff]
    intro hnil
    have hsize := (beltOver_mmbOf sha3 hn).size
    rw [hnil] at hsize
    exact hne (length_eq_zero_iff.mp hsize.symm)
  rw [mmbRoot, if_neg hmountains, mmbOf_rootDirty, if_neg (by decide)]

theorem mmbProve_accepted (leafHashes : List UInt256)
    (hpos : 1 ≤ leafHashes.length) (hn : leafHashes.length < 2 ^ 24) (i : UInt64)
    (hi : i.toNat < leafHashes.length) :
    ∃ proof, mmbProve sha3 leafHashes i = some proof ∧
      proof.leafHash = leafHashes.getD i.toNat 0 ∧
      proof.mmbSize.toNat % 2 ^ 40 = leafHashes.length ∧
      mmbVerify sha3 proof (mmbRoot sha3 (mmbOf sha3 leafHashes)).1 = true := by
  have hne : leafHashes ≠ [] := length_pos_iff.mp hpos
  have hn63 : leafHashes.length < 2 ^ 63 := hn.trans (by decide)
  have hempty : MmbProver.At sha3 (fun i => leafHashes.getD i 0) i.toNat 0 {} :=
    ⟨⟨.nil, rfl, trivial⟩, fun h => absurd h (not_lt_zero _), fun _ => ⟨rfl, rfl, rfl⟩⟩
  have hat := hempty.run ((zero_add _).trans_lt (hn63.trans (by decide))) fun j _ =>
    congrArg (leafHashes.getD · 0) (zero_add j)
  rw [zero_add] at hat
  obtain ⟨path, t, -, hsiblings, hbits, ht⟩ := hat.followed hi
  have hlen : path.length < 24 := ht.length_lt (by rw [hat.belt.size]; exact hn)
  have hfits := (pathIndex_lt path).trans_le (Nat.pow_le_pow_right (by decide) hlen.le)
  rw [← hbits] at hfits
  obtain ⟨above, m, below, hstack, -, hclimb, -⟩ := ht.exists_mountain
  refine ⟨_, by rw [mmbProve, if_neg hi.not_ge], rfl, ?_, mmbVerify_iff.mpr ⟨?_, ?_⟩⟩
  · rw [mmbPackSize_toNat _ hfits, UInt64.toNat_ofNat_of_lt' (hn63.trans (by decide)),
      Nat.mul_add_mod, mod_mod, mod_eq_of_lt (hn.trans (by decide))]
  · -- the packed direction bits spell the path that was followed
    rw [lrBits_mmbPackSize rfl hfits]
    have hpath : indexPath (pathIndex path) (path.map Prod.snd) = path :=
      indexPath_pathIndex (Nat.mod_eq_of_lt (pathIndex_lt path))
    rw [hsiblings, lrPath_eq_indexPath (by rw [length_map]; omega), pow_zero, Nat.div_one, hbits,
      hpath, hclimb, hstack, mem_reverse]
    simp
  · rw [mmbRoot_mmbOf sha3 hne hn63]
    rw [mmbProver_stack_eq sha3 hn63]

/-- Every proof of the prover is accepted. -/
theorem mmbVerify_mmbProve (leafHashes : List UInt256)
    (hpos : 1 ≤ leafHashes.length) (hn : leafHashes.length < 2 ^ 24) (i : UInt64)
    (hi : i.toNat < leafHashes.length) :
    ∃ proof, mmbProve sha3 leafHashes i = some proof ∧
      mmbVerify sha3 proof (mmbRoot sha3 (mmbOf sha3 leafHashes)).1 = true := by
  obtain ⟨proof, hproof, -, -, hok⟩ := mmbProve_accepted sha3 leafHashes hpos hn i hi
  exact ⟨proof, hproof, hok⟩

theorem mmbVerify_mmbProve_second : ∃ proof, mmbProve leHash [5, 6, 7] 1 = some proof ∧
    mmbVerify leHash proof (mmbRoot leHash (mmbOf leHash [5, 6, 7])).1 = true :=
  mmbVerify_mmbProve leHash [5, 6, 7] (by decide) (by decide) 1 (by decide)

end Verifier

end ZClassic
