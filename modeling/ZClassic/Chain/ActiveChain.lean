import ZClassic.Lib.Run
import ZClassic.Primitives.Transaction

/-!
# The active chain window

`struct active_chain` of `lib/validation/src/chainstate.c`: a slot for each height and the height up
to which the slots are visible.
-/

namespace ZClassic

open Function

/-- The block index: parent, height and accumulated work of each entry. An entry is inserted one
above its parent. -/
structure BlockIndex where
  pprev : UInt256 → Option UInt256
  nHeight : UInt256 → ℕ
  nChainWork : UInt256 → ℕ
  nHeight_pprev : ∀ b p, pprev b = some p → nHeight b = nHeight p + 1

def BlockIndex.Gapless (index : BlockIndex) : Prop :=
  ∀ b, index.pprev b = none → index.nHeight b = 0

def blockValidMask : UInt32 := 7

def blockValidHeader : UInt32 := 1

def blockValidTree : UInt32 := 2

def blockValidScripts : UInt32 := 5

def blockHaveData : UInt32 := 8

def blockFailedValid : UInt32 := 32

def blockFailedChild : UInt32 := 64

def blockFailedMask : UInt32 := 96

def blockFailedTransient : UInt32 := 1024

def blockFailedAnyMask : UInt32 := 1120

structure ActiveChain where
  chain : ℕ → Option UInt256 := fun _ => none
  height : ℤ := -1

def activeChainAt (c : ActiveChain) (h : ℕ) : Option UInt256 :=
  if (h : ℤ) ≤ c.height then c.chain h else none

section Fill

variable (index : BlockIndex)

/-- The inner loop of `active_chain_fill_window`: parents are followed while they are above `h`
and the walk budget lasts. -/
def walkDown (h : ℕ) : ℕ → Option UInt256 → Option UInt256 × ℕ
  | budget, none => (none, budget)
  | 0, some p => if h < index.nHeight p then (none, 0) else (some p, 0)
  | budget + 1, some p =>
    if h < index.nHeight p then walkDown h budget (index.pprev p) else (some p, budget + 1)

/-- The outer loop, over the slots below `h`; `height` is the window height before the call. -/
def fillSlots (height : ℤ) :
    ℕ → ℕ → Option UInt256 → (ℕ → Option UInt256) → ℕ → Option UInt256
  | 0, _, _, chain => chain
  | h + 1, budget, p, chain =>
    let (p, budget) := walkDown index h budget p
    let slot := p.filter fun p => index.nHeight p == h
    -- a gap in the parent links leaves the lower window as it was
    if slot = none ∧ (h : ℤ) ≤ height then chain
    else if (h : ℤ) ≤ height ∧ chain h = slot then chain
    else
      let chain := Function.update chain h slot
      match slot with
      | none => fillSlots height h budget p chain
      | some q =>
        if budget = 0 then fillSlots height h 0 none chain
        else fillSlots height h (budget - 1) (index.pprev q) chain

def activeChainFillWindow (c : ActiveChain) (bi : UInt256) : ActiveChain where
  chain := fillSlots index c.height (index.nHeight bi) (index.nHeight bi + 1) (index.pprev bi)
    (Function.update c.chain (index.nHeight bi) (some bi))
  height := index.nHeight bi

def activeChainMoveWindowTip (c : ActiveChain) : Option UInt256 → ActiveChain
  | none => { c with height := -1 }
  | some bi => activeChainFillWindow index c bi

def activeChainExtendWindow (c : ActiveChain) : Option UInt256 → ActiveChain
  | none => c
  | some bi => if (index.nHeight bi : ℤ) ≤ c.height then c else activeChainFillWindow index c bi

inductive WindowCall where
  | moveWindowTip (bi : Option UInt256)
  | extendWindow (candidate : Option UInt256)

def windowStep (c : ActiveChain) : WindowCall → ActiveChain
  | .moveWindowTip bi => activeChainMoveWindowTip index c bi
  | .extendWindow candidate => activeChainExtendWindow index c candidate

end Fill

def BlockIndex.ancestor (index : BlockIndex) : ℕ → UInt256 → Option UInt256
  | 0, b => some b
  | k + 1, b => (index.pprev b).bind (index.ancestor k)

/-- The slots up to the height of `tip` hold the path from `tip` to height 0. -/
def BlockIndex.ShowsPath (index : BlockIndex) (c : ActiveChain) (tip : UInt256) : Prop :=
  c.height = index.nHeight tip ∧
    ∀ h ≤ index.nHeight tip, c.chain h = index.ancestor (index.nHeight tip - h) tip

def BlockIndex.Window (index : BlockIndex) (c : ActiveChain) : Prop :=
  c.height = -1 ∨ ∃ tip, index.ShowsPath c tip

variable {index : BlockIndex} {c : ActiveChain}

theorem BlockIndex.ancestor_add (j k : ℕ) (b : UInt256) :
    index.ancestor (j + k) b = (index.ancestor j b).bind (index.ancestor k) := by
  induction j generalizing b with
  | zero => simp [ancestor]
  | succ j ih =>
    rw [Nat.succ_add, ancestor, ancestor, Option.bind_assoc]
    exact congrArg _ (funext ih)

variable {b : UInt256}

theorem BlockIndex.Window.below (hc : index.Window c) {h k : ℕ}
    (hb : activeChainAt c h = some b) (hk : k ≤ h) : c.chain k = index.ancestor (h - k) b := by
  unfold activeChainAt at hb
  split at hb
  · next hle =>
    rcases hc with hempty | ⟨tip, hheight, hpath⟩
    · omega
    · rw [hpath h (by omega)] at hb
      rw [hpath k (by omega),
        show index.nHeight tip - k = (index.nHeight tip - h) + (h - k) by omega,
        ancestor_add, hb, Option.bind_some]
  · cases hb

theorem BlockIndex.Window.at_below (hc : index.Window c) {h k : ℕ}
    (hb : activeChainAt c h = some b) (hk : k ≤ h) :
    activeChainAt c k = index.ancestor (h - k) b := by
  rw [← hc.below hb hk]
  unfold activeChainAt at hb ⊢
  split at hb
  · rw [if_pos (by omega)]
  · cases hb

section Gapless

variable (hidx : index.Gapless)

include hidx

variable {b : UInt256}

theorem BlockIndex.Gapless.exists_pprev {h : ℕ} (hb : index.nHeight b = h + 1) :
    ∃ p, index.pprev b = some p ∧ index.nHeight p = h := by
  cases hp : index.pprev b with
  | none =>
    have := hidx b hp
    omega
  | some p =>
    have := index.nHeight_pprev b p hp
    exact ⟨p, rfl, by omega⟩

theorem BlockIndex.Gapless.exists_ancestor {k : ℕ} (hk : k ≤ index.nHeight b) :
    ∃ p, index.ancestor k b = some p ∧ index.nHeight p = index.nHeight b - k := by
  induction k generalizing b with
  | zero => exact ⟨b, rfl, rfl⟩
  | succ k ih =>
    obtain ⟨p, hp, hheight⟩ := hidx.exists_pprev
      (show index.nHeight b = index.nHeight b - 1 + 1 by omega)
    obtain ⟨q, hq, hqheight⟩ := ih (b := p) (by omega)
    exact ⟨q, by rw [ancestor, hp, Option.bind_some, hq], by omega⟩

section

variable (hc : index.Window c)

include hc

/-- The fill loop writes the ancestors of `b` below it. It may stop at a slot that already holds
the right block, because the window below that slot is its path. -/
theorem fillSlots_eq {n : ℕ} {chain : ℕ → Option UInt256}
    (hb : index.nHeight b = n) (hsame : ∀ k < n, chain k = c.chain k) (h : ℕ) :
    fillSlots index c.height n (n + 1) (index.pprev b) chain h =
      if h < n then index.ancestor (n - h) b else chain h := by
  induction n generalizing b chain with
  | zero => simp [fillSlots]
  | succ n ih =>
    obtain ⟨q, hq, hqheight⟩ := hidx.exists_pprev hb
    have hup : ∀ k ≤ n, index.ancestor (n + 1 - k) b = index.ancestor (n - k) q := by
      intro k hk
      rw [show n + 1 - k = (n - k) + 1 by omega, BlockIndex.ancestor, hq, Option.bind_some]
    have hwalk : walkDown index n (n + 1 + 1) (some q) = (some q, n + 1 + 1) := by
      rw [walkDown, if_neg (by omega)]
    have hslot : (some q).filter (fun p => index.nHeight p == n) = some q := by
      simp [Option.filter, hqheight]
    rw [fillSlots, hq, hwalk]
    dsimp only
    rw [hslot, if_neg (by simp)]
    by_cases hstop : (n : ℤ) ≤ c.height ∧ chain n = some q
    · -- the loop stops: slot `n` holds `q` already
      rw [if_pos hstop]
      have hat : activeChainAt c n = some q := by
        rw [activeChainAt, if_pos hstop.1, ← hsame n (by omega), hstop.2]
      by_cases hlt : h < n + 1
      · rw [if_pos hlt, hup h (by omega), ← hc.below hat (by omega), hsame h hlt]
      · rw [if_neg hlt]
    · rw [if_neg hstop]
      dsimp only
      rw [if_neg (by omega), Nat.add_sub_cancel, ih hqheight]
      · rcases Nat.lt_trichotomy h n with hlt | rfl | hgt
        · rw [if_pos hlt, if_pos (by omega), hup h (by omega)]
        · rw [if_neg (by omega), if_pos (by omega), update_self, hup h le_rfl,
            Nat.sub_self, BlockIndex.ancestor]
        · rw [if_neg (by omega), if_neg (by omega), update_of_ne (by omega)]
      · intro k hk
        rw [update_of_ne (by omega), hsame k (by omega)]

theorem fillWindow_showsPath (bi : UInt256) :
    index.ShowsPath (activeChainFillWindow index c bi) bi := by
  refine ⟨rfl, ?_⟩
  intro h hh
  change fillSlots index c.height _ _ _ _ h = _
  rw [fillSlots_eq hidx hc rfl]
  · by_cases hlt : h < index.nHeight bi
    · rw [if_pos hlt]
    · have heq : h = index.nHeight bi := by omega
      rw [if_neg hlt, heq, update_self, Nat.sub_self, BlockIndex.ancestor]
  · intro k hk
    rw [update_of_ne (by omega)]

theorem moveWindowTip_window (bi : Option UInt256) :
    index.Window (activeChainMoveWindowTip index c bi) := by
  cases bi with
  | none => exact .inl rfl
  | some bi => exact .inr ⟨bi, fillWindow_showsPath hidx hc bi⟩

theorem extendWindow_window (bi : Option UInt256) :
    index.Window (activeChainExtendWindow index c bi) := by
  cases bi with
  | none => exact hc
  | some bi =>
    rw [activeChainExtendWindow]
    split_ifs
    · exact hc
    · exact .inr ⟨bi, fillWindow_showsPath hidx hc bi⟩

theorem BlockIndex.Window.nHeight_at {h : ℕ}
    (hb : activeChainAt c h = some b) : index.nHeight b = h := by
  unfold activeChainAt at hb
  split at hb
  · rcases hc with hempty | ⟨tip, hheight, hpath⟩
    · omega
    · obtain ⟨p, hp, hpheight⟩ :=
        hidx.exists_ancestor (k := index.nHeight tip - h) (b := tip) (by omega)
      rw [hpath h (by omega), hp, Option.some.injEq] at hb
      subst hb
      omega
  · cases hb

theorem windowStep_window (call : WindowCall) : index.Window (windowStep index c call) := by
  cases call with
  | moveWindowTip bi => exact moveWindowTip_window hidx hc bi
  | extendWindow candidate => exact extendWindow_window hidx hc candidate

end

end Gapless

/-- After any calls, the slots up to the window height hold the ancestors of the tip's block. -/
theorem window_holds_ancestors (index : BlockIndex) (hidx : index.Gapless)
    (calls : List WindowCall) (h : ℕ) (hheight : (run (windowStep index) {} calls).height = h) :
    ∃ tip, (run (windowStep index) {} calls).chain h = some tip ∧ index.nHeight tip = h ∧
      ∀ k ≤ h, ∃ b, (run (windowStep index) {} calls).chain k = some b ∧
        index.nHeight b = k ∧ index.ancestor (h - k) tip = some b := by
  have hwindow : index.Window (run (windowStep index) {} calls) := by
    refine @run_invariant _ _ _ (fun _ _ => True) _ _ index.Window ?_ (.inl rfl)
      (meetsAll_of_forall (fun _ _ _ => trivial) _)
    intro c call hc _
    exact windowStep_window hidx hc call
  generalize run (windowStep index) {} calls = c at hheight hwindow ⊢
  rcases hwindow with hempty | ⟨tip, htip, hpath⟩
  · omega
  · have hh : index.nHeight tip = h := by omega
    rw [hh] at hpath
    refine ⟨tip, ?_, hh, fun k hk => ?_⟩
    · rw [hpath h le_rfl, Nat.sub_self, BlockIndex.ancestor]
    · obtain ⟨b, hb, hbheight⟩ := hidx.exists_ancestor (k := h - k) (b := tip) (by omega)
      exact ⟨b, (hpath k hk).trans hb, by omega, hb⟩

/-- Block 1 at height 0, its children 2 and 3, and the child 4 of 3. -/
def forkIndex : BlockIndex where
  pprev b := if b = 2 ∨ b = 3 then some 1 else if b = 4 then some 3 else none
  nHeight b := if b = 2 ∨ b = 3 then 1 else if b = 4 then 2 else 0
  nChainWork b := if b = 2 ∨ b = 3 then 2 else if b = 4 then 3 else 1
  nHeight_pprev b p hp := by
    split_ifs at hp with h h' <;> cases hp
    · rw [if_pos h]
      rfl
    · rw [if_neg h, if_pos h']
      rfl

theorem forkIndex_gapless : forkIndex.Gapless := by
  intro b hb
  simp only [forkIndex] at hb ⊢
  split_ifs at hb with h h'
  rw [if_neg h, if_neg h']

theorem forkIndex_holds_ancestors :
    ∃ tip, (run (windowStep forkIndex) {} [.moveWindowTip (some 4), .moveWindowTip (some 1),
        .extendWindow (some 2), .moveWindowTip none, .moveWindowTip (some 4)]).chain 2 = some tip ∧
      forkIndex.nHeight tip = 2 ∧
      ∀ k ≤ 2, ∃ b, (run (windowStep forkIndex) {} [.moveWindowTip (some 4),
          .moveWindowTip (some 1), .extendWindow (some 2), .moveWindowTip none,
          .moveWindowTip (some 4)]).chain k = some b ∧
        forkIndex.nHeight b = k ∧ forkIndex.ancestor (2 - k) tip = some b :=
  window_holds_ancestors forkIndex forkIndex_gapless _ 2 (by decide)

end ZClassic
