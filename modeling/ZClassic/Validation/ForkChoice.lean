import Mathlib.Data.Finset.Basic
import ZClassic.Chain.ActiveChain
import ZClassic.Lib.RunningBest

/-!
# The most-work candidate

`active_chain_most_work_candidate` (`lib/validation/src/chainstate.c`) scans the block map once.
-/

namespace ZClassic

open List Option

structure BlockMap extends BlockIndex where
  entries : Finset UInt256
  nStatus : UInt256 → UInt32
  nChainTx : UInt256 → UInt32

variable {k : ℕ} {b : UInt256} {best : Option UInt256} {order' : List UInt256}

namespace BlockMap

variable (m : BlockMap)

def blockHasAnyFailure (b : UInt256) : Bool := m.nStatus b &&& blockFailedAnyMask != 0

def blockIndexIsValid (b : UInt256) (upTo : UInt32) : Bool :=
  !m.blockHasAnyFailure b && decide (upTo ≤ m.nStatus b &&& blockValidMask)

def isCandidate (b : UInt256) : Bool :=
  !m.blockHasAnyFailure b && m.blockIndexIsValid b blockValidTree &&
    !(m.nChainTx b == 0 && m.nStatus b &&& blockHaveData == 0)

def hasMoreWork (best : Option UInt256) (b : UInt256) : Bool :=
  match best with
  | none => true
  | some t => decide (m.nChainWork t < m.nChainWork b)

def floorHeight (best : Option UInt256) : ℤ :=
  match best with
  | none => -1
  | some t => m.nHeight t

/-- The walk over the ancestors above the floor; every step goes one down. -/
def chainOk (floorH : ℤ) : ℕ → Option UInt256 → Bool
  | 0, _ => true
  | _ + 1, none => true
  | fuel + 1, some check =>
    if (m.nHeight check : ℤ) ≤ floorH then true
    else if m.blockHasAnyFailure check then false
    else if m.pprev check = none ∧ 0 < m.nHeight check then true
    else chainOk floorH fuel (m.pprev check)

def takesOver (best : Option UInt256) (b : UInt256) : Bool :=
  m.isCandidate b && m.hasMoreWork best b &&
    m.chainOk (m.floorHeight best) (m.nHeight b + 1) (some b)

/-- The scan, in the order in which `block_map_next` gives the entries. -/
def scanBest (tip : Option UInt256) (order : List UInt256) : Option UInt256 :=
  runningBest m.takesOver tip order

def belowTip (tip best : Option UInt256) : Bool :=
  match tip, best with
  | some t, some b => b != t && decide (m.nHeight b < m.nHeight t)
  | _, _ => false

def activeChainMostWorkCandidate (tip : Option UInt256) (order : List UInt256) : Option UInt256 :=
  let best := m.scanBest tip order
  if m.belowTip tip best then tip else best

def FailureFree (b : UInt256) : Prop :=
  ∀ k a, m.ancestor k b = some a → m.blockHasAnyFailure a = false

structure Eligible (b : UInt256) : Prop where
  entry : b ∈ m.entries
  candidate : m.isCandidate b = true
  failureFree : m.FailureFree b

def AtLeastAsHigh (tip : Option UInt256) (b : UInt256) : Prop :=
  ∀ t ∈ tip, m.nHeight t ≤ m.nHeight b

/-- A choice without failed blocks that no eligible block from the tip's height on outweighs. -/
structure GoodChoice (tip choice : Option UInt256) : Prop where
  failureFree : ∀ b ∈ choice, m.FailureFree b
  heaviest : ∀ e, m.Eligible e → m.AtLeastAsHigh tip e →
    ∃ b ∈ choice, m.nChainWork e ≤ m.nChainWork b

def Enumerates (order : List UInt256) : Prop :=
  order.Nodup ∧ ∀ b, b ∈ order ↔ b ∈ m.entries

/-- No candidate stands on a failed block, as when marks are passed on to descendants. -/
def CandidatesClean : Prop := ∀ b ∈ m.entries, m.isCandidate b = true → m.FailureFree b

/-- The chain of the tip has not failed, and nothing from its height on outweighs it. -/
structure TipStands (t : UInt256) : Prop where
  failureFree : m.FailureFree t
  heaviest : ∀ e, m.Eligible e → m.nHeight t ≤ m.nHeight e → m.nChainWork e ≤ m.nChainWork t

/-- An eligible block from the height of the tip on outweighs the tip, and none below that height is
among the heaviest. -/
structure TipOutweighed (t : UInt256) : Prop where
  heavier : ∃ e, m.Eligible e ∧ m.nHeight t ≤ m.nHeight e ∧ m.nChainWork t < m.nChainWork e
  low : ∀ b, m.Eligible b → m.nHeight b < m.nHeight t →
    ∃ e, m.Eligible e ∧ m.nHeight t ≤ m.nHeight e ∧ m.nChainWork b < m.nChainWork e

section Walk

variable {m}

theorem ancestor_nHeight {b a : UInt256} (h : m.ancestor k b = some a) :
    m.nHeight b = m.nHeight a + k := by
  induction k generalizing b with
  | zero => rw [some.inj h]; rfl
  | succ k ih =>
    obtain ⟨p, hp, ha⟩ := bind_eq_some_iff.mp h
    have hheight := m.nHeight_pprev b p hp
    have hrest := ih ha
    omega

theorem ancestor_of_pprev_none {b a : UInt256} (hp : m.pprev b = none)
    (h : m.ancestor k b = some a) :
    a = b := by
  cases k with
  | zero => exact (some.inj h).symm
  | succ k =>
    rw [BlockIndex.ancestor, hp] at h
    cases h

theorem chainOk_iff {floorH : ℤ} {fuel : ℕ} (hfuel : m.nHeight b < fuel) :
    m.chainOk floorH fuel (some b) = true ↔
      ∀ k a, m.ancestor k b = some a → floorH < m.nHeight a → m.blockHasAnyFailure a = false := by
  induction fuel generalizing b with
  | zero => exact absurd hfuel (Nat.not_lt_zero _)
  | succ fuel ih =>
    rw [chainOk]
    split_ifs with hfloor hfailed hend
    · simp only [true_iff]
      intro k a ha hlt
      have hheight := ancestor_nHeight ha
      omega
    · simp only [false_iff]
      intro hall
      rw [hall 0 b rfl (by omega)] at hfailed
      exact Bool.noConfusion hfailed
    · simp only [true_iff]
      intro k a ha _
      rw [ancestor_of_pprev_none hend.1 ha]
      exact Bool.eq_false_iff.mpr hfailed
    · cases hp : m.pprev b with
      | none =>
        have hdone : m.chainOk floorH fuel none = true := by cases fuel <;> rfl
        simp only [hdone, true_iff]
        intro k a ha _
        rw [ancestor_of_pprev_none hp ha]
        exact Bool.eq_false_iff.mpr hfailed
      | some p =>
        have hheight := m.nHeight_pprev b p hp
        rw [ih (by omega)]
        constructor
        · intro hall k a ha hlt
          cases k with
          | zero =>
            rw [← some.inj ha]
            exact Bool.eq_false_iff.mpr hfailed
          | succ k =>
            rw [BlockIndex.ancestor, hp] at ha
            exact hall k a ha hlt
        · intro hall k a ha hlt
          apply hall (k + 1) a _ hlt
          rw [BlockIndex.ancestor, hp]
          exact ha

end Walk

section Scan

variable {m} {tip : Option UInt256} {order : List UInt256}

theorem takesOver_iff :
    m.takesOver best b = true ↔ m.isCandidate b = true ∧ m.hasMoreWork best b = true ∧
      ∀ k a, m.ancestor k b = some a → m.floorHeight best < m.nHeight a →
        m.blockHasAnyFailure a = false := by
  rw [takesOver, Bool.and_eq_true, Bool.and_eq_true, chainOk_iff (Nat.lt_succ_self _), and_assoc]

theorem hasMoreWork_iff :
    m.hasMoreWork best b = true ↔ ∀ t ∈ best, m.nChainWork t < m.nChainWork b := by
  cases best with
  | none => simp [hasMoreWork]
  | some t => simp [hasMoreWork]

theorem heavier_of_takesOver (best : Option UInt256) (b : UInt256) (h : m.takesOver best b = true) :
    ∀ t ∈ best, m.nChainWork t < m.nChainWork b :=
  hasMoreWork_iff.mp (takesOver_iff.mp h).2.1

theorem scanBest_heaviest (tip : Option UInt256) (horder : m.Enumerates order) {e : UInt256}
    (he : m.Eligible e) :
    ∃ b ∈ m.scanBest tip order, m.nChainWork e ≤ m.nChainWork b := by
  apply le_runningBest_of_mem heavier_of_takesOver ((horder.2 e).mpr he.entry)
  intro best hheavier
  rw [takesOver_iff]
  exact ⟨he.candidate, hasMoreWork_iff.mpr hheavier, fun k a ha _ => he.failureFree k a ha⟩

theorem scanBest_cases (tip : Option UInt256) (order : List UInt256) :
    m.scanBest tip order = tip ∨
      ∃ b ∈ order, m.isCandidate b = true ∧ m.scanBest tip order = some b ∧
        ∀ t ∈ tip, m.nChainWork t < m.nChainWork b := by
  rcases runningBest_cases heavier_of_takesOver tip order with
    hstay | ⟨b, hb, hbest, ⟨best, hover⟩, hlt⟩
  · exact .inl hstay
  · exact .inr ⟨b, hb, (takesOver_iff.mp hover).1, hbest, hlt⟩

theorem belowTip_iff :
    m.belowTip tip best = true ↔
      ∃ t b, tip = some t ∧ best = some b ∧ b ≠ t ∧ m.nHeight b < m.nHeight t := by
  cases tip with
  | none => simp [belowTip]
  | some t =>
    cases best with
    | none => simp [belowTip]
    | some b => simp [belowTip]

theorem mostWorkCandidate_cases (tip : Option UInt256) (order : List UInt256) :
    m.activeChainMostWorkCandidate tip order = tip ∨
      ∃ b ∈ order, m.activeChainMostWorkCandidate tip order = some b ∧ m.isCandidate b = true ∧
        m.AtLeastAsHigh tip b ∧ ∀ t ∈ tip, m.nChainWork t < m.nChainWork b := by
  rw [activeChainMostWorkCandidate]
  split_ifs with hbelow
  · exact .inl rfl
  · rcases scanBest_cases tip order with hstay | ⟨b, hb, hcand, hbest, hlt⟩
    · exact .inl hstay
    · refine .inr ⟨b, hb, hbest, hcand, ?_, hlt⟩
      intro t ht
      by_contra hlow
      apply hbelow
      rw [belowTip_iff]
      refine ⟨t, b, ht, hbest, ?_, Nat.not_le.mp hlow⟩
      intro heq
      rw [heq] at hlow
      exact hlow le_rfl

theorem le_mostWorkCandidate {t : UInt256} (ht : t ∈ tip) :
    ∃ b ∈ m.activeChainMostWorkCandidate tip order, m.nChainWork t ≤ m.nChainWork b := by
  rw [activeChainMostWorkCandidate]
  split_ifs with hbelow
  · exact ⟨t, ht, le_rfl⟩
  · rw [mem_def.mp ht]
    exact le_runningBest heavier_of_takesOver order

theorem exists_enumerates (m : BlockMap) : ∃ order, m.Enumerates order :=
  ⟨m.entries.toList, m.entries.nodup_toList, fun _ => Finset.mem_toList⟩

theorem exists_enumerates_cons (hb : b ∈ m.entries) : ∃ order, m.Enumerates (b :: order) := by
  refine ⟨(m.entries.erase b).toList, nodup_cons.mpr ⟨by simp, Finset.nodup_toList _⟩, ?_⟩
  intro c
  rw [mem_cons, Finset.mem_toList, Finset.mem_erase]
  exact ⟨fun hc => hc.elim (fun heq => heq ▸ hb) And.right,
    fun hc => (eq_or_ne c b).imp_right fun hne => ⟨hne, hc⟩⟩

theorem candidatesClean_of_inherited
    (h : ∀ b p, m.pprev b = some p → m.blockHasAnyFailure p = true →
      m.blockHasAnyFailure b = true) :
    m.CandidatesClean := by
  intro b hb hcand
  have hfree : m.blockHasAnyFailure b = false := by
    rw [isCandidate, Bool.and_eq_true, Bool.and_eq_true, Bool.not_eq_true'] at hcand
    exact hcand.1.1
  clear hb hcand
  intro k
  induction k generalizing b with
  | zero =>
    intro a ha
    rwa [← some.inj ha]
  | succ k ih =>
    intro a ha
    obtain ⟨p, hp, ha⟩ := bind_eq_some_iff.mp ha
    refine ih p ?_ a ha
    by_contra hfailed
    rw [h b p hp (Bool.eq_true_of_not_eq_false hfailed)] at hfree
    cases hfree

section Clean

variable {t : UInt256} (hclean : m.CandidatesClean)

include hclean

theorem eligible_of_mem (horder : m.Enumerates order) (hb : b ∈ order)
    (hcand : m.isCandidate b = true) : m.Eligible b :=
  have hentry := (horder.2 b).mp hb
  ⟨hentry, hcand, hclean b hentry hcand⟩

theorem mostWorkCandidate_eq_tip (horder : m.Enumerates order)
    (hnone : ∀ e, m.Eligible e → m.nHeight t ≤ m.nHeight e → m.nChainWork e ≤ m.nChainWork t) :
    m.activeChainMostWorkCandidate (some t) order = some t := by
  rcases mostWorkCandidate_cases (m := m) (some t) order with htip | ⟨b, hb, -, hcand, hhigh, hlt⟩
  · exact htip
  · have hle := hnone b (eligible_of_mem hclean horder hb hcand) (hhigh t rfl)
    exact absurd (hlt t rfl) (not_lt.mpr hle)

theorem goodChoice_of_outweighed (horder : m.Enumerates order) (h : m.TipOutweighed t) :
    m.GoodChoice (some t) (m.activeChainMostWorkCandidate (some t) order) := by
  obtain ⟨e, he, -, hlt⟩ := h.heavier
  obtain ⟨r, hr, hler⟩ := scanBest_heaviest (some t) horder he
  rcases scanBest_cases (m := m) (some t) order with htip | ⟨b, hb, hcand, hbest, -⟩
  · rw [htip] at hr
    rw [← some.inj hr] at hler
    exact absurd hlt (not_lt.mpr hler)
  have hb' := eligible_of_mem hclean horder hb hcand
  -- a best below the tip would be outweighed by an eligible block that the scan has passed
  have hhigh : m.nHeight t ≤ m.nHeight b := by
    by_contra hlow
    obtain ⟨e', he', -, hlt'⟩ := h.low b hb' (not_le.mp hlow)
    obtain ⟨r', hr', hle'⟩ := scanBest_heaviest (some t) horder he'
    rw [← some.inj (hbest.symm.trans hr')] at hle'
    exact absurd hlt' (not_lt.mpr hle')
  have habove : ¬m.belowTip (some t) (m.scanBest (some t) order) = true := by
    rw [belowTip_iff]
    rintro ⟨t', b', ht', hb'', -, hlow⟩
    rw [← some.inj ht', ← some.inj (hbest.symm.trans hb'')] at hlow
    omega
  rw [activeChainMostWorkCandidate, if_neg habove]
  refine ⟨?_, fun e he _ => scanBest_heaviest _ horder he⟩
  intro c hc
  rw [← some.inj (hbest.symm.trans hc)]
  exact hb'.failureFree

theorem mostWorkCandidate_of_low (horder : m.Enumerates (b :: order)) (hb : m.Eligible b)
    (hlow : m.nHeight b < m.nHeight t) (hheavy : m.nChainWork t < m.nChainWork b)
    (hall : ∀ e, m.Eligible e → m.nHeight t ≤ m.nHeight e → m.nChainWork e ≤ m.nChainWork b) :
    m.activeChainMostWorkCandidate (some t) (b :: order) = some t := by
  have hfirst : m.scanBest (some t) (b :: order) = m.scanBest (some b) order := by
    have hover : m.takesOver (some t) b = true := by
      rw [takesOver_iff, hasMoreWork_iff]
      refine ⟨hb.candidate, ?_, fun k a ha _ => hb.failureFree k a ha⟩
      intro t' ht'
      rwa [← mem_some.mp ht']
    rw [scanBest, runningBest_cons, if_pos hover]
    rfl
  have hbelow : m.belowTip (some t) (m.scanBest (some t) (b :: order)) = true := by
    rw [hfirst, belowTip_iff]
    rcases scanBest_cases (m := m) (some b) order with hstay | ⟨c, hc, hcand, hbest, hlt⟩
    · exact ⟨t, b, rfl, hstay, fun heq => by simp [heq] at hlow, hlow⟩
    · have hc' := eligible_of_mem hclean horder (mem_cons_of_mem b hc) hcand
      have hclow : m.nHeight c < m.nHeight t := by
        by_contra hhigh
        exact absurd (hlt b rfl) (not_lt.mpr (hall c hc' (not_lt.mp hhigh)))
      exact ⟨t, c, rfl, hbest, fun heq => by simp [heq] at hclow, hclow⟩
  rw [activeChainMostWorkCandidate, if_pos hbelow]

theorem goodChoices_iff :
    (∀ order, m.Enumerates order →
        m.GoodChoice (some t) (m.activeChainMostWorkCandidate (some t) order)) ↔
      m.TipStands t ∨ m.TipOutweighed t := by
  constructor
  · intro hgood
    by_cases hnone : ∀ e, m.Eligible e → m.nHeight t ≤ m.nHeight e → m.nChainWork e ≤ m.nChainWork t
    · obtain ⟨order, horder⟩ := exists_enumerates m
      have hfree := (hgood order horder).failureFree
      rw [mostWorkCandidate_eq_tip hclean horder hnone] at hfree
      exact .inl ⟨hfree t rfl, hnone⟩
    · push Not at hnone
      refine .inr ⟨hnone, fun b hb hlow => ?_⟩
      by_contra! hall
      obtain ⟨e, he, hhigh, hlt⟩ := hnone
      -- in an order that begins with the low block the tip is kept
      obtain ⟨order, horder⟩ := exists_enumerates_cons hb.entry
      have hkept := mostWorkCandidate_of_low hclean horder hb hlow
        (hlt.trans_le (hall e he hhigh)) hall
      have hheaviest := (hgood _ horder).heaviest e he fun t' ht' => by rwa [← mem_some.mp ht']
      rw [hkept] at hheaviest
      obtain ⟨t', ht', hle⟩ := hheaviest
      rw [← mem_some.mp ht'] at hle
      exact absurd hlt (not_lt.mpr hle)
  · rintro (h | h) order horder
    · rw [mostWorkCandidate_eq_tip hclean horder h.heaviest]
      refine ⟨fun b hb => ?_, fun e he hhigh => ⟨t, rfl, h.heaviest e he (hhigh t rfl)⟩⟩
      rw [← mem_some.mp hb]
      exact h.failureFree
    · exact goodChoice_of_outweighed hclean horder h

theorem goodChoice_of_none (horder : m.Enumerates order) :
    m.GoodChoice none (m.activeChainMostWorkCandidate none order) := by
  refine ⟨fun b hb => ?_, fun e he _ => scanBest_heaviest _ horder he⟩
  rcases mostWorkCandidate_cases (m := m) none order with htip | ⟨c, hc, hchoice, hcand, -⟩
  · rw [htip] at hb
    cases hb
  · rw [← some.inj (hchoice.symm.trans hb)]
    exact (eligible_of_mem hclean horder hc hcand).failureFree

end Clean

section Orders

variable (horder : m.Enumerates order) (horder' : m.Enumerates order')
  (hgood : m.GoodChoice tip (m.activeChainMostWorkCandidate tip order))
  (hgood' : m.GoodChoice tip (m.activeChainMostWorkCandidate tip order'))

include horder' hgood hgood'

theorem GoodChoice.dominates : ∀ b' ∈ m.activeChainMostWorkCandidate tip order',
    ∃ b ∈ m.activeChainMostWorkCandidate tip order, m.nChainWork b' ≤ m.nChainWork b := by
  intro b' hb'
  rcases mostWorkCandidate_cases (m := m) tip order' with htip | ⟨c, hc, hchoice, hcand, hhigh, -⟩
  · rw [htip] at hb'
    exact le_mostWorkCandidate hb'
  · have heq : c = b' := some.inj (hchoice.symm.trans hb')
    rw [heq] at hc hcand hhigh
    exact hgood.heaviest b' ⟨(horder'.2 b').mp hc, hcand, hgood'.failureFree b' hb'⟩ hhigh

include horder

theorem GoodChoice.work_eq :
    (m.activeChainMostWorkCandidate tip order).map m.nChainWork =
      (m.activeChainMostWorkCandidate tip order').map m.nChainWork := by
  have hle := GoodChoice.dominates horder' hgood hgood'
  have hge := GoodChoice.dominates horder hgood' hgood
  cases hchoice : m.activeChainMostWorkCandidate tip order with
  | none =>
    cases hchoice' : m.activeChainMostWorkCandidate tip order' with
    | none => rfl
    | some b' =>
      obtain ⟨b, hb, -⟩ := hle b' hchoice'
      exact nomatch hchoice.symm.trans hb
  | some b =>
    obtain ⟨b', hb', hwork⟩ := hge b hchoice
    obtain ⟨c, hc, hwork'⟩ := hle b' hb'
    have heq : c = b := some.inj (hc.symm.trans hchoice)
    rw [heq] at hwork'
    rw [mem_def.mp hb', map_some, map_some, le_antisymm hwork hwork']

end Orders

end Scan

end BlockMap

/-- Block 2 at height 2 is the tip. Block 3 at height 1 has failed, but its descendants 4 and 5
carry no mark. -/
def unmarkedFork : BlockMap where
  pprev b := if b = 1 then some 0 else if b = 2 then some 1 else if b = 3 then some 0
    else if b = 4 then some 3 else if b = 5 then some 4 else none
  nHeight b := if b = 1 then 1 else if b = 2 then 2 else if b = 3 then 1 else if b = 4 then 2
    else if b = 5 then 3 else 0
  nChainWork b := if b = 1 then 2 else if b = 2 then 3 else if b = 3 then 2 else if b = 4 then 3
    else if b = 5 then 4 else 1
  nHeight_pprev b p hp := by
    split_ifs at hp <;> cases hp <;> simp [*]
  entries := [0, 1, 2, 3, 4, 5].toFinset
  nStatus b := if b = 3 then blockFailedValid ||| blockHaveData ||| blockValidTree
    else blockHaveData ||| blockValidTree
  nChainTx _ := 1

/-- The same blocks, with the mark of block 3 passed on. -/
def markedFork : BlockMap :=
  { unmarkedFork with
    nStatus := fun b => if b = 3 ∨ b = 4 ∨ b = 5 then
      blockFailedChild ||| blockHaveData ||| blockValidTree else blockHaveData ||| blockValidTree }

theorem markedFork_clean : markedFork.CandidatesClean := by
  apply BlockMap.candidatesClean_of_inherited
  intro b p hp hfailed
  simp only [markedFork, unmarkedFork] at hp
  -- blocks 0 and 1 have not failed, and what stands on 3 or 4 is marked
  split_ifs at hp <;> cases hp <;> first | exact absurd hfailed (by decide) | (subst b; decide)

/-- Block 2 at height 2 is the tip, block 4 above it is heavier, and block 3 at height 1 is as heavy
as block 4. -/
def heavyLowFork : BlockMap where
  pprev b := if b = 1 then some 0 else if b = 2 then some 1 else if b = 3 then some 0
    else if b = 4 then some 2 else none
  nHeight b := if b = 1 then 1 else if b = 2 then 2 else if b = 3 then 1 else if b = 4 then 3 else 0
  nChainWork b := if b = 1 then 2 else if b = 2 then 3 else if b = 3 then 9 else if b = 4 then 9
    else 1
  nHeight_pprev b p hp := by
    split_ifs at hp <;> cases hp <;> simp [*]
  entries := [0, 1, 2, 3, 4].toFinset
  nStatus _ := blockHaveData ||| blockValidTree
  nChainTx _ := 1

end ZClassic
