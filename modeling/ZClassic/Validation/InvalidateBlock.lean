import ZClassic.Validation.CheckedHeaders

/-!
# Marking and clearing invalid blocks

`process_block_mark_invalid` and `process_block_clear_invalid` of
`lib/validation/src/process_block_invalidate.c` with the propagation pass of
`lib/validation/src/process_block_failed_child.c`: both keep an index in which every child of a
failed entry is failed, the one where heights are in order, the other where the parent of the
cleared block has no mark.
-/

namespace ZClassic

open List Function MainState

def MainState.setStatus (ms : MainState) (b : UInt256) (nStatus : UInt32) : MainState :=
  { ms with nStatus := Function.update ms.nStatus b nStatus }

section SetStatus

variable (ms : MainState) (b : UInt256) (nStatus : UInt32)

@[simp]
theorem MainState.setStatus_self : (ms.setStatus b nStatus).nStatus b = nStatus :=
  update_self _ _ _

theorem MainState.setStatus_of_ne {c : UInt256} (h : c ≠ b) :
    (ms.setStatus b nStatus).nStatus c = ms.nStatus c :=
  update_of_ne h _ _

end SetStatus

inductive PropagateFailedChildResult where
  | ok
  | skipParentFailed
  | skipRateLimited
  deriving DecidableEq

def propagateFailedChildMinIntervalSec : ℤ := 10

/-- What a propagation leaves: its verdict, the index, the caller's timestamp if it passed one and
the number of children it marked. -/
structure Propagation where
  result : PropagateFailedChildResult
  ms : MainState
  lastPropagateSec : Option ℤ
  propagated : ℕ := 0

/-- One turn of the single pass: a child of a failed entry is failed. -/
def propagatePass (acc : MainState × ℕ) (b : UInt256) : MainState × ℕ :=
  match acc.1.index.pprev b with
  | none => acc
  | some p =>
    if acc.1.nStatus b &&& blockFailedMask ≠ 0 then acc
    else if acc.1.nStatus p &&& blockFailedMask ≠ 0 then
      (acc.1.setStatus b (acc.1.nStatus b ||| blockFailedChild), acc.2 + 1)
    else acc

/-- The entries above the root in the order of the map, sorted by height. -/
def entriesAbove (ms : MainState) (root : UInt256) (order : List UInt256) : List UInt256 :=
  (order.filter fun b => ms.index.nHeight root < ms.index.nHeight b).insertionSort
    fun b c => ms.index.nHeight b ≤ ms.index.nHeight c

/-- `order` is the order in which `block_map_next` yields the entries. -/
def processBlockPropagateFailedChild (ms : MainState) (order : List UInt256) (root : UInt256)
    (nowSec : ℤ) (lastPropagateSec : Option ℤ) : Propagation :=
  if (ms.index.pprev root).any fun p => ms.nStatus p &&& blockFailedMask != 0 then
    ⟨.skipParentFailed, ms, lastPropagateSec, 0⟩
  else if lastPropagateSec.any fun last => nowSec - last < propagateFailedChildMinIntervalSec then
    ⟨.skipRateLimited, ms, lastPropagateSec, 0⟩
  else
    let (ms', propagated) := (entriesAbove ms root order).foldl propagatePass (ms, 0)
    ⟨.ok, ms', lastPropagateSec.map fun _ => nowSec, propagated⟩

def processBlockMarkInvalid (ms : MainState) (order : List UInt256) (target : UInt256)
    (nowSec : ℤ) : MainState × ℕ :=
  match ms.find target with
  | none => (ms, 0)
  | some _ =>
    let ms := ms.setStatus target (ms.nStatus target ||| blockFailedValid)
    let pr := processBlockPropagateFailedChild ms order target nowSec none
    (pr.ms, pr.propagated)

/-- The ancestry walk through `w`, which stands under an entry of height `lastH`: heights fall on
the way and stay at or above the target's. -/
def walkReaches (ms : MainState) (target : UInt256) : ℕ → Option UInt256 → ℤ → Bool
  | 0, _, _ => false
  | _ + 1, none, _ => false
  | steps + 1, some w, lastH =>
    if ms.index.nHeight w < ms.index.nHeight target ∨ lastH ≤ ms.index.nHeight w then false
    else w == target || walkReaches ms target steps (ms.index.pprev w) (ms.index.nHeight w)

def ancestrySteps : ℕ := 200000

def isDescendant (ms : MainState) (target b : UInt256) : Bool :=
  b != target && decide (ms.index.nHeight target < ms.index.nHeight b) &&
    walkReaches ms target ancestrySteps (ms.index.pprev b) (ms.index.nHeight b)

def clearMark (acc : MainState × ℕ) (b : UInt256) : MainState × ℕ :=
  if acc.1.nStatus b &&& blockFailedAnyMask ≠ 0 then
    (acc.1.setStatus b (acc.1.nStatus b &&& ~~~blockFailedAnyMask), acc.2 + 1)
  else acc

def processBlockClearInvalid (ms : MainState) (order : List UInt256) (target : UInt256) :
    MainState × ℕ :=
  match ms.find target with
  | none => (ms, 0)
  | some _ =>
    order.foldl (fun acc b => if isDescendant ms target b then clearMark acc b else acc)
      (clearMark (ms, 0) target)

theorem flags_or_and (s t mask : UInt32) : (s ||| t) &&& mask = (s &&& mask) ||| (t &&& mask) := by
  apply UInt32.toBitVec_inj.mp
  exact BitVec.and_or_distrib_right

def Failed (nStatus : UInt32) : Prop := nStatus &&& blockFailedMask ≠ 0

instance (nStatus : UInt32) : Decidable (Failed nStatus) :=
  inferInstanceAs (Decidable (nStatus &&& blockFailedMask ≠ 0))

variable {t : UInt32} {ms : MainState} {order : List UInt256} {target : UInt256}

section Bits

variable {s : UInt32}

theorem Failed.or (h : Failed s) (t : UInt32) : Failed (s ||| t) := by
  unfold Failed at h ⊢
  rw [flags_or_and, Ne, UInt32.or_eq_zero_iff]
  exact fun hzero => h hzero.1

theorem failed_or_of_failed (h : Failed t) : Failed (s ||| t) := by
  rw [UInt32.or_comm]
  exact h.or s

theorem failed_iff_of_transient (h : s &&& blockFailedTransient = 0) :
    Failed s ↔ s &&& blockFailedAnyMask ≠ 0 := by
  have hsplit : s &&& blockFailedAnyMask =
      (s &&& blockFailedMask) ||| (s &&& blockFailedTransient) := by
    rw [UInt32.and_comm s, UInt32.and_comm s, UInt32.and_comm s, ← flags_or_and]
    rfl
  rw [hsplit, h, UInt32.or_zero]
  rfl

theorem or_transient (ht : t &&& blockFailedTransient = 0) (h : s &&& blockFailedTransient = 0) :
    (s ||| t) &&& blockFailedTransient = 0 := by
  rw [flags_or_and, h, ht]
  rfl

theorem cleared_and_anyMask : s &&& ~~~blockFailedAnyMask &&& blockFailedAnyMask = 0 := by
  rw [UInt32.and_assoc]
  exact UInt32.and_zero

theorem not_failed_of_anyMask (h : s &&& blockFailedAnyMask = 0) : ¬Failed s := by
  have hpart : s &&& blockFailedMask = s &&& blockFailedAnyMask &&& blockFailedMask := by
    rw [UInt32.and_assoc]
    rfl
  rw [Failed, hpart, h]
  decide

theorem failed_of_failedValid (h : s &&& blockFailedValid ≠ 0) : Failed s := by
  have hpart : s &&& blockFailedValid = s &&& blockFailedMask &&& blockFailedValid := by
    rw [UInt32.and_assoc]
    rfl
  intro hzero
  rw [hpart, hzero] at h
  exact h rfl

theorem anyMask_and_transient :
    s &&& blockFailedAnyMask &&& blockFailedTransient = s &&& blockFailedTransient := by
  rw [UInt32.and_assoc]
  rfl

end Bits

/-- `b` is in the index with a failure mark of any kind. -/
def Marked (ms : MainState) (b : UInt256) : Prop :=
  (ms.find b).isSome ∧ ms.nStatus b &&& blockFailedAnyMask ≠ 0

instance (ms : MainState) (b : UInt256) : Decidable (Marked ms b) :=
  inferInstanceAs (Decidable (_ ∧ _))

/-- Parents are entries, no failure is transient, and a child of a failed entry is failed. -/
structure Inherits (ms : MainState) : Prop where
  linked : ∀ b p, ms.index.pprev b = some p → (ms.find p).isSome
  transient : ∀ b, (ms.find b).isSome → ms.nStatus b &&& blockFailedTransient = 0
  child : ∀ b p, ms.index.pprev b = some p → Failed (ms.nStatus p) → Failed (ms.nStatus b)

variable {b : UInt256}

theorem MainState.isSome_of_pprev {p : UInt256} (h : ms.index.pprev b = some p) :
    (ms.find b).isSome := by
  obtain ⟨e, he, -⟩ := Option.bind_eq_some_iff.mp h
  exact Option.isSome_of_eq_some he

theorem Inherits.marked_iff (h : Inherits ms) :
    Marked ms b ↔ (ms.find b).isSome ∧ Failed (ms.nStatus b) := by
  apply and_congr_right
  intro hb
  exact (failed_iff_of_transient (h.transient b hb)).symm

section Pass

variable {acc : MainState × ℕ} {b c : UInt256}

theorem propagatePass_cases (acc : MainState × ℕ) (b : UInt256) :
    (propagatePass acc b = acc ∧
      ∀ p, acc.1.index.pprev b = some p → Failed (acc.1.nStatus p) → Failed (acc.1.nStatus b)) ∨
    (propagatePass acc b).1 = acc.1.setStatus b (acc.1.nStatus b ||| blockFailedChild) := by
  unfold propagatePass
  cases hp : acc.1.index.pprev b with
  | none => exact .inl ⟨rfl, nofun⟩
  | some p =>
    dsimp only
    split_ifs with hb hpf
    · exact .inl ⟨rfl, fun _ _ _ => hb⟩
    · exact .inr rfl
    · refine .inl ⟨rfl, ?_⟩
      rintro _ ⟨⟩ hfailed
      exact absurd hfailed hpf

theorem propagatePass_index : (propagatePass acc b).1.index = acc.1.index := by
  rcases propagatePass_cases acc b with ⟨h, -⟩ | h
  · rw [h]
  · rw [h]
    rfl

theorem propagatePass_find : (propagatePass acc b).1.find = acc.1.find := by
  rcases propagatePass_cases acc b with ⟨h, -⟩ | h
  · rw [h]
  · rw [h]
    rfl

theorem propagatePass_nStatus_of_ne (hne : c ≠ b) :
    (propagatePass acc b).1.nStatus c = acc.1.nStatus c := by
  rcases propagatePass_cases acc b with ⟨h, -⟩ | h
  · rw [h]
  · rw [h, setStatus_of_ne _ _ _ hne]

theorem propagatePass_status {P : UInt32 → Prop} (hP : ∀ s, P s → P (s ||| blockFailedChild))
    (h : P (acc.1.nStatus c)) : P ((propagatePass acc b).1.nStatus c) := by
  by_cases hcb : c = b
  · subst hcb
    rcases propagatePass_cases acc c with ⟨hsame, -⟩ | hmark
    · rwa [hsame]
    · rw [hmark, setStatus_self]
      exact hP _ h
  · rwa [propagatePass_nStatus_of_ne hcb]

theorem propagatePass_child {p : UInt256} (hp : acc.1.index.pprev b = some p) (hne : p ≠ b)
    (h : Failed ((propagatePass acc b).1.nStatus p)) :
    Failed ((propagatePass acc b).1.nStatus b) := by
  rw [propagatePass_nStatus_of_ne hne] at h
  rcases propagatePass_cases acc b with ⟨hsame, hchild⟩ | hmark
  · rw [hsame]
    exact hchild p hp h
  · rw [hmark, setStatus_self]
    exact failed_or_of_failed (by decide)

end Pass

def HeightsOrdered (ms : MainState) : Prop :=
  ∀ b p, ms.index.pprev b = some p → ms.index.nHeight p < ms.index.nHeight b

theorem foldl_propagatePass_keeps (l : List UInt256) (acc : MainState × ℕ) :
    let out := l.foldl propagatePass acc
    out.1.index = acc.1.index ∧ out.1.find = acc.1.find ∧
      ∀ b, acc.1.nStatus b &&& blockFailedTransient = 0 →
        out.1.nStatus b &&& blockFailedTransient = 0 := by
  refine foldlRecOn (motive := fun acc' => acc'.1.index = acc.1.index ∧
    acc'.1.find = acc.1.find ∧ ∀ b, acc.1.nStatus b &&& blockFailedTransient = 0 →
      acc'.1.nStatus b &&& blockFailedTransient = 0) l propagatePass ⟨rfl, rfl, fun _ h => h⟩ ?_
  rintro acc' ⟨hindex, hfind, htransient⟩ x -
  refine ⟨propagatePass_index.trans hindex, propagatePass_find.trans hfind, fun b hb => ?_⟩
  exact propagatePass_status (P := (· &&& blockFailedTransient = 0))
    (fun _ => or_transient (by decide)) (htransient b hb)

/-- The pass over entries in the order of their heights, where the children of an entry of the list
are in the list: what is not inherited yet is inherited by an entry still ahead. -/
theorem foldl_propagatePass_child {l : List UInt256} {acc : MainState × ℕ}
    (hheights : HeightsOrdered acc.1)
    (hsorted : l.Pairwise fun b c => acc.1.index.nHeight b ≤ acc.1.index.nHeight c)
    (hclosed : ∀ b ∈ l, ∀ c, acc.1.index.pprev c = some b → c ∈ l)
    (hahead : ∀ b p, acc.1.index.pprev b = some p → Failed (acc.1.nStatus p) →
      Failed (acc.1.nStatus b) ∨ b ∈ l) :
    ∀ b p, acc.1.index.pprev b = some p → Failed ((l.foldl propagatePass acc).1.nStatus p) →
      Failed ((l.foldl propagatePass acc).1.nStatus b) := by
  induction l generalizing acc with
  | nil =>
    intro b p hp hfailed
    exact (hahead b p hp hfailed).resolve_right not_mem_nil
  | cons x l ih =>
    rw [pairwise_cons] at hsorted
    -- a child of an entry at or after `x` stands strictly above `x`, so it comes after it
    have htail : ∀ b ∈ x :: l, ∀ c, acc.1.index.pprev c = some b → c ∈ l := by
      intro b hb c hc
      have hlt := hheights c b hc
      have hle : acc.1.index.nHeight x ≤ acc.1.index.nHeight b := by
        rcases mem_cons.mp hb with rfl | hb
        · exact le_refl _
        · exact hsorted.1 b hb
      rcases mem_cons.mp (hclosed b hb c hc) with rfl | hmem
      · exact absurd hlt (not_lt.mpr hle)
      · exact hmem
    rw [foldl_cons, ← @propagatePass_index acc x]
    apply ih
    · unfold HeightsOrdered
      rw [propagatePass_index]
      exact hheights
    · rw [propagatePass_index]
      exact hsorted.2
    · rw [propagatePass_index]
      exact fun b hb c hc => htail b (mem_cons_of_mem x hb) c hc
    · intro b p hp hfailed
      rw [propagatePass_index] at hp
      by_cases hpx : p = x
      · exact .inr (htail x mem_cons_self b (hpx ▸ hp))
      by_cases hbx : b = x
      · subst hbx
        exact .inl (propagatePass_child hp hpx hfailed)
      rw [propagatePass_nStatus_of_ne hpx] at hfailed
      rcases hahead b p hp hfailed with hb | hb
      · exact .inl (propagatePass_status (fun _ hs => hs.or _) hb)
      · exact .inr ((mem_cons.mp hb).resolve_left hbx)

def Enumerates (order : List UInt256) (ms : MainState) : Prop :=
  ∀ b, b ∈ order ↔ (ms.find b).isSome

theorem entriesAbove_sorted (ms : MainState) (root : UInt256) (order : List UInt256) :
    (entriesAbove ms root order).Pairwise
      fun b c => ms.index.nHeight b ≤ ms.index.nHeight c := by
  exact pairwise_insertionSort _ _

theorem mem_entriesAbove {root : UInt256} :
    b ∈ entriesAbove ms root order ↔ b ∈ order ∧ ms.index.nHeight root < ms.index.nHeight b := by
  rw [entriesAbove, mem_insertionSort, mem_filter, decide_eq_true_iff]

theorem Inherits.markInvalid (h : Inherits ms) (hheights : HeightsOrdered ms)
    (horder : Enumerates order ms) (target : UInt256) (nowSec : ℤ) :
    Inherits (processBlockMarkInvalid ms order target nowSec).1 := by
  unfold processBlockMarkInvalid
  cases htarget : ms.find target with
  | none => exact h
  | some e =>
    dsimp only
    set marked := ms.setStatus target (ms.nStatus target ||| blockFailedValid) with hmarked
    have hself : marked.nStatus target = ms.nStatus target ||| blockFailedValid :=
      setStatus_self _ _ _
    have hother : ∀ b, b ≠ target → marked.nStatus b = ms.nStatus b :=
      fun b hb => setStatus_of_ne _ _ _ hb
    have htransient : ∀ b, (ms.find b).isSome → marked.nStatus b &&& blockFailedTransient = 0 := by
      intro b hb
      by_cases hbt : b = target
      · subst hbt
        rw [hself]
        exact or_transient (by decide) (h.transient b hb)
      · rw [hother b hbt]
        exact h.transient b hb
    -- the mark of the target is the only one that its children may lack
    have hchild : ∀ b p, p ≠ target → ms.index.pprev b = some p → Failed (marked.nStatus p) →
        Failed (marked.nStatus b) := by
      intro b p hpt hp hfailed
      rw [hother p hpt] at hfailed
      have hb := h.child b p hp hfailed
      by_cases hbt : b = target
      · subst hbt
        rw [hself]
        exact hb.or _
      · rw [hother b hbt]
        exact hb
    unfold processBlockPropagateFailedChild
    split_ifs with hskip hrate
    · obtain ⟨p, hp, hpf⟩ := (Option.any_eq_true _ _).mp hskip
      have hpt : p ≠ target := by
        rintro rfl
        exact lt_irrefl _ (hheights p p hp)
      refine ⟨h.linked, htransient, ?_⟩
      intro b q hq hfailed
      by_cases hqt : q = target
      · -- the target was failed before, and so were its children
        subst hqt
        have hqf : Failed (ms.nStatus q) := by
          apply h.child q p hp
          rw [← hother p hpt]
          exact bne_iff_ne.mp hpf
        have hbt : b ≠ q := by
          rintro rfl
          exact lt_irrefl _ (hheights b b hq)
        rw [hother b hbt]
        exact h.child b q hq hqf
      · exact hchild b q hqt hq hfailed
    · cases hrate
    · have hkeeps := foldl_propagatePass_keeps (entriesAbove marked target order) (marked, 0)
      obtain ⟨hindex, hfind, htrans⟩ := hkeeps
      constructor
      · dsimp only
        rw [hindex, hfind]
        exact h.linked
      · dsimp only
        rw [hfind]
        exact fun b hb => htrans b (htransient b hb)
      · dsimp only
        rw [hindex]
        apply foldl_propagatePass_child
        · exact hheights
        · exact entriesAbove_sorted marked target order
        · intro b hb c hc
          rw [mem_entriesAbove] at hb ⊢
          exact ⟨(horder c).mpr (isSome_of_pprev hc), hb.2.trans (hheights c b hc)⟩
        · intro b p hp hfailed
          by_cases hpt : p = target
          · subst hpt
            exact .inr (mem_entriesAbove.mpr
              ⟨(horder b).mpr (isSome_of_pprev hp), hheights b p hp⟩)
          · exact .inl (hchild b p hpt hp hfailed)

theorem clearMark_nStatus (acc : MainState × ℕ) (b c : UInt256) :
    (clearMark acc b).1.nStatus c &&& blockFailedAnyMask =
      if c = b then 0 else acc.1.nStatus c &&& blockFailedAnyMask := by
  unfold clearMark
  by_cases hcb : c = b
  · subst hcb
    rw [if_pos rfl]
    split_ifs with hmarked
    · rw [setStatus_self]
      exact cleared_and_anyMask
    · exact not_not.mp hmarked
  · rw [if_neg hcb]
    split_ifs
    · rw [setStatus_of_ne _ _ _ hcb]
    · rfl

theorem clearMark_mapBlockIndex (acc : MainState × ℕ) (b : UInt256) :
    (clearMark acc b).1.mapBlockIndex = acc.1.mapBlockIndex := by
  unfold clearMark
  split_ifs <;> rfl

theorem foldl_clearMark (d : UInt256 → Bool) (order : List UInt256) (acc : MainState × ℕ) :
    let after := (order.foldl (fun acc b => if d b then clearMark acc b else acc) acc).1
    after.mapBlockIndex = acc.1.mapBlockIndex ∧
      ∀ c, after.nStatus c &&& blockFailedAnyMask =
        if c ∈ order ∧ d c = true then 0 else acc.1.nStatus c &&& blockFailedAnyMask := by
  induction order generalizing acc with
  | nil => exact ⟨rfl, fun c => (if_neg fun h => not_mem_nil h.1).symm⟩
  | cons x order ih =>
    obtain ⟨hmap, hstatus⟩ := ih (if d x then clearMark acc x else acc)
    rw [foldl_cons]
    constructor
    · rw [hmap]
      split_ifs
      · exact clearMark_mapBlockIndex acc x
      · rfl
    · intro c
      rw [hstatus c]
      by_cases hx : d x = true
      · rw [if_pos hx, clearMark_nStatus]
        by_cases hcx : c = x
        · subst hcx
          simp [hx]
        · simp [hcx]
      · rw [if_neg hx]
        by_cases hcx : c = x
        · subst hcx
          simp [hx]
        · simp [hcx]

theorem walkReaches_succ (steps : ℕ) {w : Option UInt256} {lastH : ℤ}
    (h : walkReaches ms target steps w lastH = true) :
    walkReaches ms target (steps + 1) w lastH = true := by
  induction steps generalizing w lastH with
  | zero => cases h
  | succ steps ih =>
    cases w with
    | none => cases h
    | some w =>
      rw [walkReaches] at h ⊢
      split_ifs at h ⊢ with hstop
      rw [Bool.or_eq_true] at h ⊢
      exact h.imp_right ih

theorem isDescendant_pprev {target p : UInt256} (h : isDescendant ms target b = true)
    (hp : ms.index.pprev b = some p) : p = target ∨ isDescendant ms target p = true := by
  unfold isDescendant at h
  rw [Bool.and_eq_true, hp] at h
  have hwalk := h.2
  rw [ancestrySteps, walkReaches] at hwalk
  split_ifs at hwalk with hstop
  rw [Bool.or_eq_true] at hwalk
  rcases hwalk with hpt | hrest
  · exact .inl (beq_iff_eq.mp hpt)
  · by_cases hpt : p = target
    · exact .inl hpt
    right
    -- the walk goes on below `p`, so `p` is above the target
    have habove : ms.index.nHeight target < ms.index.nHeight p := by
      cases hq : ms.index.pprev p with
      | none =>
        rw [hq] at hrest
        cases hrest
      | some q =>
        rw [hq, walkReaches] at hrest
        split_ifs at hrest with hstop'
        rw [not_or, not_lt, not_le] at hstop'
        exact hstop'.1.trans_lt hstop'.2
    unfold isDescendant
    rw [Bool.and_eq_true, Bool.and_eq_true]
    exact ⟨⟨bne_iff_ne.mpr hpt, decide_eq_true habove⟩, walkReaches_succ _ hrest⟩

theorem Inherits.clearInvalid (h : Inherits ms) (horder : Enumerates order ms)
    (hparent : ∀ p, ms.index.pprev target = some p → ¬Marked ms p) :
    Inherits (processBlockClearInvalid ms order target).1 := by
  unfold processBlockClearInvalid
  cases htarget : ms.find target with
  | none => exact h
  | some e =>
    obtain ⟨hmap, hstatus⟩ :=
      foldl_clearMark (isDescendant ms target) order (clearMark (ms, 0) target)
    set after :=
      (order.foldl (fun acc b => if isDescendant ms target b then clearMark acc b else acc)
      (clearMark (ms, 0) target)).1
    have hmap : after.mapBlockIndex = ms.mapBlockIndex := hmap.trans (clearMark_mapBlockIndex _ _)
    have hfind : after.find = ms.find := by
      funext b
      rw [find, find, hmap]
    have hindex : after.index = ms.index := by
      unfold index
      rw [hfind]
    -- cleared are the target and its descendants
    have hmarks : ∀ c, (ms.find c).isSome → after.nStatus c &&& blockFailedAnyMask =
        if c = target ∨ isDescendant ms target c = true then 0
        else ms.nStatus c &&& blockFailedAnyMask := by
      intro c hc
      rw [hstatus c, clearMark_nStatus]
      by_cases hd : isDescendant ms target c = true
      · rw [if_pos ⟨(horder c).mpr hc, hd⟩, if_pos (.inr hd)]
      · rw [if_neg fun hand => hd hand.2]
        by_cases hct : c = target
        · rw [if_pos hct, if_pos (.inl hct)]
        · rw [if_neg hct, if_neg (not_or.mpr ⟨hct, hd⟩)]
    have htransient : ∀ c, (ms.find c).isSome → after.nStatus c &&& blockFailedTransient = 0 := by
      intro c hc
      rw [← anyMask_and_transient, hmarks c hc]
      split_ifs
      · rfl
      · rw [anyMask_and_transient]
        exact h.transient c hc
    constructor
    · rw [hindex, hfind]
      exact h.linked
    · rw [hfind]
      exact htransient
    · rw [hindex]
      intro b p hp hfailed
      have hb := isSome_of_pprev hp
      have hpSome := h.linked b p hp
      rw [failed_iff_of_transient (htransient p hpSome), hmarks p hpSome] at hfailed
      rw [failed_iff_of_transient (htransient b hb), hmarks b hb]
      split_ifs at hfailed with hpc
      · exact absurd rfl hfailed
      have hpf := (failed_iff_of_transient (h.transient p hpSome)).mpr hfailed
      rw [if_neg, ← failed_iff_of_transient (h.transient b hb)]
      · exact h.child b p hp hpf
      · rintro (rfl | hd)
        · exact hparent p hp ⟨hpSome, hfailed⟩
        · exact hpc (isDescendant_pprev hd hp)

end ZClassic
