import Mathlib.Data.Vector.Defs
import ZClassic.Lib.Fold
import ZClassic.Lib.StackBounds

/-!
# Stacks in fixed slots

A stack kept in an array of `cap` slots with a count, and the loops that move items along the array.
-/

namespace ZClassic

open List hiding Vector

variable {ι ε α σ : Type} {cap : ℕ}

def readSlot (v : Vector σ cap) (i : ℕ) : Except StackFault σ :=
  match v[i]? with
  | some x => .ok x
  | none => .error .outOfBounds

def writeSlot (v : Vector σ cap) (i : ℕ) (x : σ) : Except StackFault (Vector σ cap) :=
  if h : i < cap then .ok (v.set i x h) else .error .outOfBounds

/-- The slots in the list are filled one after the other, each from its source. -/
def copySlots (source : ℕ → ℕ) (is : List ℕ) (v : Vector σ cap) :
    Except StackFault (Vector σ cap) :=
  is.foldlM (fun v i => readSlot v (source i) >>= writeSlot v i) v

variable {i : ℕ} {l : List ι}

variable (v : Vector σ cap)

theorem readSlot_eq_ok (h : i < cap) : ∃ x, v[i]? = some x ∧ readSlot v i = .ok x := by
  refine ⟨v[i], Vector.getElem?_eq_getElem h, ?_⟩
  rw [readSlot, Vector.getElem?_eq_getElem h]

theorem writeSlot_eq_ok (h : i < cap) (x : σ) :
    ∃ v', writeSlot v i x = .ok v' ∧ ∀ j : ℕ, v'[j]? = if j = i then some x else v[j]? := by
  refine ⟨v.set i x h, dif_pos h, fun j => ?_⟩
  rw [Vector.getElem?_set]
  by_cases hj : j = i
  · rw [if_pos hj.symm, if_pos hj]
  · rw [if_neg (Ne.symm hj), if_neg hj]

theorem copySlots_eq_ok (source : ℕ → ℕ) {is : List ℕ} (h : ∀ i ∈ is, i < cap ∧ source i < cap)
    (horder : is.Pairwise fun i i' => source i' ≠ i) :
    ∃ v', copySlots source is v = .ok v' ∧
      ∀ j : ℕ, v'[j]? = if j ∈ is then v[source j]? else v[j]? := by
  induction is generalizing v with
  | nil => exact ⟨v, rfl, fun j => (if_neg not_mem_nil).symm⟩
  | cons i is ih =>
    rw [forall_mem_cons] at h
    rw [pairwise_cons] at horder
    obtain ⟨x, hx, hread⟩ := readSlot_eq_ok v h.1.2
    obtain ⟨v₁, hwrite, hv₁⟩ := writeSlot_eq_ok v h.1.1 x
    obtain ⟨v', hv', hget⟩ := ih v₁ h.2 horder.2
    refine ⟨v', ?_, fun j => ?_⟩
    · rw [copySlots, foldlM_cons, hread, ok_bind, hwrite]
      exact hv'
    -- no later round reads the slot written first
    rw [hget, hv₁, hv₁]
    by_cases hmem : j ∈ is
    · rw [if_pos hmem, if_neg (horder.1 j hmem), if_pos (mem_cons_of_mem i hmem)]
    · rw [if_neg hmem]
      by_cases hj : j = i
      · rw [if_pos hj, if_pos (hj ▸ mem_cons_self), hj, hx]
      · rw [if_neg hj, if_neg (not_mem_cons_of_ne_of_not_mem hj hmem)]

theorem copySlots_up {d : ℕ} (len i : ℕ) (hd : 0 < d) (h : i + len + d ≤ cap) :
    ∃ v', copySlots (· + d) (range' i len) v = .ok v' ∧
      ∀ j : ℕ, v'[j]? = if j ∈ range' i len then v[j + d]? else v[j]? :=
  copySlots_eq_ok v _ (fun k hk => by rw [mem_range'_1] at hk; omega)
    ((pairwise_lt_range' _).imp (by omega))

/-- `cap` slots, of which the first `count` are the stack. -/
structure SlotStack (fits : ι → Prop) (cap : ℕ) where
  items : Vector { x // fits x } cap
  count : ℕ
  count_le : count ≤ cap

namespace SlotStack

variable {fits : ι → Prop}

def empty (blank : { x // fits x }) : SlotStack fits cap :=
  ⟨Vector.replicate cap blank, 0, Nat.zero_le _⟩

/-- The slot of position `i`, which lies below the array when the stack is too short. -/
def readTop (s : SlotStack fits cap) (i : ℕ) : Except StackFault { x // fits x } :=
  if s.count < i then .error .outOfBounds else readSlot s.items (s.count - i)

variable [DecidablePred fits]

/-- Erasing at an index that is not there is refused, and the callers do not look. -/
def exec : (c : StackOp ι) → SlotStack fits cap → Except StackFault (c.Reply × SlotStack fits cap)
  | .count, s => .ok (s.count, s)
  | .top i, s => do
    let x ← s.readTop i
    return (x.val, s)
  | .pop, s => .ok ((), ⟨s.items, s.count - 1, Nat.le_trans (Nat.sub_le ..) s.count_le⟩)
  | .push x, s =>
    if h : s.count < cap ∧ fits x then do
      let items ← writeSlot s.items s.count ⟨x, h.2⟩
      return ((), ⟨items, s.count + 1, h.1⟩)
    else .error .full
  | .eraseAt i, s =>
    if 1 ≤ i ∧ i ≤ s.count then do
      let items ← copySlots (· + 1) (range' (s.count - i) (i - 1)) s.items
      return ((), ⟨items, s.count - 1, Nat.le_trans (Nat.sub_le ..) s.count_le⟩)
    else .ok ((), s)
  | .eraseRange i j, s =>
    if j ≤ i ∧ i ≤ s.count then do
      let items ← copySlots (· + (i - j)) (range' (s.count - i) j) s.items
      return ((), ⟨items, s.count - (i - j), Nat.le_trans (Nat.sub_le ..) s.count_le⟩)
    else .ok ((), s)
  | .insertAt i x, s =>
    if h : s.count < cap ∧ i ≤ s.count ∧ fits x then do
      let items ← copySlots (· - 1) (range' (s.count - i + 1) i).reverse s.items
      let items ← writeSlot items (s.count - i) ⟨x, h.2.2⟩
      return ((), ⟨items, s.count + 1, h.1⟩)
    else .error .full
  | .swap i j, s => do
    let x ← s.readTop i
    let y ← s.readTop j
    let items ← writeSlot s.items (s.count - i) y
    let items ← writeSlot items (s.count - j) x
    return ((), ⟨items, s.count, s.count_le⟩)

omit [DecidablePred fits]

def toList (s : SlotStack fits cap) : List ι := (s.items.toList.take s.count).map Subtype.val

theorem length_toList (s : SlotStack fits cap) : s.toList.length = s.count := by
  rw [toList, length_map, length_take, Vector.length_toList, Nat.min_eq_left s.count_le]

theorem getElem?_toList (s : SlotStack fits cap) (j : ℕ) :
    s.toList[j]? = if j < s.count then s.items[j]?.map Subtype.val else none := by
  rw [toList, getElem?_map, getElem?_take, Vector.getElem?_toList]
  split <;> rfl

variable {s : SlotStack fits cap}

theorem fits_of_mem_toList {x : ι} (h : x ∈ s.toList) : fits x := by
  obtain ⟨y, -, rfl⟩ := mem_map.mp h
  exact y.property

theorem fromTop_toList (h : 1 ≤ i ∧ i ≤ s.count) :
    ∃ x, s.readTop i = .ok x ∧ s.items[s.count - i]? = some x ∧
      StackOp.fromTop s.toList i = some x.val := by
  have hcap := s.count_le
  obtain ⟨x, hx, hread⟩ := readSlot_eq_ok s.items (i := s.count - i) (by omega)
  refine ⟨x, ?_, hx, ?_⟩
  · rw [readTop, if_neg (by omega), hread]
  · rw [StackOp.fromTop, length_toList, if_pos h, getElem?_toList, if_pos (by omega), hx]
    rfl

theorem toList_eq (hlen : l.length = s.count)
    (h : ∀ j < s.count, s.items[j]?.map Subtype.val = l[j]?) : s.toList = l := by
  apply ext_getElem?
  intro j
  rw [getElem?_toList]
  by_cases hj : j < s.count
  · rw [if_pos hj, h j hj]
  · rw [if_neg hj, getElem?_eq_none (by omega)]

def asList {r : Type} (x : Except StackFault (r × SlotStack fits cap)) :
    Except StackFault (r × List ι) :=
  x.map fun y => (y.1, y.2.toList)

theorem asList_ok {v : Vector { x // fits x } cap} {n : ℕ} {hn : n ≤ cap} (hlen : l.length = n)
    (h : ∀ j < n, v[j]?.map Subtype.val = l[j]?) :
    asList (.ok ((), (⟨v, n, hn⟩ : SlotStack fits cap))) = .ok ((), l) :=
  congrArg (fun l => Except.ok ((), l)) (toList_eq hlen h)

variable [DecidablePred fits]

theorem exec_push (x : ι) (s : SlotStack fits cap) :
    asList (exec (.push x) s) = (limitedStacks cap fits).exec (.push x) s.toList := by
  have hlen := s.length_toList
  by_cases hroom : s.count < cap ∧ fits x
  · obtain ⟨v, hwrite, hv⟩ := writeSlot_eq_ok s.items hroom.1 ⟨x, hroom.2⟩
    rw [limitedStacks_room fun y hy => by cases hy; rw [hlen]; exact hroom, exec, dif_pos hroom,
      hwrite]
    refine asList_ok (by rw [length_append, hlen]; rfl) fun j hj => ?_
    rw [hv, getElem?_append, hlen, getElem?_toList]
    by_cases hjc : j < s.count
    · rw [if_pos hjc, if_pos hjc, if_neg (by omega)]
    · rw [if_neg hjc, if_pos (by omega), show j - s.count = 0 by omega]
      rfl
  · rw [exec, dif_neg hroom, limitedStacks_full rfl]
    · rfl
    · rw [hlen]
      exact (not_and_or.mp hroom).imp_left Nat.not_lt.mp

theorem exec_eraseAt (hrange : 1 ≤ i ∧ i ≤ s.count) :
    asList (exec (.eraseAt i) s) = (limitedStacks cap fits).exec (.eraseAt i) s.toList := by
  have hlen := s.length_toList
  have hcap := s.count_le
  obtain ⟨v, hshift, hv⟩ := copySlots_up s.items (i - 1) (s.count - i) Nat.one_pos (by omega)
  rw [limitedStacks_room (by nofun), exec, if_pos hrange, hshift, StackOp.execList, hlen,
    if_pos hrange]
  refine asList_ok (by rw [length_eraseIdx_of_lt] <;> omega) fun j hj => ?_
  simp only [hv, mem_range'_1, getElem?_eraseIdx]
  by_cases hjc : j < s.count - i
  · rw [if_pos hjc, if_neg (by omega), getElem?_toList, if_pos (by omega)]
  · rw [if_neg hjc, if_pos (by omega), getElem?_toList, if_pos (by omega)]

theorem exec_eraseRange {i j : ℕ} (hrange : j < i ∧ i ≤ s.count) :
    asList (exec (.eraseRange i j) s) =
      (limitedStacks cap fits).exec (.eraseRange i j) s.toList := by
  have hlen := s.length_toList
  have hcap := s.count_le
  have hle : j ≤ i ∧ i ≤ s.count := by omega
  obtain ⟨v, hshift, hv⟩ := copySlots_up s.items j (s.count - i) (Nat.sub_pos_of_lt hrange.1)
    (by omega)
  rw [limitedStacks_room (by nofun), exec, if_pos hle, hshift, StackOp.execList, hlen, if_pos hle]
  refine asList_ok ?_ fun k hk => ?_
  · rw [length_append, length_take, length_drop]
    omega
  · simp only [hv, mem_range'_1]
    rw [getElem?_append, length_take, hlen, Nat.min_eq_left (Nat.sub_le ..)]
    by_cases hki : k < s.count - i
    · rw [if_pos hki, if_neg (by omega), getElem?_take_of_lt hki, getElem?_toList,
        if_pos (by omega)]
    · rw [if_neg hki, if_pos (by omega), getElem?_drop, getElem?_toList, if_pos (by omega),
        show s.count - j + (k - (s.count - i)) = k + (i - j) by omega]

theorem exec_insertAt (x : ι) (hrange : i ≤ s.count) :
    asList (exec (.insertAt i x) s) = (limitedStacks cap fits).exec (.insertAt i x) s.toList := by
  have hlen := s.length_toList
  by_cases hroom : s.count < cap ∧ fits x
  · obtain ⟨v, hshift, hv⟩ := copySlots_eq_ok s.items (· - 1)
      (fun k (hk : k ∈ (range' (s.count - i + 1) i).reverse) => by
        rw [mem_reverse, mem_range'_1] at hk
        omega)
      (pairwise_reverse.mpr ((pairwise_lt_range' _).imp (by omega)))
    obtain ⟨v', hwrite, hv'⟩ :=
      writeSlot_eq_ok v (Nat.lt_of_le_of_lt (Nat.sub_le s.count i) hroom.1) ⟨x, hroom.2⟩
    have hall : s.count < cap ∧ i ≤ s.count ∧ fits x := ⟨hroom.1, hrange, hroom.2⟩
    rw [limitedStacks_room fun y hy => by cases hy; rw [hlen]; exact hroom, exec, dif_pos hall,
      hshift, ok_bind, hwrite, StackOp.execList, hlen, if_pos hrange]
    refine asList_ok (by rw [length_insertIdx_of_le_length] <;> omega) fun j hj => ?_
    simp only [hv', hv, mem_reverse, mem_range'_1, getElem?_insertIdx, hlen]
    rcases Nat.lt_trichotomy j (s.count - i) with hlt | heq | hgt
    · rw [if_neg (by omega), if_neg (by omega), if_pos hlt, getElem?_toList, if_pos (by omega)]
    · rw [if_pos heq, if_neg (by omega), if_pos heq, if_pos (by omega)]
      rfl
    · rw [if_neg (by omega), if_pos (by omega), if_neg (by omega), if_neg (by omega),
        getElem?_toList, if_pos (by omega)]
  · have hnot : ¬(s.count < cap ∧ i ≤ s.count ∧ fits x) := fun h => hroom ⟨h.1, h.2.2⟩
    rw [exec, dif_neg hnot, limitedStacks_full rfl]
    · rfl
    · rw [hlen]
      exact (not_and_or.mp hroom).imp_left Nat.not_lt.mp

theorem exec_swap {i j : ℕ} (hi : 1 ≤ i ∧ i ≤ s.count) (hj : 1 ≤ j ∧ j ≤ s.count) :
    asList (exec (.swap i j) s) = (limitedStacks cap fits).exec (.swap i j) s.toList := by
  have hlen := s.length_toList
  have hcap := s.count_le
  obtain ⟨x, hreadx, -, hx⟩ := fromTop_toList hi
  obtain ⟨y, hready, -, hy⟩ := fromTop_toList hj
  obtain ⟨v, hwrite, hv⟩ := writeSlot_eq_ok s.items (i := s.count - i) (by omega) y
  obtain ⟨v', hwrite', hv'⟩ := writeSlot_eq_ok v (i := s.count - j) (by omega) x
  rw [limitedStacks_room (by nofun), exec, hreadx, ok_bind, hready, ok_bind, hwrite, ok_bind,
    hwrite', StackOp.execList, hx, hy]
  refine asList_ok (by rw [length_set, length_set, hlen]) fun k hk => ?_
  rw [hv', hv, getElem?_set, getElem?_set, length_set, hlen, getElem?_toList]
  by_cases hkj : k = s.count - j
  · rw [if_pos hkj, if_pos hkj.symm, if_pos (by omega)]
    rfl
  · rw [if_neg hkj, if_neg (Ne.symm hkj)]
    by_cases hki : k = s.count - i
    · rw [if_pos hki, if_pos hki.symm, if_pos (by omega)]
      rfl
    · rw [if_neg hki, if_neg (Ne.symm hki), if_pos hk]

theorem exec_toList (c : StackOp ι) (s : SlotStack fits cap) (hrange : c.InRange s.count) :
    asList (exec c s) = (limitedStacks cap fits).exec c s.toList := by
  have hlen := s.length_toList
  cases c with
  | count =>
    change _ = Except.ok (s.toList.length, s.toList)
    rw [hlen]
    rfl
  | top i =>
    obtain ⟨x, hread, -, htop⟩ := fromTop_toList hrange
    rw [limitedStacks_room (by nofun), exec, hread, StackOp.execList, htop]
    rfl
  | pop =>
    refine asList_ok (by rw [length_dropLast, hlen]) fun j hj => ?_
    rw [getElem?_dropLast, hlen, if_pos hj, getElem?_toList, if_pos (by omega)]
  | push x => exact exec_push x s
  | eraseAt i => exact exec_eraseAt hrange
  | eraseRange i j => exact exec_eraseRange hrange
  | insertAt i x => exact exec_insertAt x hrange
  | swap i j => exact exec_swap hrange.1 hrange.2

end SlotStack

section Programs

variable {fits : ι → Prop} [DecidablePred fits]

@[reducible]
def slotStacks (cap : ℕ) (blank : { x // fits x }) : StackMachine ι where
  Stack := SlotStack fits cap
  empty := .empty blank
  size := SlotStack.count
  exec := SlotStack.exec

theorem slotStacks_readsKeep (cap : ℕ) (blank : { x // fits x }) :
    (slotStacks cap blank).ReadsKeep := by
  intro c s t r hc h
  cases c with
  | count => exact (congrArg Prod.snd (Except.ok.inj h)).symm
  | top i =>
    obtain ⟨x, -, hx⟩ := bind_eq_ok h
    exact (congrArg Prod.snd (Except.ok.inj hx)).symm
  | _ => cases hc

def lists (s : TwoStacks (SlotStack fits cap)) : TwoStacks (List ι) := s.map SlotStack.toList

section

omit [DecidablePred fits]

section

variable (s : TwoStacks (SlotStack fits cap))

include s

theorem get_lists (w : StackId) :
    (lists s).get w = (s.get w).toList :=
  TwoStacks.get_map ..

theorem set_lists (w : StackId) (t : SlotStack fits cap) :
    lists (s.set w t) = (lists s).set w t.toList :=
  TwoStacks.set_map ..

theorem allFit_lists : AllFit fits (lists s) := by
  intro w x hx
  rw [get_lists] at hx
  exact SlotStack.fits_of_mem_toList hx

end

end

variable (blank : { x // fits x }) {Q : α → TwoStacks ℕ → Prop → Prop} {p : StackProg ι ε α}
  {s : TwoStacks (SlotStack fits cap)}

theorem wp.run_slots {met : Prop} (hp : wp cap fits Q p (sizes (lists s)) met) :
    ((slotStacks cap blank).run p s).map (fun x => (x.1, lists x.2)) =
      (limitedStacks cap fits).run p (lists s) := by
  induction p generalizing s met with
  | done a => rfl
  | fail e => rfl
  | op w c k ih =>
    have hrange : c.InRange (s.get w).count := by
      have h := hp.1
      rwa [sizes, TwoStacks.get_map, get_lists, SlotStack.length_toList] at h
    have hexec : SlotStack.asList (SlotStack.exec c (s.get w)) =
        (limitedStacks cap fits).exec c ((lists s).get w) := by
      rw [get_lists]
      exact SlotStack.exec_toList c (s.get w) hrange
    obtain ⟨r, l, hlist, -, hk⟩ := hp.op (allFit_lists s)
    cases hslot : SlotStack.exec c (s.get w) with
    | error f =>
      rw [hslot] at hexec
      rw [(slotStacks cap blank).run_op_error hslot,
        (limitedStacks cap fits).run_op_error hexec.symm]
      rfl
    | ok x =>
      rw [hslot] at hexec
      rw [(slotStacks cap blank).run_op_ok hslot, (limitedStacks cap fits).run_op_ok hexec.symm,
        ← set_lists]
      obtain ⟨rfl, rfl⟩ : r = x.1 ∧ l = x.2.toList := by
        have hx := hlist.symm.trans (execList_of_limited hexec.symm)
        exact Prod.mk.injEq .. ▸ Except.ok.inj hx
      rw [← set_lists] at hk
      exact ih _ hk

/-- What a program does on slots, against lists without a limit: it fails alike, ends alike, or
finds no room in a run that then ends. -/
theorem wp.run_slots_cases (hp : wp cap fits Q p (sizes (lists s)) False) :
    (∃ e, (slotStacks cap blank).run p s = .error (.failed e) ∧
      (unlimitedStacks ι).run p (lists s) = .error (.failed e)) ∨
    (∃ a t, (slotStacks cap blank).run p s = .ok (a, t) ∧
      (unlimitedStacks ι).run p (lists s) = .ok (a, lists t) ∧ Q a (sizes (lists t)) False) ∨
    (∃ a t, (slotStacks cap blank).run p s = .error (.fault .full) ∧
      (unlimitedStacks ι).run p (lists s) = .ok (a, t) ∧ Q a (sizes t) True) := by
  have hslots := hp.run_slots blank
  rcases hp.run_limited (allFit_lists s) with ⟨e, hun, hlim⟩ | ⟨a, t, hun, hlim, hQ⟩ |
    ⟨a, t, hun, hlim, hQ⟩
  all_goals rw [hlim] at hslots
  · exact .inl ⟨e, eq_error_of_map hslots, hun⟩
  · obtain ⟨⟨a', t'⟩, hrun, hpair⟩ := exists_of_map_eq_ok hslots
    obtain ⟨rfl, rfl⟩ := Prod.mk.inj hpair
    exact .inr (.inl ⟨a', t', hrun, hun, hQ⟩)
  · exact .inr (.inr ⟨a, t, eq_error_of_map hslots, hun, hQ⟩)

end Programs

end ZClassic
