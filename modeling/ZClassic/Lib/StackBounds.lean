import ZClassic.Lib.StackProgram
import Mathlib.Data.List.Basic

/-!
# Stacks without room

Two list machines: one without a limit, and one that refuses an item when `cap` items are there or
the item does not fit. If `wp` holds, a program that has met the limit goes on without failing where
there is none, so what the limit refuses can be judged after the program, by the size of the stacks.
-/

namespace ZClassic

open List StackOp StackProg

namespace StackOp

variable {ι : Type}

def item : StackOp ι → Option ι
  | push x => some x
  | insertAt _ x => some x
  | _ => none

def InRange : StackOp ι → ℕ → Prop
  | top i, n => 1 ≤ i ∧ i ≤ n
  | eraseAt i, n => 1 ≤ i ∧ i ≤ n
  | eraseRange i j, n => j < i ∧ i ≤ n
  | insertAt i _, n => i ≤ n
  | swap i j, n => (1 ≤ i ∧ i ≤ n) ∧ 1 ≤ j ∧ j ≤ n
  | _, _ => True

def sizeAfter : StackOp ι → ℕ → ℕ
  | pop, n => n - 1
  | push _, n => n + 1
  | eraseAt _, n => n - 1
  | eraseRange i j, n => n - (i - j)
  | insertAt _ _, n => n + 1
  | _, n => n

/-- What is known of the reply of a stack with `n` items that fit. -/
def Answers (fits : ι → Prop) : (c : StackOp ι) → ℕ → c.Reply → Prop
  | count, n, r => r = n
  | top _, _, r => fits r
  | _, _, _ => True

def fromTop (l : List ι) (i : ℕ) : Option ι :=
  if 1 ≤ i ∧ i ≤ l.length then l[l.length - i]? else none

/-- The stack as a list. Erasing outside of it does nothing. -/
def execList : (c : StackOp ι) → List ι → Except StackFault (c.Reply × List ι)
  | count, l => .ok (l.length, l)
  | top i, l =>
    match fromTop l i with
    | some x => .ok (x, l)
    | none => .error .outOfBounds
  | pop, l => .ok ((), l.dropLast)
  | push x, l => .ok ((), l ++ [x])
  | eraseAt i, l => .ok ((), if 1 ≤ i ∧ i ≤ l.length then l.eraseIdx (l.length - i) else l)
  | eraseRange i j, l =>
    .ok ((), if j ≤ i ∧ i ≤ l.length then l.take (l.length - i) ++ l.drop (l.length - j) else l)
  | insertAt i x, l =>
    if i ≤ l.length then .ok ((), l.insertIdx (l.length - i) x) else .error .full
  | swap i j, l =>
    match fromTop l i, fromTop l j with
    | some x, some y => .ok ((), (l.set (l.length - i) y).set (l.length - j) x)
    | _, _ => .error .outOfBounds

variable {l : List ι}

theorem fromTop_eq_some {i : ℕ} (h : 1 ≤ i ∧ i ≤ l.length) : ∃ x ∈ l, fromTop l i = some x := by
  have hlt : l.length - i < l.length := by omega
  refine ⟨l[l.length - i], getElem_mem hlt, ?_⟩
  rw [fromTop, if_pos h, getElem?_eq_getElem hlt]

theorem execList_spec (fits : ι → Prop) (c : StackOp ι) (hrange : c.InRange l.length)
    (hitem : ∀ x ∈ c.item, fits x) (hl : ∀ x ∈ l, fits x) :
    ∃ r l', c.execList l = .ok (r, l') ∧ c.Answers fits l.length r ∧
      l'.length = c.sizeAfter l.length ∧ ∀ x ∈ l', fits x := by
  cases c with
  | count => exact ⟨l.length, l, rfl, rfl, rfl, hl⟩
  | top i =>
    obtain ⟨x, hmem, hx⟩ := fromTop_eq_some hrange
    refine ⟨x, l, ?_, hl x hmem, rfl, hl⟩
    rw [execList, hx]
  | pop =>
    exact ⟨(), l.dropLast, rfl, trivial, length_dropLast, fun x hx => hl x (dropLast_subset l hx)⟩
  | push x =>
    refine ⟨(), _, rfl, trivial, length_append, fun y hy => ?_⟩
    rcases mem_append.mp hy with hy | hy
    · exact hl y hy
    · exact hitem y (by rw [mem_singleton.mp hy]; rfl)
  | eraseAt i =>
    have hrange : 1 ≤ i ∧ i ≤ l.length := hrange
    have hlt : l.length - i < l.length := by omega
    refine ⟨(), l.eraseIdx (l.length - i), ?_, trivial, length_eraseIdx_of_lt hlt, fun x hx =>
      hl x (mem_of_mem_eraseIdx hx)⟩
    rw [execList, if_pos hrange]
  | eraseRange i j =>
    have hrange : j < i ∧ i ≤ l.length := hrange
    refine ⟨(), l.take (l.length - i) ++ l.drop (l.length - j), ?_, trivial, ?_, fun x hx => ?_⟩
    · rw [execList, if_pos ⟨Nat.le_of_lt hrange.1, hrange.2⟩]
    · change _ = l.length - (i - j)
      rw [length_append, length_take, length_drop]
      omega
    · rcases mem_append.mp hx with hx | hx
      · exact hl x (mem_of_mem_take hx)
      · exact hl x (mem_of_mem_drop hx)
  | insertAt i x =>
    have hrange : i ≤ l.length := hrange
    refine ⟨(), l.insertIdx (l.length - i) x, ?_, trivial,
      length_insertIdx_of_le_length (Nat.sub_le ..) x, fun y hy => ?_⟩
    · rw [execList, if_pos hrange]
    · rcases (mem_insertIdx (Nat.sub_le ..)).mp hy with rfl | hy
      · exact hitem y rfl
      · exact hl y hy
  | swap i j =>
    obtain ⟨x, hx, hi⟩ := fromTop_eq_some hrange.1
    obtain ⟨y, hy, hj⟩ := fromTop_eq_some hrange.2
    refine ⟨(), (l.set (l.length - i) y).set (l.length - j) x, ?_, trivial, ?_, fun z hz => ?_⟩
    · rw [execList, hi, hj]
    · rw [length_set, length_set]
      rfl
    · rcases mem_or_eq_of_mem_set hz with hz | rfl
      · rcases mem_or_eq_of_mem_set hz with hz | rfl
        · exact hl z hz
        · exact hl z hy
      · exact hl z hx

end StackOp

variable {ι ε α β : Type}

@[reducible]
def unlimitedStacks (ι : Type) : StackMachine ι where
  Stack := List ι
  empty := []
  size := length
  exec := StackOp.execList

/-- An item that finds `cap` items, or does not fit, is refused. -/
@[reducible]
def limitedStacks (cap : ℕ) (fits : ι → Prop) [DecidablePred fits] : StackMachine ι where
  Stack := List ι
  empty := []
  size := length
  exec c l := if ∃ x ∈ c.item, cap ≤ l.length ∨ ¬fits x then .error .full else c.execList l

variable {cap : ℕ}

section

variable {fits : ι → Prop} [DecidablePred fits] {c : StackOp ι} {l : List ι}

theorem limitedStacks_room (h : ∀ x ∈ c.item, l.length < cap ∧ fits x) :
    (limitedStacks cap fits).exec c l = c.execList l := by
  apply if_neg
  rintro ⟨x, hx, hcap | hnot⟩
  · exact absurd (h x hx).1 (Nat.not_lt.mpr hcap)
  · exact hnot (h x hx).2

theorem limitedStacks_full {x : ι} (hx : x ∈ c.item) (h : cap ≤ l.length ∨ ¬fits x) :
    (limitedStacks cap fits).exec c l = .error .full :=
  if_pos ⟨x, hx, h⟩

theorem execList_of_limited {x : c.Reply × List ι}
    (h : (limitedStacks cap fits).exec c l = .ok x) : c.execList l = .ok x := by
  by_cases hfull : ∃ x ∈ c.item, cap ≤ l.length ∨ ¬fits x
  · cases (if_pos hfull).symm.trans h
  · exact (if_neg hfull).symm.trans h

end

/-- `Q` holds at the end whenever `p` ends, from stacks of sizes `n`. `met` says that an item found
no room so far: from then on the program must not fail. All positions are in range and all items
fit. -/
def wp (cap : ℕ) (fits : ι → Prop) (Q : α → TwoStacks ℕ → Prop → Prop) :
    StackProg ι ε α → TwoStacks ℕ → Prop → Prop
  | .done a, n, met => Q a n met
  | .fail _, _, met => ¬met
  | .op w c k, n, met =>
    c.InRange (n.get w) ∧ (∀ x ∈ c.item, fits x) ∧
      ∀ r, c.Answers fits (n.get w) r →
        wp cap fits Q (k r) (n.set w (c.sizeAfter (n.get w)))
          (met ∨ c.item.isSome ∧ cap ≤ n.get w)

variable {fits : ι → Prop} {Q : α → TwoStacks ℕ → Prop → Prop} {R : β → TwoStacks ℕ → Prop → Prop}
  {p : StackProg ι ε α} {e : ε} {c met : Prop} {s : TwoStacks (List ι)}

section Rules

variable {n : TwoStacks ℕ}

@[simp]
theorem wp_bind (p : StackProg ι ε α) (f : α → StackProg ι ε β) :
    wp cap fits R (p >>= f) n met ↔ wp cap fits (fun a => wp cap fits R (f a)) p n met := by
  induction p generalizing n met with
  | done a => exact Iff.rfl
  | fail e => exact Iff.rfl
  | op w c k ih => exact and_congr_right' (and_congr_right' (forall₂_congr fun r _ => ih r))

theorem wp_seq {f : α → StackProg ι ε β} (h : wp cap fits (fun a => wp cap fits R (f a)) p n met) :
    wp cap fits R (p >>= f) n met :=
  (wp_bind p f).mpr h

theorem wp.mono {R : α → TwoStacks ℕ → Prop → Prop} (h : ∀ a m met, Q a m met → R a m met)
    (hp : wp cap fits Q p n met) : wp cap fits R p n met := by
  induction p generalizing n met with
  | done a => exact h _ _ _ hp
  | fail e => exact hp
  | op w c k ih => exact ⟨hp.1, hp.2.1, fun r hr => ih r (hp.2.2 r hr)⟩

@[simp]
theorem wp_pure {a : α} : wp cap fits Q (pure a : StackProg ι ε α) n met ↔ Q a n met := Iff.rfl

@[simp]
theorem wp_fail : wp cap fits Q (.fail e : StackProg ι ε α) n met ↔ ¬met := Iff.rfl

@[simp]
theorem wp_failIf [Decidable c] {Q : Unit → TwoStacks ℕ → Prop → Prop} :
    wp cap fits Q (failIf c e : StackProg ι ε Unit) n met ↔ (c → ¬met) ∧ (¬c → Q () n met) := by
  unfold failIf
  split <;> simp [wp, *]

@[simp]
theorem wp_ite [Decidable c] {p q : StackProg ι ε α} :
    wp cap fits Q (if c then p else q) n met ↔
      (c → wp cap fits Q p n met) ∧ (¬c → wp cap fits Q q n met) := by
  split <;> simp [*]

theorem wp_ofExcept {x : Except ε α} :
    wp cap fits Q (StackProg.ofExcept x : StackProg ι ε α) n met ↔
      (∀ e, x = .error e → ¬met) ∧ ∀ a, x = .ok a → Q a n met := by
  cases x <;> simp [StackProg.ofExcept, wp]

section Operations

variable {w : StackId} {i j : ℕ} {x : ι} {Q : Unit → TwoStacks ℕ → Prop → Prop}

attribute [local simp] wp StackOp.InRange item StackOp.Answers sizeAfter StackOp.Reply
  TwoStacks.set_get Unique.forall_iff

@[simp]
theorem wp_count {Q : ℕ → TwoStacks ℕ → Prop → Prop} :
    wp cap fits Q (StackProg.count w : StackProg ι ε ℕ) n met ↔ Q (n.get w) n met := by
  simp [StackProg.count]

@[simp]
theorem wp_top {Q : ι → TwoStacks ℕ → Prop → Prop} :
    wp cap fits Q (StackProg.top w i : StackProg ι ε ι) n met ↔
      (1 ≤ i ∧ i ≤ n.get w) ∧ ∀ x, fits x → Q x n met := by
  simp [StackProg.top]

@[simp]
theorem wp_pop :
    wp cap fits Q (StackProg.pop w : StackProg ι ε Unit) n met ↔
      Q () (n.set w (n.get w - 1)) met := by
  simp [StackProg.pop]

@[simp]
theorem wp_push :
    wp cap fits Q (StackProg.push w x : StackProg ι ε Unit) n met ↔
      fits x ∧ Q () (n.set w (n.get w + 1)) (met ∨ cap ≤ n.get w) := by
  simp [StackProg.push]

@[simp]
theorem wp_eraseAt :
    wp cap fits Q (StackProg.eraseAt w i : StackProg ι ε Unit) n met ↔
      (1 ≤ i ∧ i ≤ n.get w) ∧ Q () (n.set w (n.get w - 1)) met := by
  simp [StackProg.eraseAt]

@[simp]
theorem wp_eraseRange :
    wp cap fits Q (StackProg.eraseRange w i j : StackProg ι ε Unit) n met ↔
      (j < i ∧ i ≤ n.get w) ∧ Q () (n.set w (n.get w - (i - j))) met := by
  simp [StackProg.eraseRange]

@[simp]
theorem wp_insertAt :
    wp cap fits Q (StackProg.insertAt w i x : StackProg ι ε Unit) n met ↔
      i ≤ n.get w ∧ fits x ∧ Q () (n.set w (n.get w + 1)) (met ∨ cap ≤ n.get w) := by
  simp [StackProg.insertAt]

@[simp]
theorem wp_swap :
    wp cap fits Q (StackProg.swap w i j : StackProg ι ε Unit) n met ↔
      ((1 ≤ i ∧ i ≤ n.get w) ∧ 1 ≤ j ∧ j ≤ n.get w) ∧ Q () n met := by
  simp [StackProg.swap]

end Operations

end Rules

section Limit

def sizes (s : TwoStacks (List ι)) : TwoStacks ℕ := s.map length

def AllFit (fits : ι → Prop) (s : TwoStacks (List ι)) : Prop := ∀ w, ∀ x ∈ s.get w, fits x

theorem AllFit.set (h : AllFit fits s) (w : StackId) {l : List ι} (hl : ∀ x ∈ l, fits x) :
    AllFit fits (s.set w l) := by
  intro v
  cases v <;> cases w
  · exact hl
  · exact h .main
  · exact h .alt
  · exact hl

theorem wp.op {w : StackId} {c : StackOp ι} {k : c.Reply → StackProg ι ε α}
    (hp : wp cap fits Q (.op w c k) (sizes s) met) (hfit : AllFit fits s) :
    ∃ r l, c.execList (s.get w) = .ok (r, l) ∧ AllFit fits (s.set w l) ∧
      wp cap fits Q (k r) (sizes (s.set w l))
        (met ∨ c.item.isSome ∧ cap ≤ (s.get w).length) := by
  obtain ⟨hrange, hitem, hk⟩ := hp
  rw [sizes, TwoStacks.get_map] at hrange hk
  obtain ⟨r, l, hexec, hr, hlen, hl⟩ := c.execList_spec fits hrange hitem (hfit w)
  refine ⟨r, l, hexec, hfit.set w hl, ?_⟩
  rw [sizes, TwoStacks.set_map, hlen]
  exact hk r hr

theorem wp.run_met (hmet : met) (hp : wp cap fits Q p (sizes s) met) (hfit : AllFit fits s) :
    ∃ a t, (unlimitedStacks ι).run p s = .ok (a, t) ∧ Q a (sizes t) True := by
  induction p generalizing s met with
  | done a => exact ⟨a, s, rfl, by rw [eq_true hmet] at hp; exact hp⟩
  | fail e => exact absurd hmet hp
  | op w c k ih =>
    obtain ⟨r, l, hexec, hfit, hk⟩ := hp.op hfit
    rw [(unlimitedStacks ι).run_op_ok hexec]
    exact ih r (.inl hmet) hk hfit

variable [DecidablePred fits]

theorem wp.run_limited (hp : wp cap fits Q p (sizes s) False) (hfit : AllFit fits s) :
    (∃ e, (unlimitedStacks ι).run p s = .error (.failed e) ∧
      (limitedStacks cap fits).run p s = .error (.failed e)) ∨
    (∃ a t, (unlimitedStacks ι).run p s = .ok (a, t) ∧
      (limitedStacks cap fits).run p s = .ok (a, t) ∧ Q a (sizes t) False) ∨
    (∃ a t, (unlimitedStacks ι).run p s = .ok (a, t) ∧
      (limitedStacks cap fits).run p s = .error (.fault .full) ∧ Q a (sizes t) True) := by
  induction p generalizing s with
  | done a => exact .inr (.inl ⟨a, s, rfl, rfl, hp⟩)
  | fail e => exact .inl ⟨e, rfl, rfl⟩
  | op w c k ih =>
    have hitem := hp.2.1
    obtain ⟨r, l, hexec, hset, hk⟩ := hp.op hfit
    rw [(unlimitedStacks ι).run_op_ok hexec]
    by_cases hfull : c.item.isSome ∧ cap ≤ (s.get w).length
    · obtain ⟨x, hx⟩ := Option.isSome_iff_exists.mp hfull.1
      have hrefused : (limitedStacks cap fits).run (.op w c k) s = .error (.fault .full) :=
        StackMachine.run_op_error _ (limitedStacks_full hx (.inl hfull.2))
      obtain ⟨a, t, hrun, hQ⟩ := hk.run_met (.inr hfull) hset
      exact .inr (.inr ⟨a, t, hrun, hrefused, hQ⟩)
    · have hroom : ∀ x ∈ c.item, (s.get w).length < cap ∧ fits x := by
        intro x hx
        refine ⟨Nat.lt_of_not_le fun hcap => hfull ⟨?_, hcap⟩, hitem x hx⟩
        exact Option.isSome_iff_exists.mpr ⟨x, hx⟩
      rw [(limitedStacks cap fits).run_op_ok ((limitedStacks_room hroom).trans hexec)]
      rw [eq_false (not_or.mpr ⟨not_false, hfull⟩)] at hk
      exact ih r hk hset

end Limit

end ZClassic
