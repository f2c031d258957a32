import Mathlib.Order.Lattice

/-!
# A running best

One pass over a list keeps a best element, which an element replaces if a test that may look at the
current best lets it.
-/

namespace ZClassic

section RunningBest

variable {α : Type} (accepts : Option α → α → Bool)

def runningBest (start : Option α) (xs : List α) : Option α :=
  xs.foldl (fun best x => if accepts best x then some x else best) start

theorem runningBest_cons (start : Option α) (x : α) (xs : List α) :
    runningBest accepts start (x :: xs) =
      runningBest accepts (if accepts start x then some x else start) xs := rfl

variable {accepts} {β : Type} [LinearOrder β] {weight : α → β}
  (hheavier : ∀ best x, accepts best x = true → ∀ b ∈ best, weight b < weight x)

include hheavier

theorem runningBest_cases (start : Option α) (xs : List α) :
    runningBest accepts start xs = start ∨
      ∃ x ∈ xs, runningBest accepts start xs = some x ∧ (∃ best, accepts best x = true) ∧
        ∀ b ∈ start, weight b < weight x := by
  induction xs generalizing start with
  | nil => exact .inl rfl
  | cons x xs ih =>
    rw [runningBest_cons]
    split_ifs with hx
    · have hxs := hheavier start x hx
      rcases ih (some x) with hstay | ⟨y, hy, hbest, hover, hlt⟩
      · exact .inr ⟨x, List.mem_cons_self, hstay, ⟨start, hx⟩, hxs⟩
      · exact .inr ⟨y, List.mem_cons_of_mem x hy, hbest, hover,
          fun b hb => (hxs b hb).trans (hlt x rfl)⟩
    · rcases ih start with hstay | ⟨y, hy, hbest⟩
      · exact .inl hstay
      · exact .inr ⟨y, List.mem_cons_of_mem x hy, hbest⟩

theorem le_runningBest {b : α} (xs : List α) :
    ∃ r ∈ runningBest accepts (some b) xs, weight b ≤ weight r := by
  rcases runningBest_cases hheavier (some b) xs with hstay | ⟨r, -, hr, -, hlt⟩
  · exact ⟨b, hstay, le_rfl⟩
  · exact ⟨r, hr, (hlt b rfl).le⟩

theorem le_runningBest_of_mem {x : α} {xs : List α} (hmem : x ∈ xs)
    (hpasses : ∀ best, (∀ b ∈ best, weight b < weight x) → accepts best x = true)
    (start : Option α) : ∃ r ∈ runningBest accepts start xs, weight x ≤ weight r := by
  induction xs generalizing start with
  | nil => exact absurd hmem List.not_mem_nil
  | cons y ys ih =>
    rw [runningBest_cons]
    rcases List.mem_cons.mp hmem with rfl | hmem
    · split_ifs with hx
      · exact le_runningBest hheavier ys
      · -- it is refused only by something at least as heavy
        cases start with
        | none => exact absurd (hpasses none fun b hb => nomatch hb) hx
        | some b =>
          have hle : weight x ≤ weight b := by
            by_contra hlt
            apply hx
            apply hpasses
            intro c hc
            rw [← Option.mem_some.mp hc]
            exact not_le.mp hlt
          obtain ⟨r, hr, hler⟩ := le_runningBest (b := b) hheavier ys
          exact ⟨r, hr, hle.trans hler⟩
    · exact ih hmem _

end RunningBest

end ZClassic
