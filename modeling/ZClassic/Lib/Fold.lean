import Mathlib.Data.List.Basic

/-!
# Loops with an early exit

`List.foldlM` in `Except ε` is a loop that leaves on the first error.
-/

namespace ZClassic

universe u

open List

variable {ε α : Type*} {σ β : Type u} {f : σ → α → Except ε σ}

@[simp]
theorem ok_bind (a : σ) (g : σ → Except ε β) : (Except.ok a >>= g) = g a := rfl

variable {b : β} {g : σ → Except ε β} {x : Except ε σ} {e : ε} {p : Prop} {l : List α} {s s' : σ}

theorem bind_eq_ok (h : x >>= g = .ok b) : ∃ a, x = .ok a ∧ g a = .ok b := by
  cases x with
  | error e => cases h
  | ok a => exact ⟨a, rfl, h⟩

theorem bind_eq_error (h : x >>= g = .error e) :
    x = .error e ∨ ∃ a, x = .ok a ∧ g a = .error e := by
  cases x with
  | error e' => cases h; exact .inl rfl
  | ok a => exact .inr ⟨a, rfl, h⟩

variable {g : σ → β}

theorem eq_error_of_map (h : x.map g = .error e) : x = .error e := by
  cases x with
  | error e' => exact congrArg Except.error (Except.error.inj h)
  | ok a => cases h

theorem exists_of_map_eq_ok (h : x.map g = .ok b) : ∃ a, x = .ok a ∧ g a = b := by
  cases x with
  | error e => cases h
  | ok a => exact ⟨a, rfl, Except.ok.inj h⟩

theorem exists_eq_ok (h : x.isOk = true) : ∃ a, x = .ok a := by
  cases x with
  | error e => cases h
  | ok a => exact ⟨a, rfl⟩

def refuseIf (p : Prop) [Decidable p] (e : ε) : Except ε Unit := if p then .error e else .ok ()

@[simp]
theorem refuseIf_eq_ok_iff [Decidable p] : refuseIf p e = .ok () ↔ ¬p := by
  unfold refuseIf
  split <;> simp [*]

theorem refuseIf_bind_eq_ok [Decidable p] {γ : Type} {rest : Unit → Except ε γ} {c : γ} :
    (refuseIf p e >>= rest) = .ok c ↔ ¬p ∧ rest () = .ok c := by
  unfold refuseIf
  split
  · next hp => exact ⟨nofun, fun h => absurd hp h.1⟩
  · next hp => exact ⟨fun h => ⟨hp, h⟩, fun h => h.2⟩

theorem foldlM_ok_cons {x : α} (h : (x :: l).foldlM f s = .ok s') :
    ∃ t, f s x = .ok t ∧ l.foldlM f t = .ok s' := by
  rw [foldlM_cons] at h
  exact bind_eq_ok h

theorem foldlM_ok_append {l l' : List α} (h : (l ++ l').foldlM f s = .ok s') :
    ∃ t, l.foldlM f s = .ok t ∧ l'.foldlM f t = .ok s' := by
  rw [foldlM_append] at h
  exact bind_eq_ok h

theorem foldlM_error {s : σ} (h : l.foldlM f s = .error e) : ∃ t x, f t x = .error e := by
  induction l generalizing s with
  | nil => cases h
  | cons x l ih =>
    rw [foldlM_cons] at h
    rcases bind_eq_error h with hx | ⟨t, -, ht⟩
    · exact ⟨s, x, hx⟩
    · exact ih ht

/-- The loop rule: an invariant of the processed part and the state that every successful
iteration extends holds of the whole list at the end. -/
theorem foldlM_invariant (P : List α → σ → Prop) (hrun : l.foldlM f s = .ok s') (hinit : P [] s)
    (hstep : ∀ done x todo t t', l = done ++ x :: todo → P done t → f t x = .ok t' →
      P (done ++ [x]) t') :
    P l s' := by
  -- the loop is generalised to start after any processed part `done`
  suffices h : ∀ (todo done : List α) (t : σ), l = done ++ todo → P done t →
      todo.foldlM f t = .ok s' → P l s' from h l [] s rfl hinit hrun
  intro todo
  induction todo with
  | nil =>
    intro done t hl hP ht
    rw [append_nil] at hl
    cases ht
    exact hl ▸ hP
  | cons x todo ih =>
    intro done t hl hP ht
    obtain ⟨t', hx, ht'⟩ := foldlM_ok_cons ht
    exact ih (done ++ [x]) t' (by simp [hl]) (hstep done x todo t t' hl hP hx) ht'

theorem foldlM_unit_eq_ok_iff {check : α → Except ε Unit} :
    l.foldlM (fun _ x => check x) () = .ok () ↔ ∀ x ∈ l, check x = .ok () := by
  induction l with
  | nil => simp [pure, Except.pure]
  | cons x l ih =>
    rw [foldlM_cons, forall_mem_cons, ← ih]
    cases hx : check x with
    | error e => simp [bind, Except.bind]
    | ok u => simp [bind, Except.bind]

/-- The state a loop ends in, whether it ran through or stopped. -/
def final : Except σ σ → σ
  | .ok s => s
  | .error s => s

theorem final_foldlM_invariant {f : σ → α → Except σ σ} (P : σ → Prop) {s : σ}
    (hstep : ∀ x ∈ l, ∀ t, P t → P (final (f t x))) (hinit : P s) : P (final (l.foldlM f s)) := by
  induction l generalizing s with
  | nil => exact hinit
  | cons x l ih =>
    have hx := hstep x mem_cons_self s hinit
    rw [foldlM_cons]
    cases hfx : f s x with
    | error t =>
      rw [hfx] at hx
      exact hx
    | ok t =>
      rw [hfx] at hx
      exact ih (fun y hy => hstep y (mem_cons_of_mem x hy)) hx

end ZClassic
