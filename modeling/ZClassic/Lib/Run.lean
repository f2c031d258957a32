import Mathlib.Data.List.Basic

/-!
# Runs of a deterministic machine

A machine takes one action after the other.
-/

namespace ZClassic

open List

section Run

variable {σ α : Type*} (step : σ → α → σ)

def run (s : σ) (acts : List α) : σ := acts.foldl step s

def MeetsAll (ok : σ → α → Prop) : σ → List α → Prop
  | _, [] => True
  | s, a :: acts => ok s a ∧ MeetsAll ok (step s a) acts

def MeetsSome (ok : σ → α → Prop) (s : σ) (acts : List α) : Prop :=
  ∃ before a after, acts = before ++ a :: after ∧ ok (run step s before) a

variable {step}

instance MeetsAll.decidable {ok : σ → α → Prop} [∀ s a, Decidable (ok s a)] :
    (s : σ) → (acts : List α) → Decidable (MeetsAll step ok s acts)
  | _, [] => .isTrue trivial
  | s, a :: acts =>
    haveI : Decidable (MeetsAll step ok (step s a) acts) := MeetsAll.decidable (step s a) acts
    inferInstanceAs (Decidable (ok s a ∧ MeetsAll step ok (step s a) acts))

@[simp]
theorem run_nil (s : σ) : run step s [] = s := rfl

@[simp]
theorem run_cons (s : σ) (a : α) (acts : List α) :
    run step s (a :: acts) = run step (step s a) acts := rfl

theorem run_append (s : σ) (acts acts' : List α) :
    run step s (acts ++ acts') = run step (run step s acts) acts' := foldl_append

variable {ok : σ → α → Prop} {s : σ} {acts : List α}

theorem meetsAll_append {acts acts' : List α} :
    MeetsAll step ok s (acts ++ acts') ↔
      MeetsAll step ok s acts ∧ MeetsAll step ok (run step s acts) acts' := by
  induction acts generalizing s with
  | nil => simp [MeetsAll]
  | cons a acts ih =>
    rw [cons_append, MeetsAll, MeetsAll, ih, run_cons, and_assoc]

theorem MeetsAll.imp {ok ok' : σ → α → Prop} (himp : ∀ s a, ok s a → ok' s a)
    (h : MeetsAll step ok s acts) : MeetsAll step ok' s acts := by
  induction acts generalizing s with
  | nil => trivial
  | cons a acts ih => exact ⟨himp s a h.1, ih h.2⟩

theorem meetsAll_of_forall (h : ∀ a ∈ acts, ∀ s, ok s a) (s : σ) : MeetsAll step ok s acts := by
  induction acts generalizing s with
  | nil => trivial
  | cons a acts ih =>
    rw [forall_mem_cons] at h
    exact ⟨h.1 s, ih h.2 _⟩

theorem meetsAll_and {ok ok' : σ → α → Prop} :
    MeetsAll step (fun s a => ok s a ∧ ok' s a) s acts ↔
      MeetsAll step ok s acts ∧ MeetsAll step ok' s acts := by
  induction acts generalizing s with
  | nil => simp [MeetsAll]
  | cons a acts ih =>
    rw [MeetsAll, MeetsAll, MeetsAll, ih, and_and_and_comm]

theorem MeetsSome.append (acts' : List α) (h : MeetsSome step ok s acts) :
    MeetsSome step ok s (acts ++ acts') := by
  obtain ⟨before, a, after, rfl, ha⟩ := h
  exact ⟨before, a, after ++ acts', by rw [append_assoc, cons_append], ha⟩

theorem meetsSome_concat {a : α} (h : ok (run step s acts) a) :
    MeetsSome step ok s (acts ++ [a]) := ⟨acts, a, [], rfl, h⟩

theorem run_invariant (P : σ → Prop) (hstep : ∀ s a, P s → ok s a → P (step s a)) (hinit : P s)
    (hok : MeetsAll step ok s acts) : P (run step s acts) := by
  induction acts generalizing s with
  | nil => exact hinit
  | cons a acts ih =>
    obtain ⟨ha, hacts⟩ := hok
    exact ih (hstep s a hinit ha) hacts

/-- Two conditions are met by the same runs if they agree where an invariant holds that the first
one keeps. -/
theorem meetsAll_congr {ok ok' : σ → α → Prop} (P : σ → Prop)
    (hiff : ∀ s a, P s → (ok s a ↔ ok' s a)) (hstep : ∀ s a, P s → ok s a → P (step s a))
    (hinit : P s) : MeetsAll step ok s acts ↔ MeetsAll step ok' s acts := by
  induction acts generalizing s with
  | nil => exact Iff.rfl
  | cons a acts ih =>
    rw [MeetsAll, MeetsAll, ← hiff s a hinit]
    exact and_congr_right fun ha => ih (hstep s a hinit ha)

section Purge

variable (step) (drop : σ → α → Prop) [∀ s a, Decidable (drop s a)]

/-- The actions that the condition does not drop in the state they are taken in. -/
def purge : σ → List α → List α
  | _, [] => []
  | s, a :: acts =>
    if drop s a then purge (step s a) acts else a :: purge (step s a) acts

/-- The states that the remaining actions meet, and the last state. -/
def statesMet : σ → List α → List σ
  | s, [] => [s]
  | s, a :: acts =>
    if drop s a then statesMet (step s a) acts else s :: statesMet (step s a) acts

variable {step drop}

section

variable (h : MeetsAll step (fun s a => drop s a → step s a = s) s acts)

include h

theorem statesMet_purge :
    statesMet step drop s acts = statesMet step (fun _ _ => False) s (purge step drop s acts) := by
  induction acts generalizing s with
  | nil => rfl
  | cons a acts ih =>
    obtain ⟨ha, hacts⟩ := h
    by_cases hdrop : drop s a
    · rw [statesMet, if_pos hdrop, purge, if_pos hdrop, ih hacts]
      rw [ha hdrop]
    · rw [statesMet, if_neg hdrop, purge, if_neg hdrop, ih hacts, statesMet, if_neg not_false]

theorem run_purge :
    run step s acts = run step s (purge step drop s acts) := by
  induction acts generalizing s with
  | nil => rfl
  | cons a acts ih =>
    obtain ⟨ha, hacts⟩ := h
    by_cases hdrop : drop s a
    · rw [run_cons, purge, if_pos hdrop, ih hacts]
      rw [ha hdrop]
    · rw [run_cons, purge, if_neg hdrop, run_cons, ih hacts]

end

end Purge

end Run

end ZClassic
