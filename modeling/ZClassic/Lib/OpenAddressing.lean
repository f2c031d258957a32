import Mathlib.Data.List.Basic
import Mathlib.Data.Nat.Bitwise

/-!
# Open addressing

A hash table in a list of slots, probed linearly from the slot of the hash.
-/

namespace ZClassic

open List Function

/-- The slots in the order they are probed; `n` is a power of two. -/
def probe (n start : ℕ) : List ℕ := (List.range n).map fun i => (start + i) &&& (n - 1)

theorem mem_probe {k t : ℕ} (ht : t < 2 ^ k) (start : ℕ) : t ∈ probe (2 ^ k) start := by
  rw [probe, mem_map]
  -- the distance from the start to `t`, once around the table
  refine ⟨(t + (2 ^ k - start % 2 ^ k)) % 2 ^ k, ?_, ?_⟩
  · rw [mem_range]
    exact Nat.mod_lt _ (Nat.two_pow_pos k)
  · have hstart : start % 2 ^ k < 2 ^ k := Nat.mod_lt _ (Nat.two_pow_pos k)
    have hsum : start % 2 ^ k + (t + (2 ^ k - start % 2 ^ k)) = t + 2 ^ k := by omega
    rw [Nat.and_two_pow_sub_one_eq_mod, Nat.add_mod_mod, ← Nat.mod_add_mod, hsum,
      Nat.add_mod_right, Nat.mod_eq_of_lt ht]

theorem lt_of_mem_probe {k t start : ℕ} (h : t ∈ probe (2 ^ k) start) : t < 2 ^ k := by
  rw [probe, mem_map] at h
  obtain ⟨i, -, rfl⟩ := h
  rw [Nat.and_two_pow_sub_one_eq_mod]
  exact Nat.mod_lt _ (Nat.two_pow_pos k)

variable {free : Option ℕ} {i f : ℕ} {l : List ℕ}

section Walk

variable (live found virgin : ℕ → Bool)

/-- What a search ends with: the slot of the key, or the first free slot on the way. -/
inductive ProbeResult where
  | hit (i : ℕ)
  | miss (free : Option ℕ)
  deriving DecidableEq

def probeWalk : List ℕ → Option ℕ → ProbeResult
  | [], free => .miss free
  | i :: rest, free =>
    if live i then
      if found i then .hit i else probeWalk rest free
    else if virgin i then .miss (free <|> some i)
    else probeWalk rest (free <|> some i)

variable {live found virgin}

theorem probeWalk_hit (h : probeWalk live found virgin l free = .hit i) :
    live i = true ∧ found i = true := by
  induction l generalizing free with
  | nil => cases h
  | cons j rest ih =>
    unfold probeWalk at h
    split_ifs at h with hlive hfound hvirgin
    · cases h
      exact ⟨hlive, hfound⟩
    · exact ih h
    · exact ih h

theorem probeWalk_ne_miss_none (h : free.isSome ∨ ∃ i ∈ l, live i = false) :
    probeWalk live found virgin l free ≠ .miss none := by
  induction l generalizing free with
  | nil =>
    rcases h with h | ⟨i, hi, -⟩
    · intro hmiss
      cases hmiss
      cases h
    · cases hi
  | cons j rest ih =>
    unfold probeWalk
    split_ifs with hlive hfound hvirgin
    · exact nofun
    · apply ih
      apply h.imp_right
      rintro ⟨i, hi, hfree⟩
      refine ⟨i, (mem_cons.mp hi).resolve_left ?_, hfree⟩
      rintro rfl
      rw [hlive] at hfree
      cases hfree
    · cases free <;> exact nofun
    · apply ih
      left
      cases free <;> rfl

def FirstFree (live : ℕ → Bool) (path : List ℕ) (f : ℕ) : Prop :=
  live f = false ∧ ∃ pre post, path = pre ++ f :: post ∧ ∀ j ∈ pre, live j = true

theorem FirstFree.mem (h : FirstFree live l f) : f ∈ l := by
  obtain ⟨-, pre, post, rfl, -⟩ := h
  exact mem_append_right _ mem_cons_self

theorem FirstFree.find?_eq (h : FirstFree live l f) : l.find? (fun i => !live i) = some f := by
  obtain ⟨hf, pre, post, rfl, hpre⟩ := h
  rw [find?_eq_some_iff_append]
  refine ⟨by rw [hf]; rfl, pre, post, rfl, ?_⟩
  intro j hj
  rw [hpre j hj]
  rfl

theorem exists_firstFree (h : ∃ i ∈ l, live i = false) : ∃ f, FirstFree live l f := by
  obtain ⟨i, hi, hfree⟩ := h
  have hsome : (l.find? fun i => !live i).isSome := by
    rw [find?_isSome]
    exact ⟨i, hi, by rw [hfree]; rfl⟩
  obtain ⟨f, hf⟩ := Option.isSome_iff_exists.mp hsome
  obtain ⟨hfree', pre, post, hl, hpre⟩ := find?_eq_some_iff_append.mp hf
  refine ⟨f, by simpa using hfree', pre, post, hl, ?_⟩
  intro j hj
  simpa using hpre j hj

theorem probeWalk_miss_some {g : ℕ} (h : probeWalk live found virgin l (some g) = .miss free) :
    free = some g := by
  induction l with
  | nil =>
    cases h
    rfl
  | cons j rest ih =>
    unfold probeWalk at h
    split_ifs at h with hlive hfound hvirgin
    · exact ih h
    · cases h
      rfl
    · exact ih h

theorem probeWalk_miss (h : probeWalk live found virgin l none = .miss (some f)) :
    FirstFree live l f := by
  induction l with
  | nil => cases h
  | cons j rest ih =>
    unfold probeWalk at h
    split_ifs at h with hlive hfound hvirgin
    · obtain ⟨hf, pre, post, hrest, hpre⟩ := ih h
      exact ⟨hf, j :: pre, post, by rw [hrest]; rfl, forall_mem_cons.mpr ⟨hlive, hpre⟩⟩
    · cases h
      exact ⟨Bool.eq_false_iff.mpr hlive, [], rest, rfl, nofun⟩
    · cases probeWalk_miss_some h
      exact ⟨Bool.eq_false_iff.mpr hlive, [], rest, rfl, nofun⟩

theorem probeWalk_eq_hit {pre post : List ℕ} (hlive : live i = true) (hfound : found i = true)
    (hunique : ∀ j, live j = true → found j = true → j = i) (hpre : ∀ j ∈ pre, virgin j = false)
    (free : Option ℕ) : probeWalk live found virgin (pre ++ i :: post) free = .hit i := by
  induction pre generalizing free with
  | nil => rw [nil_append, probeWalk, if_pos hlive, if_pos hfound]
  | cons j pre ih =>
    rw [forall_mem_cons] at hpre
    rw [cons_append, probeWalk, hpre.1, if_neg Bool.false_ne_true]
    split_ifs with hj hfj
    · rw [hunique j hj hfj]
    · exact ih hpre.2 _
    · exact ih hpre.2 _

end Walk

section Chains

variable {σ κ : Type*} (path : κ → List ℕ) (live : σ → Bool) (key : σ → κ) (null : κ)

/-- Every key in use is there once, and the way to it leads over slots that were used before; such a
slot has a key still. -/
structure Chained (t : ℕ → σ) : Prop where
  nonnull : ∀ i, live (t i) = true → key (t i) ≠ null
  reached : ∀ i, live (t i) = true →
    ∃ pre post, path (key (t i)) = pre ++ i :: post ∧ ∀ j ∈ pre, key (t j) ≠ null
  unique : ∀ i j, live (t i) = true → live (t j) = true → key (t i) = key (t j) → i = j

variable {path live key null} {t : ℕ → σ}

theorem Chained.of_forall_not (h : ∀ i, live (t i) = false) : Chained path live key null t := by
  have hnot : ∀ i, live (t i) ≠ true := fun i => Bool.eq_false_iff.mp (h i)
  exact ⟨fun i hi => absurd hi (hnot i), fun i hi => absurd hi (hnot i),
    fun i _ hi => absurd hi (hnot i)⟩

section

variable (h : Chained path live key null t)

include h

theorem Chained.walk [BEq κ] [LawfulBEq κ]
    (hi : live (t i) = true) (free : Option ℕ) :
    probeWalk (fun j => live (t j)) (fun j => key (t j) == key (t i)) (fun j => key (t j) == null)
      (path (key (t i))) free = .hit i := by
  obtain ⟨pre, post, hpath, hpre⟩ := h.reached i hi
  rw [hpath]
  refine probeWalk_eq_hit hi (beq_self_eq_true (key (t i))) ?_ ?_ free
  · intro j hj hkey
    exact h.unique j i hj hi (eq_of_beq hkey)
  · intro j hj
    exact beq_eq_false_iff_ne.mpr (hpre j hj)

variable {s : σ}

theorem Chained.fill (hnull : key s ≠ null)
    (hnew : ∀ i, live (t i) = true → key (t i) ≠ key s)
    (hfree : FirstFree (fun j => live (t j)) (path (key s)) f) :
    Chained path live key null (update t f s) := by
  obtain ⟨-, pre, post, hpath, hpre⟩ := hfree
  -- no slot loses its key
  have hkeep : ∀ j, key (t j) ≠ null → key (update t f s j) ≠ null := by
    intro j hj
    by_cases hjf : j = f
    · rw [hjf, update_self]
      exact hnull
    · rwa [update_of_ne hjf]
  refine ⟨?_, ?_, ?_⟩
  · intro i hi
    by_cases hif : i = f
    · rw [hif, update_self]
      exact hnull
    · rw [update_of_ne hif] at hi ⊢
      exact h.nonnull i hi
  · intro i hi
    by_cases hif : i = f
    · rw [hif, update_self]
      exact ⟨pre, post, hpath, fun j hj => hkeep j (h.nonnull j (hpre j hj))⟩
    · rw [update_of_ne hif] at hi ⊢
      obtain ⟨pre', post', hpath', hpre'⟩ := h.reached i hi
      exact ⟨pre', post', hpath', fun j hj => hkeep j (hpre' j hj)⟩
  · intro i j hi hj hkey
    by_cases hif : i = f
    · by_cases hjf : j = f
      · rw [hif, hjf]
      · rw [hif, update_self, update_of_ne hjf] at hkey
        rw [update_of_ne hjf] at hj
        exact absurd hkey.symm (hnew j hj)
    · rw [update_of_ne hif] at hi hkey
      by_cases hjf : j = f
      · rw [hjf, update_self] at hkey
        exact absurd hkey (hnew i hi)
      · rw [update_of_ne hjf] at hj hkey
        exact h.unique i j hi hj hkey

theorem Chained.release (hs : live s = false)
    (hkey : key s = key (t f)) : Chained path live key null (update t f s) := by
  have hkeys : ∀ j, key (update t f s j) = key (t j) := by
    intro j
    by_cases hjf : j = f
    · rw [hjf, update_self, hkey]
    · rw [update_of_ne hjf]
  have hlive : ∀ j, live (update t f s j) = true → live (t j) = true := by
    intro j hj
    by_cases hjf : j = f
    · rw [hjf, update_self, hs] at hj
      cases hj
    · rwa [update_of_ne hjf] at hj
  refine ⟨?_, ?_, ?_⟩
  · intro i hi
    rw [hkeys]
    exact h.nonnull i (hlive i hi)
  · intro i hi
    obtain ⟨pre, post, hpath, hpre⟩ := h.reached i (hlive i hi)
    refine ⟨pre, post, by rw [hkeys, hpath], ?_⟩
    intro j hj
    rw [hkeys]
    exact hpre j hj
  · intro i j hi hj heq
    rw [hkeys, hkeys] at heq
    exact h.unique i j (hlive i hi) (hlive j hj) heq

end

end Chains

section Count

variable {α : Type*} {p : α → Bool} {l : List α}

theorem countP_set_le (i : ℕ) (a : α) : (l.set i a).countP p ≤ l.countP p + 1 := by
  induction l generalizing i with
  | nil => exact Nat.zero_le _
  | cons x l ih =>
    cases i with
    | zero =>
      rw [set_cons_zero, countP_cons, countP_cons]
      split_ifs <;> omega
    | succ i =>
      rw [set_cons_succ, countP_cons, countP_cons]
      have := ih i
      omega

variable {a x : α}

theorem countP_set_of_not (hx : l[i]? = some x) (hpx : p x = true) (hpa : p a = false) :
    (l.set i a).countP p + 1 = l.countP p := by
  induction l generalizing i with
  | nil => cases hx
  | cons y l ih =>
    cases i with
    | zero =>
      cases hx
      rw [set_cons_zero, countP_cons_of_neg (by simp [hpa]), countP_cons_of_pos hpx]
    | succ i =>
      rw [set_cons_succ, countP_cons, countP_cons, ← ih hx]
      omega

theorem countP_set_of_free (hx : l[i]? = some x) (hpx : p x = false) (hpa : p a = true) :
    (l.set i a).countP p = l.countP p + 1 := by
  obtain ⟨hi, rfl⟩ := List.getElem?_eq_some_iff.mp hx
  have hback : (l.set i a).set i l[i] = l := by rw [List.set_set, List.set_getElem_self]
  rw [← countP_set_of_not (getElem?_set_self hi) hpa hpx, hback]

theorem exists_not_of_countP_lt (h : l.countP p < l.length) :
    ∃ i < l.length, ∃ x, l[i]? = some x ∧ p x = false := by
  by_contra hall
  have hcount : l.countP p = l.length := by
    rw [countP_eq_length]
    intro x hx
    obtain ⟨i, hi, rfl⟩ := mem_iff_getElem.mp hx
    by_contra hp
    exact hall ⟨i, hi, _, getElem?_eq_getElem hi, Bool.eq_false_iff.mpr hp⟩
  omega

end Count

end ZClassic
