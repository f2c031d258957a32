import Mathlib.Algebra.Ring.Int.Defs
import Mathlib.Data.Finmap
import Mathlib.Algebra.Order.BigOperators.Group.Multiset

/-!
# Finite tables

A table keyed by its primary key, with the statements a key-value store runs on it: insert or
replace, delete by key, delete by condition.
-/

namespace ZClassic

open List Finmap

abbrev Table (κ : Type*) (α : Type*) := Finmap fun _ : κ => α

namespace Table

variable {κ α : Type*}

def delWhere (t : Table κ α) (p : κ → Prop) [DecidablePred p] : Table κ α where
  entries := t.entries.filter fun e => ¬p e.1
  nodupKeys := Multiset.nodup_keys.mp <|
    Multiset.nodup_of_le (Multiset.map_le_map (Multiset.filter_le _ _))
      (Multiset.nodup_keys.mpr t.nodupKeys)

def total (f : α → ℤ) (t : Table κ α) : ℤ :=
  (t.entries.map fun e => f e.2).sum

/-- `SELECT 1 FROM t WHERE p LIMIT 1`. -/
def anyRow (t : Table κ α) (p : κ → α → Bool) : Bool :=
  (t.entries.filter fun e => p e.1 e.2).card != 0

def countWhere (t : Table κ α) (p : κ → Prop) [DecidablePred p] : ℕ :=
  (t.entries.filter fun e => p e.1).card

variable [DecidableEq κ]

def putAll (t : Table κ α) (rows : List (κ × α)) : Table κ α :=
  rows.foldl (fun t r => t.insert r.1 r.2) t

def delAll (t : Table κ α) (keys : List κ) : Table κ α :=
  keys.foldl (fun t k => t.erase k) t

section

variable (t : Table κ α)

include t

theorem lookup_put (k k' : κ) (v : α) :
    (t.insert k v).lookup k' = if k' = k then some v else t.lookup k' := by
  split
  · next h => rw [h, lookup_insert]
  · next h => exact lookup_insert_of_ne t h

theorem lookup_del (k k' : κ) :
    (t.erase k).lookup k' = if k' = k then none else t.lookup k' := by
  split
  · next h => rw [h, lookup_erase]
  · next h => exact lookup_erase_ne h

theorem lookup_delWhere (p : κ → Prop) [DecidablePred p] (k : κ) :
    (t.delWhere p).lookup k = if p k then none else t.lookup k := by
  ext v
  rw [Finmap.lookup_eq_some_iff]
  split
  · next h => simp [delWhere, h]
  · next h => rw [Finmap.lookup_eq_some_iff]; simp [delWhere, h]

@[simp]
theorem putAll_nil : t.putAll [] = t := rfl

@[simp]
theorem putAll_cons (r : κ × α) (rows : List (κ × α)) :
    t.putAll (r :: rows) = putAll (t.insert r.1 r.2) rows := rfl

end

variable {k : κ} {rows : List (κ × α)} {t : Table κ α} {v : α}

theorem lookup_putAll_of_notMem (h : k ∉ rows.map Prod.fst) :
    (t.putAll rows).lookup k = t.lookup k := by
  induction rows generalizing t with
  | nil => rfl
  | cons r rows ih =>
    rw [map_cons, mem_cons, not_or] at h
    rw [putAll_cons, ih h.2, lookup_put, if_neg h.1]

theorem lookup_putAll_of_mem (hmem : (k, v) ∈ rows) (hagree : ∀ r ∈ rows, r.1 = k → r.2 = v) :
    (t.putAll rows).lookup k = some v := by
  induction rows generalizing t with
  | nil => cases hmem
  | cons r rows ih =>
    rw [putAll_cons]
    have hagree' : ∀ r ∈ rows, r.1 = k → r.2 = v := fun r hr => hagree r (mem_cons_of_mem _ hr)
    by_cases hk : k ∈ rows.map Prod.fst
    · obtain ⟨⟨k', v'⟩, hr, rfl⟩ := mem_map.mp hk
      have hv : v' = v := hagree' _ hr rfl
      exact ih (hv ▸ hr) hagree'
    · rw [lookup_putAll_of_notMem hk, lookup_put]
      rcases mem_cons.mp hmem with h | h
      · simp [← h]
      · exact absurd (mem_map_of_mem h) hk

theorem lookup_putAll_of_nodup (hnodup : (rows.map Prod.fst).Nodup) (hmem : (k, v) ∈ rows) :
    (t.putAll rows).lookup k = some v := by
  refine lookup_putAll_of_mem hmem fun r hr hk => ?_
  have h := inj_on_of_nodup_map hnodup hr hmem hk
  rw [h]

theorem lookup_putAll_eq_some (h : (t.putAll rows).lookup k = some v) :
    t.lookup k = some v ∨ (k, v) ∈ rows := by
  induction rows generalizing t with
  | nil => exact .inl h
  | cons r rows ih =>
    rcases ih h with h | h
    · rw [lookup_put] at h
      split at h
      · next hk =>
        cases h
        exact .inr (hk ▸ mem_cons_self)
      · exact .inl h
    · exact .inr (mem_cons_of_mem _ h)

theorem mem_putAll : k ∈ t.putAll rows ↔ k ∈ t ∨ k ∈ rows.map Prod.fst := by
  induction rows generalizing t with
  | nil => simp
  | cons r rows ih =>
    rw [putAll_cons, ih, mem_insert, map_cons, mem_cons]
    tauto

@[simp]
theorem delAll_nil (t : Table κ α) : t.delAll [] = t := rfl

@[simp]
theorem delAll_cons (t : Table κ α) (k : κ) (keys : List κ) :
    t.delAll (k :: keys) = delAll (t.erase k) keys := rfl

theorem lookup_delAll (t : Table κ α) (keys : List κ) (k : κ) :
    (t.delAll keys).lookup k = if k ∈ keys then none else t.lookup k := by
  induction keys generalizing t with
  | nil => simp
  | cons k' keys ih =>
    rw [delAll_cons, ih, lookup_del]
    by_cases h : k = k' <;> by_cases h' : k ∈ keys <;> simp [h, h']

section Total

variable (f : α → ℤ)

theorem total_put_of_notMem (v : α) (h : k ∉ t) : total f (t.insert k v) = total f t + f v := by
  rw [total, entries_insert_of_notMem h, Multiset.map_cons, Multiset.sum_cons, total, add_comm]

theorem total_del_of_lookup (h : t.lookup k = some v) : total f (t.erase k) = total f t - f v := by
  have hins : (t.erase k).insert k v = t := by
    refine ext_lookup fun k' => ?_
    rw [lookup_put, lookup_del]
    split
    · next hk => rw [hk, h]
    · rfl
  have hsum := total_put_of_notMem f v (notMem_erase_self (s := t) (a := k))
  rw [hins] at hsum
  omega

theorem total_putAll (hnodup : (rows.map Prod.fst).Nodup) (hfresh : ∀ r ∈ rows, r.1 ∉ t) :
    total f (t.putAll rows) = total f t + (rows.map fun r => f r.2).sum := by
  induction rows generalizing t with
  | nil => simp
  | cons r rows ih =>
    rw [map_cons, nodup_cons] at hnodup
    have hfresh' : ∀ r' ∈ rows, r'.1 ∉ t.insert r.1 r.2 := by
      intro r' hr' hmem
      rcases mem_insert.mp hmem with h | h
      · exact hnodup.1 (h ▸ mem_map_of_mem hr')
      · exact hfresh r' (mem_cons_of_mem _ hr') h
    rw [putAll_cons, ih hnodup.2 hfresh', total_put_of_notMem f _ (hfresh r mem_cons_self),
      map_cons, sum_cons]
    omega

theorem total_delAll (hnodup : (rows.map Prod.fst).Nodup)
    (hmem : ∀ r ∈ rows, t.lookup r.1 = some r.2) :
    total f (t.delAll (rows.map Prod.fst)) = total f t - (rows.map fun r => f r.2).sum := by
  induction rows generalizing t with
  | nil => simp
  | cons r rows ih =>
    rw [map_cons, nodup_cons] at hnodup
    have hmem' : ∀ r' ∈ rows, (t.erase r.1).lookup r'.1 = some r'.2 := by
      intro r' hr'
      rw [lookup_del, if_neg fun h : r'.1 = r.1 => hnodup.1 (h ▸ mem_map_of_mem hr')]
      exact hmem r' (mem_cons_of_mem _ hr')
    rw [map_cons, delAll_cons, ih hnodup.2 hmem',
      total_del_of_lookup f (hmem r mem_cons_self), map_cons, sum_cons]
    omega

theorem total_nonneg (h : ∀ k v, t.lookup k = some v → 0 ≤ f v) : 0 ≤ total f t := by
  refine Multiset.sum_nonneg fun x hx => ?_
  obtain ⟨⟨k, v⟩, he, rfl⟩ := Multiset.mem_map.mp hx
  exact h k v (lookup_eq_some_iff.mpr he)

end Total

end Table

end ZClassic
