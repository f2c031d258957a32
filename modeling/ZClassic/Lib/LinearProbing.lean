import Mathlib.Data.Fintype.Card

/-!
# Linear probing

A hash table in slots that are visited in a fixed cyclic order. A key is searched from its home slot
to the first free one.
-/

namespace ZClassic

open List Function Nat

variable {fuel n : ℕ}

namespace LinearProbing

abbrev Slots (S κ ν : Type) := S → Option (κ × ν)

variable {S κ ν : Type}

section Operations

variable [DecidableEq S] [DecidableEq κ] (next : S → S)

/-- The slot of a key, if it comes before a free slot. -/
def find (t : Slots S κ ν) (k : κ) : ℕ → S → Option S
  | 0, _ => none
  | fuel + 1, i =>
    match t i with
    | none => none
    | some (k', _) => if k' = k then some i else find t k fuel (next i)

/-- Writes to the slot of the key or to the first free slot, and says whether it was free. -/
def insert (t : Slots S κ ν) (k : κ) (v : ν) : ℕ → S → Option (Slots S κ ν × Bool)
  | 0, _ => none
  | fuel + 1, i =>
    match t i with
    | none => some (Function.update t i (some (k, v)), true)
    | some (k', _) =>
      if k' = k then some (Function.update t i (some (k, v)), false)
      else insert t k v fuel (next i)

variable (home : κ → S) (size : ℕ)

/-- Takes the entries from a slot on out and puts them back, up to a free slot. -/
def repair : ℕ → S → Slots S κ ν → Slots S κ ν
  | 0, _, t => t
  | fuel + 1, i, t =>
    match t i with
    | none => t
    | some (k, v) =>
      match insert next (Function.update t i none) k v size (home k) with
      | none => Function.update t i none
      | some (t', _) => repair fuel (next i) t'

def remove (t : Slots S κ ν) (k : κ) : Slots S κ ν × Bool :=
  match find next t k size (home k) with
  | none => (t, false)
  | some i => (repair next home size size (next i) (Function.update t i none), true)

def insertAll (pairs : List (κ × ν)) (t : Slots S κ ν) : Option (Slots S κ ν) :=
  pairs.foldlM (fun t p => (insert next t p.1 p.2 size (home p.1)).map Prod.fst) t

/-- Leaves out what cannot be inserted, and counts the slots that are filled. -/
def insertCounted (acc : Slots S κ ν × ℕ) (p : κ × ν) : Slots S κ ν × ℕ :=
  match insert next acc.1 p.1 p.2 size (home p.1) with
  | none => acc
  | some (t, added) => (t, acc.2 + added.toNat)

end Operations

section Circle

variable (i j : Fin n)

/-- The order of the slots when they are a circle. -/
def succSlot (i : Fin n) : Fin n := ⟨(i + 1) % n, mod_lt _ i.pos⟩

theorem succSlot_iterate (m : ℕ) : (succSlot^[m] i).val = (i + m) % n := by
  induction m generalizing i with
  | zero => exact (mod_eq_of_lt i.isLt).symm
  | succ m ih =>
    rw [iterate_succ_apply, ih]
    change ((i + 1) % n + m) % n = _
    rw [mod_add_mod]
    congr 1
    omega

theorem succSlot_round : ∃ m < n, succSlot^[m] i = j := by
  refine ⟨(j + (n - i)) % n, mod_lt _ i.pos, ?_⟩
  apply Fin.ext
  rw [succSlot_iterate, add_mod_mod, show i.val + (j.val + (n - i)) = j + n by omega,
    add_mod_right, mod_eq_of_lt j.isLt]

end Circle

def Holds (t : Slots S κ ν) (k : κ) (v : ν) : Prop := ∃ i, t i = some (k, v)

/-- From `i` it is `n` steps to `j`, over used slots. -/
structure Along (next : S → S) (t : Slots S κ ν) (n : ℕ) (i j : S) : Prop where
  ends : next^[n] i = j
  used : ∀ m < n, t (next^[m] i) ≠ none

def UniqueKeys (t : Slots S κ ν) : Prop :=
  ∀ i j k v w, t i = some (k, v) → t j = some (k, w) → i = j

/-- Every entry is reached from its home. -/
structure Probed (next : S → S) (home : κ → S) (t : Slots S κ ν) : Prop where
  reached : ∀ i k v, t i = some (k, v) → ∃ n, Along next t n (home k) i
  unique : UniqueKeys t

section Walks

variable {next : S → S} {t t' : Slots S κ ν} {m : ℕ} {i j e : S}

theorem Along.cons (hi : t i ≠ none) (h : Along next t n (next i) j) :
    Along next t (n + 1) i j := by
  refine ⟨h.ends, ?_⟩
  intro m hm
  cases m with
  | zero => exact hi
  | succ m => exact h.used m (lt_of_succ_lt_succ hm)

theorem Along.head (h : Along next t (n + 1) i j) : t i ≠ none := h.used 0 n.succ_pos

theorem Along.tail (h : Along next t (n + 1) i j) : Along next t n (next i) j :=
  ⟨h.ends, fun m hm => h.used (m + 1) (succ_lt_succ hm)⟩

theorem Along.mono (hused : ∀ i, t i ≠ none → t' i ≠ none) (h : Along next t n i j) :
    Along next t' n i j :=
  ⟨h.ends, fun m hm => hused _ (h.used m hm)⟩

section

variable (h : Along next t n i j)

include h

theorem Along.eq_of_free (hi : t i = none) : j = i := by
  cases n with
  | zero => exact h.ends.symm
  | succ n => exact absurd hi h.head

theorem Along.le_of_free (he : next^[m] i = e) (hfree : t e = none) :
    n ≤ m := by
  by_contra hlt
  have hused := h.used m (Nat.not_le.mp hlt)
  rw [he] at hused
  exact hused hfree

theorem Along.free [DecidableEq S] (p : S) :
    Along next (update t p none) n i j ∨ ∃ n', Along next (update t p none) n' (next p) j := by
  induction n generalizing i with
  | zero => exact .inl ⟨h.ends, fun _ hm => absurd hm (Nat.not_lt_zero _)⟩
  | succ n ih =>
    rcases ih h.tail with htail | hbehind
    · by_cases hp : i = p
      · rw [← hp] at htail ⊢
        exact .inr ⟨n, htail⟩
      · refine .inl (htail.cons ?_)
        rw [update_of_ne hp]
        exact h.head
    · exact .inr hbehind

end

theorem exists_along_free {size : ℕ} (hround : ∀ i j, ∃ n < size, next^[n] i = j)
    (hfree : t e = none) (i : S) : ∃ n < size, ∃ f, Along next t n i f ∧ t f = none := by
  obtain ⟨d, hd, hde⟩ := hround i e
  have hex : ∃ n, t (next^[n] i) = none := ⟨d, by rw [hde]; exact hfree⟩
  classical
  have hle : Nat.find hex ≤ d := Nat.find_min' hex (by rw [hde]; exact hfree)
  exact ⟨Nat.find hex, by omega, _, ⟨rfl, fun m hm => Nat.find_min hex hm⟩, Nat.find_spec hex⟩

end Walks

variable {next : S → S} {home : κ → S} {size : ℕ} {i j e f : S} {k : κ} {v : ν} {x : κ × ν}
  {t : Slots S κ ν}

section Find

variable [DecidableEq κ]

theorem find_sound {fuel : ℕ} (h : find next t k fuel i = some j) : ∃ v, t j = some (k, v) := by
  induction fuel generalizing i with
  | zero => exact nomatch h
  | succ fuel ih =>
    unfold find at h
    split at h
    · exact nomatch h
    · next k' v hi =>
      split_ifs at h with hk
      · rw [← Option.some.inj h, ← hk]
        exact ⟨v, hi⟩
      · exact ih h

theorem find_eq (hj : t j = some (k, v)) (hunique : ∀ i w, t i = some (k, w) → i = j)
    (hpath : Along next t n i j) (hfuel : n < fuel) : find next t k fuel i = some j := by
  induction fuel generalizing i n with
  | zero => exact absurd hfuel (Nat.not_lt_zero n)
  | succ fuel ih =>
    unfold find
    split
    · next hi =>
      rw [hpath.eq_of_free hi, hi] at hj
      exact nomatch hj
    · next k' w hi =>
      split_ifs with hk
      · rw [hk] at hi
        rw [hunique i w hi]
      · cases n with
        | zero =>
          have heq : i = j := hpath.ends
          rw [heq, hj, Option.some.injEq, Prod.mk.injEq] at hi
          exact absurd hi.1.symm hk
        | succ n => exact ih hpath.tail (lt_of_succ_lt_succ hfuel)

theorem insert_cases [DecidableEq S] (next : S → S) (t : Slots S κ ν) (k : κ) (v : ν) (fuel : ℕ)
    (i : S) :
    (∃ j, find next t k fuel i = some j ∧
        insert next t k v fuel i = some (update t j (some (k, v)), false)) ∨
      (find next t k fuel i = none ∧ ∃ n < fuel, ∃ f, Along next t n i f ∧ t f = none ∧
        insert next t k v fuel i = some (update t f (some (k, v)), true)) ∨
      (find next t k fuel i = none ∧ insert next t k v fuel i = none ∧
        ∀ m < fuel, t (next^[m] i) ≠ none) := by
  induction fuel generalizing i with
  | zero => exact .inr (.inr ⟨rfl, rfl, fun m hm => absurd hm (Nat.not_lt_zero m)⟩)
  | succ fuel ih =>
    unfold find insert
    cases hi : t i with
    | none => exact .inr (.inl ⟨rfl, 0, fuel.succ_pos, i, ⟨rfl, nofun⟩, hi, rfl⟩)
    | some x =>
      have hused : t i ≠ none := by
        rw [hi]
        exact Option.some_ne_none x
      by_cases hk : x.1 = k
      · exact .inl ⟨i, if_pos hk, if_pos hk⟩
      · dsimp only
        rw [if_neg hk, if_neg hk]
        rcases ih (next i) with hfound | ⟨hfind, n, hn, f, hpath, hfree⟩ | ⟨hfind, hinsert, hrest⟩
        · exact .inl hfound
        · exact .inr (.inl ⟨hfind, n + 1, succ_lt_succ hn, f, hpath.cons hused, hfree⟩)
        · refine .inr (.inr ⟨hfind, hinsert, ?_⟩)
          intro m hm
          cases m with
          | zero => exact hused
          | succ m => exact hrest m (lt_of_succ_lt_succ hm)

theorem insert_eq [DecidableEq S] {i f : S} (v : ν) (habsent : ∀ w, ¬Holds t k w)
    (hpath : Along next t n i f) (hfree : t f = none) (hfuel : n < fuel) :
    insert next t k v fuel i = some (update t f (some (k, v)), true) := by
  rcases insert_cases next t k v fuel i with ⟨j, hfind, -⟩ | ⟨-, m, -, f', hpath', hfree', heq⟩ |
    ⟨-, -, hused⟩
  · obtain ⟨w, hw⟩ := find_sound hfind
    exact absurd ⟨j, hw⟩ (habsent w)
  · have hnm : n = m := (hpath.le_of_free hpath'.ends hfree').antisymm
      (hpath'.le_of_free hpath.ends hfree)
    rwa [← hpath.ends, hnm, hpath'.ends]
  · exact absurd (hpath.ends ▸ hfree) (hused n hfuel)

theorem Probed.find_iff (h : Probed next home t) (hround : ∀ i j, ∃ n < size, next^[n] i = j)
    (hfree : t e = none) {j : S} :
    find next t k size (home k) = some j ↔ ∃ v, t j = some (k, v) := by
  constructor
  · exact find_sound
  · rintro ⟨v, hj⟩
    obtain ⟨n, hn⟩ := h.reached j k v hj
    obtain ⟨d, hd, hde⟩ := hround (home k) e
    exact find_eq hj (fun i w hi => h.unique i j k w v hi hj) hn
      ((hn.le_of_free hde hfree).trans_lt hd)

theorem Probed.find_eq_none (h : Probed next home t) (hround : ∀ i j, ∃ n < size, next^[n] i = j)
    (hfree : t e = none) : find next t k size (home k) = none ↔ ∀ v, ¬Holds t k v := by
  rw [Option.eq_none_iff_forall_ne_some]
  constructor
  · rintro hnone v ⟨j, hj⟩
    exact hnone j ((h.find_iff hround hfree).mpr ⟨v, hj⟩)
  · rintro habsent j hj
    obtain ⟨v, hv⟩ := find_sound hj
    exact habsent v ⟨j, hv⟩

end Find

section Update

variable [DecidableEq S]

theorem holds_update_free (hfree : t f = none) (k' : κ) (v' : ν) :
    Holds (update t f (some (k, v))) k' v' ↔ (k', v') = (k, v) ∨ Holds t k' v' := by
  constructor
  · rintro ⟨i, hi⟩
    by_cases hf : i = f
    · rw [hf, update_self] at hi
      exact .inl (Option.some.inj hi).symm
    · rw [update_of_ne hf] at hi
      exact .inr ⟨i, hi⟩
  · rintro (heq | ⟨i, hi⟩)
    · exact ⟨f, by rw [update_self, heq]⟩
    · refine ⟨i, ?_⟩
      rw [update_of_ne, hi]
      intro hf
      rw [hf, hfree] at hi
      exact nomatch hi

theorem update_some_ne_none (i : S) (hi : t i ≠ none) : update t f (some x) i ≠ none := by
  by_cases hf : i = f
  · rw [hf, update_self]
    exact nofun
  · rwa [update_of_ne hf]

theorem update_some_cases {f j : S} {v v' : ν} {k' : κ}
    (h : update t f (some (k, v)) j = some (k', v')) :
    j = f ∧ k' = k ∧ v' = v ∨ j ≠ f ∧ t j = some (k', v') := by
  by_cases hf : j = f
  · rw [hf, update_self, Option.some.injEq, Prod.mk.injEq] at h
    exact .inl ⟨hf, h.1.symm, h.2.symm⟩
  · rw [update_of_ne hf] at h
    exact .inr ⟨hf, h⟩

theorem of_update_none {p j : S} (h : update t p none j = some x) : j ≠ p ∧ t j = some x := by
  have hp : j ≠ p := by
    intro hp
    rw [hp, update_self] at h
    exact nomatch h
  rw [update_of_ne hp] at h
  exact ⟨hp, h⟩

theorem UniqueKeys.update_some (h : UniqueKeys t) (habsent : ∀ w, ¬Holds t k w) :
    UniqueKeys (update t f (some (k, v))) := by
  intro i j k' v' w hi hj
  rcases update_some_cases hi with ⟨hif, hk, -⟩ | ⟨-, hi⟩
  · rcases update_some_cases hj with ⟨hjf, -, -⟩ | ⟨-, hj⟩
    · rw [hif, hjf]
    · rw [hk] at hj
      exact absurd ⟨j, hj⟩ (habsent w)
  · rcases update_some_cases hj with ⟨-, hk, -⟩ | ⟨-, hj⟩
    · rw [hk] at hi
      exact absurd ⟨i, hi⟩ (habsent v')
    · exact h i j k' v' w hi hj

theorem Probed.update_some {n : ℕ} (h : Probed next home t) (habsent : ∀ w, ¬Holds t k w)
    (hpath : Along next t n (home k) f) : Probed next home (update t f (some (k, v))) := by
  refine ⟨?_, h.unique.update_some habsent⟩
  intro i k' v' hi
  rcases update_some_cases hi with ⟨hf, hk, -⟩ | ⟨-, hi⟩
  · rw [hf, hk]
    exact ⟨n, hpath.mono update_some_ne_none⟩
  · obtain ⟨n', hn'⟩ := h.reached i k' v' hi
    exact ⟨n', hn'.mono update_some_ne_none⟩

variable {i : S}

theorem Probed.update_value {v w : ν} (h : Probed next home t) (hi : t i = some (k, v)) :
    Probed next home (update t i (some (k, w))) := by
  have hkey : ∀ j k' u, update t i (some (k, w)) j = some (k', u) → ∃ u', t j = some (k', u') := by
    intro j k' u hj
    rcases update_some_cases hj with ⟨hij, hk, -⟩ | ⟨-, hj⟩
    · exact ⟨v, by rw [hij, hk, hi]⟩
    · exact ⟨u, hj⟩
  constructor
  · intro j k' u hj
    obtain ⟨u', hu'⟩ := hkey j k' u hj
    obtain ⟨n, hn⟩ := h.reached j k' u' hu'
    exact ⟨n, hn.mono update_some_ne_none⟩
  · intro j j' k' u u' hj hj'
    obtain ⟨x, hx⟩ := hkey j k' u hj
    obtain ⟨y, hy⟩ := hkey j' k' u' hj'
    exact h.unique j j' k' x y hx hy

theorem holds_update_none (h : UniqueKeys t) (hi : t i = some (k, v)) (k' : κ) (v' : ν) :
    Holds (update t i none) k' v' ↔ Holds t k' v' ∧ k' ≠ k := by
  constructor
  · rintro ⟨j, hj⟩
    obtain ⟨hij, hj⟩ := of_update_none hj
    refine ⟨⟨j, hj⟩, ?_⟩
    intro hk
    rw [hk] at hj
    exact hij (h j i k v' v hj hi)
  · rintro ⟨⟨j, hj⟩, hk⟩
    refine ⟨j, ?_⟩
    rw [update_of_ne, hj]
    intro hij
    rw [hij, hi, Option.some.injEq, Prod.mk.injEq] at hj
    exact hk hj.1.symm

theorem holds_update_value {v w : ν} (h : UniqueKeys t) (hi : t i = some (k, v)) (k' : κ)
    (v' : ν) : Holds (update t i (some (k, w))) k' v' ↔
      k' = k ∧ v' = w ∨ k' ≠ k ∧ Holds t k' v' := by
  have htwice : update (update t i none) i (some (k, w)) = update t i (some (k, w)) :=
    update_idem ..
  rw [← htwice, holds_update_free (update_self ..), holds_update_none h hi, Prod.mk.injEq,
    and_comm (b := k' ≠ k)]

end Update

theorem UniqueKeys.exists_free [Fintype S] (h : UniqueKeys t) (keys : Finset κ)
    (hkeys : ∀ k v, Holds t k v → k ∈ keys) (hcard : keys.card < Fintype.card S) :
    ∃ e, t e = none := by
  by_contra hfull
  have hused : ∀ i, ∃ x, t i = some x := by
    intro i
    rw [← Option.ne_none_iff_exists']
    exact fun hi => hfull ⟨i, hi⟩
  choose x hx using hused
  have hinj : Injective fun i => (⟨(x i).1, hkeys _ _ ⟨i, hx i⟩⟩ : keys) := by
    intro i j hij
    have hkey : (x i).1 = (x j).1 := congrArg Subtype.val hij
    apply h i j (x j).1 (x i).2 (x j).2 _ (hx j)
    rw [hx i, ← hkey]
  have hle := Fintype.card_le_of_injective _ hinj
  rw [Fintype.card_coe] at hle
  omega

theorem Probed.exists_free [Fintype S] {next : S → S} {home : κ → S} (h : Probed next home t)
    (keys : Finset κ) (hkeys : ∀ k v, Holds t k v → k ∈ keys) (hcard : keys.card < Fintype.card S) :
    ∃ e, t e = none :=
  h.unique.exists_free keys hkeys hcard

/-- While the entries from `i` on are put back, they are only reached from `i`. The slot `e`, where
this ends, is on no way from a home to an entry. -/
structure Repairing (next : S → S) (home : κ → S) (t : Slots S κ ν) (i e : S) : Prop where
  reached : ∀ j k v, t j = some (k, v) → (∃ n, Along next t n (home k) j) ∨ ∃ n, Along next t n i j
  unique : UniqueKeys t
  away : ∀ j k v, t j = some (k, v) → ∃ n, next^[n] (home k) = j ∧ ∀ m < n, next^[m] (home k) ≠ e
  free : t e = none

section Remove

theorem Repairing.probed (h : Repairing next home t i e) (hi : t i = none) :
    Probed next home t := by
  refine ⟨?_, h.unique⟩
  intro j k v hj
  rcases h.reached j k v hj with hreached | ⟨n, hn⟩
  · exact hreached
  · rw [hn.eq_of_free hi, hi] at hj
    exact nomatch hj

variable [DecidableEq S]

theorem Probed.repairing (h : Probed next home t) (i : S) (he : t e = none) :
    Repairing next home (update t i none) (next i) e := by
  refine ⟨?_, ?_, ?_, ?_⟩
  · intro j k v hj
    obtain ⟨n, hn⟩ := h.reached j k v (of_update_none hj).2
    exact (hn.free i).imp_left fun hn => ⟨n, hn⟩
  · intro j j' k v w hj hj'
    exact h.unique j j' k v w (of_update_none hj).2 (of_update_none hj').2
  · intro j k v hj
    obtain ⟨n, hn⟩ := h.reached j k v (of_update_none hj).2
    refine ⟨n, hn.ends, ?_⟩
    intro m hm heq
    exact hn.used m hm (heq ▸ he)
  · rw [update_apply]
    split_ifs
    · rfl
    · exact he

variable [DecidableEq κ] (hround : ∀ i j, ∃ n < size, next^[n] i = j)

include hround

theorem Repairing.step (h : Repairing next home t i e) (hi : t i = some (k, v)) :
    ∃ t', insert next (update t i none) k v size (home k) = some (t', true) ∧
      Repairing next home t' (next i) e ∧ ∀ k' v', Holds t' k' v' ↔ Holds t k' v' := by
  have hie : e ≠ i := by
    intro hie
    rw [← hie, h.free] at hi
    exact nomatch hi
  have hout : update t i none i = none := update_self ..
  have hfree : update t i none e = none := by rw [update_of_ne hie, h.free]
  obtain ⟨n, hn, f, hpath, hf⟩ := exists_along_free hround hfree (home k)
  have habsent : ∀ w, ¬Holds (update t i none) k w := by
    rintro w ⟨j, hj⟩
    obtain ⟨hij, hj⟩ := of_update_none hj
    exact hij (h.unique j i k w v hj hi)
  -- the slot it had is free now, so the search does not go beyond it
  obtain ⟨d, hd, haway⟩ := h.away i k v hi
  have hnd : n ≤ d := hpath.le_of_free hd hout
  refine ⟨_, insert_eq v habsent hpath hf hn, ⟨?_, ?_, ?_, ?_⟩, ?_⟩
  · intro j k' v' hj
    rcases update_some_cases hj with ⟨hjf, hk, -⟩ | ⟨-, hj⟩
    · rw [hjf, hk]
      exact .inl ⟨n, hpath.mono update_some_ne_none⟩
    · obtain ⟨hji, hj⟩ := of_update_none hj
      have hbehind : (∃ m, Along next (update t i none) m (home k') j) ∨
          ∃ m, Along next (update t i none) m (next i) j := by
        rcases h.reached j k' v' hj with ⟨m, hm⟩ | ⟨m, hm⟩
        · exact (hm.free i).imp_left fun hm => ⟨m, hm⟩
        · rcases hm.free i with hm | hm
          · exact absurd (hm.eq_of_free hout) hji
          · exact .inr hm
      exact hbehind.imp (fun ⟨m, hm⟩ => ⟨m, hm.mono update_some_ne_none⟩)
        fun ⟨m, hm⟩ => ⟨m, hm.mono update_some_ne_none⟩
  · apply UniqueKeys.update_some _ habsent
    intro j j' k' v' w hj hj'
    exact h.unique j j' k' v' w (of_update_none hj).2 (of_update_none hj').2
  · intro j k' v' hj
    rcases update_some_cases hj with ⟨hjf, hk, -⟩ | ⟨-, hj⟩
    · rw [hjf, hk]
      exact ⟨n, hpath.ends, fun m hm => haway m (by omega)⟩
    · exact h.away j k' v' (of_update_none hj).2
  · rw [update_of_ne, hfree]
    rcases hnd.lt_or_eq with hlt | heq
    · rw [← hpath.ends]
      exact (haway n hlt).symm
    · rw [← hpath.ends, heq, hd]
      exact hie
  · intro k' v'
    rw [holds_update_free hf, holds_update_none h.unique hi]
    constructor
    · rintro (heq | hholds)
      · rw [Prod.mk.injEq] at heq
        rw [heq.1, heq.2]
        exact ⟨i, hi⟩
      · exact hholds.1
    · rintro ⟨j, hj⟩
      by_cases hk : k' = k
      · rw [hk] at hj
        rw [h.unique j i k v' v hj hi, hi, Option.some.injEq] at hj
        exact .inl (by rw [hk, hj])
      · exact .inr ⟨⟨j, hj⟩, hk⟩

theorem Repairing.repair {n fuel : ℕ} (h : Repairing next home t i e) (hn : next^[n] i = e)
    (hfuel : n ≤ fuel) :
    Probed next home (repair next home size fuel i t) ∧
      repair next home size fuel i t e = none ∧
      ∀ k v, Holds (repair next home size fuel i t) k v ↔ Holds t k v := by
  induction fuel generalizing i t n with
  | zero =>
    have hi : i = e := by
      rw [Nat.le_zero.mp hfuel] at hn
      exact hn
    exact ⟨h.probed (hi ▸ h.free), h.free, fun _ _ => Iff.rfl⟩
  | succ fuel ih =>
    cases hi : t i with
    | none =>
      have hend : LinearProbing.repair next home size (fuel + 1) i t = t := by
        rw [LinearProbing.repair, hi]
      rw [hend]
      exact ⟨h.probed hi, h.free, fun _ _ => Iff.rfl⟩
    | some x =>
      obtain ⟨t', hinsert, hstep, hholds⟩ := h.step hround (k := x.1) (v := x.2) hi
      have hnext : LinearProbing.repair next home size (fuel + 1) i t =
          LinearProbing.repair next home size fuel (next i) t' := by
        rw [LinearProbing.repair, hi]
        dsimp only
        rw [hinsert]
      rw [hnext]
      cases n with
      | zero =>
        have hie : i = e := hn
        rw [hie, h.free] at hi
        exact nomatch hi
      | succ n =>
        have hrest := ih hstep hn (le_of_succ_le_succ hfuel)
        exact ⟨hrest.1, hrest.2.1, fun k' v' => (hrest.2.2 k' v').trans (hholds k' v')⟩

theorem Probed.remove (h : Probed next home t) (he : t e = none) (k : κ) :
    let out := remove next home size t k
    Probed next home out.1 ∧ out.1 e = none ∧ (out.2 = true ↔ ∃ v, Holds t k v) ∧
      ∀ k' v', Holds out.1 k' v' ↔ Holds t k' v' ∧ k' ≠ k := by
  unfold LinearProbing.remove
  split
  · next hnone =>
    rw [h.find_eq_none hround he] at hnone
    refine ⟨h, he, ?_, ?_⟩
    · simp [hnone]
    · intro k' v'
      refine ⟨fun hholds => ⟨hholds, ?_⟩, And.left⟩
      intro hk
      rw [hk] at hholds
      exact hnone v' hholds
  · next i hsome =>
    obtain ⟨v, hi⟩ := find_sound hsome
    obtain ⟨n, hn, hend⟩ := hround (next i) e
    have hrepair := (h.repairing i he).repair hround hend hn.le
    refine ⟨hrepair.1, hrepair.2.1, ?_, ?_⟩
    · exact iff_of_true rfl ⟨v, i, hi⟩
    · intro k' v'
      exact (hrepair.2.2 k' v').trans (holds_update_none h.unique hi k' v')

end Remove

section InsertAll

variable [DecidableEq S] [DecidableEq κ] (hround : ∀ i j, ∃ n < size, next^[n] i = j)

include hround

theorem Probed.insert {k : κ} (h : Probed next home t) (he : t e = none)
    (habsent : ∀ w, ¬Holds t k w) (v : ν) :
    ∃ t', insert next t k v size (home k) = some (t', true) ∧ Probed next home t' ∧
      ∀ k' v', Holds t' k' v' ↔ (k', v') = (k, v) ∨ Holds t k' v' := by
  obtain ⟨n, hn, f, hpath, hf⟩ := exists_along_free hround he (home k)
  exact ⟨_, insert_eq v habsent hpath hf hn, h.update_some habsent hpath, holds_update_free hf⟩

theorem Probed.insertAll [Fintype S] {pairs : List (κ × ν)} (h : Probed next home t)
    (hnodup : (pairs.map Prod.fst).Nodup) (habsent : ∀ p ∈ pairs, ∀ w, ¬Holds t p.1 w)
    (keys : Finset κ) (hkeys : ∀ k v, Holds t k v → k ∈ keys) (hpairs : ∀ p ∈ pairs, p.1 ∈ keys)
    (hcard : keys.card ≤ Fintype.card S) (used : ℕ) :
    ∃ t', insertAll next home size pairs t = some t' ∧
      pairs.foldl (insertCounted next home size) (t, used) = (t', used + pairs.length) ∧
      Probed next home t' ∧ ∀ k v, Holds t' k v ↔ (k, v) ∈ pairs ∨ Holds t k v := by
  induction pairs generalizing t used with
  | nil => exact ⟨t, rfl, rfl, h, fun k v => by simp⟩
  | cons p ps ih =>
    rw [map_cons, nodup_cons] at hnodup
    have hp : p.1 ∈ keys := hpairs p mem_cons_self
    -- the new key is one of the keys that the table does not hold yet
    obtain ⟨e, he⟩ := h.exists_free (keys.erase p.1)
      (by
        intro k v hholds
        rw [Finset.mem_erase]
        refine ⟨?_, hkeys k v hholds⟩
        intro hk
        rw [hk] at hholds
        exact habsent p mem_cons_self v hholds)
      ((Finset.card_erase_lt_of_mem hp).trans_le hcard)
    obtain ⟨t', hinsert, hprobed, hholds⟩ :=
      h.insert hround he (habsent p mem_cons_self) p.2
    obtain ⟨t'', hall, hcounted, hprobed', hholds'⟩ := ih hprobed hnodup.2
      (by
        intro q hq w hw
        rcases (hholds q.1 w).mp hw with heq | hw
        · rw [Prod.mk.injEq] at heq
          exact hnodup.1 (heq.1 ▸ mem_map_of_mem hq)
        · exact habsent q (mem_cons_of_mem p hq) w hw)
      (by
        intro k v hw
        rcases (hholds k v).mp hw with heq | hw
        · rw [Prod.mk.injEq] at heq
          rw [heq.1]
          exact hp
        · exact hkeys k v hw)
      (fun q hq => hpairs q (mem_cons_of_mem p hq)) (used + 1)
    refine ⟨t'', ?_, ?_, hprobed', ?_⟩
    · rw [LinearProbing.insertAll, foldlM_cons, hinsert]
      exact hall
    · have hstep : insertCounted next home size (t, used) p = (t', used + 1) := by
        rw [insertCounted, hinsert]
        rfl
      rw [foldl_cons, hstep, hcounted, length_cons]
      congr 1
      omega
    · intro k v
      rw [hholds', hholds, mem_cons]
      tauto

end InsertAll

end LinearProbing

end ZClassic
