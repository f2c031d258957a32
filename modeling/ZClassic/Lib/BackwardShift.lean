import ZClassic.Lib.LinearProbing

/-!
# Linear probing with backward shifts

The slots are a circle of `n`, and an entry is removed by moving entries behind it back over the
hole.
-/

namespace ZClassic

open Function Nat

namespace LinearProbing

variable {n : ℕ} {κ ν : Type}

section Circle

def dist (a b : Fin n) : ℕ := (b + n - a) % n

variable (a b : Fin n)

theorem dist_eq : dist a b = if a.val ≤ b.val then b.val - a.val else b.val + n - a.val := by
  rw [dist]
  split_ifs with h
  · rw [show b.val + n - a.val = (b.val - a.val) + n by omega, add_mod_right,
      mod_eq_of_lt (by omega)]
  · exact mod_eq_of_lt (by omega)

theorem add_dist : dist a b < n ∧ (a.val + dist a b = b.val ∨ a.val + dist a b = b.val + n) := by
  rw [dist_eq]
  split_ifs <;> omega

theorem dist_lt : dist a b < n := mod_lt _ a.pos

theorem dist_self : dist a a = 0 := by
  rw [dist_eq, if_pos le_rfl, Nat.sub_self]

theorem dist_injective : Injective (dist a) := by
  intro b c h
  rw [dist_eq, dist_eq] at h
  apply Fin.ext
  split_ifs at h <;> omega

theorem succSlot_iterate_dist : succSlot^[dist a b] a = b := by
  apply Fin.ext
  have hb := b.isLt
  rw [succSlot_iterate, dist_eq]
  split_ifs with h
  · rw [show a.val + (b.val - a.val) = b.val by omega, mod_eq_of_lt hb]
  · rw [show a.val + (b.val + n - a.val) = b.val + n by omega, add_mod_right,
      mod_eq_of_lt hb]

theorem dist_iterate {m : ℕ} (hm : m < n) : dist a (succSlot^[m] a) = m := by
  rw [dist_eq, succSlot_iterate]
  by_cases hwrap : a.val + m < n
  · rw [mod_eq_of_lt hwrap, if_pos (by omega)]
    omega
  · rw [show a.val + m = (a.val + m - n) + n by omega, add_mod_right,
      mod_eq_of_lt (by omega), if_neg (by omega)]
    omega

theorem dist_lt_of_between {a s h c q : Fin n} (hway : dist a h < dist a q)
    (hhc : dist s h < dist s c) (hcq : dist s c < dist s q) : dist a c < dist a q := by
  have hah := add_dist a h
  have haq := add_dist a q
  have hac := add_dist a c
  have hsh := add_dist s h
  have hsc := add_dist s c
  have hsq := add_dist s q
  omega

/-- A way that leads over `h` to `c` but not over `e`, which is not before `h`, ends before `e`. -/
theorem dist_le_of_uncrossed {a s h c e : Fin n} (hway : dist a h < dist a c)
    (hhc : dist s h < dist s c) (hhe : dist s h ≤ dist s e) (hce : dist a c ≤ dist a e) :
    dist s c ≤ dist s e := by
  have hah := add_dist a h
  have hac := add_dist a c
  have hae := add_dist a e
  have hsh := add_dist s h
  have hsc := add_dist s c
  have hse := add_dist s e
  omega

theorem dist_lt_of_around {a s c q e : Fin n} (hway : dist a c < dist a q)
    (hqc : dist s q < dist s c) (hce : dist s c ≤ dist s e) : dist a e < dist a q := by
  have hac := add_dist a c
  have haq := add_dist a q
  have hae := add_dist a e
  have hsq := add_dist s q
  have hsc := add_dist s c
  have hse := add_dist s e
  omega

end Circle

section Operations

variable [DecidableEq κ] (home : κ → Fin n) (moves : Fin n → Fin n → Fin n → Bool)

/-- Moves entries back over the hole, up to a free slot; `moves` says of a home, the hole and the
slot of an entry whether it is moved. -/
def shiftBack : ℕ → Fin n → Fin n → Slots (Fin n) κ ν → Slots (Fin n) κ ν
  | 0, _, _, t => t
  | fuel + 1, hole, i, t =>
    match t i with
    | none => t
    | some e =>
      if moves (home e.1) hole i then
        shiftBack fuel i (succSlot i) (Function.update (Function.update t hole (some e)) i none)
      else shiftBack fuel hole (succSlot i) t

def removeShift (t : Slots (Fin n) κ ν) (k : κ) : Slots (Fin n) κ ν × Bool :=
  match find succSlot t k n (home k) with
  | none => (t, false)
  | some i => (shiftBack home moves (n - 1) i (succSlot i) (Function.update t i none), true)

end Operations

/-- Every entry is reached from its home over used slots, and there is a slot that no entry was
carried over. -/
structure Settled {n : ℕ} {κ ν : Type} (home : κ → Fin n) (t : Slots (Fin n) κ ν) : Prop where
  reached : ∀ q k v, t q = some (k, v) → ∀ x, dist (home k) x < dist (home k) q → t x ≠ none
  unique : UniqueKeys t
  uncrossed : ∃ e, ∀ q k v, t q = some (k, v) → dist (home k) q ≤ dist (home k) e

variable {home : κ → Fin n} {t : Slots (Fin n) κ ν} {k : κ} {v : ν}

section Settled

variable {q f : Fin n}

theorem settled_empty (i : Fin n) : Settled home (fun _ => none : Slots (Fin n) κ ν) :=
  ⟨nofun, nofun, i, nofun⟩

theorem Settled.along (h : Settled home t) (hq : t q = some (k, v)) :
    Along succSlot t (dist (home k) q) (home k) q := by
  refine ⟨succSlot_iterate_dist _ _, ?_⟩
  intro m hm
  apply h.reached q k v hq
  rwa [dist_iterate _ (hm.trans (dist_lt _ _))]

theorem dist_le_of_free (hreached : ∀ q k v, t q = some (k, v) →
    ∀ x, dist (home k) x < dist (home k) q → t x ≠ none) (hf : t f = none) :
    ∀ q k v, t q = some (k, v) → dist (home k) q ≤ dist (home k) f := by
  intro q k v hq
  by_contra hlt
  exact hreached q k v hq f (Nat.not_le.mp hlt) hf

section Find

variable [DecidableEq κ]

theorem Settled.find_iff (h : Settled home t) :
    find succSlot t k n (home k) = some q ↔ ∃ v, t q = some (k, v) := by
  constructor
  · exact find_sound
  · rintro ⟨v, hq⟩
    exact find_eq hq (fun i w hi => h.unique i q k w v hi hq) (h.along hq) (dist_lt _ _)

theorem Settled.find_isSome (h : Settled home t) :
    (find succSlot t k n (home k)).isSome = true ↔ ∃ v, Holds t k v := by
  rw [Option.isSome_iff_exists]
  constructor
  · rintro ⟨i, hi⟩
    obtain ⟨v, hv⟩ := find_sound hi
    exact ⟨v, i, hv⟩
  · rintro ⟨v, i, hi⟩
    exact ⟨i, h.find_iff.mpr ⟨v, hi⟩⟩

theorem insert_of_holds {fuel m : ℕ} {i : Fin n} (w : ν) (hq : t q = some (k, v))
    (hunique : UniqueKeys t) (hpath : Along succSlot t m i q) (hfuel : m < fuel) :
    insert succSlot t k w fuel i = some (update t q (some (k, w)), false) := by
  have hfind := find_eq hq (fun j u hj => hunique j q k u v hj hq) hpath hfuel
  rcases insert_cases succSlot t k w fuel i with ⟨j, hfind', heq⟩ | ⟨hnone, -⟩ | ⟨hnone, -⟩
  · rwa [Option.some.inj (hfind.symm.trans hfind')]
  · exact nomatch hfind.symm.trans hnone
  · exact nomatch hfind.symm.trans hnone

theorem insert_full {fuel : ℕ} {i : Fin n} (w : ν) (hfull : ∀ q, t q ≠ none)
    (habsent : ∀ v, ¬Holds t k v) : insert succSlot t k w fuel i = none := by
  rcases insert_cases succSlot t k w fuel i with ⟨j, hfind, -⟩ | ⟨-, m, -, f, -, hf, -⟩ |
    ⟨-, hnone, -⟩
  · obtain ⟨v, hv⟩ := find_sound hfind
    exact absurd ⟨j, hv⟩ (habsent v)
  · exact absurd hf (hfull f)
  · exact hnone

/-- A new key goes to the first free slot, and if that was the last one, no entry was carried over
it. -/
theorem Settled.insert (h : Settled home t) (hf : t f = none) (habsent : ∀ w, ¬Holds t k w)
    (v : ν) : ∃ t', insert succSlot t k v n (home k) = some (t', true) ∧ Settled home t' ∧
      ∀ k' v', Holds t' k' v' ↔ (k', v') = (k, v) ∨ Holds t k' v' := by
  obtain ⟨m, hm, g, hpath, hg⟩ := exists_along_free succSlot_round hf (home k)
  have hdist : dist (home k) g = m := by
    rw [← hpath.ends]
    exact dist_iterate _ hm
  refine ⟨_, insert_eq v habsent hpath hg hm, ⟨?_, h.unique.update_some habsent, g, ?_⟩,
    holds_update_free hg⟩
  · intro q k' v' hq x hx
    rcases update_some_cases hq with ⟨hqg, hk, -⟩ | ⟨-, hq⟩
    · rw [hk, hqg, hdist] at hx
      have hused := hpath.used _ (hk ▸ hx)
      rw [hk, succSlot_iterate_dist] at hused
      exact update_some_ne_none x hused
    · exact update_some_ne_none x (h.reached q k' v' hq x hx)
  · intro q k' v' hq
    rcases update_some_cases hq with ⟨hqg, -, -⟩ | ⟨-, hq⟩
    · rw [hqg]
    · exact dist_le_of_free h.reached hg q k' v' hq

end Find

end Settled

/-- While entries are moved back into the hole, the slot `s` having been freed first. Those from the
offset `j` on may still have been carried over the hole. -/
structure Shifting {n : ℕ} {κ ν : Type} (home : κ → Fin n) (s e : Fin n) (t : Slots (Fin n) κ ν)
    (hole : Fin n) (j : ℕ) : Prop where
  free : t hole = none
  behind : dist s hole < j
  before : dist s hole ≤ dist s e
  reached : ∀ q k v, t q = some (k, v) → ∀ x, dist (home k) x < dist (home k) q →
    t x ≠ none ∨ x = hole ∧ j ≤ dist s q
  unique : UniqueKeys t
  uncrossed : ∀ q k v, t q = some (k, v) → dist (home k) q ≤ dist (home k) e

section Shift

variable {j : ℕ} {s e hole i : Fin n}

theorem Settled.shifting (h : Settled home t) (s : Fin n) :
    ∃ e, Shifting home s e (update t s none) s 1 := by
  obtain ⟨e, he⟩ := h.uncrossed
  refine ⟨e, update_self .., ?_, ?_, ?_, ?_, ?_⟩
  · rw [dist_self]
    exact Nat.zero_lt_one
  · rw [dist_self]
    exact Nat.zero_le _
  · intro q k v hq x hx
    obtain ⟨hqs, hq⟩ := of_update_none hq
    by_cases hxs : x = s
    · refine .inr ⟨hxs, Nat.pos_of_ne_zero fun hzero => hqs ?_⟩
      rw [← dist_self s] at hzero
      exact dist_injective s hzero
    · rw [update_of_ne hxs]
      exact .inl (h.reached q k v hq x hx)
  · intro q q' k v w hq hq'
    exact h.unique q q' k v w (of_update_none hq).2 (of_update_none hq').2
  · intro q k v hq
    exact he q k v (of_update_none hq).2

section

variable (h : Shifting home s e t hole j)

include h

theorem Shifting.settled
    (hend : ∀ q k v, t q = some (k, v) → dist (home k) hole < dist (home k) q → dist s q < j) :
    Settled home t := by
  refine ⟨?_, h.unique, e, h.uncrossed⟩
  intro q k v hq x hx
  rcases h.reached q k v hq x hx with hused | ⟨rfl, hle⟩
  · exact hused
  · exact absurd hle (Nat.not_le.mpr (hend q k v hq hx))

theorem Shifting.settled_of_free (hi : dist s i = j)
    (hfree : t i = none) : Settled home t := by
  apply h.settled
  intro q k v hq hway
  by_contra hle
  have hne : dist s q ≠ j := by
    intro heq
    rw [dist_injective s (heq.trans hi.symm), hfree] at hq
    exact nomatch hq
  have hbehind := h.behind
  have hover : dist (home k) i < dist (home k) q :=
    dist_lt_of_between hway (s := s) (by omega) (by omega)
  rcases h.reached q k v hq i hover with hused | ⟨hih, -⟩
  · exact hused hfree
  · rw [← hih, hi] at hbehind
    omega

theorem Shifting.stay (hi : dist s i = j)
    (hslot : t i = some (k, v)) (hstay : ¬dist (home k) hole < dist (home k) i) :
    Shifting home s e t hole (j + 1) := by
  refine ⟨h.free, h.behind.trans (lt_succ_self j), h.before, ?_, h.unique, h.uncrossed⟩
  intro q k' v' hq x hx
  rcases h.reached q k' v' hq x hx with hused | ⟨hxh, hle⟩
  · exact .inl hused
  · refine .inr ⟨hxh, Nat.lt_of_le_of_ne hle ?_⟩
    intro heq
    have hqi : q = i := dist_injective s (heq.symm.trans hi.symm)
    rw [hqi, hslot, Option.some.injEq, Prod.mk.injEq] at hq
    rw [hxh, ← hq.1, hqi] at hx
    exact hstay hx

end

theorem update_moved_cases {x : κ × ν} {q : Fin n} {y : κ × ν}
    (h : update (update t hole (some x)) i none q = some y) :
    q ≠ i ∧ (q = hole ∧ y = x ∨ q ≠ hole ∧ t q = some y) := by
  obtain ⟨hqi, h⟩ := of_update_none h
  refine ⟨hqi, ?_⟩
  by_cases hqh : q = hole
  · rw [hqh, update_self] at h
    exact .inl ⟨hqh, (Option.some.inj h).symm⟩
  · rw [update_of_ne hqh] at h
    exact .inr ⟨hqh, h⟩

theorem Shifting.move (h : Shifting home s e t hole j) (hi : dist s i = j)
    (hslot : t i = some (k, v)) (hmove : dist (home k) hole < dist (home k) i) :
    Shifting home s e (update (update t hole (some (k, v))) i none) i (j + 1) := by
  have hbehind := h.behind
  have hie : dist s i ≤ dist s e :=
    dist_le_of_uncrossed hmove (by omega) h.before (h.uncrossed i k v hslot)
  -- only the slot of the entry is free now that was used
  have hused : ∀ x, t x ≠ none ∨ x = hole → x ≠ i →
      update (update t hole (some (k, v))) i none x ≠ none := by
    intro x hx hxi
    rw [update_of_ne hxi]
    by_cases hxh : x = hole
    · rw [hxh, update_self]
      exact nofun
    · rw [update_of_ne hxh]
      exact hx.resolve_right hxh
  refine ⟨update_self .., by omega, hie, ?_, ?_, ?_⟩
  · intro q k' v' hq x hx
    obtain ⟨hqi, ⟨hqh, heq⟩ | ⟨hqh, hq⟩⟩ := update_moved_cases hq
    · -- the entry that was moved has a part of its way
      rw [Prod.mk.injEq] at heq
      rw [heq.1, hqh] at hx
      refine .inl (hused x ?_ ?_)
      · exact (h.reached i k v hslot x (hx.trans hmove)).imp_right And.left
      · rintro rfl
        exact absurd hmove (Nat.not_lt.mpr hx.le)
    · by_cases hxi : x = i
      · refine .inr ⟨hxi, ?_⟩
        by_contra hle
        have hne : dist s q ≠ j := fun heq => hqi (dist_injective s (heq.trans hi.symm))
        rw [hxi] at hx
        have haround := dist_lt_of_around hx (s := s) (by omega) hie
        exact absurd haround (Nat.not_lt.mpr (h.uncrossed q k' v' hq))
      · exact .inl (hused x ((h.reached q k' v' hq x hx).imp_right And.left) hxi)
  · intro q q' k' v' w hq hq'
    obtain ⟨hqi, ⟨hqh, heq⟩ | ⟨hqh, hq⟩⟩ := update_moved_cases hq
    · obtain ⟨hqi', ⟨hqh', -⟩ | ⟨-, hq'⟩⟩ := update_moved_cases hq'
      · rw [hqh, hqh']
      · rw [Prod.mk.injEq] at heq
        rw [heq.1] at hq'
        exact absurd (h.unique q' i k w v hq' hslot) hqi'
    · obtain ⟨-, ⟨-, heq⟩ | ⟨-, hq'⟩⟩ := update_moved_cases hq'
      · rw [Prod.mk.injEq] at heq
        rw [heq.1] at hq
        exact absurd (h.unique q i k v' v hq hslot) hqi
      · exact h.unique q q' k' v' w hq hq'
  · intro q k' v' hq
    obtain ⟨-, ⟨hqh, heq⟩ | ⟨-, hq⟩⟩ := update_moved_cases hq
    · rw [Prod.mk.injEq] at heq
      rw [hqh, heq.1]
      exact hmove.le.trans (h.uncrossed i k v hslot)
    · exact h.uncrossed q k' v' hq

theorem holds_moved (hhole : t hole = none) (hslot : t i = some (k, v)) (k' : κ) (v' : ν) :
    Holds (update (update t hole (some (k, v))) i none) k' v' ↔ Holds t k' v' := by
  have hne : hole ≠ i := by
    rintro rfl
    rw [hhole] at hslot
    exact nomatch hslot
  constructor
  · rintro ⟨q, hq⟩
    obtain ⟨-, ⟨-, heq⟩ | ⟨-, hq⟩⟩ := update_moved_cases hq
    · exact ⟨i, hslot.trans (congrArg some heq.symm)⟩
    · exact ⟨q, hq⟩
  · rintro ⟨q, hq⟩
    by_cases hqi : q = i
    · rw [hqi, hslot] at hq
      exact ⟨hole, by rw [update_of_ne hne, update_self, hq]⟩
    · refine ⟨q, ?_⟩
      have hqh : q ≠ hole := by
        rintro rfl
        rw [hhole] at hq
        exact nomatch hq
      rw [update_of_ne hqi, update_of_ne hqh, hq]

variable {moves : Fin n → Fin n → Fin n → Bool}
  (hmoves : ∀ a hole i, hole ≠ i → (moves a hole i = true ↔ dist a hole < dist a i))

include hmoves

theorem Shifting.shiftBack {fuel : ℕ} (h : Shifting home s e t hole j)
    (hi : i = succSlot^[j] s) (hfuel : j + fuel = n) :
    Settled home (shiftBack home moves fuel hole i t) ∧
      ∀ k v, Holds (shiftBack home moves fuel hole i t) k v ↔ Holds t k v := by
  induction fuel generalizing hole i j t with
  | zero =>
    refine ⟨h.settled fun q k v _ _ => ?_, fun _ _ => Iff.rfl⟩
    rw [show j = n from hfuel]
    exact dist_lt s q
  | succ fuel ih =>
    have hdist : dist s i = j := by
      rw [hi]
      exact dist_iterate s (by omega)
    have hnext : succSlot i = succSlot^[j + 1] s := by
      rw [hi, iterate_succ_apply']
    unfold LinearProbing.shiftBack
    split
    · next hfree => exact ⟨h.settled_of_free hdist hfree, fun _ _ => Iff.rfl⟩
    · next x hslot =>
      have hne : hole ≠ i := by
        rintro rfl
        rw [h.free] at hslot
        exact nomatch hslot
      split_ifs with hmove
      · rw [hmoves _ _ _ hne] at hmove
        obtain ⟨hsettled, hholds⟩ := ih (h.move hdist hslot hmove) hnext (by omega)
        exact ⟨hsettled, fun k v => (hholds k v).trans (holds_moved h.free hslot k v)⟩
      · rw [hmoves _ _ _ hne] at hmove
        exact ih (h.stay hdist hslot hmove) hnext (by omega)

theorem Settled.removeShift [DecidableEq κ] (h : Settled home t) (k : κ) :
    let out := removeShift home moves t k
    Settled home out.1 ∧ (out.2 = true ↔ ∃ v, Holds t k v) ∧
      ∀ k' v', Holds out.1 k' v' ↔ Holds t k' v' ∧ k' ≠ k := by
  unfold LinearProbing.removeShift
  split
  · next hnone =>
    have habsent : ∀ v, ¬Holds t k v := by
      rintro v ⟨q, hq⟩
      rw [h.find_iff.mpr ⟨v, hq⟩] at hnone
      exact nomatch hnone
    refine ⟨h, iff_of_false Bool.false_ne_true fun ⟨v, hv⟩ => habsent v hv, ?_⟩
    intro k' v'
    refine ⟨fun hholds => ⟨hholds, ?_⟩, And.left⟩
    rintro rfl
    exact habsent v' hholds
  · next s hsome =>
    obtain ⟨v, hs⟩ := h.find_iff.mp hsome
    have hpos := s.pos
    obtain ⟨e, he⟩ := h.shifting s
    obtain ⟨hsettled, hholds⟩ := he.shiftBack hmoves (show succSlot s = succSlot^[1] s from rfl)
      (show 1 + (n - 1) = n by omega)
    refine ⟨hsettled, iff_of_true rfl ⟨v, s, hs⟩, ?_⟩
    intro k' v'
    exact (hholds k' v').trans (holds_update_none h.unique hs k' v')

end Shift

end LinearProbing

end ZClassic
