import ZClassic.Net.Download

/-!
# The order of the download queue

The binary search of `dl_queue_push` finds the place behind all entries with the same key or a
smaller one, so that the queue stays in order.
-/

namespace ZClassic

open List

def KeySorted (queue : List (UInt256 × ℤ)) : Prop :=
  queue.Pairwise fun a b => dlSortKey a.2 ≤ dlSortKey b.2

section Search

variable {queue : List (UInt256 × ℤ)} {key : ℤ}

/-- The place splits the queue into the keys up to `key` and the greater ones. -/
structure SplitAt (queue : List (UInt256 × ℤ)) (key : ℤ) (lo hi : ℕ) : Prop where
  below : ∀ e ∈ queue.take lo, dlSortKey e.2 ≤ key
  above : ∀ e ∈ queue.drop hi, key < dlSortKey e.2

section

variable (h : KeySorted queue)

include h

theorem KeySorted.take_le {m : ℕ} (hm : m < queue.length) :
    ∀ e ∈ queue.take (m + 1), dlSortKey e.2 ≤ dlSortKey (queue.getD m (0, 0)).2 := by
  intro e he
  obtain ⟨i, hi, rfl⟩ := mem_iff_getElem.mp he
  rw [length_take] at hi
  rw [getElem_take, getD_eq_getElem _ _ hm]
  rcases Nat.lt_or_eq_of_le (show i ≤ m by omega) with hlt | heq
  · exact pairwise_iff_getElem.mp h i m (by omega) hm hlt
  · simp only [heq, le_refl]

theorem KeySorted.le_drop {m : ℕ} (hm : m < queue.length) :
    ∀ e ∈ queue.drop m, dlSortKey (queue.getD m (0, 0)).2 ≤ dlSortKey e.2 := by
  intro e he
  obtain ⟨i, hi, rfl⟩ := mem_iff_getElem.mp he
  rw [length_drop] at hi
  rw [getElem_drop, getD_eq_getElem _ _ hm]
  rcases Nat.eq_zero_or_pos i with heq | hpos
  · simp only [heq, Nat.add_zero, le_refl]
  · exact pairwise_iff_getElem.mp h m (m + i) hm (by omega) (by omega)

theorem dlQueuePosition_spec {fuel lo hi : ℕ} (hfuel : hi ≤ lo + fuel)
    (hle : lo ≤ hi) (hhi : hi ≤ queue.length) (hsplit : SplitAt queue key lo hi) :
    SplitAt queue key (dlQueuePosition queue key fuel lo hi)
      (dlQueuePosition queue key fuel lo hi) := by
  induction fuel generalizing lo hi with
  | zero =>
    rw [dlQueuePosition]
    rwa [show hi = lo by omega] at hsplit
  | succ fuel ih =>
    unfold dlQueuePosition
    dsimp only
    split_ifs with hlt hkey
    · apply ih (by omega) (by omega) hhi
      refine ⟨?_, hsplit.above⟩
      intro e he
      exact (h.take_le (by omega) e he).trans hkey
    · apply ih (by omega) (by omega) (by omega)
      refine ⟨hsplit.below, ?_⟩
      intro e he
      exact (not_le.mp hkey).trans_le (h.le_drop (by omega) e he)
    · rwa [show hi = lo by omega] at hsplit

theorem dlQueuePosition_split (key : ℤ) :
    SplitAt queue key (dlQueuePosition queue key queue.length 0 queue.length)
      (dlQueuePosition queue key queue.length 0 queue.length) := by
  apply dlQueuePosition_spec h (by omega) (Nat.zero_le _) le_rfl
  constructor
  · rw [take_zero]
    exact nofun
  · rw [drop_length]
    exact nofun

end

end Search

section Push

variable {dm dm' : DownloadManager} {hash : UInt256} {height : ℤ}

section

variable (hpush : dlQueuePush dm hash height = some dm')

include hpush

theorem dlQueuePush_queue :
    ∃ pos, pos = dlQueuePosition dm.queue (dlSortKey height) dm.queue.length 0 dm.queue.length ∧
      dm'.queue = dm.queue.take pos ++ (hash, height) :: dm.queue.drop pos := by
  unfold dlQueuePush at hpush
  rw [Option.ite_none_left_eq_some] at hpush
  cases hpush.2
  exact ⟨_, rfl, rfl⟩

theorem dlQueuePush_cap :
    ¬(dm.queueCap ≤ dm.queue.length ∧ dlQueueMax ≤ dm.queueCap) ∧
      dm'.queueCap = if dm.queueCap ≤ dm.queue.length then dm.queueCap * 2 else dm.queueCap := by
  unfold dlQueuePush at hpush
  rw [Option.ite_none_left_eq_some] at hpush
  cases hpush.2
  exact ⟨hpush.1, rfl⟩

theorem dlQueuePush_perm : dm'.queue.Perm ((hash, height) :: dm.queue) := by
  obtain ⟨pos, -, hqueue⟩ := dlQueuePush_queue hpush
  rw [hqueue]
  apply perm_middle.trans
  rw [take_append_drop]

end

theorem dlQueuePush_sorted (h : KeySorted dm.queue)
    (hpush : dlQueuePush dm hash height = some dm') : KeySorted dm'.queue := by
  obtain ⟨pos, hpos, hqueue⟩ := dlQueuePush_queue hpush
  have hsplit : SplitAt dm.queue (dlSortKey height) pos pos := by
    rw [hpos]
    exact dlQueuePosition_split h _
  have hparts : KeySorted (dm.queue.take pos ++ dm.queue.drop pos) := by
    rwa [take_append_drop]
  rw [KeySorted, pairwise_append] at hparts
  rw [hqueue, KeySorted, pairwise_append, pairwise_cons]
  refine ⟨hparts.1, ⟨fun e he => (hsplit.above e he).le, hparts.2.1⟩, ?_⟩
  intro a ha b hb
  rcases mem_cons.mp hb with rfl | hb
  · exact hsplit.below a ha
  · exact hparts.2.2 a ha b hb

/-- The queue fits its capacity, which is a power of two up to the largest. -/
structure Capped (dm : DownloadManager) : Prop where
  fits : dm.queue.length ≤ dm.queueCap
  cap : ∃ k ≤ 16, dm.queueCap = 2 ^ k

theorem dlInit_capped : Capped dlInit := ⟨Nat.zero_le _, 12, by decide, rfl⟩

theorem Capped.push_eq_none (h : Capped dm) (hash : UInt256) (height : ℤ) :
    dlQueuePush dm hash height = none ↔ dlQueueMax ≤ dm.queue.length := by
  obtain ⟨k, hk, hcap⟩ := h.cap
  have hle : dm.queueCap ≤ dlQueueMax := by
    rw [hcap]
    exact Nat.pow_le_pow_right (by decide) hk
  have hfits := h.fits
  unfold dlQueuePush
  dsimp only
  split_ifs with hfull
  · exact iff_of_true rfl (hfull.2.trans hfull.1)
  · refine iff_of_false nofun ?_
    intro hmax
    exact hfull ⟨by omega, by omega⟩

theorem Capped.push (h : Capped dm) (hpush : dlQueuePush dm hash height = some dm') :
    Capped dm' := by
  have hlength := (dlQueuePush_perm hpush).length_eq
  obtain ⟨hroom, hcap'⟩ := dlQueuePush_cap hpush
  obtain ⟨k, hk, hcap⟩ := h.cap
  have hpos := Nat.two_pow_pos k
  have hfits := h.fits
  rw [length_cons] at hlength
  by_cases hfull : dm.queueCap ≤ dm.queue.length
  · rw [if_pos hfull] at hcap'
    refine ⟨by omega, k + 1, ?_, by rw [hcap', hcap, pow_succ]⟩
    -- the capacity was not the largest
    by_contra hk'
    have hmax : dm.queueCap = dlQueueMax := by
      rw [hcap, show k = 16 by omega]
      rfl
    exact hroom ⟨hfull, hmax.ge⟩
  · rw [if_neg hfull] at hcap'
    exact ⟨by omega, k, hk, hcap'.trans hcap⟩

end Push

end ZClassic
