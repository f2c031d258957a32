import ZClassic.Lib.PerfectForest

/-!
# Bagged forests

A forest of perfect trees is committed to by one hash of all its peaks, or by the peak alone if
there is only one.
-/

namespace ZClassic

open List Mountain

theorem injOn_of_forall_mem {α β : Type} {f : α → β} {l : List α}
    (h : ∀ x ∈ l, ∀ y ∈ l, f x = f y → x = y) : Set.InjOn f {x | x ∈ l} :=
  fun x hx y hy heq => h x hx y hy heq

structure ForestHash (β α μ : Type) where
  hash : μ → α
  leafMessage : β → μ
  nodeMessage : α → α → μ
  rootMessage : List α → μ
  leaf_injective : Function.Injective leafMessage
  node_injective : ∀ {l r l' r'}, nodeMessage l r = nodeMessage l' r' → (l, r) = (l', r')
  root_injective : Function.Injective rootMessage
  leaf_ne_node : ∀ b l r, leafMessage b ≠ nodeMessage l r
  leaf_ne_root : ∀ b peaks, leafMessage b ≠ rootMessage peaks
  node_ne_root : ∀ l r peaks, nodeMessage l r ≠ rootMessage peaks

variable {heights : List ℕ}

namespace ForestHash

variable {β α μ : Type} (F : ForestHash β α μ)

def leaf (b : β) : α := F.hash (F.leafMessage b)

def node (l r : α) : α := F.hash (F.nodeMessage l r)

def bag : List α → α
  | [p] => p
  | peaks => F.hash (F.rootMessage peaks)

def bagMessages (peaks : List α) : List μ :=
  if peaks.length = 1 then [] else [F.rootMessage peaks]

def pairMessages (pairs : List (α × α)) : List μ := pairs.map fun p => F.nodeMessage p.1 p.2

def forestMessages (leaves : List β) (leafAt : ℕ → α) (heights : List ℕ) (peaks : List α) :
    List μ :=
  leaves.map F.leafMessage ++ F.pairMessages (forestPairs F.node leafAt heights) ++
    F.bagMessages peaks

def proofMessages (b : β) (path : List (Bool × α)) (peaks : List α) : List μ :=
  F.leafMessage b :: F.pairMessages (climbPairs F.node (F.leaf b) path) ++ F.bagMessages peaks

variable {F} {M : Set μ}

variable {peaks : List α} {b : β} {path : List (Bool × α)}

theorem bag_of_length_ne_one (h : peaks.length ≠ 1) :
    F.bag peaks = F.hash (F.rootMessage peaks) := by
  rcases peaks with _ | ⟨p, _ | ⟨q, peaks⟩⟩
  · rfl
  · exact absurd rfl h
  · rfl

theorem bagMessages_of_length_ne_one (h : peaks.length ≠ 1) :
    F.bagMessages peaks = [F.rootMessage peaks] := if_neg h

theorem bag_ne_hash (hinj : Set.InjOn F.hash M) (hlen : peaks.length ≠ 1)
    (hbag : ∀ m ∈ F.bagMessages peaks, m ∈ M) {m : μ} (hm : m ∈ M) (hne : m ≠ F.rootMessage peaks) :
    F.bag peaks ≠ F.hash m := by
  rw [bagMessages_of_length_ne_one hlen, forall_mem_singleton] at hbag
  rw [bag_of_length_ne_one hlen]
  exact fun h => hne (hinj hm hbag h.symm)

/-- Two lists of peaks with one commitment are equal, when a single peak is the hash of a leaf or of
a pair. -/
theorem bag_inj (hinj : Set.InjOn F.hash M) {peaks peaks' : List α}
    (hbag : ∀ m ∈ F.bagMessages peaks, m ∈ M) (hbag' : ∀ m ∈ F.bagMessages peaks', m ∈ M)
    (hpeak : ∀ p, peaks = [p] → ∃ m ∈ M, p = F.hash m ∧ ∀ l, m ≠ F.rootMessage l)
    (hpeak' : ∀ p, peaks' = [p] → ∃ m ∈ M, p = F.hash m ∧ ∀ l, m ≠ F.rootMessage l)
    (heq : F.bag peaks = F.bag peaks') : peaks = peaks' := by
  by_cases hone : peaks.length = 1
  · obtain ⟨p, rfl⟩ := length_eq_one_iff.mp hone
    obtain ⟨m, hm, rfl, hroot⟩ := hpeak p rfl
    by_cases hone' : peaks'.length = 1
    · obtain ⟨p', rfl⟩ := length_eq_one_iff.mp hone'
      exact congrArg (fun p => [p]) heq
    · exact absurd heq.symm (bag_ne_hash hinj hone' hbag' hm (hroot _))
  · by_cases hone' : peaks'.length = 1
    · obtain ⟨p', rfl⟩ := length_eq_one_iff.mp hone'
      obtain ⟨m, hm, rfl, hroot⟩ := hpeak' p' rfl
      exact absurd heq (bag_ne_hash hinj hone hbag hm (hroot _))
    · -- both are hashed, and the messages have one hash
      rw [bagMessages_of_length_ne_one hone, forall_mem_singleton] at hbag
      rw [bagMessages_of_length_ne_one hone', forall_mem_singleton] at hbag'
      rw [bag_of_length_ne_one hone, bag_of_length_ne_one hone'] at heq
      exact F.root_injective (hinj hbag hbag' heq)

theorem climb_eq_hash (hM : ∀ m ∈ F.proofMessages b path peaks, m ∈ M) :
    ∃ m ∈ M, climb F.node (F.leaf b) path = F.hash m ∧ ∀ l, m ≠ F.rootMessage l := by
  rcases climb_eq_start_or_node F.node (F.leaf b) path with h | ⟨p, hp, h⟩
  · exact ⟨_, hM _ (by simp [proofMessages]), h, F.leaf_ne_root b⟩
  · refine ⟨F.nodeMessage p.1 p.2, hM _ ?_, h, F.node_ne_root _ _⟩
    exact mem_append_left _ (mem_cons_of_mem _ (mem_map_of_mem hp))

section Forest

variable {leaves : List β} {leafAt : ℕ → α} {st : List (Mountain α)}

section

variable (hM : ∀ m ∈ F.forestMessages leaves leafAt heights peaks, m ∈ M)

include hM

theorem leafMessage_mem
    (hb : b ∈ leaves) : F.leafMessage b ∈ M := by
  apply hM
  exact mem_append_left _ (mem_append_left _ (mem_map_of_mem hb))

theorem nodeMessage_mem {q : α × α}
    (hq : q ∈ forestPairs F.node leafAt heights) : F.nodeMessage q.1 q.2 ∈ M := by
  apply hM
  exact mem_append_left _ (mem_append_right _ (mem_map_of_mem hq))

end

section

variable (hcov : Covers F.node leafAt st) (hsize : forestSize st = leaves.length)
  (hleaf : ∀ i b, leaves[i]? = some b → leafAt i = F.leaf b)

include hcov hsize hleaf

theorem peak_eq_hash
    (hM : ∀ m ∈ F.forestMessages leaves leafAt (st.map height) peaks, m ∈ M)
    {m : Mountain α} (hm : m ∈ st) :
    ∃ msg ∈ M, m.peak = F.hash msg ∧ ∀ l, msg ≠ F.rootMessage l := by
  obtain ⟨above, below, rfl⟩ := append_of_mem hm
  rw [hcov.peak_eq]
  rcases treeRoot_eq_leaf_or_node F.node leafAt m.height (forestSize below) with
    h | ⟨q, hq, h⟩
  · have hlt : forestSize below < leaves.length := by
      have hpos : 0 < 2 ^ m.height := Nat.two_pow_pos _
      rw [← hsize, forestSize_append, forestSize_cons]
      omega
    have hget := getElem?_eq_getElem hlt
    rw [h, hleaf _ _ hget]
    exact ⟨_, leafMessage_mem hM (getElem_mem hlt), rfl, F.leaf_ne_root _⟩
  · exact ⟨_, nodeMessage_mem hM (mem_forestPairs hq), h, F.node_ne_root _ _⟩

/-- A proof that fits the commitment to a forest leads to one of its peaks, and the leaf of a path
to a peak is the one that the path points to, in a tree whose height is the length of the path. -/
theorem leaf_of_bag_eq
    (hinj : Set.InjOn F.hash {m | m ∈ F.forestMessages leaves leafAt (st.map height)
      (st.map peak).reverse ++ F.proofMessages b path peaks})
    (hmem : climb F.node (F.leaf b) path ∈ peaks)
    (hroot : F.bag peaks = F.bag (st.map peak).reverse) :
    climb F.node (F.leaf b) path ∈ st.map peak ∧
      ∀ above m below, st = above ++ m :: below → climb F.node (F.leaf b) path = m.peak →
        path.length = m.height ∧ leaves[forestSize below + pathIndex path]? = some b := by
  set M := {m | m ∈ F.forestMessages leaves leafAt (st.map height)
    (st.map peak).reverse ++ F.proofMessages b path peaks} with hMdef
  have hforest : ∀ m ∈ F.forestMessages leaves leafAt (st.map height)
      (st.map peak).reverse, m ∈ M := fun m hm => mem_append_left _ hm
  have hproof : ∀ m ∈ F.proofMessages b path peaks, m ∈ M := fun m hm =>
    mem_append_right _ hm
  have hpairs : ∀ p ∈ climbPairs F.node (F.leaf b) path, F.nodeMessage p.1 p.2 ∈ M := by
    intro p hp
    apply hproof
    exact mem_append_left _ (mem_cons_of_mem _ (mem_map_of_mem hp))
  have hb : F.leafMessage b ∈ M := hproof _ (by simp [proofMessages])
  -- the proof's peaks are the forest's
  have hpeaks : peaks = (st.map peak).reverse := by
    apply bag_inj hinj
    · exact fun m hm => hproof m (mem_append_right _ hm)
    · exact fun m hm => hforest m (mem_append_right _ hm)
    · rintro p rfl
      rw [← mem_singleton.mp hmem]
      exact climb_eq_hash hproof
    · intro p hp
      have hp' : p ∈ st.map peak := by
        rw [← mem_reverse, hp]
        exact mem_singleton_self p
      obtain ⟨m, hm, rfl⟩ := mem_map.mp hp'
      exact peak_eq_hash hcov hsize hleaf hforest hm
    · exact hroot
  rw [hpeaks, mem_reverse] at hmem
  refine ⟨hmem, ?_⟩
  rintro above m below rfl hpeak
  obtain ⟨hlen, hx⟩ := hcov.eq_leaf_of_climb_eq_peak
    (fun p hp q hq h => F.node_injective (hinj (hpairs p hp) (nodeMessage_mem hforest hq) h))
    (fun q hq h => F.leaf_ne_node _ _ _ (hinj hb (nodeMessage_mem hforest hq) h))
    (fun p hp i hi h => by
      rw [hsize] at hi
      rw [hleaf i _ (getElem?_eq_getElem hi)] at h
      exact F.leaf_ne_node _ _ _
        (hinj (leafMessage_mem hforest (getElem_mem hi)) (hpairs p hp) h)) hpeak
  refine ⟨hlen, ?_⟩
  have hlt : forestSize below + pathIndex path < leaves.length := by
    have hpath := pathIndex_lt path
    rw [← hsize, forestSize_append, forestSize_cons, ← hlen]
    omega
  have hget := getElem?_eq_getElem hlt
  rw [hleaf _ _ hget] at hx
  rw [hget]
  exact congrArg some (F.leaf_injective
    (hinj hb (leafMessage_mem hforest (getElem_mem hlt)) hx)).symm

end

end Forest

end ForestHash

end ZClassic
