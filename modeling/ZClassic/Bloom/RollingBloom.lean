import Mathlib.Data.List.Basic
import Mathlib.Data.UInt

/-!
# Rolling Bloom filters

`lib/bloom/src/bloom.c`: two filters take every element and are emptied in turn, so that one of them
has seen the last elements.
-/

namespace ZClassic

open List

def maxBloomFilterSize : ℕ := 36000

def maxBloomHashFuncs : ℕ := 50

/-- `bits` are those of `data`, eight for each of its `data_size` bytes. -/
structure BloomFilter where
  bits : List Bool
  isFull : Bool
  isEmpty : Bool
  numHashFuncs : ℕ
  tweak : UInt32
  flags : UInt8

/-- `ideal` and `idealFuncs` are computed in floating point from the number of elements and the rate
of false positives. -/
def bloomFilterInitInternal (ideal idealFuncs tweak : UInt32) (flags : UInt8) (constrained : Bool) :
    BloomFilter :=
  let maxBits := maxBloomFilterSize * 8
  let filterBits := if constrained ∧ maxBits ≤ ideal.toNat then maxBits else ideal.toNat
  let dataSize := if filterBits / 8 = 0 then 1 else filterBits / 8
  { bits := replicate (dataSize * 8) false
    isFull := false
    isEmpty := true
    numHashFuncs := min idealFuncs.toNat maxBloomHashFuncs
    tweak, flags }

def bloomFilterClear (f : BloomFilter) : BloomFilter :=
  { f with bits := replicate f.bits.length false, isFull := false, isEmpty := true }

structure RollingBloomFilter where
  b1 : BloomFilter
  b2 : BloomFilter
  bloomSize : UInt32
  insertions : UInt32

def rollingBloomInit (ideal idealFuncs numElements tweak : UInt32) : RollingBloomFilter where
  b1 := bloomFilterInitInternal ideal idealFuncs tweak 0 false
  b2 := bloomFilterInitInternal ideal idealFuncs tweak 0 false
  bloomSize := numElements * 2
  insertions := 0

section Filter

variable (murmur : UInt32 → List UInt8 → UInt32)

variable (f : BloomFilter) (data : List UInt8)

def bloomHash (hashNum : ℕ) : ℕ :=
  (murmur (UInt32.ofNat hashNum * 0xFBA4C795 + f.tweak) data % UInt32.ofNat f.bits.length).toNat

def bloomIndices : List ℕ :=
  (range f.numHashFuncs).map (bloomHash murmur f data)

def bloomFilterInsert : BloomFilter :=
  if f.isFull then f
  else { f with
    bits := (bloomIndices murmur f data).foldl (fun bits idx => bits.set idx true) f.bits
    isEmpty := false }

def bloomFilterContains : Bool :=
  if f.isFull then true
  else if f.isEmpty then false
  else (bloomIndices murmur f data).all (f.bits.getD · false)

def rollingBloomInsert (f : RollingBloomFilter) (data : List UInt8) : RollingBloomFilter :=
  let b1 := if f.insertions = 0 then bloomFilterClear f.b1 else f.b1
  let b2 :=
    if f.insertions ≠ 0 ∧ f.insertions = f.bloomSize / 2 then bloomFilterClear f.b2 else f.b2
  { b1 := bloomFilterInsert murmur b1 data
    b2 := bloomFilterInsert murmur b2 data
    bloomSize := f.bloomSize
    insertions := if f.insertions + 1 = f.bloomSize then 0 else f.insertions + 1 }

def rollingBloomContains (f : RollingBloomFilter) (data : List UInt8) : Bool :=
  if f.insertions < f.bloomSize / 2 then bloomFilterContains murmur f.b2 data
  else bloomFilterContains murmur f.b1 data

/-- The elements are contained, whose bits all have their place in the filter. -/
structure BloomHolds (f : BloomFilter) (l : List (List UInt8)) : Prop where
  nonempty : 0 < f.bits.length
  bits : f.bits.length < 2 ^ 32
  notFull : f.isFull = false
  contains : ∀ x ∈ l, bloomFilterContains murmur f x = true

end Filter

theorem length_foldl_set (idxs : List ℕ) (bits : List Bool) :
    (idxs.foldl (fun bits idx => bits.set idx true) bits).length = bits.length := by
  induction idxs generalizing bits with
  | nil => rfl
  | cons i idxs ih => rw [foldl_cons, ih, length_set]

theorem getD_foldl_set (idxs : List ℕ) (bits : List Bool) (j : ℕ) :
    (idxs.foldl (fun bits idx => bits.set idx true) bits).getD j false = true ↔
      bits.getD j false = true ∨ j ∈ idxs ∧ j < bits.length := by
  induction idxs generalizing bits with
  | nil => simp
  | cons i idxs ih =>
    rw [foldl_cons, ih, length_set, mem_cons]
    grind

section Windows

variable {murmur : UInt32 → List UInt8 → UInt32} {f : BloomFilter} {l : List (List UInt8)}

theorem bloomHolds_init (ideal idealFuncs tweak : UInt32) (flags : UInt8) :
    BloomHolds murmur (bloomFilterInitInternal ideal idealFuncs tweak flags false) [] := by
  have hideal := ideal.toNat_lt
  refine ⟨?_, ?_, rfl, nofun⟩
  all_goals
    simp only [bloomFilterInitInternal, Bool.false_eq_true, false_and, if_false, length_replicate]
    split_ifs
    all_goals omega

theorem BloomHolds.clear (h : BloomHolds murmur f l) :
    BloomHolds murmur (bloomFilterClear f) [] := by
  have hlen : (bloomFilterClear f).bits.length = f.bits.length := length_replicate
  exact ⟨hlen ▸ h.nonempty, hlen ▸ h.bits, rfl, nofun⟩

theorem BloomHolds.mono {l' : List (List UInt8)} (h : BloomHolds murmur f l) (hsub : l' ⊆ l) :
    BloomHolds murmur f l' :=
  { h with contains := fun x hx => h.contains x (hsub hx) }

theorem bloomFilterContains_iff (h : f.isFull = false) {x : List UInt8} :
    bloomFilterContains murmur f x = true ↔
      f.isEmpty = false ∧ ∀ idx ∈ bloomIndices murmur f x, f.bits.getD idx false = true := by
  simp [bloomFilterContains, h]

/-- The places of an element depend on the length of the filter alone. -/
theorem bloomIndices_congr {bits : List Bool} (hlen : bits.length = f.bits.length) (e : Bool)
    (x : List UInt8) :
    bloomIndices murmur { f with bits, isEmpty := e } x = bloomIndices murmur f x := by
  unfold bloomIndices bloomHash
  simp only [hlen]

theorem BloomHolds.insert (h : BloomHolds murmur f l) (x : List UInt8) :
    BloomHolds murmur (bloomFilterInsert murmur f x) (x :: l) := by
  have hlen := length_foldl_set (bloomIndices murmur f x) f.bits
  rw [bloomFilterInsert, if_neg (by simp [h.notFull])]
  refine ⟨hlen.symm ▸ h.nonempty, hlen.symm ▸ h.bits, h.notFull, ?_⟩
  intro y hy
  refine (bloomFilterContains_iff (by exact h.notFull)).mpr ⟨rfl, ?_⟩
  intro idx hidx
  rw [bloomIndices_congr hlen] at hidx
  rw [getD_foldl_set]
  rcases mem_cons.mp hy with rfl | hy
  · refine .inr ⟨hidx, ?_⟩
    obtain ⟨i, -, rfl⟩ := mem_map.mp hidx
    rw [bloomHash, UInt32.toNat_mod, UInt32.toNat_ofNat_of_lt' h.bits]
    exact Nat.mod_lt _ h.nonempty
  · exact .inl (((bloomFilterContains_iff h.notFull).mp (h.contains y hy)).2 idx hidx)

/-- How many of the last elements the second filter has seen: it is emptied `n` insertions after the
first. -/
def secondWindow (n insertions : ℕ) : ℕ :=
  if insertions ≤ n then insertions + n else insertions - n

/-- The filters hold the last elements; the newest one is the first of the history. -/
structure Windows (murmur : UInt32 → List UInt8 → UInt32) (n : ℕ) (history : List (List UInt8))
    (f : RollingBloomFilter) : Prop where
  size : f.bloomSize.toNat = 2 * n
  insertions : f.insertions.toNat < 2 * n
  first : BloomHolds murmur f.b1 (history.take f.insertions.toNat)
  second : BloomHolds murmur f.b2 (history.take (secondWindow n f.insertions.toNat))

variable {n : ℕ} {history : List (List UInt8)} {f : RollingBloomFilter}

section

variable (h : Windows murmur n history f)

include h

theorem Windows.insert (x : List UInt8) :
    Windows murmur n (x :: history) (rollingBloomInsert murmur f x) := by
  obtain ⟨hsize, hlt, hfirst, hsecond⟩ := h
  have hbound := f.bloomSize.toNat_lt
  have hsucc : (f.insertions + 1).toNat = f.insertions.toNat + 1 := by
    rw [UInt32.toNat_add, UInt32.toNat_one, Nat.mod_eq_of_lt (by omega)]
  have hhalf : f.insertions = f.bloomSize / 2 ↔ f.insertions.toNat = n := by
    rw [← UInt32.toNat_inj, UInt32.toNat_div, hsize]
    simp
  have hb1 : BloomHolds murmur (if f.insertions = 0 then bloomFilterClear f.b1 else f.b1)
      (history.take f.insertions.toNat) := by
    split_ifs with hzero
    · rw [hzero]
      exact hfirst.clear
    · exact hfirst
  have hb2 : BloomHolds murmur
      (if f.insertions ≠ 0 ∧ f.insertions = f.bloomSize / 2 then bloomFilterClear f.b2 else f.b2)
      (history.take (if f.insertions.toNat = n then 0 else secondWindow n f.insertions.toNat)) := by
    split_ifs with hclear hn hn
    · exact hsecond.clear
    · exact absurd (hhalf.mp hclear.2) hn
    · exact hsecond.mono (by simp)
    · exact hsecond
  have hnext : (rollingBloomInsert murmur f x).insertions.toNat =
      if f.insertions.toNat + 1 = 2 * n then 0 else f.insertions.toNat + 1 := by
    simp only [rollingBloomInsert, apply_ite UInt32.toNat, ← UInt32.toNat_inj, hsucc, hsize]
    rfl
  refine ⟨hsize, ?_, (hb1.insert x).mono ?_, (hb2.insert x).mono ?_⟩
  · rw [hnext]
    split_ifs
    all_goals omega
  · rw [hnext, ← take_succ_cons]
    apply (take_prefix_take_left _).subset
    split_ifs
    all_goals omega
  · rw [hnext, ← take_succ_cons]
    apply (take_prefix_take_left _).subset
    unfold secondWindow
    split_ifs
    all_goals omega

theorem Windows.run (items : List (List UInt8)) :
    Windows murmur n (items.reverse ++ history) (items.foldl (rollingBloomInsert murmur) f) := by
  induction items generalizing history f with
  | nil => exact h
  | cons x items ih =>
    rw [reverse_cons, append_assoc]
    exact ih (h.insert x)

theorem Windows.contains {x : List UInt8}
    (hx : x ∈ history.take n) : rollingBloomContains murmur f x = true := by
  have hhalf : f.insertions < f.bloomSize / 2 ↔ f.insertions.toNat < n := by
    rw [UInt32.lt_iff_toNat_lt, UInt32.toNat_div, h.size]
    simp
  rw [rollingBloomContains]
  simp only [hhalf]
  split_ifs with hlt
  · apply h.second.contains
    refine (take_prefix_take_left ?_).subset hx
    rw [secondWindow, if_pos hlt.le]
    omega
  · exact h.first.contains x ((take_prefix_take_left (by omega)).subset hx)

end

end Windows

/-- While twice the number of elements fits, the last elements are contained after any
insertions. -/
theorem rollingBloom_contains_last (murmur : UInt32 → List UInt8 → UInt32)
    (ideal idealFuncs numElements tweak : UInt32) (hpos : 1 ≤ numElements)
    (hfits : numElements.toNat < 2 ^ 31) (items : List (List UInt8)) :
    ∀ x ∈ items.reverse.take numElements.toNat, rollingBloomContains murmur
      (items.foldl (rollingBloomInsert murmur)
        (rollingBloomInit ideal idealFuncs numElements tweak))
      x = true := by
  intro x hx
  have hpos : 1 ≤ numElements.toNat := hpos
  have hsize : (numElements * 2).toNat = 2 * numElements.toNat := by
    rw [UInt32.toNat_mul, Nat.mul_comm]
    exact Nat.mod_eq_of_lt (show 2 * _ < 2 ^ 32 by omega)
  have hinit : Windows murmur numElements.toNat []
      (rollingBloomInit ideal idealFuncs numElements tweak) :=
    ⟨hsize, show 0 < _ by omega, bloomHolds_init .., (bloomHolds_init ..).mono (by simp)⟩
  have hrun := hinit.run items
  rw [append_nil] at hrun
  exact hrun.contains hx

def byteHash (_ : UInt32) (data : List UInt8) : UInt32 := (data.headD 0).toUInt32

/-- Each filter is emptied after six elements, and the last three are found. -/
theorem lastThree_contained :
    let filter := [[1], [2], [3], [4], [5], [6], [7]].foldl (rollingBloomInsert byteHash)
      (rollingBloomInit 57 6 3 0)
    (∀ x ∈ [[7], [6], [5]], rollingBloomContains byteHash filter x = true) ∧
      rollingBloomContains byteHash filter [1] = false :=
  ⟨rollingBloom_contains_last byteHash 57 6 3 0 (by decide) (by decide)
    [[1], [2], [3], [4], [5], [6], [7]], by decide +kernel⟩

/-- Twice `2 ^ 31 + 1` is 2 in an `unsigned int`; for a rate of one in a hundred this gives 19 bits
and 5 hash functions. -/
theorem wrappedSize_forgets :
    [1] ∈ ([[1], [2], [3]] : List (List UInt8)).reverse.take (2147483649 : UInt32).toNat ∧
      rollingBloomContains byteHash ([[1], [2], [3]].foldl (rollingBloomInsert byteHash)
        (rollingBloomInit 19 5 2147483649 0)) [1] = false := by
  decide +kernel

end ZClassic
