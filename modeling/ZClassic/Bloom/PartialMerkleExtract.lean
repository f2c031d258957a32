import ZClassic.Bloom.PartialMerkle

/-!
# Extracting from partial Merkle trees

`merkle_tree_extract` reads a partial tree off the two streams.
-/

namespace ZClassic

open List Function PartialTree ExtractState

section Streams

variable {α : Type} {l xs ys : List α} {n : ℕ}

theorem drop_add_of_drop_eq_append (h : l.drop n = xs ++ ys) : l.drop (n + xs.length) = ys := by
  rw [← drop_drop, h, drop_left]

variable {x : α}

theorem drop_succ_of_drop_eq_cons (h : l.drop n = x :: ys) : l.drop (n + 1) = ys := by
  rw [← tail_drop, h, tail_cons]

theorem getElem?_of_drop_eq_cons (h : l.drop n = x :: ys) : l[n]? = some x := by
  rw [← head?_drop, h]
  rfl

theorem drop_eq_cons_of_getElem? (h : l[n]? = some x) : l.drop n = x :: l.drop (n + 1) := by
  obtain ⟨hlt, rfl⟩ := List.getElem?_eq_some_iff.mp h
  exact List.drop_eq_getElem_cons hlt

end Streams

variable {bs : List Bool} {height pos : ℕ} {hs : List UInt256} {p : PartialTree UInt256}
  {s : ExtractState} {isMatch : Bool}

section Extract

variable {hashPair : UInt256 → UInt256 → UInt256} {t : PartialMerkleTree}

def ExtractState.advance (s : ExtractState) (p : PartialTree UInt256) : ExtractState :=
  { s with
    bitsUsed := s.bitsUsed + p.bits.length
    hashUsed := s.hashUsed + p.hashes.length
    matched := s.matched ++ p.matchedLeaves }

theorem ExtractState.advance_half (s : ExtractState) (l : PartialTree UInt256) :
    s.nextBit.advance l = s.advance (.half l) := by
  simp only [advance, bits, hashes, matchedLeaves, length_cons]
  congr 1
  omega

theorem ExtractState.advance_node (s : ExtractState) (l r : PartialTree UInt256) :
    (s.nextBit.advance l).advance r = s.advance (.node l r) := by
  simp only [advance, bits, hashes, matchedLeaves,
    length_cons, length_append, append_assoc, Nat.add_assoc]
  congr 1
  omega

theorem traverseAndExtract_eq
    (hfits : Fits (calcTreeWidth t.numTransactions.toNat) height pos p)
    (hdistinct : p.Distinct (uncurry hashPair))
    (hbits : t.bits.drop s.bitsUsed = p.bits ++ bs)
    (hhashes : t.hashes.drop s.hashUsed = p.hashes ++ hs)
    (hroom : s.matched.length + p.matchedLeaves.length ≤ t.numTransactions.toNat) :
    traverseAndExtract hashPair t height pos s = (p.root (uncurry hashPair), s.advance p) := by
  induction hfits generalizing s bs hs with
  | pruned height pos h =>
    have hbit := getElem?_of_drop_eq_cons hbits
    have hhash := getElem?_of_drop_eq_cons hhashes
    cases height <;>
      simp [traverseAndExtract, takeHash, hbit, hhash, root, advance, bits, hashes, matchedLeaves]
  | matched pos h =>
    have hbit := getElem?_of_drop_eq_cons hbits
    have hhash := getElem?_of_drop_eq_cons hhashes
    have hlt : s.matched.length < t.numTransactions.toNat := hroom
    simp [traverseAndExtract, takeHash, hbit, hhash, hlt, root, advance,
      bits, hashes, matchedLeaves]
  | half hwidth hl ih =>
    have hbit := getElem?_of_drop_eq_cons hbits
    have hleft := ih (s := s.nextBit) hdistinct (drop_succ_of_drop_eq_cons hbits) hhashes hroom
    simp only [traverseAndExtract, hbit, hleft, if_neg (Nat.not_lt.mpr hwidth), advance_half]
    rfl
  | @node height pos l r hwidth hl hr ihl ihr =>
    rw [bits, cons_append, append_assoc] at hbits
    rw [hashes, append_assoc] at hhashes
    rw [matchedLeaves, length_append] at hroom
    have hbit := getElem?_of_drop_eq_cons hbits
    have hrest : t.bits.drop (s.bitsUsed + 1) = l.bits ++ (r.bits ++ bs) :=
      drop_succ_of_drop_eq_cons hbits
    have hleft := ihl (s := s.nextBit) hdistinct.1 hrest hhashes
      (by change s.matched.length + _ ≤ _; omega)
    have hright := ihr (s := s.nextBit.advance l) hdistinct.2.1
      (drop_add_of_drop_eq_append hrest) (drop_add_of_drop_eq_append hhashes)
      (by simp only [advance, length_append]; omega)
    -- the two children differ, so nothing is marked bad
    have hne : (r.root (uncurry hashPair) == l.root (uncurry hashPair)) = false :=
      beq_eq_false_iff_ne.mpr hdistinct.2.2.symm
    simp only [traverseAndExtract, hbit, hleft, if_pos hwidth, hright, advance_node,
      hne, Bool.or_false]
    rfl

theorem takeHash_bad (h : s.bad = true) : (takeHash t isMatch s).2.bad = true := by
  unfold takeHash
  split
  · rfl
  · exact h

theorem traverseAndExtract_bad (h : s.bad = true) :
    (traverseAndExtract hashPair t height pos s).2.bad = true := by
  induction height generalizing pos s with
  | zero =>
    unfold traverseAndExtract
    split
    · rfl
    · exact takeHash_bad h
  | succ height ih =>
    unfold traverseAndExtract
    split
    · rfl
    · exact takeHash_bad h
    · split_ifs with hlt
      · exact Bool.or_eq_true_iff.mpr (.inl (ih (ih h)))
      · exact ih h

/-- A tree was read between two states. -/
structure HasRead (hashPair : UInt256 → UInt256 → UInt256) (t : PartialMerkleTree)
    (height pos : ℕ) (s : ExtractState) (p : PartialTree UInt256) (res : UInt256 × ExtractState) :
    Prop where
  fits : PartialTree.Fits (calcTreeWidth t.numTransactions.toNat) height pos p
  bits : t.bits.drop s.bitsUsed = p.bits ++ t.bits.drop res.2.bitsUsed
  hashes : t.hashes.drop s.hashUsed = p.hashes ++ t.hashes.drop res.2.hashUsed
  root : res.1 = p.root (Function.uncurry hashPair)
  matched : ∀ x ∈ res.2.matched, x ∈ s.matched ∨ x ∈ p.matchedLeaves

section Children

variable {l r : PartialTree UInt256} {res res' : UInt256 × ExtractState}

theorem HasRead.half (hbit : t.bits[s.bitsUsed]? = some true)
    (hwidth : calcTreeWidth t.numTransactions.toNat height ≤ 2 * pos + 1)
    (hl : HasRead hashPair t height (2 * pos) s.nextBit l res) :
    HasRead hashPair t (height + 1) pos s (.half l) (hashPair res.1 res.1, res.2) where
  fits := .half hwidth hl.fits
  bits := by
    rw [drop_eq_cons_of_getElem? hbit, hl.bits]
    rfl
  hashes := hl.hashes
  root := by
    rw [hl.root]
    rfl
  matched := hl.matched

theorem HasRead.node (hbit : t.bits[s.bitsUsed]? = some true)
    (hwidth : 2 * pos + 1 < calcTreeWidth t.numTransactions.toNat height)
    (hl : HasRead hashPair t height (2 * pos) s.nextBit l res)
    (hr : HasRead hashPair t height (2 * pos + 1) res.2 r res') (bad : Bool) :
    HasRead hashPair t (height + 1) pos s (.node l r)
      (hashPair res.1 res'.1, { res'.2 with bad }) where
  fits := .node hwidth hl.fits hr.fits
  bits := by
    rw [drop_eq_cons_of_getElem? hbit, hl.bits, hr.bits, PartialTree.bits, cons_append,
      append_assoc]
  hashes := by
    rw [PartialTree.hashes, append_assoc, ← hr.hashes]
    exact hl.hashes
  root := by
    rw [hl.root, hr.root]
    rfl
  matched := by
    intro x hx
    rcases hr.matched x hx with hx | hx
    · exact (hl.matched x hx).imp_right (mem_append_left _)
    · exact .inr (mem_append_right _ hx)

end Children

theorem takeHash_inv (h : (takeHash t isMatch s).2.bad = false) :
    let out := takeHash t isMatch s
    t.hashes[s.hashUsed]? = some out.1 ∧ out.2.bitsUsed = s.bitsUsed ∧
      out.2.hashUsed = s.hashUsed + 1 ∧
      ∀ x ∈ out.2.matched, x ∈ s.matched ∨ isMatch = true ∧ x = out.1 := by
  unfold takeHash at h ⊢
  split at h
  · simp at h
  · next hash hget =>
    refine ⟨hget, rfl, rfl, ?_⟩
    intro x hx
    split_ifs at hx with hmatch
    · rw [Bool.and_eq_true] at hmatch
      rcases mem_append.mp hx with hx | hx
      · exact .inl hx
      · exact .inr ⟨hmatch.1, mem_singleton.mp hx⟩
    · exact .inl hx

theorem takeHash_hasRead (hbit : t.bits[s.bitsUsed]? = some isMatch)
    (hleaf : isMatch = true → height = 0)
    (h : (takeHash t isMatch s.nextBit).2.bad = false) :
    ∃ p, HasRead hashPair t height pos s p (takeHash t isMatch s.nextBit) := by
  obtain ⟨hhash, hbitsUsed, hhashUsed, hmatched⟩ := takeHash_inv h
  have hbits : t.bits.drop s.bitsUsed = isMatch :: t.bits.drop s.nextBit.bitsUsed :=
    drop_eq_cons_of_getElem? hbit
  have hhashes := drop_eq_cons_of_getElem? hhash
  rw [← hbitsUsed] at hbits
  rw [← hhashUsed] at hhashes
  cases isMatch with
  | false =>
    refine ⟨.pruned _, .pruned height pos _, hbits, hhashes, rfl, fun x hx => ?_⟩
    exact (hmatched x hx).imp_right fun hx => absurd hx.1 Bool.false_ne_true
  | true =>
    have hzero := hleaf rfl
    subst hzero
    refine ⟨.matched _, .matched pos _, hbits, hhashes, rfl, fun x hx => ?_⟩
    exact (hmatched x hx).imp_right fun hx => mem_singleton.mpr hx.2

theorem traverseAndExtract_hasRead
    (h : (traverseAndExtract hashPair t height pos s).2.bad = false) :
    ∃ p, HasRead hashPair t height pos s p (traverseAndExtract hashPair t height pos s) := by
  induction height generalizing pos s with
  | zero =>
    unfold traverseAndExtract at h ⊢
    split at h
    · simp at h
    · next bit hbit => exact takeHash_hasRead hbit (fun _ => rfl) h
  | succ height ih =>
    unfold traverseAndExtract at h ⊢
    split at h
    · simp at h
    · next hbit => exact takeHash_hasRead hbit (fun hfalse => absurd hfalse Bool.false_ne_true) h
    · next hbit =>
      split_ifs at h ⊢ with hlt
      · have hright := (Bool.or_eq_false_iff.mp h).1
        -- a fault on the left would still be there
        have hleft : (traverseAndExtract hashPair t height (2 * pos) s.nextBit).2.bad = false := by
          by_contra hbad
          rw [traverseAndExtract_bad (Bool.not_eq_false _ ▸ hbad)] at hright
          exact Bool.noConfusion hright
        obtain ⟨l, hl⟩ := ih hleft
        obtain ⟨r, hr⟩ := ih hright
        exact ⟨.node l r, hl.node hbit hlt hr _⟩
      · obtain ⟨l, hl⟩ := ih h
        exact ⟨.half l, hl.half hbit (Nat.not_lt.mp hlt)⟩

def merkleTreePairs (hashPair : UInt256 → UInt256 → UInt256) (t : PartialMerkleTree) :
    List (UInt256 × UInt256) :=
  match PartialTree.parse (calcTreeWidth t.numTransactions.toNat)
    (calcTreeHeight t.numTransactions.toNat) 0 t.bits t.hashes with
  | none => []
  | some (p, _, _) => p.pairs (Function.uncurry hashPair)

theorem merkleTreePairs_eq
    (hfits : Fits (calcTreeWidth t.numTransactions.toNat)
      (calcTreeHeight t.numTransactions.toNat) 0 p)
    (hbits : t.bits = p.bits ++ bs) (hhashes : t.hashes = p.hashes ++ hs) :
    merkleTreePairs hashPair t = p.pairs (uncurry hashPair) := by
  rw [merkleTreePairs, hbits, hhashes, parse_eq hfits]

theorem merkleTreeExtract_inv {matched : List UInt256} {root : UInt256}
    (h : merkleTreeExtract hashPair t = some (matched, root)) :
    0 < t.numTransactions.toNat ∧ ∃ p : PartialTree UInt256,
      Fits (calcTreeWidth t.numTransactions.toNat)
          (calcTreeHeight t.numTransactions.toNat) 0 p ∧
        merkleTreePairs hashPair t = p.pairs (uncurry hashPair) ∧
        root = p.root (uncurry hashPair) ∧ ∀ x ∈ matched, x ∈ p.matchedLeaves := by
  unfold merkleTreeExtract at h
  dsimp only at h
  split_ifs at h with hsizes hfinal
  rw [not_or] at hsizes hfinal
  obtain ⟨p, hread⟩ := traverseAndExtract_hasRead (Bool.eq_false_iff.mpr hfinal.1)
  rw [Option.some.injEq, Prod.mk.injEq] at h
  refine ⟨?_, p, hread.fits, ?_, ?_, ?_⟩
  · apply Nat.pos_of_ne_zero
    intro hzero
    exact hsizes.1 (UInt32.toNat_inj.mp hzero)
  · exact merkleTreePairs_eq hread.fits hread.bits hread.hashes
  · rw [← h.2]
    exact hread.root
  · intro x hx
    rw [← h.1] at hx
    exact (hread.matched x hx).resolve_left not_mem_nil

theorem merkleTreeExtract_eq {pad : List Bool}
    (hfits : Fits (calcTreeWidth t.numTransactions.toNat)
      (calcTreeHeight t.numTransactions.toNat) 0 p)
    (hdistinct : p.Distinct (uncurry hashPair)) (hpos : t.numTransactions ≠ 0)
    (hhashes : t.hashes = p.hashes) (hbits : t.bits = p.bits ++ pad)
    (hpad : (p.bits.length + 7) / 8 = (t.bits.length + 7) / 8)
    (hcount : p.hashes.length ≤ t.numTransactions.toNat)
    (hmatched : p.matchedLeaves.length ≤ t.numTransactions.toNat) :
    merkleTreeExtract hashPair t = some (p.matchedLeaves, p.root (uncurry hashPair)) := by
  have hread := traverseAndExtract_eq (s := {}) hfits hdistinct hbits
    (hhashes.trans (append_nil _).symm) (by simpa using hmatched)
  have hle := p.hashes_length_le_bits
  unfold merkleTreeExtract
  rw [if_neg, hread]
  · dsimp only [advance]
    rw [if_neg]
    · rfl
    · simp [hhashes, hpad]
  · rw [hhashes, hbits, length_append]
    simp only [hpos, false_or, not_or, not_lt]
    exact ⟨hcount, by omega⟩

end Extract

/-- The first part covers what the code builds. In the second part the streams are arbitrary; the
hash only has to be free of collisions between what the two computations hash, and beyond `2 ^ 31`
transactions, where the widths wrap, the returned ids must not be nodes of the block's tree. -/
theorem partialMerkleTree_extracts (hashPair : UInt256 → UInt256 → UInt256) (txids : List UInt256) :
    (∀ marks : List Bool, txids ≠ [] → txids.length ≤ maxMerkleHashes →
      txids.length = marks.length → NoEqualSiblings hashPair txids →
      ∃ t t', merkleTreeBuild hashPair txids marks = some t ∧
        (∀ rest, merkleTreeDeserialize.run (merkleTreeSerialize t ++ rest) = some (t', rest)) ∧
        merkleTreeExtract hashPair t' =
          some (matchedIds txids marks, (computeMerkleRootMutated hashPair txids).1)) ∧
    (∀ (t : PartialMerkleTree) (matched : List UInt256),
      t.numTransactions.toNat = txids.length →
      (∀ p ∈ merkleTreePairs hashPair t, ∀ q ∈ merklePairs hashPair txids,
        hashPair p.1 p.2 = hashPair q.1 q.2 → p = q) →
      (2 ^ 31 < txids.length →
        ∀ id ∈ matched, ∀ q ∈ merklePairs hashPair txids, hashPair q.1 q.2 ≠ id) →
      merkleTreeExtract hashPair t = some (matched, (computeMerkleRootMutated hashPair txids).1) →
      ∀ id ∈ matched, id ∈ txids) := by
  constructor
  · intro marks hne hmax hlen hsiblings
    have hn : txids.length ≤ 2 ^ 31 := hmax.trans (by decide)
    have hroom := builtTree_room hashPair marks hne hmax
    have hroot : (sentTree hashPair txids marks).root (uncurry hashPair) = _ :=
      builtTree_root hn hne
    have hmatched : (sentTree hashPair txids marks).matchedLeaves = _ :=
      builtTree_matchedLeaves hn hne hlen
    have hnat : (UInt32.ofNat txids.length).toNat = txids.length :=
      UInt32.toNat_ofNat_of_lt' (hn.trans_lt (by decide))
    refine ⟨_, _, merkleTreeBuild_eq hne hlen hmax,
      reads_merkleTree (hroom.2.trans hmax) hroom.1, ?_⟩
    rw [← hmatched, ← hroot]
    apply merkleTreeExtract_eq
    · rw [hnat]
      exact builtTree_fits hashPair txids.length txids marks _ 0
    · exact builtTree_distinct hn hsiblings
    · intro hzero
      rw [← UInt32.toNat_inj, hnat] at hzero
      exact hne (length_eq_zero_iff.mp hzero)
    · rfl
    · rfl
    · simp only [length_append, length_replicate]
      omega
    · rw [hnat]
      exact hroom.2
    · rw [hnat, hmatched, matchedIds, length_map]
      exact (length_filter_le _ _).trans (by rw [length_zip]; omega)
  · intro t matched hcount hinj hids hextract id hid
    obtain ⟨hpos, p, hfits, hpairs, hroot, hmatched⟩ := merkleTreeExtract_inv hextract
    rw [hcount] at hpos hfits
    rw [hpairs] at hinj
    have hne : txids ≠ [] := length_pos_iff.mp hpos
    have htop := (merkleRootMutated_spec hashPair hne).1
    have hle : calcTreeHeight txids.length ≤ merkleHeight txids := growHeight_le (Nat.zero_le _)
    obtain ⟨below, hbelow⟩ := Nat.exists_eq_add_of_le' hle
    rw [hbelow, hroot] at htop
    have hmem := mem_levelAt_of_mem_matchedLeaves hfits hinj hbelow.ge
      (by rw [htop]; exact mem_singleton_self _) id (hmatched id hid)
    cases below with
    | zero => exact hmem
    | succ below =>
      -- the tree is too low, and what is returned is a node above the leaves
      obtain ⟨q, hq, heq⟩ := exists_pair_of_mem_levelAt _ hmem
      have hlarge : 2 ^ 31 < txids.length := by
        by_contra hsmall
        rw [calcTreeHeight_eq (Nat.not_lt.mp hsmall), merkleHeight] at hbelow
        omega
      exact absurd heq (hids hlarge id hid q (pairsBelow_mono _ (by omega) hq))

theorem sampleTree_noEqualSiblings : NoEqualSiblings sampleHashPair [1, 2, 3] := by
  intro h hh i hi
  have hheight : merkleHeight [1, 2, 3] = 2 := by decide +kernel
  have hzero : levelAt (uncurry sampleHashPair) [1, 2, 3] 0 = [1, 2, 3] := rfl
  have hone : levelAt (uncurry sampleHashPair) [1, 2, 3] 1 = [34, 67] := by
    decide +kernel
  rw [hheight] at hh
  rcases Nat.le_one_iff_eq_zero_or_eq_one.mp (Nat.le_of_lt_succ hh) with rfl | rfl
  · rw [hzero] at hi ⊢
    have hi0 : i = 0 := by
      simp only [length_cons, length_nil] at hi
      omega
    rw [hi0]
    decide
  · rw [hone] at hi ⊢
    have hi0 : i = 0 := by
      simp only [length_cons, length_nil] at hi
      omega
    rw [hi0]
    decide

theorem partialMerkleTree_extracts_second :
    (∃ t t', merkleTreeBuild sampleHashPair [1, 2, 3] [false, true, false] = some t ∧
      (∀ rest, merkleTreeDeserialize.run (merkleTreeSerialize t ++ rest) = some (t', rest)) ∧
      merkleTreeExtract sampleHashPair t' = some (matchedIds [1, 2, 3] [false, true, false],
        (computeMerkleRootMutated sampleHashPair [1, 2, 3]).1)) ∧
    ∀ id ∈ ([2] : List UInt256), id ∈ ([1, 2, 3] : List UInt256) := by
  have htheorem := partialMerkleTree_extracts sampleHashPair [1, 2, 3]
  refine ⟨htheorem.1 [false, true, false] (by decide) (by decide) rfl sampleTree_noEqualSiblings,
    htheorem.2 ⟨3, [true, true, false, true, false], [1, 2, 67]⟩ [2] rfl ?_ ?_ ?_⟩
  · have hpairs : merkleTreePairs sampleHashPair
        ⟨3, [true, true, false, true, false], [1, 2, 67]⟩ = [(34, 67), (1, 2)] := by
      decide +kernel
    have hblock : merklePairs sampleHashPair [1, 2, 3] = [(1, 2), (3, 3), (34, 67)] := by
      decide +kernel
    rw [hpairs, hblock]
    simp [sampleHashPair]
  · intro hlarge
    exact absurd hlarge (by decide)
  · decide +kernel

end ZClassic
