import ZClassic.Validation.InvalidateBlock

/-!
# Inherited failures

A failure mark is inherited along the block index in every run of header acceptance, marking and
clearing in which no call takes the mark from a block whose parent keeps one.
-/

namespace ZClassic

open Function Option MainState

/-- The same entries under the same parents with the same marks; heights and work may differ. -/
structure SameTree (ms ms' : MainState) : Prop where
  nStatus : ms'.nStatus = ms.nStatus
  find : ∀ b, (ms'.find b).isSome = (ms.find b).isSome
  pprev : ms'.index.pprev = ms.index.pprev

theorem SameTree.refl (ms : MainState) : SameTree ms ms := ⟨rfl, fun _ => rfl, rfl⟩

variable {ms : MainState}

theorem SameTree.trans {ms' ms'' : MainState} (h : SameTree ms ms') (h' : SameTree ms' ms'') :
    SameTree ms ms'' :=
  ⟨h'.nStatus.trans h.nStatus, fun b => (h'.find b).trans (h.find b), h'.pprev.trans h.pprev⟩

theorem Inherits.of_sameTree {ms' : MainState} (h : Inherits ms) (hsame : SameTree ms ms') :
    Inherits ms' := by
  constructor
  · intro b p hp
    rw [hsame.pprev] at hp
    rw [hsame.find]
    exact h.linked b p hp
  · intro b hb
    rw [hsame.find] at hb
    rw [hsame.nStatus]
    exact h.transient b hb
  · rw [hsame.nStatus, hsame.pprev]
    exact h.child

section Modify

variable {ms : MainState} {b : UInt256} {f : IndexEntry → IndexEntry}

theorem MainState.find_modify (c : UInt256) :
    (ms.modify b f).find c = if c = b then (ms.find b).map f else ms.find c := by
  unfold modify
  cases hb : ms.find b with
  | none =>
    split_ifs with hc
    · rw [hc, hb]
      rfl
    · rfl
  | some e => exact Table.lookup_put _ _ _ _

theorem MainState.nStatus_modify : (ms.modify b f).nStatus = ms.nStatus := by
  unfold modify
  cases ms.find b <;> rfl

theorem MainState.isSome_find_modify (c : UInt256) :
    ((ms.modify b f).find c).isSome = (ms.find c).isSome := by
  rw [find_modify]
  split_ifs with hc
  · rw [hc, isSome_map]
  · rfl

theorem MainState.modify_sameTree (hf : ∀ e, (f e).pprev = e.pprev) :
    SameTree ms (ms.modify b f) := by
  refine ⟨nStatus_modify, isSome_find_modify, ?_⟩
  funext c
  unfold index
  dsimp only
  rw [find_modify]
  split_ifs with hc
  · subst hc
    cases ms.find c with
    | none => rfl
    | some e => exact hf e
  · rfl

end Modify

theorem fixHeight_sameTree (ms : MainState) (b : UInt256) : SameTree ms (fixHeight ms b) := by
  apply modify_sameTree
  intro e
  cases hp : e.pprev with
  | none => exact hp
  | some p => rfl

theorem repairWalk_sameTree (depth : ℕ) (ms : MainState) (cur : UInt256) :
    SameTree ms (repairWalk depth ms cur) := by
  induction depth generalizing cur with
  | zero =>
    unfold repairWalk
    split_ifs
    · exact fixHeight_sameTree ms cur
    · exact SameTree.refl ms
  | succ depth ih =>
    unfold repairWalk
    cases ms.index.pprev cur with
    | none => exact SameTree.refl ms
    | some p =>
      dsimp only
      split_ifs
      · exact (ih p).trans (fixHeight_sameTree _ cur)
      · exact fixHeight_sameTree ms cur
      · exact SameTree.refl ms

theorem repairHeights_sameTree (ms : MainState) (b : UInt256) :
    SameTree ms (repairHeights ms b) := by
  unfold repairHeights
  split_ifs
  · exact repairWalk_sameTree _ ms b
  · exact SameTree.refl ms

theorem lowerParent_sameTree (ms : MainState) (prev : UInt256) :
    SameTree ms (lowerParent ms prev) := by
  apply modify_sameTree
  intro e
  split_ifs <;> rfl

theorem relink_pprev (ms : MainState) {b prev : UInt256} (height : ℤ) (hb : (ms.find b).isSome) :
    (relink ms b prev height).index.pprev = update ms.index.pprev b (some prev) := by
  funext c
  unfold index relink
  dsimp only
  rw [find_modify]
  by_cases hc : c = b
  · subst hc
    obtain ⟨e, he⟩ := isSome_iff_exists.mp hb
    rw [if_pos rfl, update_self, he, map_some, bind_some]
    split_ifs with hplace
    · exact hplace.1
    · rfl
  · rw [if_neg hc, update_of_ne hc]

def namedParent (p : ChainParams) (ms : MainState) (header : BlockHeader) (hash : UInt256) :
    Option UInt256 :=
  if hash = p.hashGenesisBlock then ms.index.pprev hash else some header.hashPrevBlock

/-- The same entries with the same marks; one of them has the parent. -/
structure Relinked (ms ms' : MainState) (hash : UInt256) (parent : Option UInt256) : Prop where
  nStatus : ms'.nStatus = ms.nStatus
  find : ∀ b, (ms'.find b).isSome = (ms.find b).isSome
  pprev : ms'.index.pprev = Function.update ms.index.pprev hash parent

theorem SameTree.relink {base : MainState} {hash prev : UInt256} (h : SameTree ms base)
    (hhash : (ms.find hash).isSome) (height : ℤ) :
    Relinked ms (relink base hash prev height) hash (some prev) := by
  refine ⟨nStatus_modify.trans h.nStatus, ?_, ?_⟩
  · intro b
    exact (isSome_find_modify b).trans (h.find b)
  · rw [relink_pprev base height (by rw [h.find]; exact hhash), h.pprev]

theorem relinkKnown_tree {p : ChainParams} {ms' : MainState} {header : BlockHeader}
    {hash : UInt256} (hhash : (ms.find hash).isSome) (h : relinkKnown p ms header hash = .ok ms') :
    Relinked ms ms' hash (namedParent p ms header hash) ∧
      ∀ parent, namedParent p ms header hash = some parent → hash ≠ p.hashGenesisBlock →
        (ms.find parent).isSome := by
  unfold relinkKnown at h
  unfold namedParent
  by_cases hgenesis : hash = p.hashGenesisBlock
  · rw [if_pos hgenesis] at h
    cases h
    rw [if_pos hgenesis]
    exact ⟨⟨rfl, fun _ => rfl, (update_eq_self _ _).symm⟩, fun _ _ hne => absurd hgenesis hne⟩
  · rw [if_neg hgenesis] at h
    rw [if_neg hgenesis]
    cases hprev : ms.find header.hashPrevBlock with
    | none =>
      rw [hprev] at h
      cases h
    | some e =>
      rw [hprev] at h
      constructor
      · -- wherever the height comes from, the entry is linked under the named parent
        split_ifs at h
        · cases h
          exact (lowerParent_sameTree ms header.hashPrevBlock).relink hhash _
        · cases h
          exact (SameTree.refl ms).relink hhash _
        · cases h
          exact (SameTree.refl ms).relink hhash _
      · rintro _ ⟨⟩ -
        rw [hprev]
        rfl

section PromoteKnown

variable {s : UInt32}

theorem promoteKnown_transient :
    promoteKnown s &&& blockFailedTransient = s &&& blockFailedTransient := by
  have hchild : s &&& ~~~blockFailedChild &&& blockFailedTransient =
      s &&& blockFailedTransient := by
    rw [UInt32.and_assoc]
    rfl
  have htree : ∀ t : UInt32, (t &&& ~~~blockValidMask ||| blockValidTree) &&& blockFailedTransient =
      t &&& blockFailedTransient := by
    intro t
    rw [flags_or_and, UInt32.and_assoc]
    exact UInt32.or_zero
  unfold promoteKnown
  dsimp only
  split_ifs
  · rw [htree, hchild]
  · exact hchild
  · rw [htree]
  · rfl

theorem failed_of_promoteKnown (h : Failed (promoteKnown s)) : Failed s := by
  intro hzero
  have htree : (s &&& ~~~blockValidMask ||| blockValidTree) &&& blockFailedMask =
      s &&& blockFailedMask := by
    rw [flags_or_and, UInt32.and_assoc]
    exact UInt32.or_zero
  have hchild : s &&& blockFailedMask ≠ blockFailedChild := by
    rw [hzero]
    decide
  unfold promoteKnown at h
  dsimp only at h
  rw [if_neg hchild] at h
  split_ifs at h
  · exact h (htree.trans hzero)
  · exact h hzero

theorem promoteKnown_of_failedValid (h : s &&& blockFailedValid ≠ 0) : promoteKnown s = s := by
  have hchild : s &&& blockFailedMask ≠ blockFailedChild := by
    intro heq
    have hpart : s &&& blockFailedValid = s &&& blockFailedMask &&& blockFailedValid := by
      rw [UInt32.and_assoc]
      rfl
    rw [hpart, heq] at h
    exact h rfl
  unfold promoteKnown
  rw [if_neg hchild, if_neg fun hand => failed_of_failedValid h hand.2]

end PromoteKnown

/-- What a call must meet: a known header whose parent is marked carries a mark of its own, and a
new genesis does not name a marked parent. -/
def HeaderMarkOk (env : CheckEnv) (ms : MainState) (header : BlockHeader) : Prop :=
  let hash := env.blockHeaderGetHash header
  ((ms.find hash).isSome → ∀ p ∈ namedParent env.params ms header hash, Marked ms p →
    ms.nStatus hash &&& blockFailedValid ≠ 0) ∧
  (ms.find hash = none → hash = env.params.hashGenesisBlock → ¬Marked ms header.hashPrevBlock)

instance (env : CheckEnv) (ms : MainState) (header : BlockHeader) :
    Decidable (HeaderMarkOk env ms header) :=
  have : Decidable (∀ p ∈ namedParent env.params ms header (env.blockHeaderGetHash header),
      Marked ms p → ms.nStatus (env.blockHeaderGetHash header) &&& blockFailedValid ≠ 0) :=
    Option.decidableForallMem _
  inferInstanceAs (Decidable ((_ → _) ∧ (_ → _)))

section Accept

variable {env : CheckEnv} {ms : MainState} {header : BlockHeader} {hash : UInt256}

section

variable (h : Inherits ms)

include h

theorem Inherits.acceptKnownHeader {p : ChainParams} (hhash : (ms.find hash).isSome)
    (hok : ∀ parent, namedParent p ms header hash = some parent → Marked ms parent →
      ms.nStatus hash &&& blockFailedValid ≠ 0) :
    Inherits (acceptKnownHeader p ms header hash).2 := by
  unfold ZClassic.acceptKnownHeader
  cases hrelink : relinkKnown p ms header hash with
  | error r => exact h
  | ok ms₁ =>
    obtain ⟨⟨hstatus, hfind, hpprev⟩, hparent⟩ := relinkKnown_tree hhash hrelink
    have hnamed : ∀ q, namedParent p ms header hash = some q → (ms.find q).isSome := by
      intro q hq
      by_cases hgenesis : hash = p.hashGenesisBlock
      · rw [namedParent, if_pos hgenesis] at hq
        exact h.linked hash q hq
      · exact hparent q hq hgenesis
    have hsame := repairHeights_sameTree ms₁ hash
    set ms₂ := repairHeights ms₁ hash
    rw [← hsame.nStatus] at hstatus
    rw [← hsame.pprev] at hpprev
    have hfind : ∀ b, (ms₂.find b).isSome = (ms.find b).isSome :=
      fun b => (hsame.find b).trans (hfind b)
    change Inherits (ms₂.setStatus hash (promoteKnown (ms₂.nStatus hash)))
    rw [hstatus]
    constructor
    · intro b q hq
      change ms₂.index.pprev b = some q at hq
      change (ms₂.find q).isSome
      rw [hfind]
      rw [hpprev] at hq
      by_cases hb : b = hash
      · rw [hb, update_self] at hq
        exact hnamed q hq
      · rw [update_of_ne hb] at hq
        exact h.linked b q hq
    · intro b hb
      change (ms₂.find b).isSome at hb
      rw [hfind] at hb
      by_cases hbh : b = hash
      · rw [hbh, setStatus_self, promoteKnown_transient]
        exact h.transient hash hhash
      · rw [setStatus_of_ne _ _ _ hbh, hstatus]
        exact h.transient b hb
    · intro b q hq hfailed
      change ms₂.index.pprev b = some q at hq
      rw [hpprev] at hq
      -- the call adds no mark, so the parent was failed before
      have hqf : Failed (ms.nStatus q) := by
        by_cases hqh : q = hash
        · rw [hqh, setStatus_self] at hfailed
          rw [hqh]
          exact failed_of_promoteKnown hfailed
        · rw [setStatus_of_ne _ _ _ hqh, hstatus] at hfailed
          exact hfailed
      by_cases hb : b = hash
      · rw [hb, update_self] at hq
        have hvalid := hok q hq (h.marked_iff.mpr ⟨hnamed q hq, hqf⟩)
        rw [hb, setStatus_self, promoteKnown_of_failedValid hvalid]
        exact failed_of_failedValid hvalid
      · rw [update_of_ne hb] at hq
        rw [setStatus_of_ne _ _ _ hb, hstatus]
        exact h.child b q hq hqf

theorem Inherits.addToBlockIndex (hnew : ms.find hash = none)
    (hparent : (ms.find header.hashPrevBlock).isSome → ¬Failed (ms.nStatus header.hashPrevBlock)) :
    Inherits (addToBlockIndex ms header hash) := by
  -- an entry that was there is not the new one
  have hne : ∀ b, (ms.find b).isSome → b ≠ hash := by
    rintro _ hb rfl
    rw [hnew] at hb
    cases hb
  obtain ⟨entry, hadd, hpprev⟩ : ∃ entry : IndexEntry,
      ZClassic.addToBlockIndex ms header hash =
        (ms.setStatus hash blockValidTree).insert hash entry ∧
      ∀ q, entry.pprev = some q → q = header.hashPrevBlock ∧ (ms.find q).isSome := by
    unfold ZClassic.addToBlockIndex
    cases hprev : ms.find header.hashPrevBlock with
    | none =>
      change ms.mapBlockIndex.lookup header.hashPrevBlock = none at hprev
      refine ⟨_, by simp only [find, hprev]; rfl, ?_⟩
      intro q hq
      cases hq
    | some e =>
      have hlookup := hprev
      change ms.mapBlockIndex.lookup header.hashPrevBlock = some e at hlookup
      refine ⟨_, by simp only [find, hlookup]; rfl, ?_⟩
      rintro _ ⟨⟩
      exact ⟨rfl, by rw [hprev]; rfl⟩
  rw [hadd]
  have hfind : ∀ b, ((ms.setStatus hash blockValidTree).insert hash entry).find b =
      if b = hash then some entry else ms.find b := fun b => Table.lookup_put _ _ _ _
  have hlink : ∀ b, ((ms.setStatus hash blockValidTree).insert hash entry).index.pprev b =
      if b = hash then entry.pprev else ms.index.pprev b := by
    intro b
    unfold index
    dsimp only
    rw [hfind]
    split_ifs <;> rfl
  have hstatus : ∀ b, b ≠ hash →
      ((ms.setStatus hash blockValidTree).insert hash entry).nStatus b = ms.nStatus b :=
    fun b hb => setStatus_of_ne _ _ _ hb
  constructor
  · intro b q hq
    have hold : (ms.find q).isSome := by
      rw [hlink] at hq
      split_ifs at hq
      · exact (hpprev q hq).2
      · exact h.linked b q hq
    rw [hfind, if_neg (hne q hold)]
    exact hold
  · intro b hb
    by_cases hbh : b = hash
    · subst hbh
      change (ms.setStatus b blockValidTree).nStatus b &&& blockFailedTransient = 0
      rw [setStatus_self]
      rfl
    · rw [hfind, if_neg hbh] at hb
      rw [hstatus b hbh]
      exact h.transient b hb
  · intro b q hq hfailed
    rw [hlink] at hq
    split_ifs at hq with hbh
    · obtain ⟨rfl, hsome⟩ := hpprev q hq
      rw [hstatus _ (hne _ hsome)] at hfailed
      exact absurd hfailed (hparent hsome)
    · rw [hstatus q (hne q (h.linked b q hq))] at hfailed
      rw [hstatus b hbh]
      exact h.child b q hq hfailed

theorem Inherits.acceptNewHeader (hnew : ms.find hash = none)
    (hok : hash = env.params.hashGenesisBlock → ¬Marked ms header.hashPrevBlock) :
    Inherits (acceptNewHeader env ms header hash).2 := by
  unfold ZClassic.acceptNewHeader
  cases hparent : findParent env.params ms header hash with
  | error r => exact h
  | ok prev =>
    cases checkBlockHeader env header true with
    | error r => exact h
    | ok u =>
      dsimp only
      have hsame : SameTree ms (prev.elim ms (repairHeights ms)) := by
        cases prev with
        | none => exact SameTree.refl ms
        | some b => exact repairHeights_sameTree ms b
      set ms₁ := prev.elim ms (repairHeights ms)
      cases contextualHeaderGate env ms₁.index ms₁.activeHeight ms₁.fCheckpointsEnabled header
          prev with
      | error r => exact h.of_sameTree hsame
      | ok u =>
        apply (h.of_sameTree hsame).addToBlockIndex
        · rw [← not_isSome_iff_eq_none, hsame.find, hnew]
          decide
        · intro hsome hfailed
          rw [hsame.find] at hsome
          rw [hsame.nStatus] at hfailed
          by_cases hgenesis : hash = env.params.hashGenesisBlock
          · exact hok hgenesis (h.marked_iff.mpr ⟨hsome, hfailed⟩)
          · -- the parent of another header was looked at
            unfold findParent at hparent
            rw [if_neg hgenesis, refuseIf_bind_eq_ok, refuseIf_bind_eq_ok] at hparent
            exact hparent.2.1 hfailed

theorem Inherits.acceptBlockHeader (hok : HeaderMarkOk env ms header) :
    Inherits (acceptBlockHeader env ms header).2 := by
  obtain ⟨hknown, hnew⟩ := hok
  unfold ZClassic.acceptBlockHeader
  dsimp only
  cases hfind : ms.find (env.blockHeaderGetHash header) with
  | none => exact h.acceptNewHeader hfind (hnew hfind)
  | some e =>
    have hsome := isSome_of_eq_some hfind
    exact h.acceptKnownHeader hsome (hknown hsome)

end

end Accept

inductive MarkAction where
  | acceptBlockHeader (adjustedTime : ℤ) (header : BlockHeader)
  | markInvalid (order : List UInt256) (target : UInt256) (nowSec : ℤ)
  | clearInvalid (order : List UInt256) (target : UInt256)
  /-- the active chain is moved, which acceptance reads the height and the tip of -/
  | moveActiveChain (height : ℤ) (tip : Option UInt256)

def markStep (env : CheckEnv) (ms : MainState) : MarkAction → MainState
  | .acceptBlockHeader adjustedTime header =>
    (acceptBlockHeader { env with adjustedTime } ms header).2
  | .markInvalid order target nowSec => (processBlockMarkInvalid ms order target nowSec).1
  | .clearInvalid order target => (processBlockClearInvalid ms order target).1
  | .moveActiveChain height tip => { ms with activeHeight := height, activeTip := tip }

/-- The walks over the map see every entry. -/
def WalksMap (ms : MainState) : MarkAction → Prop
  | .markInvalid order _ _ => Enumerates order ms
  | .clearInvalid order _ => Enumerates order ms
  | _ => True

/-- What an action must meet: a header as above; where a block is marked, every entry stands above
its parent; where one is cleared, its parent is not marked. -/
def MarkActionOk (env : CheckEnv) (ms : MainState) : MarkAction → Prop
  | .acceptBlockHeader adjustedTime header =>
    HeaderMarkOk { env with adjustedTime } ms header
  | .markInvalid _ _ _ => HeightsOrdered ms
  | .clearInvalid _ target => ∀ p, ms.index.pprev target = some p → ¬Marked ms p
  | .moveActiveChain _ _ => True

theorem Inherits.step {env : CheckEnv} {a : MarkAction} (h : Inherits ms)
    (hwalks : WalksMap ms a) (hok : MarkActionOk env ms a) : Inherits (markStep env ms a) := by
  cases a with
  | acceptBlockHeader adjustedTime header => exact h.acceptBlockHeader hok
  | markInvalid order target nowSec => exact h.markInvalid hok hwalks target nowSec
  | clearInvalid order target => exact h.clearInvalid hwalks hok
  | moveActiveChain height tip => exact ⟨h.linked, h.transient, h.child⟩

def Ancestor (ms : MainState) (a b : UInt256) : Prop :=
  Relation.ReflTransGen (fun p c => ms.index.pprev c = some p) a b

structure Unmarked (ms : MainState) : Prop where
  linked : ∀ b p, ms.index.pprev b = some p → (ms.find p).isSome
  clean : ∀ b, (ms.find b).isSome → ms.nStatus b &&& blockFailedAnyMask = 0

theorem Unmarked.inherits (h : Unmarked ms) : Inherits ms := by
  refine ⟨h.linked, ?_, ?_⟩
  · intro b hb
    rw [← anyMask_and_transient, h.clean b hb]
    rfl
  · intro b p hp hfailed
    exact absurd hfailed (not_failed_of_anyMask (h.clean p (h.linked b p hp)))

/-- In every run whose actions meet the condition, no block without a failure mark has an ancestor
that carries one. -/
theorem failureMarks_inherited {env : CheckEnv} {ms : MainState} {acts : List MarkAction}
    (hinit : Unmarked ms) (hwalks : MeetsAll (markStep env) WalksMap ms acts)
    (hok : MeetsAll (markStep env) (MarkActionOk env) ms acts) :
    ∀ a b, Ancestor (run (markStep env) ms acts) a b → Marked (run (markStep env) ms acts) a →
      Marked (run (markStep env) ms acts) b := by
  have hinherits : Inherits (run (markStep env) ms acts) := by
    refine run_invariant Inherits ?_ hinit.inherits (meetsAll_and.mpr ⟨hwalks, hok⟩)
    rintro ms a h ⟨hwalks, hok⟩
    exact h.step hwalks hok
  intro a b hanc hmarked
  induction hanc with
  | refl => exact hmarked
  | tail _ hp ih =>
    rw [hinherits.marked_iff] at ih ⊢
    exact ⟨isSome_of_pprev hp, hinherits.child _ _ hp ih.2⟩

instance (order : List UInt256) (ms : MainState) : Decidable (Enumerates order ms) :=
  decidable_of_iff (order.toFinset = ms.mapBlockIndex.keys) <| by
    simp only [Finset.ext_iff, List.mem_toFinset, Finmap.mem_keys, ← Finmap.lookup_isSome]
    rfl

instance (ms : MainState) : DecidablePred (WalksMap ms) := fun a => by
  cases a <;> dsimp only [WalksMap] <;> infer_instance

theorem genesisState_unmarked : Unmarked genesisState := by
  refine ⟨?_, fun _ _ => UInt32.zero_and⟩
  intro b p hp
  obtain ⟨e, he, hpprev⟩ := bind_eq_some_iff.mp hp
  rw [find, genesisState, Table.lookup_put] at he
  split_ifs at he
  · cases he
    cases hpprev
  · cases he

def childHeader : BlockHeader :=
  { easyHeader 0 8 with hashPrevBlock := 7, nTime := 1002 }

/-- Genesis, `ruledHeader` and its child are known, and the parent is marked. -/
def markedParent : List MarkAction :=
  [.acceptBlockHeader 0 ruledHeader, .acceptBlockHeader 0 childHeader,
    .markInvalid [regtestParams.hashGenesisBlock, 7, 8] 7 0]

/-- The calls leave block 8 without a mark, and its parent 7 has one. -/
def LeavesChildUnmarked (acts : List MarkAction) : Prop :=
  let ms := run (markStep permissiveEnv) genesisState acts
  MeetsAll (markStep permissiveEnv) WalksMap genesisState acts ∧
    ms.index.pprev 8 = some 7 ∧ Marked ms 7 ∧ (ms.find 8).isSome ∧ ¬Marked ms 8

theorem resentChild_unmarked :
    LeavesChildUnmarked (markedParent ++ [.acceptBlockHeader 0 childHeader]) ∧
      LeavesChildUnmarked
        (markedParent ++ [.clearInvalid [regtestParams.hashGenesisBlock, 7, 8] 8]) := by
  unfold LeavesChildUnmarked
  decide +kernel

theorem heightsOrdered_iff : HeightsOrdered ms ↔
    ∀ b ∈ ms.mapBlockIndex.keys, ∀ p ∈ ms.index.pprev b,
      ms.index.nHeight p < ms.index.nHeight b := by
  constructor
  · exact fun h b _ p hp => h b p hp
  · intro h b p hp
    apply h b _ p hp
    rw [Finmap.mem_keys, ← Finmap.lookup_isSome]
    exact isSome_of_pprev hp

-- the instances are named because the search would enumerate all hashes
instance (ms : MainState) : Decidable (HeightsOrdered ms) :=
  have (b : UInt256) : Decidable (∀ p ∈ ms.index.pprev b,
      ms.index.nHeight p < ms.index.nHeight b) := Option.decidableForallMem _
  @decidable_of_iff _ _ heightsOrdered_iff.symm Finset.decidableDforallFinset

instance (env : CheckEnv) (ms : MainState) : DecidablePred (MarkActionOk env ms) := fun a =>
  match a with
  | .acceptBlockHeader adjustedTime header =>
    inferInstanceAs (Decidable (HeaderMarkOk { env with adjustedTime } ms header))
  | .markInvalid _ _ _ => inferInstanceAs (Decidable (HeightsOrdered ms))
  | .clearInvalid _ target => Option.decidableForallMem (ms.index.pprev target)
  | .moveActiveChain _ _ => .isTrue trivial

def resentParent : List MarkAction := markedParent ++ [.acceptBlockHeader 0 ruledHeader]

theorem resentParent_ok :
    MeetsAll (markStep permissiveEnv) WalksMap genesisState resentParent ∧
      MeetsAll (markStep permissiveEnv) (MarkActionOk permissiveEnv) genesisState resentParent := by
  decide +kernel

theorem resentParent_marked :
    (run (markStep permissiveEnv) genesisState resentParent).index.pprev 8 = some 7 ∧
      Marked (run (markStep permissiveEnv) genesisState resentParent) 7 := by
  decide +kernel

theorem resentParent_inherited :
    Marked (run (markStep permissiveEnv) genesisState resentParent) 7 ∧
      Marked (run (markStep permissiveEnv) genesisState resentParent) 8 :=
  ⟨resentParent_marked.2, failureMarks_inherited genesisState_unmarked resentParent_ok.1
    resentParent_ok.2 7 8 (.single resentParent_marked.1) resentParent_marked.2⟩

end ZClassic
