import Mathlib.Data.List.Forall2
import ZClassic.Script.FixedStack
import ZClassic.Script.FlagsRestrict

/-!
# What OP_CHECKMULTISIG answers

The loop of `OP_CHECKMULTISIG` gives each signature the first key that is left for it.
-/

namespace ZClassic

open List

open StackProg

section Assign

variable {α β : Type} (ok : α → β → Bool)

def assignsAll : List α → List β → Bool
  | [], _ => true
  | _ :: _, [] => false
  | a :: as, b :: bs => if ok a b then assignsAll as bs else assignsAll (a :: as) bs

/-- Each `a` is given a `b` of its own, and both lists are gone through in order. -/
def Assignable (as : List α) (bs : List β) : Prop :=
  ∃ chosen, List.Sublist chosen bs ∧ List.Forall₂ (fun a b => ok a b = true) as chosen

variable {ok}

theorem Assignable.length_le {as : List α} {bs : List β} (h : Assignable ok as bs) :
    as.length ≤ bs.length := by
  obtain ⟨chosen, hsub, hall⟩ := h
  rw [hall.length_eq]
  exact hsub.length_le

theorem assignsAll_iff (as : List α) (bs : List β) :
    assignsAll ok as bs = true ↔ Assignable ok as bs := by
  fun_induction assignsAll ok as bs with
  | case1 bs => exact iff_of_true rfl ⟨[], nil_sublist _, .nil⟩
  | case2 a as =>
    refine iff_of_false nofun fun h => ?_
    exact absurd h.length_le (by simp)
  | case3 a as b bs hab ih =>
    rw [ih]
    constructor
    · rintro ⟨chosen, hsub, hall⟩
      exact ⟨b :: chosen, hsub.cons_cons b, .cons hab hall⟩
    · rintro ⟨chosen, hsub, hall⟩
      cases hall with
      | cons hfirst hall => exact ⟨_, hsub.tail, hall⟩
  | case4 a as b bs hab ih =>
    rw [ih]
    constructor
    · rintro ⟨chosen, hsub, hall⟩
      exact ⟨chosen, hsub.cons b, hall⟩
    · rintro ⟨chosen, hsub, hall⟩
      cases hsub with
      | cons _ hsub => exact ⟨chosen, hsub, hall⟩
      | cons_cons _ hsub =>
        cases hall with
        | cons hfirst hall => exact absurd hfirst hab

end Assign

section Lists

variable {E : ScriptEnv} {flags : UInt32} {script : Script} {α : Type} {r a : List (List UInt8)}
  {x : List UInt8} {i n : ℕ} {e : ScriptError}

theorem bind_bind {β γ : Type} (p : ScriptProg α) (g : α → ScriptProg β) (f : β → ScriptProg γ) :
    (p >>= g) >>= f = p >>= fun x => g x >>= f := by
  induction p with
  | done a => rfl
  | fail e => rfl
  | op w c k ih => exact congrArg (op w c) (funext ih)

theorem return_bind {β : Type} (x : α) (f : α → ScriptProg β) : pure x >>= f = f x := rfl

def runDown (p : ScriptProg α) (r a : List (List UInt8)) :
    Except (ProgStop ScriptError) (α × TwoStacks (List (List UInt8))) :=
  (unlimitedStacks (List UInt8)).run p ⟨r.reverse, a⟩

theorem runDown_top {f : List UInt8 → ScriptProg α} (h : r[i]? = some x) :
    runDown (top .main (i + 1) >>= f) r a = runDown (f x) r a := by
  have hi : i < r.length := (List.getElem?_eq_some_iff.mp h).1
  have htop : StackOp.fromTop r.reverse (i + 1) = some x := by
    rw [StackOp.fromTop, length_reverse, if_pos (by omega), getElem?_reverse (by omega), ← h]
    congr 1
    omega
  apply (unlimitedStacks (List UInt8)).run_op_ok
  simp [StackOp.execList, htop]

variable {f : Unit → ScriptProg α}

theorem runDown_pop : runDown (pop .main >>= f) (x :: r) a = runDown (f ()) r a := by
  apply (unlimitedStacks (List UInt8)).run_op_ok
  simp [StackOp.execList]

theorem runDown_failIf {p : Prop} [Decidable p] (h : ¬p) :
    runDown (failIf p e >>= f) r a = runDown (f ()) r a := by
  rw [failIf, if_neg h]
  rfl

theorem runDown_needItems (h : n ≤ r.length) :
    runDown (needItems n >>= f) r a = runDown (f ()) r a := by
  have hcount : ¬r.reverse.length < n := by simpa using h
  exact runDown_failIf (r := r) hcount

theorem runDown_snFromTop {f : ℤ → ScriptProg α} {v : ℤ} (h : r[i]? = some x)
    (hv : scriptNumFromBytes x (hasFlag flags scriptVerifyMinimaldata) n = some v) :
    runDown (snFromTop flags (i + 1) n >>= f) r a = runDown (f v) r a := by
  refine (runDown_top h).trans ?_
  dsimp only [StackProg.bind]
  rw [hv]
  rfl

theorem runDown_topEmptyIf {p : Prop} [Decidable p] (h : p → x = []) :
    runDown (topEmptyIf p e >>= f) (x :: r) a = runDown (f ()) (x :: r) a := by
  unfold topEmptyIf
  split
  · next hp =>
    refine (runDown_top rfl).trans ?_
    exact runDown_failIf (not_not_intro (h hp))
  · rfl

theorem runDown_encodedPair {j : ℕ} {sig pk : List UInt8}
    {f : List UInt8 × List UInt8 → ScriptProg α} (hj : r[j]? = some sig) (hi : r[i]? = some pk)
    (hsig : checkTransactionSignatureEncoding E.crypto flags sig = .ok ())
    (hkey : checkPubkeyEncoding flags pk = .ok ()) :
    runDown (encodedPair E flags (j + 1) (i + 1) >>= f) r a = runDown (f (sig, pk)) r a := by
  refine (runDown_top hj).trans ((runDown_top hi).trans ?_)
  dsimp only [StackProg.bind]
  rw [hsig, hkey]
  rfl

theorem runDown_multisigLoop {keys sigs : List (List UInt8)} {i j : ℕ} {f : Bool → ScriptProg α}
    (hkeys : keys <+: r.drop i) (hsigs : sigs <+: r.drop j) (hle : sigs.length ≤ keys.length)
    (hsig : ∀ sig ∈ sigs, checkTransactionSignatureEncoding E.crypto flags sig = .ok ())
    (hkey : ∀ pk ∈ keys, checkPubkeyEncoding flags pk = .ok ()) :
    runDown (multisigLoop E flags script keys.length (i + 1) (j + 1) sigs.length >>= f) r a =
      runDown (f (assignsAll (E.checkSig script) sigs keys)) r a := by
  induction keys generalizing i j sigs with
  | nil =>
    obtain rfl := length_eq_zero_iff.mp (Nat.le_zero.mp hle)
    rfl
  | cons pk keys ih =>
    cases sigs with
    | nil => rfl
    | cons sig sigs =>
      have hnext : ∀ {x : List UInt8} {xs : List (List UInt8)} {i : ℕ}, x :: xs <+: r.drop i →
          r[i]? = some x ∧ xs <+: r.drop (i + 1) := by
        rintro x xs i ⟨rest, hrest⟩
        constructor
        · rw [← head?_drop, ← hrest]
          rfl
        · rw [← drop_drop, ← hrest]
          exact ⟨rest, rfl⟩
      rw [forall_mem_cons] at hsig hkey
      obtain ⟨hi, hkeys'⟩ := hnext hkeys
      obtain ⟨hj, hsigs'⟩ := hnext hsigs
      rw [length_cons, length_cons, multisigLoop, bind_bind,
        runDown_encodedPair hj hi hsig.1 hkey.1, assignsAll]
      dsimp only
      cases hok : E.checkSig script sig pk with
      | true =>
        have hfew : ¬keys.length < sigs.length := Nat.not_lt.mpr (Nat.le_of_succ_le_succ hle)
        change runDown ((if keys.length < sigs.length then pure false
          else multisigLoop E flags script keys.length (i + 2) (j + 2) sigs.length) >>= f) r a = _
        rw [if_neg hfew]
        exact ih hkeys' hsigs' (Nat.not_lt.mp hfew) hsig.2 hkey.2
      | false =>
        change runDown ((if keys.length < sigs.length + 1 then pure false
          else multisigLoop E flags script keys.length (i + 2) (j + 1) (sigs.length + 1)) >>= f) r a
            = runDown (f (assignsAll _ (sig :: sigs) keys)) r a
        split
        · next hfew =>
          -- more signatures than keys are left, so the loop gives up
          rw [Bool.eq_false_iff.mpr fun h => absurd ((assignsAll_iff _ _).mp h).length_le
            (Nat.not_le.mpr hfew)]
          rfl
        · next hfew =>
          exact ih hkeys' hsigs (Nat.not_lt.mp hfew) (forall_mem_cons.mpr hsig) hkey.2

/-- With a wrong answer and `NULLFAIL` the signatures, behind the first `ikey2` items, must be
empty. -/
theorem runDown_multisigPops {fSuccess : Bool} {items : List (List UInt8)} {ikey2 : ℕ}
    (h : ∀ x ∈ items.drop ikey2, ¬fSuccess ∧ hasFlag flags scriptVerifyNullfail → x = []) :
    runDown (multisigPops flags fSuccess items.length ikey2 >>= f) (items ++ r) a =
      runDown (f ()) r a := by
  induction items generalizing ikey2 with
  | nil => rfl
  | cons x items ih =>
    rw [length_cons, multisigPops, bind_bind, cons_append]
    refine (runDown_topEmptyIf ?_).trans (runDown_pop.trans (ih ?_))
    · rintro ⟨hfail, hflag, rfl⟩
      exact h x mem_cons_self ⟨hfail, hflag⟩
    · cases ikey2 with
      | zero => exact fun y hy => h y (mem_cons_of_mem x hy)
      | succ k => exact h

end Lists

/-- The stack for a multisig, from the top down: the number of keys, the keys, the number of
signatures, the signatures and one item more. -/
structure MultisigStack (flags : UInt32) (keys sigs : List (List UInt8)) (dummy : List UInt8)
    (below items : List (List UInt8)) : Prop where
  shape : ∃ bnKeys bnSigs, items = bnKeys :: (keys ++ bnSigs :: (sigs ++ dummy :: below)) ∧
    scriptNumFromBytes bnKeys (hasFlag flags scriptVerifyMinimaldata) scriptNumDefaultMaxSize =
      some (keys.length : ℤ) ∧
    scriptNumFromBytes bnSigs (hasFlag flags scriptVerifyMinimaldata) scriptNumDefaultMaxSize =
      some (sigs.length : ℤ)
  keys_le : keys.length ≤ 20
  sigs_le : sigs.length ≤ keys.length

theorem runDown_execCheckmultisig {E : ScriptEnv} {flags : UInt32} {script : Script}
    {keys sigs below items a : List (List UInt8)} {dummy : List UInt8} {nOpCount : ℕ}
    (h : MultisigStack flags keys sigs dummy below items) (hops : nOpCount + keys.length ≤ 201)
    (hsig : ∀ sig ∈ sigs, checkTransactionSignatureEncoding E.crypto flags sig = .ok ())
    (hkey : ∀ pk ∈ keys, checkPubkeyEncoding flags pk = .ok ())
    (hdummy : hasFlag flags scriptVerifyNulldummy → dummy = [])
    (hnull : hasFlag flags scriptVerifyNullfail →
      Assignable (E.checkSig script) sigs keys ∨ ∀ sig ∈ sigs, sig = []) :
    runDown (execCheckmultisig E flags script false nOpCount) items a =
      .ok (nOpCount + keys.length,
        ⟨((if assignsAll (E.checkSig script) sigs keys then [1] else []) :: below).reverse,
          a⟩) := by
  obtain ⟨⟨bnKeys, bnSigs, rfl, hbnKeys, hbnSigs⟩, hkeys, hsigs⟩ := h
  have hint : ∀ k : ℕ, k ≤ 20 → scriptNumGetInt k = k := by
    intro k hk
    rw [scriptNumGetInt]
    omega
  have hintKeys := hint _ hkeys
  have hintSigs := hint _ (hsigs.trans hkeys)
  simp only [execCheckmultisig, multisigKeyCount, multisigSigCount, bind_bind, return_bind]
  rw [runDown_needItems (by simp), runDown_snFromTop rfl hbnKeys, hintKeys,
    runDown_failIf (by omega), Int.toNat_natCast, runDown_failIf (by omega),
    runDown_needItems (by simp), runDown_snFromTop (by simp) hbnSigs, hintSigs,
    runDown_failIf (by omega), Int.toNat_natCast, runDown_needItems (by simp; omega),
    runDown_multisigLoop (i := 1) (j := keys.length + 2) (by simp) (by simp) hsigs hsig hkey]
  have hsplit : bnKeys :: (keys ++ bnSigs :: (sigs ++ dummy :: below)) =
      (bnKeys :: (keys ++ bnSigs :: sigs)) ++ dummy :: below := by simp
  have hlength : keys.length + sigs.length + 2 = (bnKeys :: (keys ++ bnSigs :: sigs)).length := by
    simp
    omega
  rw [hsplit, hlength, runDown_multisigPops, runDown_needItems (by simp),
    runDown_topEmptyIf hdummy, runDown_pop]
  · rw [reverse_cons]
    cases assignsAll (E.checkSig script) sigs keys <;> rfl
  · have hdrop : (bnKeys :: (keys ++ bnSigs :: sigs)).drop (keys.length + 2) = sigs := by simp
    rw [hdrop]
    intro x hx hfail
    rcases hnull hfail.2 with hassign | hempty
    · exact absurd ((assignsAll_iff sigs keys).mpr hassign) hfail.1
    · exact hempty x hx

/-- The opcode takes off the `n + m + 3` items, and its answer says whether the signatures can be
assigned in order to keys that they check with. -/
theorem checkmultisig_assigns (E : ScriptEnv) (flags : UInt32) (script : Script)
    (s : TwoStacks ScriptStack) (keys sigs below : List (List UInt8)) (dummy : List UInt8)
    (nOpCount : ℕ) (hstack : MultisigStack flags keys sigs dummy below s.main.toList.reverse)
    (hsize : s.main.count + s.alt.count ≤ maxStackItems) (hops : nOpCount + keys.length ≤ 201)
    (hsig : ∀ sig ∈ sigs, checkTransactionSignatureEncoding E.crypto flags sig = .ok ())
    (hkey : ∀ pk ∈ keys, checkPubkeyEncoding flags pk = .ok ())
    (hdummy : hasFlag flags scriptVerifyNulldummy → dummy = [])
    (hnull : hasFlag flags scriptVerifyNullfail →
      Assignable (E.checkSig script) sigs keys ∨ ∀ sig ∈ sigs, sig = []) :
    ∃ t answer, fixedMachine.run (execCheckmultisig E flags script false nOpCount) s =
        .ok (nOpCount + keys.length, t) ∧
      t.main.toList.reverse = (if answer then [1] else []) :: below ∧
      (answer = true ↔ Assignable (E.checkSig script) sigs keys) := by
  have hlists := runDown_execCheckmultisig (a := s.alt.toList) hstack hops hsig hkey hdummy hnull
  rw [runDown, reverse_reverse] at hlists
  have hwp : wp maxStackItems FitsElement (fun _ _ met => ¬met)
      (execCheckmultisig E flags script false nOpCount) (sizes (lists s)) False := by
    rw [sizes, lists, TwoStacks.map, TwoStacks.map, SlotStack.length_toList,
      SlotStack.length_toList]
    exact wp_execCheckmultisig hsize false fun _ _ _ _ => not_false
  rcases hwp.run_slots_cases emptyItem with ⟨e, -, herror⟩ | ⟨n, t, hrun, hok, -⟩ |
    ⟨n, t, -, -, hmet⟩
  · cases hlists.symm.trans herror
  · obtain ⟨hn, ht⟩ := Prod.mk.inj (Except.ok.inj (hlists.symm.trans hok))
    have hmain : t.main.toList = _ := (congrArg TwoStacks.main ht).symm
    refine ⟨t, assignsAll (E.checkSig script) sigs keys, hn ▸ hrun, ?_, assignsAll_iff sigs keys⟩
    rw [hmain, reverse_reverse]
  · exact absurd trivial hmet

def stackOf (items : List { item // FitsElement item }) : ScriptStack where
  items := Vector.ofFn fun i => items.getD i emptyItem
  count := min items.length maxStackItems
  count_le := Nat.min_le_right ..

def oneKeyEnv : ScriptEnv :=
  { plainEnv with checker := { checkSig := some fun _ pk _ _ => pk == [2] } }

def encodedSig : List UInt8 := [0x30, 6, 2, 1, 1, 2, 1, 1, 1]

def oneSigStack (keys : List { item // FitsElement item }) (count : List UInt8)
    (hcount : FitsElement count) : TwoStacks ScriptStack :=
  ⟨stackOf ([emptyItem, ⟨encodedSig, by decide⟩, ⟨[1], by decide⟩] ++ keys ++ [⟨count, hcount⟩]),
    fixedMachine.empty⟩

theorem checkmultisig_assigns_second :
    ∃ t answer, fixedMachine.run (execCheckmultisig oneKeyEnv 0 ⟨[], by decide⟩ false 1)
        (oneSigStack [⟨[2], by decide⟩, ⟨[3], by decide⟩] [2] (by decide)) = .ok (3, t) ∧
      t.main.toList.reverse = [if answer then [1] else []] ∧
      (answer = true ↔
        Assignable (oneKeyEnv.checkSig ⟨[], by decide⟩) [encodedSig] [[3], [2]]) := by
  refine checkmultisig_assigns oneKeyEnv 0 _ _ [[3], [2]] [encodedSig] [] [] 1 ?_
    (by decide +kernel) (by decide) (by decide +kernel) (by decide +kernel) nofun nofun
  exact ⟨⟨[2], [1], by decide +kernel, by decide, by decide⟩, by decide, by decide⟩

/-- With `NULLFAIL` a signature that no key checks is an error. -/
theorem checkmultisig_nullfail :
    (fixedMachine.run (execCheckmultisig oneKeyEnv scriptVerifyNullfail ⟨[], by decide⟩ false 1)
      (oneSigStack [⟨[3], by decide⟩] [1] (by decide))).map Prod.fst =
        .error (.failed .sigNullfail) := by
  decide +kernel

end ZClassic
