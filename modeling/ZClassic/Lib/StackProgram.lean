import Mathlib.Data.Nat.Notation

/-!
# Programs over two stacks

What an instruction of a stack machine does, as a tree of stack operations: the next one depends on
the replies so far. A machine says how one stack is kept; every machine runs every program.
-/

namespace ZClassic

inductive StackId where
  | main
  | alt
  deriving DecidableEq

structure TwoStacks (σ : Type) where
  main : σ
  alt : σ

namespace TwoStacks

variable {σ τ : Type}

@[reducible, simp]
def get (s : TwoStacks σ) : StackId → σ
  | .main => s.main
  | .alt => s.alt

def set (s : TwoStacks σ) : StackId → σ → TwoStacks σ
  | .main, x => { s with main := x }
  | .alt, x => { s with alt := x }

def map (f : σ → τ) (s : TwoStacks σ) : TwoStacks τ := ⟨f s.main, f s.alt⟩

@[simp]
theorem set_mk_main (x y z : σ) : (TwoStacks.mk x y).set .main z = ⟨z, y⟩ := rfl

@[simp]
theorem set_mk_alt (x y z : σ) : (TwoStacks.mk x y).set .alt z = ⟨x, z⟩ := rfl

theorem get_map (f : σ → τ) (s : TwoStacks σ) (w : StackId) : (s.map f).get w = f (s.get w) := by
  cases w <;> rfl

theorem set_get (s : TwoStacks σ) (w : StackId) : s.set w (s.get w) = s := by
  cases w <;> rfl

theorem set_map (f : σ → τ) (s : TwoStacks σ) (w : StackId) (x : σ) :
    (s.set w x).map f = (s.map f).set w (f x) := by
  cases w <;> rfl

end TwoStacks

/-- What can be done with one stack. Positions count from the top, which is 1. -/
inductive StackOp (ι : Type) where
  | count
  | top (i : ℕ)
  | pop
  | push (x : ι)
  | eraseAt (i : ℕ)
  /-- takes out the positions from `i` down to above `j` -/
  | eraseRange (i j : ℕ)
  /-- puts an item below the `i` topmost ones -/
  | insertAt (i : ℕ) (x : ι)
  | swap (i j : ℕ)

@[reducible]
def StackOp.Reply {ι : Type} : StackOp ι → Type
  | .count => ℕ
  | .top _ => ι
  | _ => Unit

def StackOp.isRead {ι : Type} : StackOp ι → Bool
  | .count => true
  | .top _ => true
  | _ => false

inductive StackProg (ι ε α : Type) : Type where
  | done (a : α)
  | fail (e : ε)
  | op (w : StackId) (c : StackOp ι) (k : c.Reply → StackProg ι ε α)

namespace StackProg

variable {ι ε α β : Type}

protected def bind : StackProg ι ε α → (α → StackProg ι ε β) → StackProg ι ε β
  | done a, f => f a
  | fail e, _ => fail e
  | op w c k, f => op w c fun r => (k r).bind f

instance : Monad (StackProg ι ε) where
  pure := done
  bind := StackProg.bind

def count (w : StackId) : StackProg ι ε ℕ := op w .count done

def top (w : StackId) (i : ℕ) : StackProg ι ε ι := op w (.top i) done

def pop (w : StackId) : StackProg ι ε Unit := op w .pop done

def push (w : StackId) (x : ι) : StackProg ι ε Unit := op w (.push x) done

def eraseAt (w : StackId) (i : ℕ) : StackProg ι ε Unit := op w (.eraseAt i) done

def eraseRange (w : StackId) (i j : ℕ) : StackProg ι ε Unit := op w (.eraseRange i j) done

def insertAt (w : StackId) (i : ℕ) (x : ι) : StackProg ι ε Unit := op w (.insertAt i x) done

def swap (w : StackId) (i j : ℕ) : StackProg ι ε Unit := op w (.swap i j) done

def failIf (p : Prop) [Decidable p] (e : ε) : StackProg ι ε Unit := if p then fail e else done ()

def ofExcept : Except ε α → StackProg ι ε α
  | .ok a => done a
  | .error e => fail e

def Looks : StackProg ι ε α → Prop
  | done _ => True
  | fail _ => True
  | op _ c k => c.isRead ∧ ∀ r, (k r).Looks

theorem Looks.bind {p : StackProg ι ε α} {f : α → StackProg ι ε β} (hp : p.Looks)
    (hf : ∀ a, (f a).Looks) : (p >>= f).Looks := by
  induction p with
  | done a => exact hf a
  | fail e => trivial
  | op w c k ih => exact ⟨hp.1, fun r => ih r (hp.2 r)⟩

theorem looks_count (w : StackId) : (count w : StackProg ι ε ℕ).Looks := ⟨rfl, fun _ => trivial⟩

theorem looks_top (w : StackId) (i : ℕ) : (top w i : StackProg ι ε ι).Looks :=
  ⟨rfl, fun _ => trivial⟩

theorem looks_failIf (p : Prop) [Decidable p] (e : ε) :
    (failIf p e : StackProg ι ε Unit).Looks := by
  unfold failIf
  split <;> trivial

end StackProg

inductive StackFault where
  /-- there is no room -/
  | full
  | outOfBounds
  deriving DecidableEq

inductive ProgStop (ε : Type) where
  | failed (e : ε)
  | fault (f : StackFault)
  deriving DecidableEq

structure StackMachine (ι : Type) where
  Stack : Type
  empty : Stack
  size : Stack → ℕ
  exec : (c : StackOp ι) → Stack → Except StackFault (c.Reply × Stack)

namespace StackMachine

variable {ι ε α : Type} (M : StackMachine ι)

def run : StackProg ι ε α → TwoStacks M.Stack → Except (ProgStop ε) (α × TwoStacks M.Stack)
  | .done a, s => .ok (a, s)
  | .fail e, _ => .error (.failed e)
  | .op w c k, s =>
    match M.exec c (s.get w) with
    | .error f => .error (.fault f)
    | .ok (r, t) => run (k r) (s.set w t)

def ReadsKeep : Prop :=
  ∀ (c : StackOp ι) (s t : M.Stack) (r : c.Reply), c.isRead → M.exec c s = .ok (r, t) → t = s

variable {w : StackId} {c : StackOp ι} {k : c.Reply → StackProg ι ε α} {s : TwoStacks M.Stack}

theorem run_op_ok {r : c.Reply} {t : M.Stack} (h : M.exec c (s.get w) = .ok (r, t)) :
    M.run (.op w c k) s = M.run (k r) (s.set w t) := by
  rw [run, h]

theorem run_op_error {f : StackFault} (h : M.exec c (s.get w) = .error f) :
    M.run (.op w c k) s = .error (.fault f) := by
  rw [run, h]

theorem run_bind {β : Type} (p : StackProg ι ε α) (f : α → StackProg ι ε β)
    (s : TwoStacks M.Stack) : M.run (p >>= f) s = M.run p s >>= fun x => M.run (f x.1) x.2 := by
  induction p generalizing s with
  | done a => rfl
  | fail e => rfl
  | op w c k ih =>
    cases hexec : M.exec c (s.get w) with
    | error f =>
      rw [M.run_op_error hexec]
      exact M.run_op_error hexec
    | ok x =>
      rw [M.run_op_ok hexec, ← ih]
      exact M.run_op_ok hexec

end StackMachine

/-- The first program fails or looks at a stack, or both go on with the same operation. -/
inductive Restricts {ι ε α : Type} : StackProg ι ε α → StackProg ι ε α → Prop
  | fail (e : ε) (q : StackProg ι ε α) : Restricts (.fail e) q
  | done (a : α) : Restricts (.done a) (.done a)
  | op (w : StackId) (c : StackOp ι) {k k' : c.Reply → StackProg ι ε α}
      (h : ∀ r, Restricts (k r) (k' r)) : Restricts (.op w c k) (.op w c k')
  | look (w : StackId) (c : StackOp ι) (hc : c.isRead) {k : c.Reply → StackProg ι ε α}
      {q : StackProg ι ε α} (h : ∀ r, Restricts (k r) q) : Restricts (.op w c k) q

namespace Restricts

variable {ι ε α β : Type} {p q : StackProg ι ε α}

theorem refl (p : StackProg ι ε α) : Restricts p p := by
  induction p with
  | done a => exact .done a
  | fail e => exact .fail e _
  | op w c k ih => exact .op w c ih

theorem bind {f g : α → StackProg ι ε β} (h : Restricts p q) (hfg : ∀ a, Restricts (f a) (g a)) :
    Restricts (p >>= f) (q >>= g) := by
  induction h with
  | fail e q => exact .fail e _
  | done a => exact hfg a
  | op w c _ ih => exact .op w c ih
  | look w c hc _ ih => exact .look w c hc ih

theorem after (p : StackProg ι ε α) {f g : α → StackProg ι ε β}
    (hfg : ∀ a, Restricts (f a) (g a)) : Restricts (p >>= f) (p >>= g) :=
  (refl p).bind hfg

theorem failIf {a b : Prop} [Decidable a] [Decidable b] (h : b → a) (e : ε) :
    Restricts (StackProg.failIf a e : StackProg ι ε Unit) (StackProg.failIf b e) := by
  unfold StackProg.failIf
  by_cases ha : a
  · rw [if_pos ha]
    exact .fail e _
  · rw [if_neg ha, if_neg fun hb => ha (h hb)]
    exact .done ()

theorem ofExcept {x y : Except ε α} (h : ∀ a, x = .ok a → y = .ok a) :
    Restricts (StackProg.ofExcept x : StackProg ι ε α) (StackProg.ofExcept y) := by
  cases x with
  | error e => exact .fail e _
  | ok a =>
    rw [h a rfl]
    exact .done a

theorem of_looks {p : StackProg ι ε Unit} (hp : p.Looks) : Restricts p (.done ()) := by
  induction p with
  | done a => exact .done a
  | fail e => exact .fail e _
  | op w c k ih => exact .look w c hp.1 fun r => ih r (hp.2 r)

theorem run_eq_ok {M : StackMachine ι} (hM : M.ReadsKeep) (h : Restricts p q)
    {s t : TwoStacks M.Stack} {a : α} (hrun : M.run p s = .ok (a, t)) : M.run q s = .ok (a, t) := by
  induction h generalizing s with
  | fail e q => cases hrun
  | done a => exact hrun
  | op w c _ ih =>
    cases hexec : M.exec c (s.get w) with
    | error f =>
      rw [M.run_op_error hexec] at hrun
      cases hrun
    | ok x =>
      rw [M.run_op_ok hexec] at hrun ⊢
      exact ih x.1 hrun
  | look w c hc _ ih =>
    cases hexec : M.exec c (s.get w) with
    | error f =>
      rw [M.run_op_error hexec] at hrun
      cases hrun
    | ok x =>
      rw [M.run_op_ok hexec, hM c _ _ _ hc hexec, TwoStacks.set_get] at hrun
      exact ih x.1 hrun

end Restricts

end ZClassic
