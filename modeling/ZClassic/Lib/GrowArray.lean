import Mathlib.Data.List.Basic

/-!
# Arrays that move when they grow

A heap array that is reallocated when it is full.
-/

namespace ZClassic

structure GrowArray (α : Type*) where
  cap : ℕ
  items : List α := []
  /-- how often the array has been reallocated -/
  moves : ℕ := 0

structure ArrayRef where
  moves : ℕ
  index : ℕ
  deriving DecidableEq

namespace GrowArray

variable {α : Type*}

def deref (a : GrowArray α) (r : ArrayRef) : Option α :=
  if r.moves = a.moves then a.items[r.index]? else none

def nextRef (a : GrowArray α) : ArrayRef := ⟨a.moves, a.items.length⟩

/-- Makes room for one element; a full array is doubled and moves. -/
def reserve (a : GrowArray α) (initial : ℕ) : GrowArray α :=
  if a.cap ≤ a.items.length then
    { a with cap := if a.cap = 0 then initial else 2 * a.cap, moves := a.moves + 1 }
  else a

def push (a : GrowArray α) (x : α) : GrowArray α := { a with items := a.items ++ [x] }

variable {a : GrowArray α}

theorem reserve_of_lt {initial : ℕ} (h : a.items.length < a.cap) :
    a.reserve initial = a := if_neg (Nat.not_le.mpr h)

theorem deref_of_moves_eq {r : ArrayRef} (h : r.moves = a.moves) :
    a.deref r = a.items[r.index]? := if_pos h

end GrowArray

end ZClassic
