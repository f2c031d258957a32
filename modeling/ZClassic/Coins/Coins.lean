import Mathlib.Data.List.DropRight
import ZClassic.Primitives.Transaction

/-!
# Coin records

`struct coins`, the per-transaction record of unspent outputs, with the operations of
`lib/coins/src/coins.c` and `domain/consensus/src/coins_math.c`.
-/

namespace ZClassic

structure Coins where
  isCoinbase : Bool := false
  vout : List TxOut := []
  height : Int32 := 0
  version : Int32 := 0
  deriving DecidableEq

def txOutNull : TxOut := { value := -1 }

def maxCoinsOutputs : ℕ := 65536

def coinsCleanup (c : Coins) : Coins :=
  { c with vout := c.vout.rdropWhile txOutIsNull }

/-- The available output at `pos`: in range and not null. -/
def coinsOutput (c : Coins) (pos : ℕ) : Option TxOut :=
  (c.vout[pos]?).filter fun o => !txOutIsNull o

/-- Outputs that can never be spent are dropped, then the tail is trimmed. -/
def coinsFromTransaction (tx : Transaction) (height : Int32) : Option Coins :=
  if maxCoinsOutputs < tx.vout.length then none
  else some <| coinsCleanup {
    isCoinbase := transactionIsCoinbase tx
    vout := tx.vout.map fun o => if scriptIsUnspendable o.scriptPubKey then txOutNull else o
    height
    version := tx.version }

@[simp]
theorem txOutIsNull_txOutNull : txOutIsNull txOutNull = true := by decide

variable {α : Type*} {p : α → Bool} {l : List α}

theorem getElem?_rdropWhile_of_not {i : ℕ} {a : α}
    (h : l[i]? = some a) (ha : p a = false) : (l.rdropWhile p)[i]? = some a := by
  induction l using List.reverseRecOn with
  | nil => simp at h
  | append_singleton l b ih =>
    by_cases hb : p b
    · rw [List.rdropWhile_concat_pos _ _ _ hb]
      refine ih ?_
      rcases Nat.lt_or_ge i l.length with hi | hi
      · rwa [List.getElem?_append_left hi] at h
      · rw [List.getElem?_append_right hi, List.getElem?_singleton] at h
        split at h
        · cases h; rw [ha] at hb; cases hb
        · cases h
    · rwa [List.rdropWhile_concat_neg _ _ _ hb]

theorem getElem?_of_rdropWhile {i : ℕ} {a : α}
    (h : (l.rdropWhile p)[i]? = some a) : l[i]? = some a := by
  obtain ⟨t, ht⟩ := List.rdropWhile_prefix p l
  rw [← ht]
  exact List.getElem?_append_left (List.getElem?_eq_some_iff.mp h).1 ▸ h

@[simp]
theorem coinsOutput_coinsCleanup (c : Coins) (pos : ℕ) :
    coinsOutput (coinsCleanup c) pos = coinsOutput c pos := by
  ext o
  simp only [coinsOutput, coinsCleanup, Option.filter_eq_some_iff]
  constructor
  · rintro ⟨h, ho⟩
    exact ⟨getElem?_of_rdropWhile h, ho⟩
  · rintro ⟨h, ho⟩
    exact ⟨getElem?_rdropWhile_of_not h (by simpa using ho), ho⟩

end ZClassic
