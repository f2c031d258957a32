import Mathlib.Control.Monad.Basic
import Mathlib.Data.Vector.Defs
import ZClassic.Lib.LittleEndian

/-!
# Byte streams

A reader takes what it reads off the front of a stream of bytes, or fails. `Reads r bytes x` says
that `r` reads `x` off exactly `bytes`, whatever follows; the rules for it follow the shape of a
reader, so that a reader that mirrors a writer is proved to invert it field by field.
-/

namespace ZClassic

open List hiding Vector

abbrev Reader (α : Type) := StateT (List UInt8) Option α

def readBytes (n : ℕ) : Reader (List UInt8) := fun bs =>
  if bs.length < n then none else some (bs.take n, bs.drop n)

def readArray (n : ℕ) : Reader (Vector UInt8 n) := fun bs =>
  if h : bs.length < n then none
  else some (⟨(bs.take n).toArray, by simp [Nat.le_of_not_lt h]⟩, bs.drop n)

def readLe (w : ℕ) : Reader ℕ := leRead w

def readMany {α : Type} (r : Reader α) : ℕ → Reader (List α)
  | 0 => pure []
  | n + 1 => do
    let x ← r
    let xs ← readMany r n
    return x :: xs

def readVector {α : Type} (r : Reader α) (n : ℕ) : Reader (Vector α n) := do
  let xs ← readMany r n
  if h : xs.length = n then return ⟨xs.toArray, h⟩ else failure

def readU8 : Reader UInt8 := UInt8.ofNat <$> readLe 1

def readU32 : Reader UInt32 := UInt32.ofNat <$> readLe 4

def readU64 : Reader UInt64 := UInt64.ofNat <$> readLe 8

def readI32 : Reader Int32 := UInt32.toInt32 <$> readU32

def readI64 : Reader Int64 := UInt64.toInt64 <$> readU64

def readU256 : Reader (BitVec 256) := BitVec.ofNat 256 <$> readLe 32

def writeCompactSize (n : ℕ) : List UInt8 :=
  if n < 253 then leBytes 1 n
  else if n ≤ 0xffff then leBytes 1 253 ++ leBytes 2 n
  else if n ≤ 0xffffffff then leBytes 1 254 ++ leBytes 4 n
  else leBytes 1 255 ++ leBytes 8 n

/-- Longer forms than needed are accepted. -/
def readCompactSize : Reader ℕ := do
  let marker ← readLe 1
  if marker < 253 then return marker
  else if marker = 253 then readLe 2
  else if marker = 254 then readLe 4
  else readLe 8

def writeList {α : Type} (f : α → List UInt8) (xs : List α) : List UInt8 :=
  writeCompactSize xs.length ++ xs.flatMap f

def readList {α : Type} (bound : ℕ) (r : Reader α) : Reader (List α) := do
  let n ← readCompactSize
  guard (n ≤ bound)
  readMany r n

def Reads {α : Type} (r : Reader α) (bytes : List UInt8) (x : α) : Prop :=
  ∀ rest, r.run (bytes ++ rest) = some (x, rest)

variable {bytes' rest rest' : List UInt8} {p : Prop} {n bound : ℕ}

section Reads

variable {α β : Type} {r : Reader α} {bytes : List UInt8} {x : α}

theorem reads_pure (x : α) : Reads (pure x) [] x := fun _ => rfl

theorem Reads.bind {f : α → Reader β} {y : β} (h : Reads r bytes x) (hf : Reads (f x) bytes' y) :
    Reads (r >>= f) (bytes ++ bytes') y := by
  intro rest
  rw [StateT.run_bind, append_assoc, h]
  exact hf rest

theorem Reads.bind_pure {f : α → β} (h : Reads r bytes x) :
    Reads (r >>= fun x => pure (f x)) bytes (f x) := by
  have hbind := h.bind (f := fun x => pure (f x)) (reads_pure (f x))
  rwa [append_nil] at hbind

theorem Reads.map (f : α → β) (h : Reads r bytes x) : Reads (f <$> r) bytes (f x) := by
  intro rest
  rw [StateT.run_map, h]
  rfl

variable {k : Unit → Reader α} {f : β → List UInt8} {g : β → α} {xs : List β}

theorem Reads.guard_bind [Decidable p] (hp : p) (h : Reads (k ()) bytes x) :
    Reads (guard p >>= k) bytes x := by
  rw [guard, if_pos hp]
  exact h

theorem reads_bytes (bytes : List UInt8) : Reads (readBytes bytes.length) bytes bytes := by
  intro rest
  change readBytes bytes.length (bytes ++ rest) = _
  rw [readBytes, if_neg (by simp), take_left, drop_left]

theorem reads_array (v : Vector UInt8 n) : Reads (readArray n) v.toList v := by
  intro rest
  have hlen : v.toList.length = n := v.length_toList
  change readArray n (v.toList ++ rest) = _
  rw [readArray, dif_neg (by simp), drop_left' hlen]
  congr 2
  apply Vector.toList_inj.mp
  change ((v.toList ++ rest).take n).toArray.toList = _
  rw [take_left' hlen]

theorem reads_le {w n : ℕ} (h : n < 256 ^ w) : Reads (readLe w) (leBytes w n) n :=
  leRead_leBytes h

theorem reads_many (h : ∀ x ∈ xs, Reads r (f x) (g x)) :
    Reads (readMany r xs.length) (xs.flatMap f) (xs.map g) := by
  induction xs with
  | nil => exact reads_pure []
  | cons x xs ih =>
    rw [forall_mem_cons] at h
    exact h.1.bind (ih h.2).bind_pure

theorem reads_vector {f : α → List UInt8} (v : Vector α n) (h : ∀ x ∈ v.toList, Reads r (f x) x) :
    Reads (readVector r n) (v.toList.flatMap f) v := by
  have hmany := reads_many (g := id) h
  rw [v.length_toList, map_id] at hmany
  rw [← append_nil (v.toList.flatMap f)]
  refine hmany.bind ?_
  rw [dif_pos v.length_toList]
  exact reads_pure v

theorem reads_u32 (n : UInt32) : Reads readU32 (leBytes 4 n.toNat) n := by
  have h := (reads_le (w := 4) n.toNat_lt).map UInt32.ofNat
  rwa [UInt32.ofNat_toNat] at h

theorem reads_u64 (n : UInt64) : Reads readU64 (leBytes 8 n.toNat) n := by
  have h := (reads_le (w := 8) n.toNat_lt).map UInt64.ofNat
  rwa [UInt64.ofNat_toNat] at h

theorem reads_i64 (n : Int64) : Reads readI64 (leBytes 8 n.toUInt64.toNat) n :=
  (reads_u64 n.toUInt64).map UInt64.toInt64

theorem reads_u256 (h : BitVec 256) : Reads readU256 (leBytes 32 h.toNat) h := by
  have hread := (reads_le (w := 32) h.isLt).map (BitVec.ofNat 256)
  rwa [BitVec.ofNat_toNat, BitVec.setWidth_eq] at hread

theorem reads_compactSize (h : n < 2 ^ 64) : Reads readCompactSize (writeCompactSize n) n := by
  -- after the marker, the reader has chosen the width that the writer used
  unfold writeCompactSize readCompactSize
  split_ifs with h1 h2 h3
  · rw [← append_nil (leBytes 1 n)]
    refine (reads_le (w := 1) (by omega)).bind ?_
    rw [if_pos h1]
    exact reads_pure n
  · exact (reads_le (w := 1) (n := 253) (by decide)).bind (reads_le (w := 2) (by omega))
  · exact (reads_le (w := 1) (n := 254) (by decide)).bind (reads_le (w := 4) (by omega))
  · exact (reads_le (w := 1) (n := 255) (by decide)).bind (reads_le (w := 8) (by omega))

theorem reads_list_map (hlen : xs.length ≤ bound) (hbound : bound < 2 ^ 64)
    (h : ∀ x ∈ xs, Reads r (f x) (g x)) : Reads (readList bound r) (writeList f xs) (xs.map g) :=
  (reads_compactSize (hlen.trans_lt hbound)).bind (.guard_bind hlen (reads_many h))

theorem reads_list {f : α → List UInt8} {xs : List α} (hlen : xs.length ≤ bound)
    (hbound : bound < 2 ^ 64) (h : ∀ x, Reads r (f x) x) :
    Reads (readList bound r) (writeList f xs) xs := by
  have hread := reads_list_map (g := id) hlen hbound fun x _ => h x
  rwa [map_id] at hread

def FailsOn {α : Type} (r : Reader α) (bytes : List UInt8) : Prop :=
  ∀ rest, r.run (bytes ++ rest) = none

theorem Reads.bind_failsOn {f : α → Reader β} (h : Reads r bytes x) (hf : FailsOn (f x) bytes') :
    FailsOn (r >>= f) (bytes ++ bytes') := by
  intro rest
  rw [StateT.run_bind, append_assoc, h]
  exact hf rest

theorem FailsOn.append (h : FailsOn r bytes) (bytes' : List UInt8) :
    FailsOn r (bytes ++ bytes') := by
  intro rest
  rw [append_assoc]
  exact h _

theorem FailsOn.bind {f : α → Reader β} (h : FailsOn r bytes) : FailsOn (r >>= f) bytes := by
  intro rest
  rw [StateT.run_bind, h]
  rfl

theorem failsOn_guard_bind [Decidable p] (hp : ¬p) : FailsOn (guard p >>= k) bytes := by
  intro rest
  rw [guard, if_neg hp]
  rfl

theorem failsOn_list (hlen : bound < xs.length) (hsize : xs.length < 2 ^ 64) :
    FailsOn (readList bound r) (writeList f xs) :=
  (reads_compactSize hsize).bind_failsOn (failsOn_guard_bind (Nat.not_le.mpr hlen))

theorem Reads.append_inj {x' : α} (h : Reads r bytes x) (h' : Reads r bytes' x')
    (heq : bytes ++ rest = bytes' ++ rest') : x = x' ∧ rest = rest' := by
  have hrun := h rest
  rw [heq, h' rest'] at hrun
  have hpair := Prod.mk.inj (Option.some.inj hrun)
  exact ⟨hpair.1.symm, hpair.2.symm⟩

theorem append_inj_iff_of_reads {f : α → List UInt8} (h : ∀ x, Reads r (f x) x) {x y : α} :
    f x ++ rest = f y ++ rest' ↔ x = y ∧ rest = rest' := by
  constructor
  · exact (h x).append_inj (h y)
  · rintro ⟨rfl, rfl⟩
    rfl

/-- A sequence of what delimits itself needs no length in front, if what follows it is as long. -/
theorem flatMap_append_inj {xs ys : List β} (hxs : ∀ x ∈ xs, Reads r (f x) (g x))
    (hys : ∀ y ∈ ys, Reads r (f y) (g y)) (hne : ∀ x, f x ≠ []) (hlen : rest.length = rest'.length)
    (heq : xs.flatMap f ++ rest = ys.flatMap f ++ rest') : xs.map g = ys.map g ∧ rest = rest' := by
  have hpos : ∀ x, 0 < (f x).length := fun x => length_pos_iff.mpr (hne x)
  induction xs generalizing ys with
  | nil =>
    cases ys with
    | nil => exact ⟨rfl, heq⟩
    | cons y ys =>
      have hsize := congrArg length heq
      have hy := hpos y
      simp only [flatMap_nil, flatMap_cons, nil_append, length_append] at hsize
      omega
  | cons x xs ih =>
    cases ys with
    | nil =>
      have hsize := congrArg length heq
      have hx := hpos x
      simp only [flatMap_nil, flatMap_cons, nil_append, length_append] at hsize
      omega
    | cons y ys =>
      rw [forall_mem_cons] at hxs hys
      simp only [flatMap_cons, append_assoc] at heq
      have hhead := hxs.1.append_inj hys.1 heq
      have htail := ih hxs.2 hys.2 hhead.2
      exact ⟨congrArg₂ cons hhead.1 htail.1, htail.2⟩

theorem flatMap_inj {xs ys : List β} (h : ∀ x, Reads r (f x) (g x)) (hne : ∀ x, f x ≠ [])
    (heq : xs.flatMap f = ys.flatMap f) : xs.map g = ys.map g := by
  have hnil : xs.flatMap f ++ [] = ys.flatMap f ++ [] := by rw [heq]
  exact (flatMap_append_inj (fun x _ => h x) (fun y _ => h y) hne rfl hnil).1

theorem ne_nil_of_length {bytes : List UInt8} (h : bytes.length = n + 1) : bytes ≠ [] := by
  intro hnil
  rw [hnil] at h
  simp at h

theorem flatMap_injective_of_reads {f : α → List UInt8}
    (h : ∀ x, Reads r (f x) x) (hne : ∀ x, f x ≠ []) :
    Function.Injective fun xs : List α => xs.flatMap f := by
  intro xs ys heq
  have hmap := flatMap_inj (g := id) h hne heq
  rwa [map_id, map_id] at hmap

end Reads

def Yields {α : Type} (r : Reader α) (P : α → Prop) : Prop :=
  ∀ bs x rest, r.run bs = some (x, rest) → P x

section Yields

variable {α β : Type} {r : Reader α} {P : α → Prop}

theorem yields_pure {x : α} (h : P x) : Yields (pure x) P := by
  intro bs y rest hrun
  obtain ⟨rfl, rfl⟩ := Prod.mk.inj (Option.some.inj hrun)
  exact h

theorem yields_any (r : Reader α) : Yields r fun _ => True := fun _ _ _ _ => trivial

theorem yields_failure : Yields (failure : Reader α) P := fun _ _ _ hrun => nomatch hrun

variable {Q : β → Prop}

theorem Yields.bind {f : α → Reader β} (h : Yields r P) (hf : ∀ x, P x → Yields (f x) Q) :
    Yields (r >>= f) Q := by
  intro bs y rest hrun
  rw [StateT.run_bind] at hrun
  obtain ⟨⟨x, mid⟩, hx, hy⟩ := Option.bind_eq_some_iff.mp hrun
  exact hf x (h bs x mid hx) mid y rest hy

theorem Yields.map {f : α → β} (h : Yields r fun x => Q (f x)) : Yields (f <$> r) Q := by
  intro bs y rest hrun
  rw [StateT.run_map] at hrun
  obtain ⟨⟨x, mid⟩, hx, hy⟩ := Option.map_eq_some_iff.mp hrun
  obtain ⟨rfl, rfl⟩ := Prod.mk.inj hy
  exact h bs x mid hx

theorem yields_guard (p : Prop) [Decidable p] : Yields (guard p) fun _ => p := by
  by_cases hp : p
  · exact fun _ _ _ _ => hp
  · rw [guard, if_neg hp]
    exact yields_failure

theorem yields_le (w : ℕ) : Yields (readLe w) fun n => n < 256 ^ w := by
  intro bs n rest hrun
  change leRead w bs = some (n, rest) at hrun
  unfold leRead at hrun
  split_ifs at hrun with hlen
  cases hrun
  have hlt := leNat_lt (bs.take w)
  rwa [length_take, Nat.min_eq_left (Nat.le_of_not_lt hlen)] at hlt

theorem yields_compactSize : Yields readCompactSize fun n => n < 2 ^ 64 := by
  refine (yields_le 1).bind fun marker hmarker => ?_
  split_ifs
  · exact yields_pure (by omega)
  · exact fun bs n rest hrun => (yields_le 2 bs n rest hrun).trans (by decide)
  · exact fun bs n rest hrun => (yields_le 4 bs n rest hrun).trans (by decide)
  · exact yields_le 8

theorem yields_many (h : Yields r P) (n : ℕ) :
    Yields (readMany r n) fun xs => xs.length = n ∧ ∀ x ∈ xs, P x := by
  induction n with
  | zero => exact yields_pure ⟨rfl, nofun⟩
  | succ n ih =>
    refine h.bind fun x hx => ih.bind fun xs hxs => yields_pure ⟨?_, ?_⟩
    · rw [length_cons, hxs.1]
    · exact forall_mem_cons.mpr ⟨hx, hxs.2⟩

theorem yields_list (h : Yields r P) :
    Yields (readList bound r) fun xs => xs.length ≤ bound ∧ ∀ x ∈ xs, P x := by
  refine (yields_any _).bind fun n _ => (yields_guard _).bind fun _ hn => ?_
  intro bs xs rest hrun
  have hmany := yields_many h n bs xs rest hrun
  exact ⟨hmany.1.trans_le hn, hmany.2⟩

end Yields

end ZClassic
