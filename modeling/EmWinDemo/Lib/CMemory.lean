/-
# EmWinDemo.Lib.CMemory -- byte memory and C strings

An array of bytes is a `List UInt8`.  `store m off src` is the effect of a block write
(`memcpy`, `memset`, a `read` into a buffer): the bytes of `src` replace those of `m` from
offset `off` on.  `cstr m` is `m` read as a C string, up to its first NUL.

The lemmas say what a block write leaves in place and which C string stands in an array after
one.  They hold for arrays of any length; the array bounds appear as hypotheses.  Where bytes that
were never assigned matter, an array is a list of `Option UInt8`.
-/
import Mathlib.Data.List.TakeWhile
import Mathlib.Data.List.TakeDrop
import Mathlib.Tactic.Common

namespace EmWinDemo.Lib.CMemory

/-- The bytes of an array or of a message. -/
abbrev Bytes := List UInt8

/-! ## Block writes -/

/-- Replace the bytes of `m` from offset `off` on by those of `src`. -/
def store (m : Bytes) (off : Nat) (src : Bytes) : Bytes :=
  m.take off ++ src ++ m.drop (off + src.length)

theorem length_store {m src : Bytes} {off : Nat} (h : off + src.length ≤ m.length) :
    (store m off src).length = m.length := by
  simp only [store, List.length_append, List.length_take, List.length_drop]
  omega

theorem store_zero (m src : Bytes) : store m 0 src = src ++ m.drop src.length := by
  simp [store]

/-- A write from offset one on leaves the first byte in place. -/
theorem store_one_cons (b : UInt8) (m src : Bytes) :
    store (b :: m) 1 src = b :: store m 0 src := by
  simp [store, Nat.add_comm 1]

/-! ## C strings -/

/-- An array read as a C string: the bytes before the first NUL. -/
def cstr (m : Bytes) : Bytes := m.takeWhile (· != 0)

/-- The C string in an array; none if it would be read past the array's end. -/
def readCstr (m : Bytes) : Option Bytes := if (0 : UInt8) ∈ m then some (cstr m) else none

@[simp] theorem cstr_zero (m : Bytes) : cstr (0 :: m) = [] := rfl

theorem cstr_cons {b : UInt8} (hb : b ≠ 0) (m : Bytes) : cstr (b :: m) = b :: cstr m := by
  simp [cstr, hb]

theorem cstr_replicate (n : Nat) : cstr (List.replicate n 0) = [] := by
  cases n <;> rfl

/-- No C string holds a NUL. -/
theorem zero_not_mem_cstr (m : Bytes) : (0 : UInt8) ∉ cstr m := by
  intro h
  simpa using List.mem_takeWhile_imp h

/-- Replacing bytes by bytes other than NUL brings no NUL in. -/
theorem zero_not_mem_map {f : UInt8 → UInt8} (hf : ∀ b, f b = 0 → b = 0) {s : Bytes}
    (hs : (0 : UInt8) ∉ s) : (0 : UInt8) ∉ s.map f := by
  intro h
  obtain ⟨b, hb, hzero⟩ := List.mem_map.mp h
  exact hs (hf b hzero ▸ hb)

/-- NUL-free bytes followed by a NUL are read back exactly. -/
theorem cstr_append_zero {s : Bytes} (hs : (0 : UInt8) ∉ s) (m : Bytes) :
    cstr (s ++ 0 :: m) = s := by
  induction s with
  | nil => rfl
  | cons b s ih =>
    have hb : b ≠ 0 := fun h => hs (h ▸ List.mem_cons_self)
    rw [List.cons_append, cstr_cons hb, ih fun h => hs (List.mem_cons_of_mem _ h)]

theorem readCstr_append_zero {s : Bytes} (hs : (0 : UInt8) ∉ s) (m : Bytes) :
    readCstr (s ++ 0 :: m) = some s := by
  have hmem : (0 : UInt8) ∈ s ++ 0 :: m := List.mem_append_right s List.mem_cons_self
  rw [readCstr, if_pos hmem, cstr_append_zero hs]

theorem cstr_append_of_zero_mem {s : Bytes} (hs : (0 : UInt8) ∈ s) (m : Bytes) :
    cstr (s ++ m) = cstr s := by
  induction s with
  | nil => simp at hs
  | cons b s ih =>
    by_cases hb : b = 0
    · simp [hb]
    · have hs' : (0 : UInt8) ∈ s := by
        rcases List.mem_cons.mp hs with h | h
        · exact absurd h.symm hb
        · exact h
      rw [List.cons_append, cstr_cons hb, cstr_cons hb, ih hs']

theorem cstr_of_zero_not_mem {s : Bytes} (hs : (0 : UInt8) ∉ s) : cstr s = s := by
  rw [cstr, List.takeWhile_eq_self_iff]
  intro b hb
  simpa using fun h : b = 0 => hs (h ▸ hb)

/-- What stands behind a terminator does not matter. -/
theorem cstr_append_nul (s m : Bytes) : cstr (s ++ 0 :: m) = cstr s := by
  by_cases hzero : (0 : UInt8) ∈ s
  · exact cstr_append_of_zero_mem hzero _
  · rw [cstr_append_zero hzero, cstr_of_zero_not_mem hzero]

theorem length_cstr_le (m : Bytes) : (cstr m).length ≤ m.length :=
  (List.takeWhile_prefix _).length_le

theorem length_cstr_lt {m : Bytes} (h : (0 : UInt8) ∈ m) : (cstr m).length < m.length := by
  rcases Nat.lt_or_ge (cstr m).length m.length with hlt | hge
  · exact hlt
  · have heq : cstr m = m :=
      (List.takeWhile_prefix _).eq_of_length (le_antisymm (length_cstr_le m) hge)
    exact absurd (heq.symm ▸ h) (zero_not_mem_cstr m)

/-- A C string shorter than its array has its NUL in it. -/
theorem zero_mem_of_length_cstr_lt {m : Bytes} (h : (cstr m).length < m.length) :
    (0 : UInt8) ∈ m := by
  by_contra hm
  rw [cstr_of_zero_not_mem hm] at h
  omega

/-- An array that holds a NUL is its C string, the NUL and a rest. -/
theorem eq_cstr_append {m : Bytes} (h : (0 : UInt8) ∈ m) : ∃ r, m = cstr m ++ 0 :: r := by
  induction m with
  | nil => simp at h
  | cons b m ih =>
    by_cases hb : b = 0
    · exact ⟨m, by simp [hb]⟩
    · have hm : (0 : UInt8) ∈ m := by
        rcases List.mem_cons.mp h with h | h
        · exact absurd h.symm hb
        · exact h
      obtain ⟨r, hr⟩ := ih hm
      refine ⟨r, ?_⟩
      rw [cstr_cons hb, List.cons_append, ← hr]

/-- The C string only depends on the bytes up to its NUL. -/
theorem cstr_take {m : Bytes} {n : Nat} (h : (0 : UInt8) ∈ m.take n) :
    cstr (m.take n) = cstr m := by
  conv_rhs => rw [← List.take_append_drop n m]
  exact (cstr_append_of_zero_mem h _).symm

theorem zero_mem_take_iff {m : Bytes} {n : Nat} :
    (0 : UInt8) ∈ m.take n ↔ (0 : UInt8) ∈ m ∧ (cstr m).length < n := by
  constructor
  · intro h
    refine ⟨List.mem_of_mem_take h, ?_⟩
    have hlt := length_cstr_lt h
    rw [cstr_take h] at hlt
    exact lt_of_lt_of_le hlt (List.length_take_le n m)
  · rintro ⟨hm, hn⟩
    obtain ⟨r, hr⟩ := eq_cstr_append hm
    rw [hr, List.take_append, List.mem_append]
    refine Or.inr ?_
    rw [show n - (cstr m).length = (n - (cstr m).length - 1) + 1 by omega, List.take_succ_cons]
    exact List.mem_cons_self

/-! ## Arrays with indeterminate bytes -/

/-- An array some bytes of which have never been assigned, read as a C string; none if an
indeterminate byte or the end of the array comes before the NUL. -/
def readCells : List (Option UInt8) → Option Bytes
  | [] => none
  | none :: _ => none
  | some b :: cells => if b = 0 then some [] else (readCells cells).map fun s => b :: s

theorem readCells_terminated {s : Bytes} (hs : (0 : UInt8) ∉ s) (rest : List (Option UInt8)) :
    readCells (s.map some ++ some 0 :: rest) = some s := by
  induction s with
  | nil => rfl
  | cons b s ih =>
    have hb : b ≠ 0 := fun h => hs (h ▸ List.mem_cons_self)
    have ih' := ih fun h => hs (List.mem_cons_of_mem _ h)
    simp only [List.map_cons, List.cons_append, readCells, if_neg hb, ih', Option.map_some]

theorem readCells_open {s : Bytes} (hs : (0 : UInt8) ∉ s) (k : Nat) :
    readCells (s.map some ++ List.replicate k none) = none := by
  induction s with
  | nil => cases k <;> rfl
  | cons b s ih =>
    have hb : b ≠ 0 := fun h => hs (h ▸ List.mem_cons_self)
    have ih' := ih fun h => hs (List.mem_cons_of_mem _ h)
    simp only [List.map_cons, List.cons_append, readCells, if_neg hb, ih', Option.map_none]

end EmWinDemo.Lib.CMemory
