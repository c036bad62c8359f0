/-
# EmWinDemo.Lib.Checked -- programs on one array, every access checked and logged

A `Program` reads and writes single bytes of one array.  An access outside the array ends it
without a result, and each access that succeeds is logged.  `Computes x m a m' n` says what the
program `x` does on the array `m`: it returns `a`, leaves the array `m'`, and touches no byte
behind the index `n`.

A program is taken apart by the rules `pure`, `bind`, `load` and `put`, and `mono` forgets how
little of the array it touched.
-/
import EmWinDemo.Lib.CMemory

namespace EmWinDemo.Lib.Checked

open EmWinDemo.Lib.CMemory

/-! ## Programs -/

inductive Access where
  | read (i : Nat)
  | write (i : Nat)
  deriving Repr, DecidableEq

/-- Where the access was. -/
def Access.index : Access → Nat
  | .read i => i
  | .write i => i

/-- An array, and the accesses to it so far. -/
structure Logged where
  bytes : Bytes
  log : List Access
  deriving Repr, DecidableEq

abbrev Program := StateT Logged Option

def load (i : Nat) : Program UInt8 := fun m =>
  (m.bytes[i]?).map fun b => (b, { m with log := m.log ++ [.read i] })

def put (i : Nat) (b : UInt8) : Program Unit := fun m =>
  if i < m.bytes.length then
    some ((), { bytes := m.bytes.set i b, log := m.log ++ [.write i] })
  else none

/-! ## What a program does -/

variable {α β : Type}

/-- On the array `m` the program returns `a` and leaves `m'`; all its accesses are at most at the
index `n`. -/
def Computes (x : Program α) (m : Bytes) (a : α) (m' : Bytes) (n : Nat) : Prop :=
  ∀ log, ∃ new, x ⟨m, log⟩ = some (a, ⟨m', log ++ new⟩) ∧ ∀ access ∈ new, access.index ≤ n

namespace Computes

variable {x : Program α} {f : α → Program β} {m m' m'' : Bytes} {a : α} {b : β} {n : Nat}

theorem pure (a : α) (m : Bytes) (n : Nat) : Computes (Pure.pure a) m a m n := by
  intro log
  refine ⟨[], ?_, fun access h => absurd h List.not_mem_nil⟩
  rw [List.append_nil]
  rfl

theorem mono (hx : Computes x m a m' n) {k : Nat} (hk : n ≤ k) : Computes x m a m' k := by
  intro log
  obtain ⟨new, hrun, hnew⟩ := hx log
  exact ⟨new, hrun, fun access h => (hnew access h).trans hk⟩

/-- One program after the other. -/
theorem bind (hx : Computes x m a m' n) (hf : Computes (f a) m' b m'' n) :
    Computes (x >>= f) m b m'' n := by
  intro log
  obtain ⟨first, hrun, hfirst⟩ := hx log
  obtain ⟨second, hrun', hsecond⟩ := hf (log ++ first)
  refine ⟨first ++ second, ?_, fun access h => ?_⟩
  · show (x ⟨m, log⟩).bind (fun p => f p.1 p.2) = _
    rw [hrun, ← List.append_assoc]
    exact hrun'
  · rcases List.mem_append.mp h with h | h
    · exact hfirst access h
    · exact hsecond access h

theorem load {i : Nat} {c : UInt8} (hi : m[i]? = some c) (hn : i ≤ n) :
    Computes (load i) m c m n := by
  intro log
  refine ⟨[.read i], ?_, fun access h => ?_⟩
  · show (m[i]?).map _ = _
    rw [hi]
    rfl
  · rw [List.mem_singleton.mp h]
    exact hn

theorem put {i : Nat} (hi : i < m.length) (hn : i ≤ n) (c : UInt8) :
    Computes (put i c) m () (m.set i c) n := by
  intro log
  refine ⟨[.write i], if_pos hi, fun access h => ?_⟩
  rw [List.mem_singleton.mp h]
  exact hn

end Computes

end EmWinDemo.Lib.Checked
