/-
# EmWinDemo.Lib.Fifo -- the history of a first-in first-out channel

A ghost view of a channel with one consumer: `sent` is everything ever put in, `handled` what the
consumer has finished with, and `transit` the items in between, oldest first.  `Tracks` ties the
three together through a relation `R` between an item in transit and the message it stands for, so
that the items may be encodings of the messages.

`lastFor k log` is the newest value that a keyed log holds for `k`.
-/
import Mathlib.Data.List.Forall2

namespace EmWinDemo.Lib.Fifo

variable {ι μ κ α : Type*}

/-- The history is what has been handled, followed by the messages of the items in transit. -/
def Tracks (R : ι → μ → Prop) (sent handled : List μ) (transit : List ι) : Prop :=
  ∃ pending, sent = handled ++ pending ∧ List.Forall₂ R transit pending

variable {R : ι → μ → Prop} {sent handled : List μ} {transit : List ι}

theorem tracks_nil : Tracks R [] [] [] := ⟨[], rfl, .nil⟩

/-- A new item joins behind the others. -/
theorem Tracks.send (h : Tracks R sent handled transit) {i : ι} {m : μ} (hi : R i m) :
    Tracks R (sent ++ [m]) handled (transit ++ [i]) := by
  obtain ⟨pending, rfl, hp⟩ := h
  exact ⟨pending ++ [m], by rw [List.append_assoc], List.rel_append hp (.cons hi .nil)⟩

/-- The oldest item stands for the next message to be handled. -/
theorem Tracks.receive {i : ι} (h : Tracks R sent handled (i :: transit)) :
    ∃ m, R i m ∧ Tracks R sent (handled ++ [m]) transit := by
  obtain ⟨pending, rfl, hp⟩ := h
  cases hp with
  | @cons _ m _ ms hi hrest => exact ⟨m, hi, ms, by simp, hrest⟩

/-- With nothing in transit, everything sent has been handled. -/
theorem Tracks.drained (h : Tracks R sent handled []) : sent = handled := by
  obtain ⟨pending, rfl, hp⟩ := h
  cases hp
  simp

/-! ## Keyed logs -/

/-- The newest value for `k` in a log of key-value pairs, oldest first. -/
def lastFor [DecidableEq κ] (k : κ) (log : List (κ × α)) : Option α :=
  log.foldl (fun v m => if m.1 = k then some m.2 else v) none

@[simp] theorem lastFor_concat [DecidableEq κ] (k : κ) (log : List (κ × α)) (m : κ × α) :
    lastFor k (log ++ [m]) = if m.1 = k then some m.2 else lastFor k log := by
  rw [lastFor, List.foldl_append]
  rfl

end EmWinDemo.Lib.Fifo
