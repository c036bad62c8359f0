/-
# EmWinDemo.Lib.Wakeups -- waiting lists that never forget a wakeup

Tasks wait in a list for units of a resource.  Who removes a task from the list makes it `due`: it
is going to look for a unit.  `Covered` says that no unit is overlooked while somebody waits: each
is matched by a due task of its own, or by a wakeup that is still `owed`.

There is one rule for each way in which the four parts change together.
-/
import Mathlib.Data.Finset.Card

namespace EmWinDemo.Lib.Wakeups

variable {τ : Type*}

def Covered (waiters : List τ) (due : τ → Prop) (units owed : Nat) : Prop :=
  waiters ≠ [] → ∃ woken : Finset τ, (∀ t ∈ woken, due t) ∧ units ≤ woken.card + owed

variable {waiters waiters' : List τ} {due due' : τ → Prop} {units units' owed owed' : Nat} {w t : τ}

/-- Nobody waits. -/
theorem covered_nil : Covered ([] : List τ) due units owed := fun h => absurd rfl h

/-- The wakeups owed are enough alone. -/
theorem covered_of_le (h : units ≤ owed) : Covered waiters due units owed :=
  fun _ => ⟨∅, by simp, by simpa using h⟩

theorem Covered.mono (h : Covered waiters due units owed) (hwait : waiters' ≠ [] → waiters ≠ [])
    (hdue : ∀ t, due t → due' t) (hunits : units' + owed ≤ units + owed') :
    Covered waiters' due' units' owed' := by
  intro hne
  obtain ⟨woken, hwoken, hle⟩ := h (hwait hne)
  exact ⟨woken, fun t ht => hdue t (hwoken t ht), by omega⟩

variable [DecidableEq τ]

/-- One more task is due, and so there may be one more unit. -/
theorem Covered.wake (h : Covered waiters due units owed) (hwait : waiters' ≠ [] → waiters ≠ [])
    (hdue : ∀ t, due t → due' t) (hw : ¬due w) (hw' : due' w) :
    Covered waiters' due' (units + 1) owed := by
  intro hne
  obtain ⟨woken, hwoken, hle⟩ := h (hwait hne)
  refine ⟨insert w woken, ?_, ?_⟩
  · intro t ht
    rcases Finset.mem_insert.mp ht with rfl | ht
    · exact hw'
    · exact hdue t (hwoken t ht)
  · rw [Finset.card_insert_of_notMem fun hmem => hw (hwoken w hmem)]
    omega

/-- A due task has looked and taken a unit. -/
theorem Covered.take (h : Covered waiters due units owed) (hwait : waiters' ≠ [] → waiters ≠ [])
    (hdue : ∀ u, u ≠ t → due u → due' u) : Covered waiters' due' (units - 1) owed := by
  intro hne
  obtain ⟨woken, hwoken, hle⟩ := h (hwait hne)
  refine ⟨woken.erase t, ?_, ?_⟩
  · intro u hu
    exact hdue u (Finset.ne_of_mem_erase hu) (hwoken u (Finset.mem_of_mem_erase hu))
  · have := Finset.pred_card_le_card_erase (s := woken) (a := t)
    omega

/-- The wakeups owed are paid to the first of the waiting tasks. -/
theorem Covered.pay (h : Covered waiters due units owed) (hnodup : waiters.Nodup)
    (hdue : ∀ t, due t → due' t) (hwaiting : ∀ t ∈ waiters, ¬due t)
    (hpaid : ∀ t ∈ waiters.take owed, due' t) : Covered (waiters.drop owed) due' units 0 := by
  intro hne
  have hlong : owed < waiters.length := by
    by_contra hle
    exact hne (List.drop_eq_nil_of_le (by omega))
  obtain ⟨woken, hwoken, hle⟩ := h (List.ne_nil_of_length_pos (by omega))
  have hdisjoint : Disjoint woken (waiters.take owed).toFinset := by
    rw [Finset.disjoint_right]
    intro t ht hmem
    exact hwaiting t (List.mem_of_mem_take (List.mem_toFinset.mp ht)) (hwoken t hmem)
  have hcard : (waiters.take owed).toFinset.card = owed := by
    rw [List.toFinset_card_of_nodup (hnodup.sublist (List.take_sublist _ _)),
      List.length_take_of_le (by omega)]
  refine ⟨woken ∪ (waiters.take owed).toFinset, ?_, ?_⟩
  · intro t ht
    rcases Finset.mem_union.mp ht with ht | ht
    · exact hdue t (hwoken t ht)
    · exact hpaid t (List.mem_toFinset.mp ht)
  · rw [Finset.card_union_of_disjoint hdisjoint, hcard]
    omega

end EmWinDemo.Lib.Wakeups
