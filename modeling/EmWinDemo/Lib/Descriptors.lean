/-
# EmWinDemo.Lib.Descriptors -- a descriptor table that hands out its lowest free entry

A table of `n` entries, each free or held by an owner.  `lowest` is the entry the next allocation
gets, `held` the number of entries whose owner satisfies a test.  The owners are arbitrary.
-/
import Mathlib.Data.List.FinRange
import Mathlib.Data.List.Count
import Mathlib.Logic.Function.Basic

namespace EmWinDemo.Lib.Descriptors

variable {n : Nat} {ω : Type*}

/-- Each descriptor is free or has an owner. -/
abbrev Table (n : Nat) (ω : Type*) := Fin n → Option ω

/-- The lowest free descriptor. -/
def lowest (t : Table n ω) : Option (Fin n) := (List.finRange n).find? fun k => (t k).isNone

theorem lowest_free {t : Table n ω} {k : Fin n} (h : lowest t = some k) : t k = none := by
  have hfree := List.find?_some h
  exact Option.isNone_iff_eq_none.mp (by simpa using hfree)

/-- Everything below the lowest free descriptor is in use. -/
theorem lowest_used {t : Table n ω} {k j : Fin n} (h : lowest t = some k) (hj : j < k) :
    t j ≠ none := by
  intro hnone
  obtain ⟨-, as, bs, hsplit, has⟩ := List.find?_eq_some_iff_append.mp h
  have hsorted : (List.finRange n).Pairwise (· < ·) := List.pairwise_lt_finRange n
  have hmem : j ∈ as := by
    have hall : j ∈ as ++ k :: bs := hsplit ▸ List.mem_finRange j
    rcases List.mem_append.mp hall with hin | hin
    · exact hin
    · rw [hsplit] at hsorted
      have htail := (List.pairwise_append.mp hsorted).2.1
      rcases List.mem_cons.mp hin with rfl | hin
      · exact absurd hj (lt_irrefl j)
      · exact absurd ((List.pairwise_cons.mp htail).1 j hin) (not_lt.mpr hj.le)
  have hused := has j hmem
  simp [hnone] at hused

/-- With a free descriptor there is a lowest one. -/
theorem lowest_isSome {t : Table n ω} {k : Fin n} (h : t k = none) : ∃ j, lowest t = some j := by
  cases hl : lowest t with
  | some j => exact ⟨j, rfl⟩
  | none =>
    have hall := List.find?_eq_none.mp hl k (List.mem_finRange k)
    simp [h] at hall

/-- How many descriptors have an owner of the given kind. -/
def held (p : ω → Bool) (t : Table n ω) : Nat :=
  (List.finRange n).countP fun k => (t k).any p

theorem held_congr {p : ω → Bool} {t u : Table n ω} (h : ∀ k, (t k).any p = (u k).any p) :
    held p t = held p u := by
  unfold held
  apply List.countP_congr
  intro k _
  rw [h k]

/-- A free descriptor given to an owner of the kind counts once more. -/
theorem held_update {p : ω → Bool} {t : Table n ω} {k : Fin n} (hfree : t k = none) {w : ω}
    (hw : p w = true) : held p (Function.update t k (some w)) = held p t + 1 := by
  have hnodup := List.nodup_finRange n
  have hk := List.mem_finRange k
  unfold held
  generalize List.finRange n = ks at hnodup hk ⊢
  induction ks with
  | nil => exact absurd hk List.not_mem_nil
  | cons j js ih =>
    obtain ⟨hj, hrest⟩ := List.nodup_cons.mp hnodup
    rw [List.countP_cons, List.countP_cons]
    rcases eq_or_ne j k with rfl | hne
    · have hsame : js.countP (fun i => (Function.update t j (some w) i).any p) =
          js.countP fun i => (t i).any p := by
        apply List.countP_congr
        intro i hi
        rw [Function.update_of_ne fun heq : i = j => hj (heq ▸ hi)]
      rw [hsame, Function.update_self, hfree]
      simp [hw]
    · rw [Function.update_of_ne hne, ih hrest ((List.mem_cons.mp hk).resolve_left hne.symm)]
      omega

end EmWinDemo.Lib.Descriptors
