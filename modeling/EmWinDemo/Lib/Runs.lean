/-
# EmWinDemo.Lib.Runs -- executable transition systems and their finite runs

A system is a partial step function `σ → ε → Option σ`: `none` says that the event is not
enabled in the state.  `exec` runs a list of events.  Two predicates speak about *every* state
and *every* step of such a run:

* `Always step P s es` -- `P` holds in the start state and in each state the run passes through;
* `EachStep step ok s es` -- each event of the run is taken in a state in which `ok` allows it.

The invariant rules below connect them.  `always_of_eachStep` is the one-way rule: an inductive
invariant under the side condition `ok` holds along every run that respects `ok`.
`always_iff_eachStep` is the exact rule, for systems in which a step that breaks `ok` leaves the
good states at once.  Nothing here depends on what the states and the events are.
-/
import Mathlib.Data.List.Basic
import Mathlib.Logic.Basic

namespace EmWinDemo.Lib.Runs

variable {σ ε : Type*}

/-! ## Running a list of events -/

/-- Run a list of events from a state, `none` as soon as one of them is not enabled. -/
def exec (step : σ → ε → Option σ) : σ → List ε → Option σ
  | s, [] => some s
  | s, e :: es => (step s e).bind fun t => exec step t es

variable {step : σ → ε → Option σ} {P : σ → Prop} {ok : σ → ε → Prop}

@[simp] theorem exec_nil (s : σ) : exec step s [] = some s := rfl

@[simp] theorem exec_cons (s : σ) (e : ε) (es : List ε) :
    exec step s (e :: es) = (step s e).bind fun t => exec step t es := rfl

/-- A run of at least one event takes its first step. -/
theorem exists_step_of_exec {s : σ} {e : ε} {es : List ε} (hrun : (exec step s (e :: es)).isSome) :
    ∃ t, step s e = some t ∧ (exec step t es).isSome := by
  cases hse : step s e with
  | none => simp [hse] at hrun
  | some t => exact ⟨t, rfl, by simpa [hse] using hrun⟩

/-! ## Every state and every step of a run -/

/-- `P` holds in every state the run passes through, the first one included. -/
def Always (step : σ → ε → Option σ) (P : σ → Prop) : σ → List ε → Prop
  | s, [] => P s
  | s, e :: es => P s ∧ ∀ t, step s e = some t → Always step P t es

/-- Every event of the run is taken in a state in which `ok` allows it. -/
def EachStep (step : σ → ε → Option σ) (ok : σ → ε → Prop) : σ → List ε → Prop
  | _, [] => True
  | s, e :: es => ok s e ∧ ∀ t, step s e = some t → EachStep step ok t es

instance decidableEachStep [∀ s e, Decidable (ok s e)] :
    (s : σ) → (es : List ε) → Decidable (EachStep step ok s es)
  | _, [] => isTrue trivial
  | s, e :: es =>
    match hse : step s e with
    | none => decidable_of_iff (ok s e) ⟨fun h => ⟨h, by simp [hse]⟩, fun h => h.1⟩
    | some t =>
      have := decidableEachStep t es
      decidable_of_iff (ok s e ∧ EachStep step ok t es)
        ⟨fun h => ⟨h.1, fun _ hu => Option.some.inj (hse.symm.trans hu) ▸ h.2⟩,
          fun h => ⟨h.1, h.2 t hse⟩⟩

theorem Always.head {s : σ} {es : List ε} (h : Always step P s es) : P s := by
  cases es with
  | nil => exact h
  | cons e es => exact h.1

/-- `Always` speaks about the last state of a run as well. -/
theorem Always.last {s t : σ} {es : List ε} (h : Always step P s es)
    (hrun : exec step s es = some t) : P t := by
  induction es generalizing s with
  | nil =>
    obtain rfl : s = t := by simpa using hrun
    exact h
  | cons e es ih =>
    obtain ⟨u, hu, hrest⟩ := Option.bind_eq_some_iff.mp hrun
    exact ih (h.2 u hu) hrest

theorem Always.mono {Q : σ → Prop} (hPQ : ∀ s, P s → Q s) {s : σ} {es : List ε}
    (h : Always step P s es) : Always step Q s es := by
  induction es generalizing s with
  | nil => exact hPQ s h
  | cons e es ih => exact ⟨hPQ s h.1, fun t ht => ih (h.2 t ht)⟩

theorem eachStep_of_forall (h : ∀ s e, ok s e) (s : σ) (es : List ε) :
    EachStep step ok s es := by
  induction es generalizing s with
  | nil => trivial
  | cons e es ih => exact ⟨h s e, fun t _ => ih t⟩

theorem eachStep_of_mem {q : ε → Prop} {es : List ε} (h : ∀ e ∈ es, q e) (s : σ) :
    EachStep step (fun _ e => q e) s es := by
  induction es generalizing s with
  | nil => trivial
  | cons e es ih =>
    rw [List.forall_mem_cons] at h
    exact ⟨h.1, fun t _ => ih h.2 t⟩

/-- A condition on the events alone is a condition on the list of them. -/
theorem eachStep_iff_forall {q : ε → Prop} {s : σ} {es : List ε}
    (hrun : (exec step s es).isSome) :
    EachStep step (fun _ e => q e) s es ↔ ∀ e ∈ es, q e := by
  induction es generalizing s with
  | nil => exact ⟨fun _ _ he => absurd he List.not_mem_nil, fun _ => trivial⟩
  | cons e es ih =>
    obtain ⟨t, ht, hrest⟩ := exists_step_of_exec hrun
    rw [List.forall_mem_cons, ← ih hrest]
    constructor
    · rintro ⟨he, hall⟩
      exact ⟨he, hall t ht⟩
    · rintro ⟨he, hall⟩
      refine ⟨he, fun u hu => ?_⟩
      obtain rfl : t = u := Option.some.inj (ht.symm.trans hu)
      exact hall

/-! ## The invariant rules -/

/-- **Guarded invariant.** What every allowed step preserves holds along every run all of whose
steps are allowed. -/
theorem always_of_eachStep (hstep : ∀ s e t, P s → ok s e → step s e = some t → P t)
    {s : σ} {es : List ε} (hs : P s) (h : EachStep step ok s es) : Always step P s es := by
  induction es generalizing s with
  | nil => exact hs
  | cons e es ih => exact ⟨hs, fun t ht => ih (hstep s e t hs h.1 ht) (h.2 t ht)⟩

/-- **Plain invariant.** What every step preserves holds along every run. -/
theorem always_of_step (hstep : ∀ s e t, P s → step s e = some t → P t)
    {s : σ} (hs : P s) (es : List ε) : Always step P s es :=
  have hall : EachStep step (fun _ _ => True) s es := eachStep_of_forall (fun _ _ => trivial) s es
  always_of_eachStep (fun s e t h _ => hstep s e t h) hs hall

/-- **Exact guarded invariant.** If `Inv` implies `P`, an allowed step keeps `Inv`, and a step
that keeps `P` was allowed, then `P` holds along a run exactly when all its steps are allowed. -/
theorem always_iff_eachStep {Inv : σ → Prop} (hP : ∀ s, Inv s → P s)
    (hkeep : ∀ s e t, Inv s → ok s e → step s e = some t → Inv t)
    (hbreak : ∀ s e t, Inv s → step s e = some t → P t → ok s e)
    {s : σ} {es : List ε} (hs : Inv s) (hrun : (exec step s es).isSome) :
    Always step P s es ↔ EachStep step ok s es := by
  induction es generalizing s with
  | nil => exact ⟨fun _ => trivial, fun _ => hP s hs⟩
  | cons e es ih =>
    obtain ⟨t, ht, hrest⟩ := exists_step_of_exec hrun
    constructor
    · rintro ⟨_, hall⟩
      have hok : ok s e := hbreak s e t hs ht (hall t ht).head
      refine ⟨hok, fun u hu => ?_⟩
      obtain rfl : t = u := Option.some.inj (ht.symm.trans hu)
      exact (ih (hkeep s e t hs hok ht) hrest).mp (hall t ht)
    · rintro ⟨hok, hall⟩
      refine ⟨hP s hs, fun u hu => ?_⟩
      obtain rfl : t = u := Option.some.inj (ht.symm.trans hu)
      exact (ih (hkeep s e t hs hok ht) hrest).mpr (hall t ht)

/-! ## Runs that come to an end -/

/-- **Termination.** If every state of an invariant that is not final has a step that keeps the
invariant, and a measure decreases with it unless the new state is final, then some run ends in a
final state. -/
theorem exists_exec_of_measure {Inv Final : σ → Prop} (μ : σ → Nat)
    (hstep : ∀ s, Inv s → ¬Final s → ∃ e t, step s e = some t ∧ Inv t ∧ (Final t ∨ μ t < μ s))
    {s : σ} (hs : Inv s) : ∃ es t, exec step s es = some t ∧ Inv t ∧ Final t := by
  induction hn : μ s using Nat.strongRecOn generalizing s with
  | ind n ih =>
    by_cases hfinal : Final s
    · exact ⟨[], s, rfl, hs, hfinal⟩
    · obtain ⟨e, t, ht, hinv, hnext⟩ := hstep s hs hfinal
      rcases hnext with hend | hlt
      · exact ⟨[e], t, by simp [ht], hinv, hend⟩
      · obtain ⟨es, u, hrun, hu⟩ := ih (μ t) (hn ▸ hlt) hinv rfl
        exact ⟨e :: es, u, by simp [ht, hrun], hu⟩

end EmWinDemo.Lib.Runs
