/-
# EmWinDemo.Kernel.Served -- no wakeup on a queue is lost

The invariant behind `always_served`.  A task `seeks` items, or room, when its next critical section
is the one at the beginning of its loop; it is `Due` when it is on no waiting list.  Outside of the
locked phases every success wakes a waiting task of the other side, and so the library's `Covered`
holds with nothing owed.  While the queue is locked interrupts leave their wakeups in the counters,
and `prvUnlockQueue` pays them.

The one task that needs care is the one about to block.  It found no unit after it had locked the
queue, and each unit since then is counted.
-/
import EmWinDemo.Kernel.Blocking

namespace EmWinDemo.Kernel

open Lib.CMemory (Bytes)
open Lib.Runs
open Lib.Wakeups

/-! ## Phases -/

/-- The task is going to look for an item (`true`) or for room (`false`). -/
def Pc.seeks (b : Bool) : Pc → Bool
  | .loop c _ | .unlockTx c .again | .unlockRx c .again | .resume c .again => c.receives == b
  | _ => false

/-- The task has suspended the scheduler. -/
def Pc.held : Pc → Bool
  | .suspended _ | .locked _ | .unexpired _ | .blocking _ | .unlockTx _ _ | .unlockRx _ _
  | .resume _ _ => true
  | _ => false

/-- The task has a lock counter in use. -/
def Pc.locks (b : Bool) : Pc → Bool
  | .locked _ | .unexpired _ | .blocking _ | .unlockTx _ _ => true
  | .unlockRx _ _ => !b
  | _ => false

theorem Pc.held_of_locks {pc : Pc} {b : Bool} (h : pc.locks b = true) : pc.held = true := by
  cases pc <;> first | rfl | cases h

variable {Task : Type}

def State.waiting (s : State Task) : Bool → List Task
  | true => s.xTasksWaitingToReceive
  | false => s.xTasksWaitingToSend

def State.setWaiting (s : State Task) : Bool → List Task → State Task
  | true, tasks => { s with xTasksWaitingToReceive := tasks }
  | false, tasks => { s with xTasksWaitingToSend := tasks }

def Queue.setLock (q : Queue) : Bool → Int → Queue
  | true, lock => { q with cTxLock := lock }
  | false, lock => { q with cRxLock := lock }

def Due (s : State Task) (b : Bool) (t : Task) : Prop :=
  (s.pc t).seeks b = true ∧ t ∉ s.waiting b

/-! ## The invariant -/

/-- The waiting lists, the scheduler and the locks fit the phases of the tasks. -/
structure Frame (s : State Task) : Prop where
  nodup : ∀ b, (s.waiting b).Nodup
  seeks : ∀ b, ∀ t ∈ s.waiting b, (s.pc t).seeks b = true
  held : ∀ t, (s.pc t).held = true ↔ s.uxSchedulerSuspended = some t
  locked : ∀ b t, (s.pc t).locks b = true → 0 ≤ s.queue.lock b
  unlocked : ∀ b, (∀ t, (s.pc t).locks b = false) → s.queue.lock b = queueUNLOCKED
  blocking : ∀ t c, s.pc t = .blocking c → (s.queue.units c.receives : Int) ≤ s.queue.lock c.receives

/-- No unit is overlooked on either side. -/
def Covers (s : State Task) (b : Bool) : Prop :=
  Covered (s.waiting b) (Due s b) (s.queue.units b) (s.queue.lock b).toNat

structure Inv (s : State Task) : Prop where
  frame : Frame s
  covers : ∀ b, Covers s b

variable {s s' : State Task} {t : Task} {b : Bool} {pc : Pc}

@[simp] theorem waiting_setWaiting (tasks : List Task) :
    (s.setWaiting b tasks).waiting b = tasks := by
  cases b <;> rfl

@[simp] theorem waiting_setWaiting_not (tasks : List Task) :
    (s.setWaiting b tasks).waiting (!b) = s.waiting (!b) := by
  cases b <;> rfl

@[simp] theorem pc_setWaiting (tasks : List Task) : (s.setWaiting b tasks).pc = s.pc := by
  cases b <;> rfl

@[simp] theorem queue_setWaiting (tasks : List Task) : (s.setWaiting b tasks).queue = s.queue := by
  cases b <;> rfl

@[simp] theorem scheduler_setWaiting (tasks : List Task) :
    (s.setWaiting b tasks).uxSchedulerSuspended = s.uxSchedulerSuspended := by
  cases b <;> rfl

@[simp] theorem lock_setLock (q : Queue) (lock : Int) : (q.setLock b lock).lock b = lock := by
  cases b <;> rfl

@[simp] theorem lock_setLock_not (q : Queue) (lock : Int) :
    (q.setLock b lock).lock (!b) = q.lock (!b) := by
  cases b <;> rfl

@[simp] theorem units_setLock (q : Queue) (lock : Int) : (q.setLock b lock).units = q.units := by
  cases b <;> rfl

/-- One of the two sides, or the other one. -/
theorem forall_side {P : Bool → Prop} (b : Bool) (hb : P b) (hnot : P (!b)) : ∀ x, P x := by
  intro x
  cases b <;> cases x <;> assumption

theorem Frame.not_held (h : Frame s) (hs : s.uxSchedulerSuspended = none) (t : Task) :
    (s.pc t).held = false := by
  by_contra hheld
  have := (h.held t).mp (by simpa using hheld)
  rw [hs] at this
  cases this

theorem Frame.not_locks (h : Frame s) (hs : s.uxSchedulerSuspended = none) (b : Bool) (t : Task) :
    (s.pc t).locks b = false := by
  by_contra hlocks
  have hheld := Pc.held_of_locks (by simpa using hlocks : (s.pc t).locks b = true)
  rw [h.not_held hs t] at hheld
  cases hheld

/-- Only the task that has suspended the scheduler uses the counters. -/
theorem Frame.not_locks_of_ne (h : Frame s) (ht : (s.pc t).held = true) {u : Task} (hu : u ≠ t)
    (b : Bool) : (s.pc u).locks b = false := by
  by_contra hlocks
  have hheld := Pc.held_of_locks (by simpa using hlocks : (s.pc u).locks b = true)
  have heq := ((h.held t).mp ht).symm.trans ((h.held u).mp hheld)
  exact hu (Option.some.inj heq).symm

theorem Due.mono (hpc : ∀ u, (s.pc u).seeks b = true → (s'.pc u).seeks b = true)
    (hwait : ∀ u ∈ s'.waiting b, u ∈ s.waiting b) {u : Task} (h : Due s b u) : Due s' b u :=
  ⟨hpc u h.1, fun hu => h.2 (hwait u hu)⟩

theorem unlockLoop_eq (lock : Nat) (tasks : List Task) : unlockLoop lock tasks = tasks.drop lock := by
  induction lock generalizing tasks with
  | zero => rfl
  | succ lock ih =>
    cases tasks with
    | nil => rfl
    | cons t tasks => exact ih tasks

theorem mem_removeFromEventList {tasks : List Task} {u : Task}
    (h : u ∈ removeFromEventList tasks) : u ∈ tasks := by
  cases tasks with
  | nil => exact h
  | cons t tasks => exact List.mem_cons_of_mem t h

/-- The state after an operation that wakes a task on one side. -/
def State.operated (s : State Task) (w : Bool) (q : Queue) (history : List (Op × Reply)) :
    State Task :=
  { s.setWaiting w (removeFromEventList (s.waiting w)) with queue := q, history }

theorem operated_waiting (w : Bool) (q : Queue) (history : List (Op × Reply)) :
    (s.operated w q history).waiting w = removeFromEventList (s.waiting w) :=
  waiting_setWaiting _

theorem operated_waiting_not (w : Bool) (q : Queue) (history : List (Op × Reply)) :
    (s.operated w q history).waiting (!w) = s.waiting (!w) :=
  waiting_setWaiting_not _

theorem operated_pc (w : Bool) (q : Queue) (history : List (Op × Reply)) :
    (s.operated w q history).pc = s.pc :=
  pc_setWaiting _

variable [DecidableEq Task]

/-! ## A step of one task that touches nothing else -/

theorem forall_setPc (P : Task → Pc → Prop) :
    (∀ u, P u ((s.setPc t pc).pc u)) ↔ P t pc ∧ ∀ u, u ≠ t → P u (s.pc u) :=
  Function.forall_update_iff s.pc fun u p => P u p

theorem setPc_of_ne {u : Task} (hu : u ≠ t) : (s.setPc t pc).pc u = s.pc u :=
  Function.update_of_ne hu _ _

theorem Frame.setPc (h : Frame s) (hheld : pc.held = (s.pc t).held)
    (hlocks : ∀ b, pc.locks b = (s.pc t).locks b)
    (hseeks : ∀ b, t ∈ s.waiting b → pc.seeks b = true)
    (hblock : ∀ c, pc = .blocking c → (s.queue.units c.receives : Int) ≤ s.queue.lock c.receives) :
    Frame (s.setPc t pc) where
  nodup := h.nodup
  seeks b := by
    refine (forall_setPc fun u p => u ∈ s.waiting b → p.seeks b = true).mpr ?_
    exact ⟨hseeks b, fun u _ hu => h.seeks b u hu⟩
  held := by
    refine (forall_setPc fun u p => p.held = true ↔ s.uxSchedulerSuspended = some u).mpr ?_
    refine ⟨?_, fun u _ => h.held u⟩
    rw [hheld]
    exact h.held t
  locked b := by
    refine (forall_setPc fun _ p => p.locks b = true → 0 ≤ s.queue.lock b).mpr ?_
    refine ⟨?_, fun u _ => h.locked b u⟩
    rw [hlocks]
    exact h.locked b t
  unlocked b hall := by
    obtain ⟨hnew, hold⟩ := (forall_setPc fun _ p => p.locks b = false).mp hall
    refine h.unlocked b fun u => ?_
    by_cases hu : u = t
    · rw [hu, ← hlocks]
      exact hnew
    · exact hold u hu
  blocking := by
    refine (forall_setPc fun _ p => ∀ c, p = .blocking c →
      (s.queue.units c.receives : Int) ≤ s.queue.lock c.receives).mpr ?_
    exact ⟨hblock, fun u _ => h.blocking u⟩

theorem Due.setPc {u : Task} (hseeks : (s.pc t).seeks b = true → pc.seeks b = true)
    (h : Due s b u) : Due (s.setPc t pc) b u := by
  have hwait : ∀ v ∈ (s.setPc t pc).waiting b, v ∈ s.waiting b := fun _ hv => hv
  have hpcs := (forall_setPc fun v p => (s.pc v).seeks b = true → p.seeks b = true).mpr
    ⟨hseeks, fun _ _ hv => hv⟩
  exact h.mono hpcs hwait

theorem Inv.setPc (h : Inv s) (hheld : pc.held = (s.pc t).held)
    (hlocks : ∀ b, pc.locks b = (s.pc t).locks b)
    (hseeks : ∀ b, (s.pc t).seeks b = true →
      pc.seeks b = true ∨ s.queue.units b = 0 ∧ t ∉ s.waiting b)
    (hblock : ∀ c, pc = .blocking c → (s.queue.units c.receives : Int) ≤ s.queue.lock c.receives) :
    Inv (s.setPc t pc) := by
  refine ⟨h.frame.setPc hheld hlocks ?_ hblock, fun b => ?_⟩
  · intro b ht
    rcases hseeks b (h.frame.seeks b t ht) with hpc | ⟨-, hnot⟩
    · exact hpc
    · exact absurd ht hnot
  · by_cases hlost : s.queue.units b = 0
    · refine covered_of_le ?_
      show s.queue.units b ≤ _
      omega
    · refine (h.covers b).mono id (fun u hu => hu.setPc fun hold => ?_) (le_refl _)
      rcases hseeks b hold with hpc | ⟨hzero, -⟩
      · exact hpc
      · exact absurd hzero hlost

/-! ## Suspending and locking -/

/-- The scheduler is suspended, or resumed, with no counter in use. -/
theorem Inv.schedule (h : Inv s) (o : Option Task) (hheld : pc.held = true ↔ o = some t)
    (hother : ∀ u, u ≠ t → ((s.pc u).held = true ↔ o = some u))
    (hold : ∀ b, (s.pc t).locks b = false) (hnew : ∀ b, pc.locks b = false)
    (hseeks : ∀ b, (s.pc t).seeks b = true → pc.seeks b = true) :
    Inv { s.setPc t pc with uxSchedulerSuspended := o } := by
  constructor
  · constructor
    · exact h.frame.nodup
    · intro b
      refine (forall_setPc fun u p => u ∈ s.waiting b → p.seeks b = true).mpr ?_
      exact ⟨fun ht => hseeks b (h.frame.seeks b t ht), fun u _ => h.frame.seeks b u⟩
    · exact (forall_setPc fun u p => p.held = true ↔ o = some u).mpr ⟨hheld, hother⟩
    · intro b
      refine (forall_setPc fun _ p => p.locks b = true → 0 ≤ s.queue.lock b).mpr ?_
      refine ⟨fun hlocks => ?_, fun u _ => h.frame.locked b u⟩
      rw [hnew] at hlocks
      cases hlocks
    · intro b hall
      obtain ⟨-, hothers⟩ := (forall_setPc fun _ p => p.locks b = false).mp hall
      refine h.frame.unlocked b fun u => ?_
      by_cases hu : u = t
      · rw [hu, hold]
      · exact hothers u hu
    · refine (forall_setPc fun _ p => ∀ c, p = .blocking c →
        (s.queue.units c.receives : Int) ≤ s.queue.lock c.receives).mpr ?_
      refine ⟨fun c hc => ?_, fun u _ => h.frame.blocking u⟩
      have hlocks := hnew true
      rw [hc] at hlocks
      cases hlocks
  · intro b
    exact (h.covers b).mono id (fun u hu => hu.setPc (hseeks b)) (le_refl _)

/-- `prvLockQueue`, with both counters unused before. -/
theorem Inv.lockQueue (h : Inv s) {c : Call} (ht : s.pc t = .suspended c) :
    Inv { s.setPc t (.locked c) with queue := prvLockQueue s.queue } := by
  have hheld : (s.pc t).held = true := by rw [ht]; rfl
  have hunlocked : ∀ b, s.queue.lock b = queueUNLOCKED := by
    intro b
    refine h.frame.unlocked b fun u => ?_
    by_cases hu : u = t
    · rw [hu, ht]
      rfl
    · exact h.frame.not_locks_of_ne hheld hu b
  have hzero : ∀ b, (prvLockQueue s.queue).lock b = 0 := by
    intro b
    have hb := hunlocked b
    cases b <;> exact if_pos hb
  constructor
  · constructor
    · exact h.frame.nodup
    · intro b
      refine (forall_setPc fun u p => u ∈ s.waiting b → p.seeks b = true).mpr ?_
      refine ⟨fun hmem => ?_, fun u _ => h.frame.seeks b u⟩
      have hseeks := h.frame.seeks b t hmem
      rw [ht] at hseeks
      cases hseeks
    · refine (forall_setPc fun u p => p.held = true ↔ s.uxSchedulerSuspended = some u).mpr ?_
      refine ⟨?_, fun u _ => h.frame.held u⟩
      rw [← h.frame.held t, hheld]
      rfl
    · intro b u _
      exact (hzero b).ge
    · intro b hall
      have hlocks := hall t
      simp only [State.setPc, Function.update_self] at hlocks
      cases b <;> cases hlocks
    · refine (forall_setPc fun _ p => ∀ c, p = .blocking c →
        ((prvLockQueue s.queue).units c.receives : Int) ≤
          (prvLockQueue s.queue).lock c.receives).mpr ?_
      refine ⟨by rintro _ ⟨⟩, fun u hu c hc => ?_⟩
      have hlocks := h.frame.not_locks_of_ne hheld hu true
      rw [hc] at hlocks
      cases hlocks
  · intro b
    refine (h.covers b).mono id (fun u hu => ?_) ?_
    · refine hu.setPc fun hseeks => ?_
      rw [ht] at hseeks
      cases hseeks
    · have hunits : (prvLockQueue s.queue).units b = s.queue.units b := by cases b <;> rfl
      show (prvLockQueue s.queue).units b + _ ≤ _ + ((prvLockQueue s.queue).lock b).toNat
      rw [hunits, hunlocked b]
      simp [queueUNLOCKED]

/-! ## Waiting and unlocking -/

theorem mem_placeOnEventList {priority : Task → Nat} {tasks : List Task} {u : Task} :
    u ∈ placeOnEventList priority t tasks ↔ u = t ∨ u ∈ tasks := by
  induction tasks with
  | nil => simp [placeOnEventList]
  | cons v tasks ih =>
    rw [placeOnEventList]
    split
    · simp
    · simp only [List.mem_cons, ih]
      tauto

theorem nodup_placeOnEventList {priority : Task → Nat} {tasks : List Task} (h : tasks.Nodup)
    (ht : t ∉ tasks) : (placeOnEventList priority t tasks).Nodup := by
  induction tasks with
  | nil => exact List.nodup_singleton t
  | cons v tasks ih =>
    rw [List.nodup_cons] at h
    rw [List.mem_cons, not_or] at ht
    rw [placeOnEventList]
    split
    · refine List.nodup_cons.mpr ⟨?_, List.nodup_cons.mpr h⟩
      rw [List.mem_cons, not_or]
      exact ht
    · refine List.nodup_cons.mpr ⟨fun hmem => ?_, ih h.2 ht.2⟩
      rcases mem_placeOnEventList.mp hmem with rfl | hmem
      · exact ht.1 rfl
      · exact h.1 hmem

/-- `vTaskPlaceOnEventList`: what is there by now has been counted. -/
theorem Inv.place (h : Inv s) {c : Call} (ht : s.pc t = .blocking c) (priority : Task → Nat) :
    Inv ((s.setPc t (.unlockTx c .again)).setWaiting c.receives
      (placeOnEventList priority t (s.waiting c.receives))) := by
  have hnot : ∀ b, t ∉ s.waiting b := by
    intro b hmem
    have hseeks := h.frame.seeks b t hmem
    rw [ht] at hseeks
    cases hseeks
  have hmoved : Frame (s.setPc t (.unlockTx c .again)) :=
    h.frame.setPc (by rw [ht]; rfl) (fun b => by rw [ht]; rfl) (fun b hmem => absurd hmem (hnot b))
      (by rintro _ ⟨⟩)
  refine ⟨⟨?_, ?_, ?_, ?_, ?_, ?_⟩, forall_side c.receives ?_ ?_⟩
  · refine forall_side c.receives ?_ ?_
    · rw [waiting_setWaiting]
      exact nodup_placeOnEventList (h.frame.nodup _) (hnot _)
    · rw [waiting_setWaiting_not]
      exact hmoved.nodup _
  · refine forall_side c.receives ?_ ?_
    · rw [waiting_setWaiting, pc_setWaiting]
      intro u hu
      rcases mem_placeOnEventList.mp hu with rfl | hu
      · simp [State.setPc, Pc.seeks]
      · exact hmoved.seeks _ u hu
    · rw [waiting_setWaiting_not, pc_setWaiting]
      exact hmoved.seeks _
  · rw [pc_setWaiting, scheduler_setWaiting]
    exact hmoved.held
  · rw [pc_setWaiting, queue_setWaiting]
    exact hmoved.locked
  · rw [pc_setWaiting, queue_setWaiting]
    exact hmoved.unlocked
  · rw [pc_setWaiting, queue_setWaiting]
    exact hmoved.blocking
  · refine covered_of_le ?_
    have hcounted := h.frame.blocking t c ht
    rw [queue_setWaiting]
    show s.queue.units c.receives ≤ (s.queue.lock c.receives).toNat
    omega
  · unfold Covers
    rw [waiting_setWaiting_not, queue_setWaiting]
    refine (h.covers _).mono id (fun u hu => ?_) (le_refl _)
    have hdue : Due (s.setPc t (.unlockTx c .again)) (!c.receives) u := by
      refine hu.setPc fun hseeks => ?_
      rw [ht] at hseeks
      cases hseeks
    rw [Due, pc_setWaiting, waiting_setWaiting_not]
    exact hdue

/-- One half of `prvUnlockQueue` pays the wakeups of one side. -/
theorem Inv.unlock (h : Inv s) (b : Bool) (hheld : (s.pc t).held = true) (hpc : pc.held = true)
    (hlock : pc.locks b = false) (hother : pc.locks (!b) = (s.pc t).locks (!b))
    (hseeks : ∀ b, pc.seeks b = (s.pc t).seeks b) :
    Inv { (s.setPc t pc).setWaiting b ((s.waiting b).drop (s.queue.lock b).toNat) with
      queue := s.queue.setLock b queueUNLOCKED } := by
  have hpcs : ∀ b' u, ((s.setPc t pc).pc u).seeks b' = (s.pc u).seeks b' := by
    intro b'
    exact (forall_setPc fun u p => p.seeks b' = (s.pc u).seeks b').mpr ⟨hseeks b', fun _ _ => rfl⟩
  have hlocks : ∀ u, ((s.setPc t pc).pc u).locks b = false :=
    (forall_setPc fun _ p => p.locks b = false).mpr
      ⟨hlock, fun u hu => h.frame.not_locks_of_ne hheld hu b⟩
  have hlocksOther : ∀ u, ((s.setPc t pc).pc u).locks (!b) = (s.pc u).locks (!b) :=
    (forall_setPc fun u p => p.locks (!b) = (s.pc u).locks (!b)).mpr ⟨hother, fun _ _ => rfl⟩
  have hdrop : ∀ u ∈ (s.waiting b).drop (s.queue.lock b).toNat, u ∈ s.waiting b :=
    fun _ => List.mem_of_mem_drop
  refine ⟨⟨?_, ?_, ?_, ?_, ?_, ?_⟩, forall_side b ?_ ?_⟩
  · refine forall_side b ?_ ?_
    · show ((s.setPc t pc).setWaiting b _ |>.waiting b).Nodup
      rw [waiting_setWaiting]
      exact (h.frame.nodup b).sublist (List.drop_sublist _ _)
    · show ((s.setPc t pc).setWaiting b _ |>.waiting !b).Nodup
      rw [waiting_setWaiting_not]
      exact h.frame.nodup _
  · refine forall_side b ?_ ?_
    · show ∀ u ∈ (s.setPc t pc).setWaiting b _ |>.waiting b, (_ : Pc).seeks b = true
      rw [waiting_setWaiting, pc_setWaiting]
      intro u hu
      rw [hpcs]
      exact h.frame.seeks b u (hdrop u hu)
    · show ∀ u ∈ (s.setPc t pc).setWaiting b _ |>.waiting !b, (_ : Pc).seeks (!b) = true
      rw [waiting_setWaiting_not, pc_setWaiting]
      intro u hu
      rw [hpcs]
      exact h.frame.seeks _ u hu
  · show ∀ u, ((s.setPc t pc).setWaiting b _ |>.pc u).held = true ↔ _ = some u
    rw [pc_setWaiting, scheduler_setWaiting]
    refine (forall_setPc fun u p => p.held = true ↔ s.uxSchedulerSuspended = some u).mpr ?_
    exact ⟨by rw [hpc, ← h.frame.held t, hheld], fun u _ => h.frame.held u⟩
  · show ∀ b' u, ((s.setPc t pc).setWaiting b _ |>.pc u).locks b' = true →
      0 ≤ (s.queue.setLock b queueUNLOCKED).lock b'
    rw [pc_setWaiting]
    refine forall_side b (fun u hu => ?_) (fun u hu => ?_)
    · rw [hlocks] at hu
      cases hu
    · rw [hlocksOther] at hu
      rw [lock_setLock_not]
      exact h.frame.locked _ u hu
  · show ∀ b', (∀ u, ((s.setPc t pc).setWaiting b _ |>.pc u).locks b' = false) →
      (s.queue.setLock b queueUNLOCKED).lock b' = queueUNLOCKED
    rw [pc_setWaiting]
    refine forall_side b (fun _ => lock_setLock _ _) (fun hall => ?_)
    rw [lock_setLock_not]
    exact h.frame.unlocked _ fun u => (hlocksOther u).symm.trans (hall u)
  · intro u c hu
    have hu : (s.setPc t pc).pc u = .blocking c := by simpa using hu
    have hnever := hlocks u
    rw [hu] at hnever
    cases hnever
  · show Covered ((s.setPc t pc).setWaiting b _ |>.waiting b) _
      ((s.queue.setLock b queueUNLOCKED).units b) ((s.queue.setLock b queueUNLOCKED).lock b).toNat
    rw [waiting_setWaiting, units_setLock, lock_setLock]
    have hsplit := h.frame.nodup b
    rw [← List.take_append_drop (s.queue.lock b).toNat (s.waiting b), List.nodup_append] at hsplit
    refine (h.covers b).pay (h.frame.nodup b) (fun u hu => ?_) (fun u hu hdue => hdue.2 hu)
      (fun u hu => ?_)
    · refine ⟨?_, ?_⟩
      · show (((s.setPc t pc).setWaiting b _).pc u).seeks b = true
        rw [pc_setWaiting, hpcs]
        exact hu.1
      · show u ∉ ((s.setPc t pc).setWaiting b _).waiting b
        rw [waiting_setWaiting]
        exact fun hmem => hu.2 (hdrop u hmem)
    · refine ⟨?_, ?_⟩
      · show (((s.setPc t pc).setWaiting b _).pc u).seeks b = true
        rw [pc_setWaiting, hpcs]
        exact h.frame.seeks b u (List.mem_of_mem_take hu)
      · show u ∉ ((s.setPc t pc).setWaiting b _).waiting b
        rw [waiting_setWaiting]
        exact fun hmem => hsplit.2.2 u hu u hmem rfl
  · show Covered ((s.setPc t pc).setWaiting b _ |>.waiting !b) _
      ((s.queue.setLock b queueUNLOCKED).units !b)
      ((s.queue.setLock b queueUNLOCKED).lock !b).toNat
    rw [waiting_setWaiting_not, units_setLock, lock_setLock_not]
    refine (h.covers _).mono id (fun u hu => ⟨?_, ?_⟩) (le_refl _)
    · show (((s.setPc t pc).setWaiting b _).pc u).seeks (!b) = true
      rw [pc_setWaiting, hpcs]
      exact hu.1
    · show u ∉ ((s.setPc t pc).setWaiting b _).waiting (!b)
      rw [waiting_setWaiting_not]
      exact hu.2

/-! ## Operations -/

/-- On the side that is woken there may be one unit more than the due tasks account for. -/
theorem Frame.operated (h : Frame s) (w : Bool) {q : Queue} {history : List (Op × Reply)}
    {units units' : Nat} (hlock : q.lock = s.queue.lock)
    (hblock : ∀ t c, s.pc t ≠ .blocking c)
    (hwoken : Covered (s.waiting w) (Due s w) units (s.queue.lock w).toNat)
    (hother : Covered (s.waiting !w) (Due s !w) units' (s.queue.lock !w).toNat)
    (hunits : q.units w ≤ units + 1) (hunits' : q.units (!w) ≤ units') :
    Inv (s.operated w q history) := by
  have hpc := @operated_pc Task s w q history
  have hheld : (s.operated w q history).uxSchedulerSuspended = s.uxSchedulerSuspended :=
    scheduler_setWaiting _
  refine ⟨⟨?_, ?_, ?_, ?_, ?_, ?_⟩, forall_side w ?_ ?_⟩
  · refine forall_side w ?_ ?_
    · rw [operated_waiting]
      cases hlist : s.waiting w with
      | nil => exact List.nodup_nil
      | cons u tasks => exact (List.nodup_cons.mp (hlist ▸ h.nodup w)).2
    · rw [operated_waiting_not]
      exact h.nodup _
  · refine forall_side w ?_ ?_
    · rw [operated_waiting, hpc]
      exact fun u hu => h.seeks w u (mem_removeFromEventList hu)
    · rw [operated_waiting_not, hpc]
      exact h.seeks _
  · rw [hpc, hheld]
    exact h.held
  · rw [hpc]
    intro b u hu
    show 0 ≤ q.lock b
    rw [hlock]
    exact h.locked b u hu
  · rw [hpc]
    intro b hall
    show q.lock b = _
    rw [hlock]
    exact h.unlocked b hall
  · rw [hpc]
    exact fun u c hu => absurd hu (hblock u c)
  · unfold Covers
    rw [operated_waiting]
    show Covered _ _ (q.units w) (q.lock w).toNat
    rw [hlock]
    cases hlist : s.waiting w with
    | nil => exact covered_nil
    | cons u tasks =>
      have hu : u ∈ s.waiting w := hlist ▸ List.mem_cons_self
      have htasks : (s.operated w q history).waiting w = tasks := by
        rw [operated_waiting, hlist]
        rfl
      rw [hlist] at hwoken
      have hwake : Covered tasks (Due (s.operated w q history) w) (units + 1)
          (s.queue.lock w).toNat := by
        refine hwoken.wake (fun _ => List.cons_ne_nil u tasks) (fun v hv => ⟨?_, ?_⟩)
          (fun hdue => hdue.2 hu) ⟨?_, ?_⟩
        · rw [hpc]
          exact hv.1
        · rw [htasks]
          exact fun hmem => hv.2 (hlist ▸ List.mem_cons_of_mem u hmem)
        · rw [hpc]
          exact h.seeks w u hu
        · rw [htasks]
          exact (List.nodup_cons.mp (hlist ▸ h.nodup w)).1
      exact hwake.mono id (fun _ => id) (by omega)
  · unfold Covers
    rw [operated_waiting_not]
    show Covered _ _ (q.units !w) (q.lock !w).toNat
    rw [hlock]
    refine hother.mono id (fun v hv => ⟨?_, ?_⟩) (by omega)
    · rw [hpc]
      exact hv.1
    · rw [operated_waiting_not]
      exact hv.2

/-- A task succeeds at the beginning of its loop. -/
theorem Inv.succeed (h : Inv s) {c : Call} {blocks : Bool} (hs : s.uxSchedulerSuspended = none)
    (hpc : s.pc t = .loop c blocks) (ht : ∀ b, t ∉ s.waiting b) {q : Queue} {reply : Reply}
    (hlock : q.lock = s.queue.lock) (houtcome : Outcome s.queue c q reply) (hreply : ¬reply.Fails) :
    Inv (((s.record c.op (q, reply)).unblock c).setPc t .outside) := by
  have hframe : Frame (s.setPc t .outside) :=
    h.frame.setPc (by rw [hpc]; rfl) (fun b => by rw [hpc]; rfl) (fun b hmem => absurd hmem (ht b))
      (by rintro _ ⟨⟩)
  have hblock : ∀ u c, (s.setPc t .outside).pc u ≠ .blocking c := by
    refine (forall_setPc fun _ p => ∀ c, p ≠ .blocking c).mpr ⟨by rintro _ ⟨⟩, fun u _ c hu => ?_⟩
    have hheld := h.frame.not_held hs u
    rw [hu] at hheld
    cases hheld
  -- the side on which the task itself was due, and the other one
  have htake : Covered (s.waiting c.receives) (Due (s.setPc t .outside) c.receives)
      (s.queue.units c.receives - 1) (s.queue.lock c.receives).toNat := by
    refine Covered.take (t := t) (h.covers _) id fun u hu hdue => ⟨?_, hdue.2⟩
    rw [setPc_of_ne hu]
    exact hdue.1
  have hkeep : Covered (s.waiting !c.receives) (Due (s.setPc t .outside) !c.receives)
      (s.queue.units !c.receives) (s.queue.lock !c.receives).toNat := by
    refine (h.covers _).mono id (fun u hu => hu.setPc fun hseeks => ?_) (le_refl _)
    rw [hpc] at hseeks
    simp [Pc.seeks] at hseeks
  cases houtcome with
  | failed hfails => exact absurd hfails hreply
  | sent htrue hfalse => exact hframe.operated true hlock hblock hkeep htake htrue hfalse
  | received htrue hfalse => exact hframe.operated false hlock hblock hkeep htake hfalse htrue
  | peeked hunits =>
    refine hframe.operated true hlock hblock htake hkeep ?_ ?_
    · show q.units true ≤ s.queue.units true - 1 + 1
      rw [hunits]
      omega
    · show q.units false ≤ s.queue.units false
      rw [hunits]

omit [DecidableEq Task] in
/-- The queue has changed, but no unit and no counter. -/
theorem Inv.same (h : Inv s) {q : Queue} {history : List (Op × Reply)}
    (hlock : q.lock = s.queue.lock) (hunits : q.units = s.queue.units) :
    Inv { s with queue := q, history } := by
  refine ⟨⟨h.frame.nodup, h.frame.seeks, h.frame.held, ?_, ?_, ?_⟩, fun b => ?_⟩
  · show ∀ b t, _ → 0 ≤ q.lock b
    rw [hlock]
    exact h.frame.locked
  · show ∀ b, _ → q.lock b = _
    rw [hlock]
    exact h.frame.unlocked
  · show ∀ t c, s.pc t = .blocking c → (q.units c.receives : Int) ≤ q.lock c.receives
    rw [hlock, hunits]
    exact h.frame.blocking
  · show Covered (s.waiting b) (Due s b) (q.units b) (q.lock b).toNat
    rw [hlock, hunits]
    exact h.covers b

omit [DecidableEq Task] in
/-- An interrupt makes a unit while the queue is locked. -/
theorem Inv.count (h : Inv s) (w : Bool) {q : Queue} {history : List (Op × Reply)}
    (hlock : q.lock = s.queue.lock) (hlocked : s.queue.lock w ≠ queueUNLOCKED)
    (hroom : s.queue.lock w < 127) (hunits : q.units w ≤ s.queue.units w + 1)
    (hunits' : q.units (!w) ≤ s.queue.units (!w)) :
    Inv { s with queue := q.setLock w (int8 (s.queue.lock w + 1)), history } := by
  obtain ⟨t, ht⟩ : ∃ t, (s.pc t).locks w = true := by
    by_contra hnone
    simp only [not_exists, Bool.not_eq_true] at hnone
    exact hlocked (h.frame.unlocked w hnone)
  have hpos := h.frame.locked w t ht
  have hint : int8 (s.queue.lock w + 1) = s.queue.lock w + 1 := by
    unfold int8
    rw [Int.bmod_eq_of_le] <;> omega
  rw [hint]
  refine ⟨⟨h.frame.nodup, h.frame.seeks, h.frame.held, ?_, ?_, ?_⟩, forall_side w ?_ ?_⟩
  · refine forall_side w (fun u _ => ?_) (fun u hu => ?_)
    · rw [lock_setLock]
      omega
    · rw [lock_setLock_not, hlock]
      exact h.frame.locked _ u hu
  · refine forall_side w (fun hall => ?_) (fun hall => ?_)
    · rw [show (s.pc t).locks w = false from hall t] at ht
      cases ht
    · rw [lock_setLock_not, hlock]
      exact h.frame.unlocked _ hall
  · intro u c hu
    have hcounted := h.frame.blocking u c hu
    revert hcounted
    refine forall_side (P := fun b => (s.queue.units b : Int) ≤ s.queue.lock b →
      ((q.setLock w (s.queue.lock w + 1)).units b : Int) ≤
        (q.setLock w (s.queue.lock w + 1)).lock b) w (fun hle => ?_) (fun hle => ?_) c.receives
    · rw [units_setLock, lock_setLock]
      omega
    · rw [units_setLock, lock_setLock_not, hlock]
      omega
  · show Covered (s.waiting w) (Due s w) _ _
    rw [units_setLock, lock_setLock]
    refine (h.covers w).mono id (fun _ => id) ?_
    omega
  · show Covered (s.waiting !w) (Due s !w) _ _
    rw [units_setLock, lock_setLock_not, hlock]
    refine (h.covers !w).mono id (fun _ => id) ?_
    omega

/-- An interrupt makes a unit while the queue is not locked. -/
theorem Inv.deliver (h : Inv s) (w : Bool) {q : Queue} {history : List (Op × Reply)}
    (hlock : q.lock = s.queue.lock) (hunlocked : s.queue.lock w = queueUNLOCKED)
    (hunits : q.units w ≤ s.queue.units w + 1) (hunits' : q.units (!w) ≤ s.queue.units (!w)) :
    Inv (s.operated w q history) := by
  refine h.frame.operated w hlock (fun t c ht => ?_) (h.covers w) (h.covers !w) hunits hunits'
  have hpos := h.frame.locked w t (by rw [ht]; rfl)
  rw [hunlocked] at hpos
  exact absurd hpos (by decide)

/-- The delay of a task is over. -/
theorem Inv.delayOver (h : Inv s) (t : Task) :
    Inv { s with
      xTasksWaitingToSend := s.xTasksWaitingToSend.erase t
      xTasksWaitingToReceive := s.xTasksWaitingToReceive.erase t } := by
  have hwaiting : ∀ b, State.waiting { s with
      xTasksWaitingToSend := s.xTasksWaitingToSend.erase t
      xTasksWaitingToReceive := s.xTasksWaitingToReceive.erase t } b = (s.waiting b).erase t := by
    intro b
    cases b <;> rfl
  refine ⟨⟨?_, ?_, h.frame.held, h.frame.locked, h.frame.unlocked, h.frame.blocking⟩, fun b => ?_⟩
  · intro b
    rw [hwaiting]
    exact (h.frame.nodup b).erase t
  · intro b u hu
    rw [hwaiting] at hu
    exact h.frame.seeks b u (List.mem_of_mem_erase hu)
  · unfold Covers
    rw [hwaiting]
    refine (h.covers b).mono (fun hne hnil => hne ?_) (fun u hu => ⟨hu.1, ?_⟩) (le_refl _)
    · rw [hnil]
      rfl
    · rw [hwaiting]
      exact fun hmem => hu.2 (List.mem_of_mem_erase hmem)

/-! ## Steps -/

omit [DecidableEq Task] in
/-- A failed operation changes nothing but the history. -/
theorem Inv.failed (h : Inv s) {op : Op} {x : Queue × Reply} (hx : x.1 = s.queue) :
    Inv (s.record op x) :=
  h.same (by rw [hx]) (by rw [hx])

theorem Outcome.of_fails {q q' : Queue} {c : Call} {reply : Reply} (h : Outcome q c q' reply)
    (hreply : reply.Fails) : q' = q ∧ q.units c.receives = 0 := by
  cases h with
  | failed _ hunits => exact ⟨rfl, hunits⟩
  | sent => exact absurd hreply (by decide)
  | received => exact absurd hreply (by simp [Reply.Fails])
  | peeked => exact absurd hreply (by simp [Reply.Fails])

theorem inv_attempt (h : Inv s) {c : Call} {blocks : Bool} (hs : s.uxSchedulerSuspended = none)
    (hpc : s.pc t = .loop c blocks) (ht : ∀ b, t ∉ s.waiting b)
    (hstep : s.attempt t c blocks = some s') : Inv s' := by
  obtain ⟨⟨q, reply⟩, hx, rfl⟩ := Option.map_eq_some_iff.mp hstep
  obtain ⟨hlock, houtcome⟩ := perform_outcome hx
  have hseeks : ∀ b, (s.pc t).seeks b = true → s.queue.units c.receives = 0 →
      s.queue.units b = 0 ∧ t ∉ s.waiting b := by
    intro b hb hunits
    rw [hpc] at hb
    obtain rfl : c.receives = b := by simpa [Pc.seeks] using hb
    exact ⟨hunits, ht _⟩
  dsimp only
  split
  · next hfails =>
    obtain ⟨rfl, hunits⟩ := houtcome.of_fails hfails
    split
    · exact h.setPc (by rw [hpc]; rfl) (fun b => by rw [hpc]; rfl)
        (fun b hb => Or.inr (hseeks b hb hunits)) (by rintro _ ⟨⟩)
    · refine Inv.setPc (h.failed rfl) ?_ (fun b => ?_) (fun b hb => Or.inr (hseeks b hb hunits))
        (by rintro _ ⟨⟩)
      · show _ = (s.pc t).held
        rw [hpc]
        rfl
      · show _ = (s.pc t).locks b
        rw [hpc]
        rfl
  · next hreply => exact h.succeed hs hpc ht hlock houtcome hreply

/-- What the last test before blocking says. -/
theorem units_of_stillBlocked {q : Queue} {c : Call} (h : stillBlocked q c = true) :
    q.units c.receives = 0 := by
  unfold stillBlocked at h
  cases hc : c.receives with
  | true =>
    rw [hc, if_pos rfl] at h
    have hempty : q.uxMessagesWaiting = 0 := by simpa [prvIsQueueEmpty] using h
    exact hempty
  | false =>
    rw [hc, if_neg (by decide)] at h
    have hfull : q.uxMessagesWaiting = q.uxLength := by simpa [prvIsQueueFull] using h
    simp [Queue.units, hfull]

omit [DecidableEq Task] in
/-- A task that runs without having suspended the scheduler is on no waiting list. -/
theorem Frame.running (h : Frame s) (hrun : s.CanRun t) (ht : (s.pc t).held = false) :
    s.uxSchedulerSuspended = none ∧ ∀ b, t ∉ s.waiting b := by
  unfold State.CanRun at hrun
  split at hrun
  · next u hu =>
    subst hrun
    rw [(h.held u).mpr hu] at ht
    cases ht
  · next hnone => exact ⟨hnone, forall_side true hrun.2 hrun.1⟩

/-- `xTaskResumeAll` by the task that has suspended the scheduler. -/
theorem Inv.resumeAll (h : Inv s) {pc : Pc} (hheld : (s.pc t).held = true)
    (hold : ∀ b, (s.pc t).locks b = false) (hpc : pc.held = false) (hnew : ∀ b, pc.locks b = false)
    (hseeks : ∀ b, (s.pc t).seeks b = true → pc.seeks b = true) :
    Inv { s.setPc t pc with uxSchedulerSuspended := none } := by
  refine h.schedule none (by simp [hpc]) (fun u hu => ?_) hold hnew hseeks
  have hother : (s.pc u).held = false := by
    by_contra hu'
    have heq := (h.frame.held u).mp (by simpa using hu')
    rw [(h.frame.held t).mp hheld] at heq
    exact hu (Option.some.inj heq).symm
  simp [hother]

theorem inv_runTask (h : Inv s) {priority : Task → Nat} {timeout : TimeOut} (hrun : s.CanRun t)
    (hstep : s.runTask priority t timeout = some s') : Inv s' := by
  unfold State.runTask at hstep
  split at hstep
  · cases hstep
  · next hpc =>
    obtain ⟨hnone, ht⟩ := h.frame.running hrun (by rw [hpc]; rfl)
    exact inv_attempt h hnone hpc ht hstep
  · next c hpc =>
    obtain ⟨hnone, -⟩ := h.frame.running hrun (by rw [hpc]; rfl)
    cases hstep
    refine h.schedule (some t) (by simp [Pc.held]) (fun u hu => ?_) (fun b => by rw [hpc]; rfl)
      (fun b => rfl) (fun b hseeks => by rw [hpc] at hseeks; cases hseeks)
    rw [h.frame.not_held hnone u]
    simp [hu.symm]
  · next hpc =>
    cases hstep
    exact h.lockQueue hpc
  · next hpc =>
    have hmove : ∀ c next, Inv (s.setPc t (.unlockTx c (.expired next))) := fun c next =>
      h.setPc (by rw [hpc]; rfl) (fun b => by rw [hpc]; rfl)
        (fun b hb => by rw [hpc] at hb; cases hb) (by rintro _ ⟨⟩)
    split at hstep <;> cases hstep
    · exact h.setPc (by rw [hpc]; rfl) (fun b => by rw [hpc]; rfl)
        (fun b hb => by rw [hpc] at hb; cases hb) (by rintro _ ⟨⟩)
    · exact hmove _ _
    · exact hmove _ _
  · next c hpc =>
    split at hstep <;> cases hstep
    · next hblocked =>
      refine h.setPc (by rw [hpc]; rfl) (fun b => by rw [hpc]; rfl)
        (fun b hb => by rw [hpc] at hb; cases hb) (fun c' hc => ?_)
      cases hc
      rw [units_of_stillBlocked hblocked]
      exact h.frame.locked _ t (by rw [hpc]; rfl)
    · exact h.setPc (by rw [hpc]; rfl) (fun b => by rw [hpc]; rfl)
        (fun b hb => by rw [hpc] at hb; cases hb) (by rintro _ ⟨⟩)
  · next c hpc =>
    have hplace := h.place hpc priority
    split at hstep <;> cases hstep
    · next hreceives =>
      rw [hreceives] at hplace
      exact hplace
    · next hsends =>
      rw [Bool.eq_false_iff.mpr hsends] at hplace
      exact hplace
  · next c next hpc =>
    cases hstep
    rw [unlockLoop_eq]
    exact h.unlock (t := t) true (by rw [hpc]; rfl) rfl rfl (by rw [hpc]; rfl)
      (fun b => by rw [hpc]; cases next <;> rfl)
  · next c next hpc =>
    cases hstep
    rw [unlockLoop_eq]
    exact h.unlock (t := t) false (by rw [hpc]; rfl) rfl rfl (by rw [hpc]; rfl)
      (fun b => by rw [hpc]; cases next <;> rfl)
  · next c hpc =>
    cases hstep
    exact h.resumeAll (by rw [hpc]; rfl) (fun b => by rw [hpc]; rfl) rfl (fun _ => rfl)
      (fun b hseeks => by rw [hpc] at hseeks; exact hseeks)
  · next c blocks hpc =>
    split at hstep <;> cases hstep
    · exact h.resumeAll (by rw [hpc]; rfl) (fun b => by rw [hpc]; rfl) rfl (fun _ => rfl)
        (fun b hseeks => by rw [hpc] at hseeks; cases hseeks)
    · -- the answer of the sender changes nothing but the history
      have hrecord : Inv (s.record .sendTimedOut (s.queue, .errQUEUE_FULL)) := h.failed rfl
      have hpc' : (s.record .sendTimedOut (s.queue, .errQUEUE_FULL)).pc t =
        .resume c (.expired blocks) := hpc
      exact hrecord.resumeAll (by rw [hpc']; rfl) (fun b => by rw [hpc']; rfl) rfl (fun _ => rfl)
        (fun b hseeks => by rw [hpc'] at hseeks; cases hseeks)
  · next c blocks hpc =>
    split at hstep <;> cases hstep
    · refine Inv.setPc (h.failed rfl) ?_ (fun b => ?_) (fun b hb => ?_) (by rintro _ ⟨⟩)
      · show _ = (s.pc t).held
        rw [hpc]
        rfl
      · show _ = (s.pc t).locks b
        rw [hpc]
        rfl
      · change (s.pc t).seeks b = true at hb
        rw [hpc] at hb
        cases hb
    · exact h.setPc (by rw [hpc]; rfl) (fun b => by rw [hpc]; rfl)
        (fun b hb => by rw [hpc] at hb; cases hb) (by rintro _ ⟨⟩)

/-- No interrupt finds a counter at its maximum. -/
def RoomInLocks (s : State Task) : Event Task → Prop
  | .sendFromISR _ _ => s.queue.cTxLock < 127
  | .receiveFromISR => s.queue.cRxLock < 127
  | _ => True

instance (s : State Task) : (e : Event Task) → Decidable (RoomInLocks s e)
  | .sendFromISR _ _ => inferInstanceAs (Decidable (s.queue.cTxLock < 127))
  | .receiveFromISR => inferInstanceAs (Decidable (s.queue.cRxLock < 127))
  | .call .. | .run .. | .delayOver _ | .peekFromISR => isTrue trivial

theorem inv_sendFromISR (h : Inv s) {item : Bytes} {pos : CopyPosition}
    (hroom : s.queue.cTxLock < 127) {x : Queue × Reply}
    (hx : perform s.queue (.send item pos) = some x) : Inv (s.fromISR (.send item pos) x) := by
  obtain ⟨q, reply⟩ := x
  obtain ⟨hlock, houtcome⟩ := @perform_outcome s.queue q reply (.send item pos) hx
  unfold State.fromISR
  dsimp only
  split
  · next hfails => exact h.failed (houtcome.of_fails hfails).1
  · next hreply =>
    cases houtcome with
    | failed hfails => exact absurd hfails hreply
    | sent htrue hfalse =>
      have hless : q.units false ≤ s.queue.units false := hfalse.trans (Nat.sub_le _ _)
      split
      · next hunlocked => exact h.deliver true hlock hunlocked htrue hless
      · next hlocked => exact h.count true hlock hlocked hroom htrue hless

theorem inv_receiveFromISR (h : Inv s) (hroom : s.queue.cRxLock < 127) {x : Queue × Reply}
    (hx : perform s.queue .receive = some x) : Inv (s.fromISR .receive x) := by
  obtain ⟨q, reply⟩ := x
  obtain ⟨hlock, houtcome⟩ := @perform_outcome s.queue q reply .receive hx
  unfold State.fromISR
  dsimp only
  split
  · next hfails => exact h.failed (houtcome.of_fails hfails).1
  · next hreply =>
    cases houtcome with
    | failed hfails => exact absurd hfails hreply
    | received htrue hfalse =>
      have hless : q.units true ≤ s.queue.units true := htrue.trans (Nat.sub_le _ _)
      split
      · next hunlocked => exact h.deliver false hlock hunlocked hfalse hless
      · next hlocked => exact h.count false hlock hlocked hroom hfalse hless

omit [DecidableEq Task] in
theorem inv_peekFromISR (h : Inv s) {x : Queue × Reply} (hx : perform s.queue .peek = some x) :
    Inv (s.fromISR .peek x) := by
  obtain ⟨q, reply⟩ := x
  obtain ⟨hlock, houtcome⟩ := @perform_outcome s.queue q reply .peek hx
  have hsame : q.units = s.queue.units := by
    cases houtcome with
    | failed _ _ => rfl
    | peeked hunits => exact hunits
  unfold State.fromISR
  dsimp only
  split <;> exact h.same hlock hsame

theorem inv_step {priority : Task → Nat} {e : Event Task} (h : Inv s) (he : RoomInLocks s e)
    (hstep : s.step priority e = some s') : Inv s' := by
  cases e with
  | call t c blocks =>
    simp only [State.step, Option.ite_none_right_eq_some, Option.some.injEq] at hstep
    obtain ⟨⟨-, hpc⟩, rfl⟩ := hstep
    exact h.setPc (by rw [hpc]; rfl) (fun b => by rw [hpc]; rfl)
      (fun b hb => by rw [hpc] at hb; cases hb) (by rintro _ ⟨⟩)
  | run t timeout =>
    simp only [State.step, Option.ite_none_right_eq_some] at hstep
    exact inv_runTask h hstep.1 hstep.2
  | delayOver t =>
    simp only [State.step, Option.ite_none_right_eq_some, Option.some.injEq] at hstep
    obtain ⟨-, rfl⟩ := hstep
    exact h.delayOver t
  | sendFromISR item pos =>
    obtain ⟨x, hx, rfl⟩ := Option.map_eq_some_iff.mp hstep
    exact inv_sendFromISR h he hx
  | receiveFromISR =>
    obtain ⟨x, hx, rfl⟩ := Option.map_eq_some_iff.mp hstep
    exact inv_receiveFromISR h he hx
  | peekFromISR =>
    simp only [State.step, Option.ite_none_left_eq_some] at hstep
    obtain ⟨x, hx, rfl⟩ := Option.map_eq_some_iff.mp hstep.2
    exact inv_peekFromISR h hx

omit [DecidableEq Task] in
theorem inv_start (n size : Nat) (storage : Bytes) : Inv (start n size storage : State Task) := by
  refine ⟨⟨?_, ?_, ?_, ?_, ?_, ?_⟩, ?_⟩
  · exact forall_side true List.nodup_nil List.nodup_nil
  · exact forall_side true (fun _ ht => absurd ht List.not_mem_nil)
      (fun _ ht => absurd ht List.not_mem_nil)
  · intro t
    simp [start, Pc.held]
  · exact forall_side true (by rintro _ ⟨⟩) (by rintro _ ⟨⟩)
  · exact forall_side true (fun _ => rfl) (fun _ => rfl)
  · rintro _ _ ⟨⟩
  · exact forall_side true covered_nil covered_nil

/-! ## No lost wakeups -/

/-- The task is awake and looks next for an item (`true`) or for room (`false`). -/
def Awake (s : State Task) (b : Bool) (t : Task) : Prop :=
  (∃ c blocks, s.pc t = .loop c blocks ∧ c.receives = b) ∧ t ∉ s.waiting b

/-- With the scheduler running and a task waiting, each item, or each free place, is matched by a
task of its own that looks for one. -/
def Served (s : State Task) : Prop :=
  s.uxSchedulerSuspended = none → ∀ b, s.waiting b ≠ [] →
    ∃ woken : Finset Task, (∀ t ∈ woken, Awake s b t) ∧ s.queue.units b ≤ woken.card

omit [DecidableEq Task] in
theorem Inv.served (h : Inv s) : Served s := by
  intro hnone b hwait
  obtain ⟨woken, hwoken, hle⟩ := h.covers b hwait
  have hlock := h.frame.unlocked b (h.frame.not_locks hnone b)
  refine ⟨woken, fun t ht => ?_, by simpa [hlock, queueUNLOCKED] using hle⟩
  obtain ⟨hseeks, hnot⟩ := hwoken t ht
  refine ⟨?_, hnot⟩
  have hheld := h.frame.not_held hnone t
  generalize s.pc t = pc at hseeks hheld
  unfold Pc.seeks at hseeks
  split at hseeks
  · next c blocks => exact ⟨c, blocks, rfl, by simpa using hseeks⟩
  · cases hheld
  · cases hheld
  · cases hheld
  · cases hseeks

/-- **No wakeup is lost.** In every interleaving of tasks, interrupts and timeouts, while a task
waits to receive there are as many other tasks awake and about to look as there are items in the
queue, and while one waits to send, as many as there are free places.  So a task is never left
blocked next to an item, or to a place, that nobody else is going to take. -/
theorem always_served (priority : Task → Nat) (uxQueueLength uxItemSize : Nat)
    (pucQueueStorage : Bytes) (es : List (Event Task))
    (hes : EachStep (State.step priority) RoomInLocks
      (start uxQueueLength uxItemSize pucQueueStorage) es) :
    Always (State.step priority) Served (start uxQueueLength uxItemSize pucQueueStorage) es :=
  (always_of_eachStep (fun _ _ _ h he hs => inv_step h he hs) (inv_start _ _ _) hes).mono
    fun _ h => h.served

/-- The item comes from an interrupt, after the receiver has found the queue empty and before it is
on the waiting list. -/
def interrupted : List (Event Bool) :=
  [.call false .receive true, .run false .notYet, .run false .notYet, .run false .notYet,
    .run false .notYet, .run false .notYet, .sendFromISR [7, 8] .sendToBack, .run false .notYet,
    .run false .notYet, .run false .notYet, .run false .notYet, .run false .notYet]

example : (exec (State.step fun _ => 0) (start 1 2 [0, 0]) interrupted).map (fun s => s.history) =
    some [(.send [7, 8] .sendToBack, .pdPASS), (.receive, .item [7, 8])] := by decide

theorem always_served_interrupted :
    Always (State.step fun _ => 0) Served (start 1 2 [0, 0]) interrupted :=
  always_served _ _ _ _ _ (by decide)

end EmWinDemo.Kernel
