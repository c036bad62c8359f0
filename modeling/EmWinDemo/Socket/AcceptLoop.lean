/-
# EmWinDemo.Socket.AcceptLoop -- handing accepted sockets to reader tasks

The `while (1)` of `isocketTCPServer` (usr_socket.c), statement by statement, against the first
step of the reader tasks it creates.  The server keeps the descriptor in its own local variable
`sock_client` and gives every task the *address* of that variable; a task copies the value when it
first runs.  The server has priority 3 and the readers priority 2, so a reader that has just been
created runs only when the server blocks, and by then the variable may hold the next descriptor.

`always_oneReader` says when the hand-over is right: every `accept` succeeds, and none returns
while a reader has not taken its first step.
-/
import EmWinDemo.Lib.Runs
import Mathlib.Data.List.Nodup
import Mathlib.Data.List.Basic

namespace EmWinDemo.Socket.AcceptLoop

open EmWinDemo.Lib.Runs

/-! ## States and steps -/

/-- Which statement of the loop the server executes next. -/
inductive ServerPc where
  | accept
  /-- `CreateActivitySocket_MsgButton(sock_client)` -/
  | createButton
  /-- `write(sock_client, server_queue, sizeof(server_queue))` -/
  | write
  /-- `xTaskCreate(isocketClientRead, …, &sock_client, …)` -/
  | createTask
  /-- `if (sock_client == 3)` -/
  | check
  /-- `vTaskSuspend(NULL)`; no task ever resumes the server -/
  | suspended
  deriving Repr, DecidableEq

/-- A reader task.  `accepted` is a ghost: the result of the `accept` in whose round it was
created.  `sockClient` is its local copy, absent before its first step. -/
structure Task where
  accepted : Int
  sockClient : Option Int
  deriving Repr, DecidableEq

/-- `slot` is the server's `sock_client`; `results` is a ghost, what `accept` has returned. -/
structure State where
  pc : ServerPc
  slot : Int
  tasks : List Task
  buttons : List Int
  results : List Int
  deriving Repr, DecidableEq

inductive Event where
  | accept (result : Int)
  | createButton
  | write
  | createTask
  | check
  /-- the first step of the `i`-th task created -/
  | start (i : Nat)
  deriving Repr, DecidableEq

/-- Before the first round; `sock_client` is not initialised. -/
def init (indeterminate : Int) : State := ⟨.accept, indeterminate, [], [], []⟩

/-- What `accept` may return: `-1`, or the descriptor of a socket not handed out yet. -/
def CanReturn (s : State) (result : Int) : Prop := result = -1 ∨ (0 ≤ result ∧ result ∉ s.results)

instance (s : State) (result : Int) : Decidable (CanReturn s result) :=
  inferInstanceAs (Decidable (_ ∨ _))

def step (s : State) : Event → Option State
  | .accept result =>
    if s.pc = .accept ∧ CanReturn s result then
      some { s with pc := .createButton, slot := result, results := s.results ++ [result] }
    else none
  | .createButton =>
    if s.pc = .createButton then some { s with pc := .write, buttons := s.buttons ++ [s.slot] }
    else none
  | .write => if s.pc = .write then some { s with pc := .createTask } else none
  | .createTask =>
    if s.pc = .createTask then
      some { s with pc := .check, tasks := s.tasks ++ [⟨s.slot, none⟩] }
    else none
  | .check =>
    if s.pc = .check then some { s with pc := if s.slot = 3 then .suspended else .accept } else none
  | .start i =>
    match s.tasks[i]? with
    | some ⟨accepted, none⟩ => some { s with tasks := s.tasks.set i ⟨accepted, some s.slot⟩ }
    | _ => none

/-! ## One accepted socket, one reader -/

/-- The `i`-th task has started and reads descriptor `k`. -/
def Reads (s : State) (i : Nat) (k : Int) : Prop :=
  ∃ t, s.tasks[i]? = some t ∧ t.sockClient = some k

/-- The server is between two rounds and every task has taken its first step. -/
def Settled (s : State) : Prop :=
  (s.pc = .accept ∨ s.pc = .suspended) ∧ ∀ t ∈ s.tasks, t.sockClient ≠ none

structure OneReader (s : State) : Prop where
  /-- no two started tasks read the same socket -/
  injective : ∀ i j k, Reads s i k → Reads s j k → i = j
  /-- a started task reads the socket whose acceptance created it -/
  own : ∀ t ∈ s.tasks, ∀ k, t.sockClient = some k → k = t.accepted
  /-- every successfully accepted socket has exactly one reader -/
  reader : Settled s → ∀ r ∈ s.results, 0 ≤ r → ∃ i, Reads s i r ∧ ∀ j, Reads s j r → j = i
  /-- a failed accept creates no reader task … -/
  noTask : ∀ t ∈ s.tasks, t.accepted ≠ -1
  /-- … and no client button -/
  noButton : ∀ b ∈ s.buttons, b ≠ -1

/-- `accept` succeeds, and no reader created earlier is still waiting for its first step. -/
def AcceptsAlone (s : State) : Event → Prop
  | .accept result => 0 ≤ result ∧ ∀ t ∈ s.tasks, t.sockClient ≠ none
  | _ => True

instance (s : State) : (e : Event) → Decidable (AcceptsAlone s e)
  | .accept _ => inferInstanceAs (Decidable (_ ∧ _))
  | .createButton => isTrue trivial
  | .write => isTrue trivial
  | .createTask => isTrue trivial
  | .check => isTrue trivial
  | .start _ => isTrue trivial

/-! ## The invariant -/

/-- The accepted socket for which no task exists yet. -/
def inHand (s : State) : List Int :=
  match s.pc with
  | .createButton | .write | .createTask => [s.slot]
  | .accept | .check | .suspended => []

structure Inv (s : State) : Prop where
  /-- tasks are created in the order of the acceptances, one for each -/
  created : s.tasks.map Task.accepted ++ inHand s = s.results
  distinct : s.results.Nodup
  succeeded : ∀ r ∈ s.results, 0 ≤ r
  buttons : ∀ b ∈ s.buttons, b ∈ s.results
  own : ∀ t ∈ s.tasks, ∀ k, t.sockClient = some k → k = t.accepted
  /-- the variable still holds the socket of a task that has not started -/
  waiting : ∀ t ∈ s.tasks, t.sockClient = none → t.accepted = s.slot

theorem inv_init (indeterminate : Int) : Inv (init indeterminate) :=
  ⟨rfl, List.nodup_nil, by simp [init], by simp [init], by simp [init], by simp [init]⟩

theorem Inv.slot_mem {s : State} (h : Inv s) (hpc : inHand s = [s.slot]) :
    s.slot ∈ s.results := by
  rw [← h.created, hpc]
  exact List.mem_append_right _ List.mem_cons_self

/-- A first step changes no task's own socket. -/
theorem map_accepted_set {tasks : List Task} {i : Nat} {t u : Task} (hi : tasks[i]? = some t)
    (htu : u.accepted = t.accepted) :
    (tasks.set i u).map Task.accepted = tasks.map Task.accepted := by
  apply List.ext_getElem?
  intro j
  rw [List.getElem?_map, List.getElem?_map]
  by_cases hij : i = j
  · subst hij
    rw [List.getElem?_set_self (List.getElem?_eq_some_iff.mp hi).1, hi]
    exact congrArg some htu
  · rw [List.getElem?_set_ne hij]

/-! ### One lemma for each event that matters -/

theorem inv_accept {s : State} (h : Inv s) (hpc : s.pc = .accept) {result : Int}
    (hret : CanReturn s result) (hok : AcceptsAlone s (.accept result)) :
    Inv { s with pc := .createButton, slot := result, results := s.results ++ [result] } := by
  obtain ⟨hpos, hall⟩ := hok
  have hnew : result ∉ s.results := by
    rcases hret with hret | hret
    · omega
    · exact hret.2
  have hcreated := h.created
  rw [inHand, hpc, List.append_nil] at hcreated
  refine ⟨by simp [inHand, hcreated], ?_, ?_, ?_, h.own, ?_⟩
  · rw [List.nodup_append]
    refine ⟨h.distinct, List.nodup_singleton _, ?_⟩
    rintro a ha b hb rfl
    exact hnew (List.mem_singleton.mp hb ▸ ha)
  · intro r hr
    rcases List.mem_append.mp hr with hr | hr
    · exact h.succeeded r hr
    · exact (List.mem_singleton.mp hr) ▸ hpos
  · intro b hb
    exact List.mem_append_left _ (h.buttons b hb)
  · -- the variable is overwritten, but no task has still to read it
    intro t ht hnone
    exact absurd hnone (hall t ht)

theorem inv_createButton {s : State} (h : Inv s) (hpc : s.pc = .createButton) :
    Inv { s with pc := .write, buttons := s.buttons ++ [s.slot] } := by
  have hslot : s.slot ∈ s.results := h.slot_mem (by rw [inHand, hpc])
  refine ⟨by simpa [inHand, hpc] using h.created, h.distinct, h.succeeded, ?_, h.own, h.waiting⟩
  intro b hb
  rcases List.mem_append.mp hb with hb | hb
  · exact h.buttons b hb
  · exact (List.mem_singleton.mp hb) ▸ hslot

theorem inv_createTask {s : State} (h : Inv s) (hpc : s.pc = .createTask) :
    Inv { s with pc := .check, tasks := s.tasks ++ [⟨s.slot, none⟩] } := by
  refine ⟨by simpa [inHand, hpc] using h.created, h.distinct, h.succeeded, h.buttons, ?_, ?_⟩
  · intro t ht k hk
    rcases List.mem_append.mp ht with ht | ht
    · exact h.own t ht k hk
    · rw [List.mem_singleton.mp ht] at hk
      cases hk
  · -- the new task waits for the variable, which holds its socket
    intro t ht hnone
    rcases List.mem_append.mp ht with ht | ht
    · exact h.waiting t ht hnone
    · rw [List.mem_singleton.mp ht]

theorem inv_start {s : State} (h : Inv s) {i : Nat} {accepted : Int}
    (hi : s.tasks[i]? = some ⟨accepted, none⟩) :
    Inv { s with tasks := s.tasks.set i ⟨accepted, some s.slot⟩ } := by
  have hslot : accepted = s.slot := h.waiting _ (List.mem_of_getElem? hi) rfl
  have hmap : (s.tasks.set i ⟨accepted, some s.slot⟩).map Task.accepted =
      s.tasks.map Task.accepted := map_accepted_set hi rfl
  refine ⟨?_, h.distinct, h.succeeded, h.buttons, ?_, ?_⟩
  · show (s.tasks.set i ⟨accepted, some s.slot⟩).map Task.accepted ++ inHand s = s.results
    rw [hmap, h.created]
  · intro t ht k hk
    rcases List.mem_or_eq_of_mem_set ht with ht | rfl
    · exact h.own t ht k hk
    · obtain rfl : s.slot = k := Option.some.inj hk
      exact hslot.symm
  · intro t ht hnone
    rcases List.mem_or_eq_of_mem_set ht with ht | rfl
    · exact h.waiting t ht hnone
    · cases hnone

theorem inv_step {s t : State} {e : Event} (h : Inv s) (hok : AcceptsAlone s e)
    (ht : step s e = some t) : Inv t := by
  cases e with
  | accept result =>
    simp only [step] at ht
    split at ht
    · next hg =>
      obtain rfl := Option.some.inj ht
      exact inv_accept h hg.1 hg.2 hok
    · cases ht
  | createButton =>
    simp only [step] at ht
    split at ht
    · next hpc =>
      obtain rfl := Option.some.inj ht
      exact inv_createButton h hpc
    · cases ht
  | write =>
    simp only [step] at ht
    split at ht
    · next hpc =>
      obtain rfl := Option.some.inj ht
      exact ⟨by simpa [inHand, hpc] using h.created, h.distinct, h.succeeded, h.buttons, h.own,
        h.waiting⟩
    · cases ht
  | createTask =>
    simp only [step] at ht
    split at ht
    · next hpc =>
      obtain rfl := Option.some.inj ht
      exact inv_createTask h hpc
    · cases ht
  | check =>
    simp only [step] at ht
    split at ht
    · next hpc =>
      obtain rfl := Option.some.inj ht
      refine ⟨?_, h.distinct, h.succeeded, h.buttons, h.own, h.waiting⟩
      by_cases h3 : s.slot = 3 <;> simpa [inHand, hpc, h3] using h.created
    · cases ht
  | start i =>
    simp only [step] at ht
    split at ht
    · next accepted hi =>
      obtain rfl := Option.some.inj ht
      exact inv_start h hi
    · cases ht

/-- Two tasks created for the same socket are the same task. -/
theorem Inv.index_unique {s : State} (h : Inv s) {i j : Nat} {t u : Task}
    (hi : s.tasks[i]? = some t) (hj : s.tasks[j]? = some u) (htu : t.accepted = u.accepted) :
    i = j := by
  have hnodup : (s.tasks.map Task.accepted).Nodup := by
    have hd := h.distinct
    rw [← h.created, List.nodup_append] at hd
    exact hd.1
  have hilt : i < (s.tasks.map Task.accepted).length := by
    rw [List.length_map]
    exact (List.getElem?_eq_some_iff.mp hi).1
  refine (List.getElem?_inj hilt hnodup).mp ?_
  rw [List.getElem?_map, List.getElem?_map, hi, hj]
  exact congrArg some htu

theorem Inv.oneReader {s : State} (h : Inv s) : OneReader s := by
  have hinj : ∀ i j k, Reads s i k → Reads s j k → i = j := by
    rintro i j k ⟨t, hi, hti⟩ ⟨u, hj, huj⟩
    refine h.index_unique hi hj ?_
    rw [← h.own t (List.mem_of_getElem? hi) k hti, ← h.own u (List.mem_of_getElem? hj) k huj]
  refine ⟨hinj, h.own, ?_, ?_, ?_⟩
  · intro hsettled r hr _
    have hidle : inHand s = [] := by
      rcases hsettled.1 with hpc | hpc <;> rw [inHand, hpc]
    rw [← h.created, hidle, List.append_nil] at hr
    obtain ⟨t, ht, rfl⟩ := List.mem_map.mp hr
    obtain ⟨i, hi⟩ := List.getElem?_of_mem ht
    obtain ⟨k, hk⟩ := Option.ne_none_iff_exists'.mp (hsettled.2 t ht)
    have hread : Reads s i t.accepted := ⟨t, hi, by rw [hk, h.own t ht k hk]⟩
    exact ⟨i, hread, fun j hj => hinj j i _ hj hread⟩
  · intro t ht heq
    have hmem : t.accepted ∈ s.results := by
      rw [← h.created]
      exact List.mem_append_left _ (List.mem_map_of_mem ht)
    have := h.succeeded _ hmem
    omega
  · intro b hb heq
    have := h.succeeded _ (h.buttons b hb)
    omega

/-- **One accepted socket, one reader.** For every sequence of `accept` results and every order of
the server's statements and the tasks' first steps: if every `accept` succeeds and returns only
when all tasks created before have started, the hand-over is right in every state of the run. -/
theorem always_oneReader (indeterminate : Int) (events : List Event)
    (halone : EachStep step AcceptsAlone (init indeterminate) events) :
    Always step OneReader (init indeterminate) events := by
  have hinv : Always step Inv (init indeterminate) events :=
    always_of_eachStep (fun s e t h hok ht => inv_step h hok ht) (inv_init indeterminate) halone
  exact hinv.mono fun s h => h.oneReader

/-- Three clients in turn; the server suspends itself behind the third. -/
theorem always_oneReader_threeClients :
    Always step OneReader (init 0)
      [.accept 1, .createButton, .write, .createTask, .check, .start 0,
        .accept 2, .createButton, .write, .createTask, .start 1, .check,
        .accept 3, .createButton, .write, .createTask, .check, .start 2] :=
  always_oneReader 0 _ (by decide)

/-- Two connections are pending: the server accepts the second before the first reader has run,
and both readers take the second socket. -/
theorem not_always_oneReader :
    ¬ ∀ (indeterminate : Int) (events : List Event),
      Always step OneReader (init indeterminate) events := by
  intro hall
  let events : List Event :=
    [.accept 1, .createButton, .write, .createTask, .check,
      .accept 2, .createButton, .write, .createTask, .check, .start 0, .start 1]
  have hrun : exec step (init 0) events =
      some ⟨.accept, 2, [⟨1, some 2⟩, ⟨2, some 2⟩], [1, 2], [1, 2]⟩ := by decide
  have hone := (hall 0 events).last hrun
  exact absurd (hone.injective 0 1 2 ⟨_, rfl, rfl⟩ ⟨_, rfl, rfl⟩) (by decide)

end EmWinDemo.Socket.AcceptLoop
