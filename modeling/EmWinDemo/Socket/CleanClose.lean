/-
# EmWinDemo.Socket.CleanClose -- what a closed session leaves behind

`CloseSocketServer` closes the listening socket and deletes the server task, and
`DeleteActivitySocket_QueueRead` deletes the queue reader.  Neither looks at the reader tasks, at
the sockets of the clients or at the items in `Socket_Queue`.  So nothing of a session outlives the
click that closes it exactly when nothing is left to clean up at that click.
-/
import EmWinDemo.Socket.Sessions

namespace EmWinDemo.Socket.CleanClose

open EmWinDemo.Lib.Runs EmWinDemo.Lib.Descriptors EmWinDemo.Socket.Sessions

/-! ## The law and its condition -/

/-- Nothing of the session that has just been closed is left, and each copy into a display string
was of an item of its own session. -/
structure LeavesNothing (s : State) : Prop where
  readers : s.opened = false → ∀ r ∈ s.readers, r.session ≠ s.session
  sockets : s.opened = false → ∀ k, s.sockets k ≠ some (.client s.session)
  queue : s.opened = false → ∀ item ∈ s.queue, item.session ≠ s.session
  copies : ∀ c ∈ s.copies, c.1 = c.2

/-- A closing click finds no reader task, no item in the queue and no client in the hands of the
server. -/
def ClosesIdle (s : State) : Event → Prop
  | .click => s.opened = true →
      s.readers = [] ∧ s.queue = [] ∧ ∀ k : Fin 4, s.server ≠ .handling k
  | _ => True

/-! ## One session at a time -/

/-- Everything in the system belongs to the current session, and nothing is there when the server
is closed. -/
structure OneSession (s : State) : Prop where
  inv : Inv s
  readers : ∀ r ∈ s.readers, r.session = s.session
  queue : ∀ item ∈ s.queue, item.session = s.session
  holding : ∀ item, s.queueReader = .holding item → item.session = s.session
  clients : ∀ k n, s.sockets k = some (.client n) → n = s.session ∧
    ((∃ r ∈ s.readers, r.sockClient = k) ∨ s.server = .handling k)
  closed : s.opened = false → s.readers = [] ∧ s.queue = []
  copies : ∀ c ∈ s.copies, c.1 = c.2

theorem oneSession_init : OneSession init where
  inv := inv_init
  readers r hr := absurd hr List.not_mem_nil
  queue r hr := absurd hr List.not_mem_nil
  holding item h := by cases h
  clients k n h := by cases h
  closed _ := ⟨rfl, rfl⟩
  copies c hc := absurd hc List.not_mem_nil

theorem OneSession.leavesNothing {s : State} (hs : OneSession s) : LeavesNothing s where
  readers hclosed r hr := by
    rw [(hs.closed hclosed).1] at hr
    exact absurd hr List.not_mem_nil
  sockets hclosed k hk := by
    rcases (hs.clients k _ hk).2 with ⟨r, hr, -⟩ | hsrv
    · rw [(hs.closed hclosed).1] at hr
      exact absurd hr List.not_mem_nil
    · rw [(hs.inv.closedServer hclosed).1] at hsrv
      cases hsrv
  queue hclosed item hitem := by
    rw [(hs.closed hclosed).2] at hitem
    exact absurd hitem List.not_mem_nil
  copies := hs.copies

/-- The sockets of the clients after the descriptor `k` has gone to another owner. -/
theorem clients_update {s : State} {k : Fin 4} {w : Option Owner}
    (hw : ∀ n, w ≠ some (.client n)) {j : Fin 4} {n : Nat}
    (h : Function.update s.sockets k w j = some (.client n)) : s.sockets j = some (.client n) := by
  rcases eq_or_ne j k with rfl | hne
  · rw [Function.update_self] at h
    exact absurd h (hw n)
  · rwa [Function.update_of_ne hne] at h

/-- While the server is in `accept`, or deleted, every client has its reader. -/
theorem OneSession.reader_of_client {s : State} (hs : OneSession s)
    (hsrv : ∀ k : Fin 4, s.server ≠ .handling k) {k : Fin 4} {n : Nat}
    (hk : s.sockets k = some (.client n)) : ∃ r ∈ s.readers, r.sockClient = k := by
  rcases (hs.clients k n hk).2 with hr | hhand
  · exact hr
  · exact absurd hhand (hsrv k)

/-- A closed server has no clients. -/
theorem OneSession.no_client {s : State} (hs : OneSession s) (hreaders : s.readers = [])
    (hsrv : ∀ k : Fin 4, s.server ≠ .handling k) (k : Fin 4) (n : Nat) :
    s.sockets k ≠ some (.client n) := by
  intro hk
  obtain ⟨r, hr, -⟩ := hs.reader_of_client hsrv hk
  rw [hreaders] at hr
  exact absurd hr List.not_mem_nil

/-! ### One lemma for each event that matters -/

theorem oneSession_openServer {s : State} (hs : OneSession s) (hopen : s.opened = false)
    (hf : s.fetch = none) : OneSession (openServer s) := by
  have hinv := inv_openServer hs.inv hopen hf
  obtain ⟨hreaders, hqueue⟩ := hs.closed hopen
  have hsrv : ∀ k : Fin 4, s.server ≠ .handling k := by
    intro k hhand
    rw [(hs.inv.closedServer hopen).1] at hhand
    cases hhand
  obtain ⟨-, heq⟩ := openServer_eq hs.inv hopen hf
  rw [heq] at hinv ⊢
  refine ⟨hinv, ?_, ?_, ?_, ?_, ?_, hs.copies⟩
  · intro r hr
    rw [show s.readers = [] from hreaders] at hr
    exact absurd hr List.not_mem_nil
  · intro item hitem
    rw [show s.queue = [] from hqueue] at hitem
    exact absurd hitem List.not_mem_nil
  · intro item hitem
    cases hitem
  · intro k n hk
    exact absurd (clients_update (by simp) hk) (hs.no_client hreaders hsrv k n)
  · intro hclosed
    cases hclosed

theorem oneSession_closeServer {s : State} (hs : OneSession s) (hopen : s.opened = true)
    (hf : s.fetch = none) (hok : ClosesIdle s .click) : OneSession (closeServer s) := by
  obtain ⟨hreaders, hqueue, hsrv⟩ := hok hopen
  refine ⟨inv_closeServer hs.inv hopen hf, hs.readers, hs.queue, ?_, ?_,
    fun _ => ⟨hreaders, hqueue⟩, hs.copies⟩
  · intro item hitem
    cases hitem
  · intro k n hk
    exact absurd (closeSocket_eq_some hk).2 (hs.no_client hreaders hsrv k n)

theorem oneSession_accept {s : State} (hs : OneSession s) (hsrv : s.server = .accepting)
    {k : Fin 4} (hk : lowest s.sockets = some k) :
    OneSession { s with
      sockets := Function.update s.sockets k (some (.client s.session)), server := .handling k } := by
  refine ⟨inv_accept hs.inv hsrv hk, hs.readers, hs.queue, hs.holding, ?_, hs.closed, hs.copies⟩
  intro j n hj
  dsimp only at hj ⊢
  rcases eq_or_ne j k with rfl | hne
  · rw [Function.update_self] at hj
    obtain rfl : s.session = n := by simpa using hj
    exact ⟨rfl, Or.inr rfl⟩
  · rw [Function.update_of_ne hne] at hj
    exact ⟨(hs.clients j n hj).1, Or.inl (hs.reader_of_client (by simp [hsrv]) hj)⟩

theorem oneSession_finishRound {s : State} (hs : OneSession s) {sockClient : Int}
    (hsrv : s.server = .handling sockClient) : OneSession (finishRound s sockClient) := by
  refine ⟨inv_finishRound hs.inv hsrv, ?_, hs.queue, hs.holding, ?_, ?_, hs.copies⟩
  · intro r hr
    rcases List.mem_append.mp hr with hr | hr
    · exact hs.readers r hr
    · obtain rfl := List.mem_singleton.mp hr
      rfl
  · -- a client in hand gets its reader, the others have theirs
    intro k n hk
    refine ⟨(hs.clients k n hk).1, Or.inl ?_⟩
    rcases (hs.clients k n hk).2 with ⟨r, hr, hrk⟩ | hhand
    · exact ⟨r, List.mem_append_left _ hr, hrk⟩
    · rw [hsrv] at hhand
      exact ⟨⟨sockClient, s.session⟩, List.mem_append_right _ List.mem_cons_self,
        ServerTask.handling.inj hhand⟩
  · intro hclosed
    have hopen := hs.inv.opened_of_server (by rw [hsrv]; simp)
    rw [show s.opened = false from hclosed] at hopen
    cases hopen

theorem oneSession_disconnect {s : State} (hs : OneSession s) {r : Reader} (hr : r ∈ s.readers)
    (hpos : 0 ≤ r.sockClient) :
    OneSession { s with
      sockets := closeSocket s.sockets r.sockClient, readers := s.readers.erase r } := by
  refine ⟨inv_disconnect hs.inv hr hpos, ?_, hs.queue, hs.holding, ?_, ?_, hs.copies⟩
  · intro r' hr'
    exact hs.readers r' (List.mem_of_mem_erase hr')
  · intro k n hk
    obtain ⟨hne, hold⟩ := closeSocket_eq_some hk
    refine ⟨(hs.clients k n hold).1, ?_⟩
    rcases (hs.clients k n hold).2 with ⟨r', hr', hrk⟩ | hhand
    · -- a reader of a socket that is still open is not the one that leaves
      refine Or.inl ⟨r', (List.mem_erase_of_ne ?_).mpr hr', hrk⟩
      rintro rfl
      exact hne hrk.symm
    · exact Or.inr hhand
  · intro hclosed
    rw [(hs.closed hclosed).1] at hr
    exact absurd hr List.not_mem_nil

/-- The queue holds what readers of the session have sent. -/
theorem oneSession_send {s : State} (hs : OneSession s) {r : Reader} (hr : r ∈ s.readers)
    (hinv : Inv { s with queue := s.queue ++ [⟨r.sockClient, r.session⟩] }) :
    OneSession { s with queue := s.queue ++ [⟨r.sockClient, r.session⟩] } := by
  refine ⟨hinv, hs.readers, ?_, hs.holding, hs.clients, ?_, hs.copies⟩
  · intro item hitem
    rcases List.mem_append.mp hitem with hitem | hitem
    · exact hs.queue item hitem
    · obtain rfl := List.mem_singleton.mp hitem
      exact hs.readers r hr
  · intro hclosed
    rw [(hs.closed hclosed).1] at hr
    exact absurd hr List.not_mem_nil

/-- An idle close and every other step keep the system in one session. -/
theorem oneSession_step {s t : State} {e : Event} (hs : OneSession s) (hok : ClosesIdle s e)
    (h : step s e = some t) : OneSession t := by
  have hinv : Inv t := inv_step hs.inv h
  cases step_effect h with
  | openClick hf hopen => exact oneSession_openServer hs hopen hf
  | closeClick hf hopen => exact oneSession_closeServer hs hopen hf hok
  | accept hsrv hbound hk => exact oneSession_accept hs hsrv hk
  | acceptFails hsrv =>
    refine ⟨hinv, hs.readers, hs.queue, hs.holding, ?_, hs.closed, hs.copies⟩
    intro k n hk
    exact ⟨(hs.clients k n hk).1, Or.inl (hs.reader_of_client (by simp [hsrv]) hk)⟩
  | finish hsrv => exact oneSession_finishRound hs hsrv
  | disconnect hr hpos => exact oneSession_disconnect hs hr hpos
  | send hr => exact oneSession_send hs hr hinv
  | @receive item queue hblocked hq =>
    have hall : ∀ i ∈ item :: queue, i.session = s.session := hq ▸ hs.queue
    refine ⟨hinv, hs.readers, ?_, ?_, hs.clients, ?_, hs.copies⟩
    · intro i hi
      exact hall i (List.mem_cons_of_mem _ hi)
    · intro i hi
      obtain rfl := QueueReader.holding.inj hi
      exact hall item List.mem_cons_self
    · intro hclosed
      rw [(hs.closed hclosed).2] at hq
      cases hq
  | @copy item hholding =>
    refine ⟨hinv, hs.readers, hs.queue, ?_, hs.clients, hs.closed, ?_⟩
    · intro i hi
      cases hi
    · intro c hc
      rcases List.mem_append.mp hc with hc | hc
      · exact hs.copies c hc
      · unfold copied at hc
        split at hc
        · obtain rfl := List.mem_singleton.mp hc
          exact hs.holding item hholding
        · exact absurd hc List.not_mem_nil
  | fetchBegin hf hk =>
    refine ⟨hinv, hs.readers, hs.queue, hs.holding, ?_, hs.closed, hs.copies⟩
    intro j n hj
    exact hs.clients j n (clients_update (by simp) hj)
  | fetchFails => exact hs
  | fetchEnd hf =>
    refine ⟨hinv, hs.readers, hs.queue, hs.holding, ?_, hs.closed, hs.copies⟩
    intro j n hj
    exact hs.clients j n (clients_update (by simp) hj)
  | linger => exact ⟨hinv, hs.readers, hs.queue, hs.holding, hs.clients, hs.closed, hs.copies⟩

/-- After a clean close the click has found nothing to clean up: closing removes nothing. -/
theorem closesIdle_of_leavesNothing {s t : State} {e : Event} (hs : OneSession s)
    (h : step s e = some t) (ht : LeavesNothing t) : ClosesIdle s e := by
  cases step_effect h with
  | openClick hf hopen =>
    intro hopen'
    rw [hopen] at hopen'
    cases hopen'
  | closeClick hf hopen =>
    intro _
    refine ⟨List.eq_nil_iff_forall_not_mem.mpr fun r hr => ?_,
      List.eq_nil_iff_forall_not_mem.mpr fun item hitem => ?_, fun k hk => ?_⟩
    · exact ht.readers rfl r hr (hs.readers r hr)
    · exact ht.queue rfl item hitem (hs.queue item hitem)
    · -- the socket of a client in hand is not descriptor 0, so the close leaves it open
      obtain ⟨⟨j, hj, hsock⟩, -⟩ := hs.inv.handling k hk (Int.natCast_nonneg _)
      obtain ⟨hzero, hserver, -⟩ := hs.inv.openServer hopen
      apply ht.sockets rfl j
      show closeSocket s.sockets s.sockServer j = _
      rw [closeSocket_of_ne, hsock]
      · rfl
      · rw [hzero]
        intro hj0
        have hj0' : j = 0 := Fin.ext (by simpa using hj0)
        rw [hj0', hserver] at hsock
        cases hsock
  | accept | acceptFails | finish | disconnect | send | receive | copy | fetchBegin | fetchFails
  | fetchEnd | linger => trivial

/-! ## Runs -/

/-- **Closing undoes opening exactly when there is nothing left to undo.** In every run from the
start, the sessions end clean if and only if at every closing click no reader task is alive, the
queue is empty and the server holds no client it has not created a reader for. -/
theorem always_leavesNothing_iff (es : List Event) (hrun : (exec step init es).isSome) :
    Always step LeavesNothing init es ↔ EachStep step ClosesIdle init es :=
  always_iff_eachStep (fun _ => OneSession.leavesNothing)
    (fun _ _ _ hs hok h => oneSession_step hs hok h)
    (fun _ _ _ hs h ht => closesIdle_of_leavesNothing hs h ht) oneSession_init hrun

/-- A session with one client that sends a message and leaves before the close, and another one. -/
def twoSessions : List Event :=
  [.click, .accept, .finish, .send ⟨1, 1⟩, .receive, .copy, .disconnect ⟨1, 1⟩, .click, .click]

theorem always_leavesNothing_iff_twoSessions :
    Always step LeavesNothing init twoSessions ↔ EachStep step ClosesIdle init twoSessions :=
  always_leavesNothing_iff twoSessions (by rfl)

/-- A client that stays connected outlives the session. -/
theorem not_always_leavesNothing :
    ¬∀ es, (exec step init es).isSome → Always step LeavesNothing init es := by
  intro hall
  have hrun := hall [.click, .accept, .finish, .click] rfl
  have hclean := hrun.last rfl
  exact hclean.readers rfl ⟨1, 1⟩ List.mem_cons_self rfl

end EmWinDemo.Socket.CleanClose
