/-
# EmWinDemo.Socket.Sessions -- opening and closing the socket server, and the clients in between

The tasks and the shared objects of the socket demo: the server task of `OpenSocketServer`
(usr_socket.c), one reader task for each accepted client, the queue reader
(SocketActivity.c), lwIP's table of four descriptors, `Socket_Queue`, and the GUI task with its
clicks on the socket button and its weather fetches, which take a descriptor of the same table.
What the items carry is the subject of `Relay`, and how a reader comes to know its descriptor that
of `AcceptLoop`; here a reader has the descriptor whose acceptance created it.

`bind` needs port 5000 for itself: with `SO_REUSE` 0 `tcp_bind` refuses it as long as a connection
of an earlier session has it.  The server task only prints that and listens on a socket without a
port, to which nobody can connect.

`Effect` says once what each event does; `Inv` who holds which descriptor in every reachable state.
-/
import EmWinDemo.Lib.Runs
import EmWinDemo.Lib.Descriptors

namespace EmWinDemo.Socket.Sessions

open EmWinDemo.Lib.Runs EmWinDemo.Lib.Descriptors

/-! ## States -/

/-- Who holds a descriptor.  The number of the session is a ghost. -/
inductive Owner where
  | server
  | client (session : Nat)
  | fetch
  deriving Repr, DecidableEq

def Owner.isClient : Owner → Bool
  | .client _ => true
  | .server => false
  | .fetch => false

/-- The server task. -/
inductive ServerTask where
  /-- not created, deleted, or returned -/
  | absent
  /-- blocked in `accept` -/
  | accepting
  /-- `accept` has returned `sockClient`, the rest of the round is to come -/
  | handling (sockClient : Int)
  /-- `vTaskSuspend(NULL)` -/
  | suspended
  deriving Repr, DecidableEq

/-- A running `isocketClientRead`; the number of the session is a ghost. -/
structure Reader where
  sockClient : Int
  session : Nat
  deriving Repr, DecidableEq

/-- An item of `Socket_Queue`: the descriptor in its byte 0 and, as a ghost, its session. -/
structure Item where
  client : Int
  session : Nat
  deriving Repr, DecidableEq

/-- The queue reader. -/
inductive QueueReader where
  | absent
  /-- blocked in `xQueueReceive` -/
  | blocked
  | holding (item : Item)
  deriving Repr, DecidableEq

structure State where
  sockets : Table 4 Owner
  /-- the static `sock_server` -/
  sockServer : Int
  /-- `SocketButtonColor == COLOR_GREEN` -/
  opened : Bool
  /-- ghost: how often the server has been opened -/
  session : Nat
  server : ServerTask
  /-- `bind` has given port 5000 to `sock_server` -/
  bound : Bool
  /-- lwIP has a connection on port 5000 without a descriptor: half open, or being closed -/
  lingering : Bool
  readers : List Reader
  queue : List Item
  queueReader : QueueReader
  /-- the descriptor of the fetch the GUI task is in -/
  fetch : Option (Fin 4)
  /-- ghost: for each copy into a display string, the session of the item and the current one -/
  copies : List (Nat × Nat)

def init : State where
  sockets := fun _ => none
  sockServer := 0
  opened := false
  session := 0
  server := .absent
  bound := false
  lingering := false
  readers := []
  queue := []
  queueReader := .absent
  fetch := none
  copies := []

/-! ## Steps -/

/-- `close(sock)`; closing a descriptor that is not open has no effect. -/
def closeSocket (t : Table 4 Owner) (sock : Int) : Table 4 Owner :=
  fun k => if (k : Int) = sock then none else t k

/-- `SOCKETQUEUE_LENTH`. -/
def queueLength : Nat := 10

inductive Event where
  /-- `ID_BUTTON_SOCKET` -/
  | click
  | accept
  /-- `accept` returns -1 -/
  | acceptFails
  /-- the rest of the server's round: button, greeting, reader task, test for descriptor 3 -/
  | finish
  /-- `read` returns 0: the reader leaves its loop and closes its socket -/
  | disconnect (r : Reader)
  /-- `read` returns anything else and `xQueueSend` succeeds -/
  | send (r : Reader)
  | receive
  | copy
  | fetchBegin
  | fetchEnd
  /-- a connection without a descriptor comes to be on port 5000, or the last one goes -/
  | linger (lingering : Bool)
  deriving Repr, DecidableEq

/-- What `bind` asks for: no connection has port 5000, neither that of a client nor one without a
descriptor. -/
def PortFree (s : State) : Prop := s.lingering = false ∧ held Owner.isClient s.sockets = 0

instance (s : State) : Decidable (PortFree s) := inferInstanceAs (Decidable (_ ∧ _))

/-- `OpenSocketServer` and `CreateActivitySocket_QueueRead`; the server task has the higher
priority and gets as far as `accept` at once, whether `bind` succeeds or not, or returns if there is
no descriptor for it. -/
def openServer (s : State) : State :=
  match lowest s.sockets with
  | some k => { s with
      sockets := Function.update s.sockets k (some .server), sockServer := (k : Int)
      opened := true, session := s.session + 1, server := .accepting, bound := PortFree s
      queueReader := .blocked }
  | none => { s with
      sockServer := -1, opened := true, session := s.session + 1, server := .absent
      queueReader := .blocked }

/-- `CloseSocketServer` and `DeleteActivitySocket_QueueRead`. -/
def closeServer (s : State) : State :=
  { s with
    sockets := closeSocket s.sockets s.sockServer, opened := false, server := .absent
    queueReader := .absent }

/-- The end of the server's round. -/
def finishRound (s : State) (sockClient : Int) : State :=
  { s with
    readers := s.readers ++ [⟨sockClient, s.session⟩]
    server := if sockClient = 3 then .suspended else .accepting }

/-- The `switch` of the queue reader copies for the clients 1, 2 and 3 only. -/
def copied (item : Item) (session : Nat) : List (Nat × Nat) :=
  if item.client = 1 ∨ item.client = 2 ∨ item.client = 3 then [(item.session, session)] else []

def step (s : State) : Event → Option State
  | .click =>
    if s.fetch = none then some (if s.opened then closeServer s else openServer s) else none
  | .accept =>
    match s.server, s.bound, lowest s.sockets with
    | .accepting, true, some k => some { s with
        sockets := Function.update s.sockets k (some (.client s.session)), server := .handling k }
    | _, _, _ => none
  | .acceptFails =>
    if s.server = .accepting then some { s with server := .handling (-1) } else none
  | .finish =>
    match s.server with
    | .handling sockClient => some (finishRound s sockClient)
    | _ => none
  | .disconnect r =>
    if r ∈ s.readers ∧ 0 ≤ r.sockClient then
      some { s with
        sockets := closeSocket s.sockets r.sockClient, readers := s.readers.erase r }
    else none
  | .send r =>
    if r ∈ s.readers ∧ s.queue.length < queueLength then
      some { s with queue := s.queue ++ [⟨r.sockClient, r.session⟩] }
    else none
  | .receive =>
    match s.queueReader, s.queue with
    | .blocked, item :: queue => some { s with queueReader := .holding item, queue := queue }
    | _, _ => none
  | .copy =>
    match s.queueReader with
    | .holding item => some { s with
        queueReader := .blocked, copies := s.copies ++ copied item s.session }
    | _ => none
  | .fetchBegin =>
    match s.fetch, lowest s.sockets with
    | none, some k => some { s with
        sockets := Function.update s.sockets k (some .fetch), fetch := some k }
    | none, none => some s
    | some _, _ => none
  | .fetchEnd =>
    match s.fetch with
    | some k => some { s with sockets := Function.update s.sockets k none, fetch := none }
    | none => none
  | .linger lingering => some { s with lingering := lingering }

/-! ## Who holds what -/

/-- Two readers do not share a socket. -/
def Apart (r r' : Reader) : Prop := 0 ≤ r.sockClient → r.sockClient ≠ r'.sockClient

theorem apart_comm : ∀ r r' : Reader, Apart r r' → Apart r' r := by
  intro r r' h hr' heq
  exact h (heq ▸ hr') heq.symm

/-- The descriptors in every reachable state. -/
structure Inv (s : State) : Prop where
  /-- the server has descriptor 0 while it is open -/
  openServer : s.opened = true → s.sockServer = 0 ∧ s.sockets 0 = some .server ∧
    s.server ≠ .absent
  /-- while it is closed descriptor 0 is free, but for a fetch -/
  closedServer : s.opened = false → s.server = .absent ∧ s.queueReader = .absent ∧
    (s.sockets 0 = none ∨ s.sockets 0 = some .fetch)
  server : ∀ k, s.sockets k = some .server → k = 0
  fetch : ∀ k, s.sockets k = some .fetch ↔ s.fetch = some k
  reader : ∀ r ∈ s.readers, 0 ≤ r.sockClient →
    ∃ k : Fin 4, (k : Int) = r.sockClient ∧ s.sockets k = some (.client r.session)
  apart : s.readers.Pairwise Apart
  handling : ∀ sockClient, s.server = .handling sockClient → 0 ≤ sockClient →
    (∃ k : Fin 4, (k : Int) = sockClient ∧ s.sockets k = some (.client s.session)) ∧
      ∀ r ∈ s.readers, r.sockClient ≠ sockClient

theorem inv_init : Inv init where
  openServer h := by cases h
  closedServer _ := ⟨rfl, rfl, Or.inl rfl⟩
  server k h := by cases h
  fetch k := by simp [init]
  reader r hr := absurd hr List.not_mem_nil
  apart := .nil
  handling c h := by cases h

/-- While the queue reader exists the server is open. -/
theorem Inv.opened_of_queueReader {s : State} (hs : Inv s) (h : s.queueReader ≠ .absent) :
    s.opened = true := by
  by_contra hclosed
  exact h (hs.closedServer (by simpa using hclosed)).2.1

theorem Inv.opened_of_server {s : State} (hs : Inv s) (h : s.server ≠ .absent) :
    s.opened = true := by
  by_contra hclosed
  exact h (hs.closedServer (by simpa using hclosed)).1

/-- A descriptor keeps its owner when another one changes hands. -/
theorem update_kept {t : Table 4 Owner} {k j : Fin 4} {v : Owner} (w : Option Owner)
    (hj : t j = some v) (hk : t k ≠ some v) : Function.update t k w j = some v := by
  rw [Function.update_of_ne, hj]
  rintro rfl
  exact hk hj

theorem closeSocket_of_ne {t : Table 4 Owner} {sock : Int} {k : Fin 4} (h : (k : Int) ≠ sock) :
    closeSocket t sock k = t k := if_neg h

theorem closeSocket_eq_some {t : Table 4 Owner} {sock : Int} {k : Fin 4} {w : Owner}
    (h : closeSocket t sock k = some w) : (k : Int) ≠ sock ∧ t k = some w := by
  unfold closeSocket at h
  split at h
  · cases h
  · next hne => exact ⟨hne, h⟩

/-- With descriptor 0 free, the next descriptor is 0. -/
theorem lowest_zero {t : Table 4 Owner} (h : t 0 = none) : lowest t = some 0 := by
  obtain ⟨j, hj⟩ := lowest_isSome h
  rcases Fin.eq_zero_or_eq_succ j with rfl | ⟨i, rfl⟩
  · exact hj
  · exact absurd h (lowest_used hj (Fin.succ_pos i))

/-! ### One lemma for each event -/

theorem openServer_eq {s : State} (hs : Inv s) (hopen : s.opened = false) (hf : s.fetch = none) :
    s.sockets 0 = none ∧ openServer s = { s with
      sockets := Function.update s.sockets 0 (some .server), sockServer := 0, opened := true
      session := s.session + 1, server := .accepting, bound := PortFree s
      queueReader := .blocked } := by
  have hzero : s.sockets 0 = none := by
    rcases (hs.closedServer hopen).2.2 with h | h
    · exact h
    · rw [hs.fetch 0, hf] at h
      cases h
  refine ⟨hzero, ?_⟩
  unfold openServer
  rw [lowest_zero hzero]
  rfl

theorem inv_openServer {s : State} (hs : Inv s) (hopen : s.opened = false) (hf : s.fetch = none) :
    Inv (openServer s) := by
  obtain ⟨hzero, heq⟩ := openServer_eq hs hopen hf
  rw [heq]
  constructor
  · intro _
    exact ⟨rfl, by simp, by simp⟩
  · intro h
    cases h
  · intro k hk
    by_contra hne
    dsimp only at hk
    rw [Function.update_of_ne hne] at hk
    exact hne (hs.server k hk)
  · intro k
    rcases eq_or_ne k 0 with rfl | hne
    · simp [hf]
    · dsimp only
      rw [Function.update_of_ne hne]
      exact hs.fetch k
  · intro r hr hpos
    obtain ⟨k, hk, hsock⟩ := hs.reader r hr hpos
    exact ⟨k, hk, update_kept _ hsock (by simp [hzero])⟩
  · exact hs.apart
  · intro c hc
    cases hc

theorem inv_closeServer {s : State} (hs : Inv s) (hopen : s.opened = true) (hf : s.fetch = none) :
    Inv (closeServer s) := by
  obtain ⟨hsock, hzero, -⟩ := hs.openServer hopen
  constructor
  · intro h
    cases h
  · intro _
    refine ⟨rfl, rfl, Or.inl ?_⟩
    show closeSocket s.sockets s.sockServer 0 = none
    rw [closeSocket, if_pos]
    rw [hsock]
    rfl
  · intro k hk
    exact hs.server k (closeSocket_eq_some hk).2
  · intro k
    show closeSocket s.sockets s.sockServer k = _ ↔ s.fetch = _
    rw [hf]
    constructor
    · intro hk
      rw [(hs.fetch k).mp (closeSocket_eq_some hk).2] at hf
      cases hf
    · intro hk
      cases hk
  · intro r hr hpos
    obtain ⟨k, hk, hkept⟩ := hs.reader r hr hpos
    refine ⟨k, hk, ?_⟩
    show closeSocket s.sockets s.sockServer k = _
    rw [closeSocket_of_ne, hkept]
    rw [hsock]
    intro h0
    have hk0 : k = 0 := Fin.ext (by simpa using h0)
    rw [hk0, hzero] at hkept
    cases hkept
  · exact hs.apart
  · intro c hc
    cases hc

/-- A descriptor that was free is given to a client or a fetch; the other ones keep their owners,
and so do the sockets of the readers. -/
theorem reader_update {s : State} (hs : Inv s) {k : Fin 4} (hfree : s.sockets k = none)
    (w : Option Owner) (r : Reader) (hr : r ∈ s.readers) (hpos : 0 ≤ r.sockClient) :
    ∃ j : Fin 4, (j : Int) = r.sockClient ∧ j ≠ k ∧
      Function.update s.sockets k w j = some (.client r.session) := by
  obtain ⟨j, hj, hsock⟩ := hs.reader r hr hpos
  have hne : j ≠ k := by
    rintro rfl
    rw [hfree] at hsock
    cases hsock
  exact ⟨j, hj, hne, by rw [Function.update_of_ne hne, hsock]⟩

/-- A descriptor given to another owner does not become the server's. -/
theorem server_update {s : State} (hs : Inv s) {k : Fin 4} {w : Option Owner}
    (hw : w ≠ some .server) (j : Fin 4)
    (hj : Function.update s.sockets k w j = some .server) : j = 0 := by
  rcases eq_or_ne j k with rfl | hne
  · rw [Function.update_self] at hj
    exact absurd hj hw
  · rw [Function.update_of_ne hne] at hj
    exact hs.server j hj

theorem inv_accept {s : State} (hs : Inv s) (hsrv : s.server = .accepting) {k : Fin 4}
    (hk : lowest s.sockets = some k) :
    Inv { s with
      sockets := Function.update s.sockets k (some (.client s.session)), server := .handling k } := by
  have hfree := lowest_free hk
  have hopen := hs.opened_of_server (by simp [hsrv])
  obtain ⟨hsock, hzero, -⟩ := hs.openServer hopen
  constructor
  · intro _
    exact ⟨hsock, update_kept _ hzero (by simp [hfree]), by simp⟩
  · intro h
    rw [hopen] at h
    cases h
  · exact fun j hj => server_update hs (by simp) j hj
  · intro j
    rcases eq_or_ne j k with rfl | hne
    · have hnf := hs.fetch j
      rw [hfree] at hnf
      simpa using hnf
    · dsimp only
      rw [Function.update_of_ne hne]
      exact hs.fetch j
  · intro r hr hpos
    obtain ⟨j, hj, -, hsockj⟩ := reader_update hs hfree _ r hr hpos
    exact ⟨j, hj, hsockj⟩
  · exact hs.apart
  · intro c hc hpos
    obtain rfl := ServerTask.handling.inj hc
    -- the descriptor was free, so no reader has it
    refine ⟨⟨k, rfl, Function.update_self _ _ _⟩, fun r hr heq => ?_⟩
    obtain ⟨j, hj, hne, -⟩ := reader_update hs hfree none r hr (heq ▸ hpos)
    exact hne (Fin.ext (by exact_mod_cast hj.trans heq))

theorem inv_acceptFails {s : State} (hs : Inv s) (hsrv : s.server = .accepting) :
    Inv { s with server := .handling (-1) } := by
  have hopen := hs.opened_of_server (by simp [hsrv])
  obtain ⟨hsock, hzero, -⟩ := hs.openServer hopen
  constructor
  · exact fun _ => ⟨hsock, hzero, by simp⟩
  · intro h
    rw [hopen] at h
    cases h
  · exact hs.server
  · exact hs.fetch
  · exact hs.reader
  · exact hs.apart
  · intro c hc hpos
    obtain rfl := ServerTask.handling.inj hc
    omega

theorem inv_finishRound {s : State} (hs : Inv s) {sockClient : Int}
    (hsrv : s.server = .handling sockClient) : Inv (finishRound s sockClient) := by
  have hnext : ∀ t, (if sockClient = 3 then ServerTask.suspended else .accepting) = t →
      t = .suspended ∨ t = .accepting := by
    rintro t rfl
    split
    · exact Or.inl rfl
    · exact Or.inr rfl
  have hopen := hs.opened_of_server (by simp [hsrv])
  obtain ⟨hsock, hzero, -⟩ := hs.openServer hopen
  constructor
  · refine fun _ => ⟨hsock, hzero, fun habsent => ?_⟩
    rcases hnext _ habsent with h | h <;> cases h
  · intro h
    rw [show s.opened = false from h] at hopen
    cases hopen
  · exact hs.server
  · exact hs.fetch
  · intro r hr hpos
    rcases List.mem_append.mp hr with hr | hr
    · exact hs.reader r hr hpos
    · obtain rfl := List.mem_singleton.mp hr
      exact (hs.handling sockClient hsrv hpos).1
  · refine List.pairwise_append.mpr ⟨hs.apart, List.pairwise_singleton _ _, fun r hr r' hr' => ?_⟩
    obtain rfl := List.mem_singleton.mp hr'
    intro hpos heq
    have heq' : r.sockClient = sockClient := heq
    exact (hs.handling sockClient hsrv (heq' ▸ hpos)).2 r hr heq'
  · intro c hc
    rcases hnext _ hc with h | h <;> cases h

theorem inv_disconnect {s : State} (hs : Inv s) {r : Reader} (hr : r ∈ s.readers)
    (hpos : 0 ≤ r.sockClient) :
    Inv { s with
      sockets := closeSocket s.sockets r.sockClient, readers := s.readers.erase r } := by
  obtain ⟨k, hk, hclient⟩ := hs.reader r hr hpos
  have hother : ∀ j w, s.sockets j = some w → w.isClient = false →
      closeSocket s.sockets r.sockClient j = some w := by
    intro j w hj hw
    rw [closeSocket_of_ne, hj]
    intro heq
    obtain rfl : j = k := Fin.ext (by exact_mod_cast heq.trans hk.symm)
    obtain rfl := Option.some.inj (hj.symm.trans hclient)
    cases hw
  -- the list may hold equal readers only if they never close a socket
  have hapart : ∀ r' ∈ s.readers.erase r, r'.sockClient ≠ r.sockClient := by
    have hperm := (List.perm_cons_erase hr).pairwise_iff (fun {a b} => apart_comm a b)
    intro r' hr' heq
    exact (List.pairwise_cons.mp (hperm.mp hs.apart)).1 r' hr' hpos heq.symm
  constructor
  · intro hopen
    obtain ⟨hsock, hzero, hsrv⟩ := hs.openServer hopen
    exact ⟨hsock, hother 0 _ hzero rfl, hsrv⟩
  · intro hclosed
    obtain ⟨hsrv, hq, hzero⟩ := hs.closedServer hclosed
    refine ⟨hsrv, hq, ?_⟩
    rcases hzero with h | h
    · left
      show closeSocket s.sockets r.sockClient 0 = none
      unfold closeSocket
      rw [h, ite_self]
    · exact Or.inr (hother 0 _ h rfl)
  · intro j hj
    exact hs.server j (closeSocket_eq_some hj).2
  · intro j
    rw [← hs.fetch j]
    exact ⟨fun h => (closeSocket_eq_some h).2, fun h => hother j _ h rfl⟩
  · intro r' hr' hpos'
    obtain ⟨j, hj, hsockj⟩ := hs.reader r' (List.mem_of_mem_erase hr') hpos'
    refine ⟨j, hj, ?_⟩
    show closeSocket s.sockets r.sockClient j = _
    rw [closeSocket_of_ne, hsockj]
    rw [hj]
    exact hapart r' hr'
  · exact hs.apart.sublist List.erase_sublist
  · intro c hc hposc
    obtain ⟨⟨j, hj, hsockj⟩, hfree⟩ := hs.handling c hc hposc
    refine ⟨⟨j, hj, ?_⟩, fun r' hr' => hfree r' (List.mem_of_mem_erase hr')⟩
    show closeSocket s.sockets r.sockClient j = _
    rw [closeSocket_of_ne, hsockj]
    rw [hj]
    exact (hfree r hr).symm

/-- A free descriptor goes to a fetch, or the one of a fetch becomes free: nobody else is
concerned. -/
theorem inv_fetchUpdate {s : State} (hs : Inv s) {k : Fin 4} {w : Option Owner}
    {f : Option (Fin 4)} (hold : s.sockets k = none ∨ s.sockets k = some .fetch)
    (hw : w = none ∨ w = some .fetch)
    (hf : ∀ j, Function.update s.sockets k w j = some .fetch ↔ f = some j) :
    Inv { s with sockets := Function.update s.sockets k w, fetch := f } := by
  have hkept : ∀ j v, s.sockets j = some v → v ≠ .fetch →
      Function.update s.sockets k w j = some v := by
    intro j v hj hv
    apply update_kept w hj
    rcases hold with h | h
    · simp [h]
    · rw [h]
      exact fun heq => hv (Option.some.inj heq).symm
  constructor
  · intro hopen
    obtain ⟨hsock, hzero, hsrv⟩ := hs.openServer hopen
    exact ⟨hsock, hkept 0 _ hzero (by simp), hsrv⟩
  · intro hclosed
    obtain ⟨hsrv, hq, hzero⟩ := hs.closedServer hclosed
    refine ⟨hsrv, hq, ?_⟩
    dsimp only
    rcases eq_or_ne (0 : Fin 4) k with rfl | hne
    · rw [Function.update_self]
      exact hw
    · rw [Function.update_of_ne hne]
      exact hzero
  · refine fun j hj => server_update hs ?_ j hj
    rcases hw with rfl | rfl <;> simp
  · exact hf
  · intro r hr hpos
    obtain ⟨j, hj, hsockj⟩ := hs.reader r hr hpos
    exact ⟨j, hj, hkept j _ hsockj (by simp)⟩
  · exact hs.apart
  · intro c hc hpos
    obtain ⟨⟨j, hj, hsockj⟩, hother⟩ := hs.handling c hc hpos
    exact ⟨⟨j, hj, hkept j _ hsockj (by simp)⟩, hother⟩

theorem inv_fetchBegin {s : State} (hs : Inv s) (hf : s.fetch = none) {k : Fin 4}
    (hk : lowest s.sockets = some k) :
    Inv { s with
      sockets := Function.update s.sockets k (some .fetch), fetch := some k } := by
  refine inv_fetchUpdate hs (Or.inl (lowest_free hk)) (Or.inr rfl) fun j => ?_
  rcases eq_or_ne j k with rfl | hne
  · simp
  · rw [Function.update_of_ne hne, hs.fetch j, hf]
    simpa using hne.symm

theorem inv_fetchEnd {s : State} (hs : Inv s) {k : Fin 4} (hf : s.fetch = some k) :
    Inv { s with sockets := Function.update s.sockets k none, fetch := none } := by
  refine inv_fetchUpdate hs (Or.inr ((hs.fetch k).mpr hf)) (Or.inl rfl) fun j => ?_
  rcases eq_or_ne j k with rfl | hne
  · simp
  · rw [Function.update_of_ne hne, hs.fetch j, hf]
    simpa using hne.symm

/-- **What a step does.**  The enabled events with their effects, one case for each. -/
inductive Effect (s : State) : Event → State → Prop where
  | openClick (hf : s.fetch = none) (h : s.opened = false) : Effect s .click (openServer s)
  | closeClick (hf : s.fetch = none) (h : s.opened = true) : Effect s .click (closeServer s)
  | accept {k : Fin 4} (h : s.server = .accepting) (hbound : s.bound = true)
    (hk : lowest s.sockets = some k) : Effect s .accept { s with
      sockets := Function.update s.sockets k (some (.client s.session)), server := .handling k }
  | acceptFails (h : s.server = .accepting) :
    Effect s .acceptFails { s with server := .handling (-1) }
  | finish {sockClient : Int} (h : s.server = .handling sockClient) :
    Effect s .finish (finishRound s sockClient)
  | disconnect {r : Reader} (hr : r ∈ s.readers) (hpos : 0 ≤ r.sockClient) :
    Effect s (.disconnect r) { s with
      sockets := closeSocket s.sockets r.sockClient, readers := s.readers.erase r }
  | send {r : Reader} (hr : r ∈ s.readers) :
    Effect s (.send r) { s with queue := s.queue ++ [⟨r.sockClient, r.session⟩] }
  | receive {item : Item} {queue : List Item} (h : s.queueReader = .blocked)
    (hq : s.queue = item :: queue) :
    Effect s .receive { s with queueReader := .holding item, queue := queue }
  | copy {item : Item} (h : s.queueReader = .holding item) :
    Effect s .copy { s with
      queueReader := .blocked, copies := s.copies ++ copied item s.session }
  | fetchBegin {k : Fin 4} (hf : s.fetch = none) (hk : lowest s.sockets = some k) :
    Effect s .fetchBegin { s with
      sockets := Function.update s.sockets k (some .fetch), fetch := some k }
  | fetchFails (hf : s.fetch = none) (hk : lowest s.sockets = none) : Effect s .fetchBegin s
  | fetchEnd {k : Fin 4} (hf : s.fetch = some k) :
    Effect s .fetchEnd { s with sockets := Function.update s.sockets k none, fetch := none }
  | linger (lingering : Bool) : Effect s (.linger lingering) { s with lingering := lingering }

theorem step_effect {s t : State} {e : Event} (h : step s e = some t) : Effect s e t := by
  cases e with
  | click =>
    dsimp only [step] at h
    split at h
    · next hf =>
      obtain rfl := Option.some.inj h
      cases hopen : s.opened with
      | true => exact .closeClick hf hopen
      | false => exact .openClick hf hopen
    · cases h
  | accept =>
    dsimp only [step] at h
    split at h
    · next k hsrv hbound hk =>
      obtain rfl := Option.some.inj h
      exact .accept hsrv hbound hk
    · cases h
  | acceptFails =>
    dsimp only [step] at h
    split at h
    · next hsrv =>
      obtain rfl := Option.some.inj h
      exact .acceptFails hsrv
    · cases h
  | finish =>
    dsimp only [step] at h
    split at h
    · next sockClient hsrv =>
      obtain rfl := Option.some.inj h
      exact .finish hsrv
    · cases h
  | disconnect r =>
    dsimp only [step] at h
    split at h
    · next hr =>
      obtain rfl := Option.some.inj h
      exact .disconnect hr.1 hr.2
    · cases h
  | send r =>
    dsimp only [step] at h
    split at h
    · next hr =>
      obtain rfl := Option.some.inj h
      exact .send hr.1
    · cases h
  | receive =>
    dsimp only [step] at h
    split at h
    · next item queue hblocked hq =>
      obtain rfl := Option.some.inj h
      exact .receive hblocked hq
    · cases h
  | copy =>
    dsimp only [step] at h
    split at h
    · next item hholding =>
      obtain rfl := Option.some.inj h
      exact .copy hholding
    · cases h
  | fetchBegin =>
    dsimp only [step] at h
    split at h
    · next k hf hk =>
      obtain rfl := Option.some.inj h
      exact .fetchBegin hf hk
    · next hf hk =>
      obtain rfl := Option.some.inj h
      exact .fetchFails hf hk
    · cases h
  | fetchEnd =>
    dsimp only [step] at h
    split at h
    · next k hf =>
      obtain rfl := Option.some.inj h
      exact .fetchEnd hf
    · cases h
  | linger lingering =>
    obtain rfl := Option.some.inj h
    exact .linger lingering

theorem inv_step {s t : State} {e : Event} (hs : Inv s) (h : step s e = some t) : Inv t := by
  cases step_effect h with
  | openClick hf hopen => exact inv_openServer hs hopen hf
  | closeClick hf hopen => exact inv_closeServer hs hopen hf
  | accept hsrv hbound hk => exact inv_accept hs hsrv hk
  | acceptFails hsrv => exact inv_acceptFails hs hsrv
  | finish hsrv => exact inv_finishRound hs hsrv
  | disconnect hr hpos => exact inv_disconnect hs hr hpos
  | send hr => exact ⟨hs.1, hs.2, hs.3, hs.4, hs.5, hs.6, hs.7⟩
  | receive hblocked hq =>
    -- the queue reader appears again only where it was
    have hopen := hs.opened_of_queueReader (by rw [hblocked]; simp)
    refine ⟨hs.1, fun hclosed => ?_, hs.3, hs.4, hs.5, hs.6, hs.7⟩
    rw [show s.opened = false from hclosed] at hopen
    cases hopen
  | copy hholding =>
    have hopen := hs.opened_of_queueReader (by rw [hholding]; simp)
    refine ⟨hs.1, fun hclosed => ?_, hs.3, hs.4, hs.5, hs.6, hs.7⟩
    rw [show s.opened = false from hclosed] at hopen
    cases hopen
  | fetchBegin hf hk => exact inv_fetchBegin hs hf hk
  | fetchFails => exact hs
  | fetchEnd hf => exact inv_fetchEnd hs hf
  | linger => exact ⟨hs.1, hs.2, hs.3, hs.4, hs.5, hs.6, hs.7⟩

end EmWinDemo.Socket.Sessions
