/-
# EmWinDemo.Socket.Relay -- from the clients' sockets to the display strings

The reader tasks of the connected clients, `Socket_Queue` and the queue reader as one transition
system.  A client task alternates between `read` and `xQueueSend`; the queue holds ten items and a
send that finds it full either goes on waiting or gives up; the queue reader alternates between
`xQueueReceive` and the copy into a display string.  Any interleaving of these steps is a run.

The client's buffer is cleared before its loop and never in it, so what an item says depends on
the chunks before the last one.  `Terminated` is the exact condition for the copy to show the
chunk and nothing else, and `always_faithful` says that runs which send no other items are
faithful: whenever the queue has been drained, every string is the last chunk of its client.
-/
import EmWinDemo.Lib.Runs
import EmWinDemo.Lib.Fifo
import EmWinDemo.Socket.ClientRead
import EmWinDemo.Socket.QueueRead
import Mathlib.Logic.Function.Basic

namespace EmWinDemo.Socket.Relay

open EmWinDemo.Lib.CMemory EmWinDemo.Lib.Runs EmWinDemo.Lib.Fifo
open EmWinDemo.Socket.ClientRead EmWinDemo.Socket.QueueRead

/-! ## States and steps -/

/-- `SOCKETQUEUE_LENTH` -/
def socketQueueLength : Nat := 10

/-- Where a client task stands in its loop. -/
inductive ClientPc where
  /-- blocked in `read` -/
  | reading
  /-- about to send, or blocked in `xQueueSend`, after `read` delivered `chunk` -/
  | sending (chunk : Bytes)
  /-- behind the loop -/
  | left
  deriving Repr, DecidableEq

structure Client where
  msgBuffer : Bytes
  pc : ClientPc
  deriving Repr, DecidableEq

/-- Where the queue reader stands in its loop. -/
inductive ReaderPc where
  /-- blocked in `xQueueReceive` -/
  | blocked
  /-- an item is in the local array, not yet copied -/
  | received
  /-- returned from the task function -/
  | returned
  /-- a copy left its arrays: nothing is known about the memory any more -/
  | undefined
  deriving Repr, DecidableEq

/-- `sent` is a ghost: the chunks whose `xQueueSend` succeeded, with their clients, in order. -/
structure State where
  client : Nat → Option Client
  socketQueue : List Bytes
  reader : ReaderPc
  frame : Frame
  strings : Strings
  sent : List (Nat × Bytes)

inductive Event where
  /-- `read` of client `k` returns `chunk.length` bytes -/
  | read (k : Nat) (chunk : Bytes)
  /-- `xQueueSend` of client `k` succeeds -/
  | send (k : Nat)
  /-- `xQueueSend` of client `k` gives up after 134 ticks, the queue being full -/
  | timeout (k : Nat)
  | receive
  /-- scan and copy; `junk` is used as the length if `FindQueueEnd` returns none -/
  | copy (junk : Int)
  deriving Repr, DecidableEq

/-- The client tasks `ids` have just been created, nothing has been received yet. -/
def init (ids : List Nat) : State where
  client k := if k ∈ ids then some ⟨startBuffer k, .reading⟩ else none
  socketQueue := []
  reader := .blocked
  frame := Frame.init
  strings := Strings.init
  sent := []

def State.setClient (s : State) (k : Nat) (c : Client) : State :=
  { s with client := Function.update s.client k (some c) }

/-- The scan and the `switch` of `vTaskQueueRead` on the item in the local array. -/
def copyStep (junk : Int) (s : State) : State :=
  let len := msgLen junk s.frame
  if len = -1 then { s with reader := .returned }
  else match copyMessage s.frame len s.strings with
    | some strings => { s with reader := .blocked, strings := strings }
    | none => { s with reader := .undefined }

def step (s : State) : Event → Option State
  | .read k chunk =>
    match s.client k with
    | some ⟨buf, .reading⟩ =>
      if ValidChunk chunk then
        some (s.setClient k ⟨readInto buf (.chunk chunk),
          if leavesLoop (.chunk chunk) then .left else .sending chunk⟩)
      else none
    | _ => none
  | .send k =>
    match s.client k with
    | some ⟨buf, .sending chunk⟩ =>
      if s.socketQueue.length < socketQueueLength then
        some { s.setClient k ⟨buf, .reading⟩ with
          socketQueue := s.socketQueue ++ [buf]
          sent := s.sent ++ [(k, chunk)] }
      else none
    | _ => none
  | .timeout k =>
    match s.client k with
    | some ⟨buf, .sending _⟩ =>
      if s.socketQueue.length < socketQueueLength then none
      else some (s.setClient k ⟨buf, .reading⟩)
    | _ => none
  | .receive =>
    match s.reader, s.socketQueue with
    | .blocked, item :: rest =>
      some { s with reader := .received, frame := xQueueReceive item, socketQueue := rest }
    | _, _ => none
  | .copy junk =>
    match s.reader with
    | .received => some (copyStep junk s)
    | _ => none

/-! ## What the system promises -/

/-- What a chunk should look like on the display: its longest NUL-free prefix, cut to the 133
bytes that fit in front of the terminator of a display string. -/
def shown (chunk : Bytes) : Bytes := (cstr chunk).take (msgNum - 1)

/-- The expected contents of `SocketString_k`. -/
def expected (s : State) (k : Nat) : Bytes := ((lastFor k s.sent).map shown).getD []

/-- Whenever the queue is empty and the reader blocked, each string is its client's last chunk. -/
def Faithful (s : State) : Prop :=
  s.socketQueue = [] → s.reader = .blocked →
    ∀ k, k = 1 ∨ k = 2 ∨ k = 3 → cstr (s.strings.ofClient k) = expected s k

/-- The chunk ends at a NUL where the reader looks for one: inside its own first 133 bytes, or
right behind it, the buffer still being clear there. -/
def Terminated (msgBuffer chunk : Bytes) : Prop :=
  (0 : UInt8) ∈ chunk.take (msgNum - 1) ∨
    (chunk.length < msgNum - 1 ∧ msgBuffer[1 + chunk.length]? = some 0)

instance (msgBuffer chunk : Bytes) : Decidable (Terminated msgBuffer chunk) :=
  inferInstanceAs (Decidable (_ ∨ _))

/-- No client sends a buffer in which the chunk just read is not terminated. -/
def SendsTerminated (s : State) : Event → Prop
  | .send k =>
    match s.client k with
    | some ⟨buf, .sending chunk⟩ => Terminated buf chunk
    | _ => True
  | _ => True

instance (s : State) : (e : Event) → Decidable (SendsTerminated s e)
  | .send k =>
    match h : s.client k with
    | some ⟨buf, .sending chunk⟩ =>
      decidable_of_iff (Terminated buf chunk) (by simp [SendsTerminated, h])
    | some ⟨_, .reading⟩ => isTrue (by simp [SendsTerminated, h])
    | some ⟨_, .left⟩ => isTrue (by simp [SendsTerminated, h])
    | none => isTrue (by simp [SendsTerminated, h])
  | .read _ _ => isTrue trivial
  | .timeout _ => isTrue trivial
  | .receive => isTrue trivial
  | .copy _ => isTrue trivial

/-! ## What each step does -/

theorem step_read {s t : State} {k : Nat} {chunk : Bytes} (h : step s (.read k chunk) = some t) :
    ∃ buf, s.client k = some ⟨buf, .reading⟩ ∧ ValidChunk chunk ∧
      t = s.setClient k ⟨readInto buf (.chunk chunk), .sending chunk⟩ := by
  simp only [step] at h
  split at h
  · rename_i buf hc
    split at h
    · rename_i hv
      refine ⟨buf, hc, hv, ?_⟩
      rw [leavesLoop_chunk hv] at h
      exact (Option.some.inj h).symm
    · cases h
  · cases h

theorem step_send {s t : State} {k : Nat} (h : step s (.send k) = some t) :
    ∃ buf chunk, s.client k = some ⟨buf, .sending chunk⟩ ∧
      t = { s.setClient k ⟨buf, .reading⟩ with
        socketQueue := s.socketQueue ++ [buf]
        sent := s.sent ++ [(k, chunk)] } := by
  simp only [step] at h
  split at h
  · rename_i buf chunk hc
    split at h
    · exact ⟨buf, chunk, hc, (Option.some.inj h).symm⟩
    · cases h
  · cases h

theorem step_timeout {s t : State} {k : Nat} (h : step s (.timeout k) = some t) :
    ∃ buf chunk, s.client k = some ⟨buf, .sending chunk⟩ ∧ t = s.setClient k ⟨buf, .reading⟩ := by
  simp only [step] at h
  split at h
  · rename_i buf chunk hc
    split at h
    · cases h
    · exact ⟨buf, chunk, hc, (Option.some.inj h).symm⟩
  · cases h

theorem step_receive {s t : State} (h : step s .receive = some t) :
    ∃ item rest, s.reader = .blocked ∧ s.socketQueue = item :: rest ∧
      t = { s with reader := .received, frame := xQueueReceive item, socketQueue := rest } := by
  simp only [step] at h
  split at h
  · rename_i item rest hr hq
    exact ⟨item, rest, hr, hq, (Option.some.inj h).symm⟩
  · cases h

theorem step_copy {s t : State} {junk : Int} (h : step s (.copy junk) = some t) :
    s.reader = .received ∧ t = copyStep junk s := by
  simp only [step] at h
  split at h
  · rename_i hr
    exact ⟨hr, (Option.some.inj h).symm⟩
  · cases h

/-! ## Items that carry exactly one chunk -/

/-- The ids that the reader's `switch` routes. -/
def Routed (k : Nat) : Prop := k = 1 ∨ k = 2 ∨ k = 3

theorem toChar_of_routed {k : Nat} (h : Routed k) : toChar k = UInt8.ofNat k := by
  rcases h with rfl | rfl | rfl <;> rfl

/-- The item is the buffer of client `k` and displays as `chunk`. -/
def Carries (item : Bytes) (m : Nat × Bytes) : Prop :=
  Routed m.1 ∧ ∃ payload, item = UInt8.ofNat m.1 :: payload ∧ payload.length = readSize ∧
    (0 : UInt8) ∈ payload.take (msgNum - 1) ∧ cstr payload = shown m.2

/-- The state of one client task: its buffer, and the chunk just read at the front of it. -/
structure ClientOk (k : Nat) (c : Client) : Prop where
  routed : Routed k
  buffer : BufferOf k c.msgBuffer
  chunk : ∀ chunk, c.pc = .sending chunk → ∃ rest, c.msgBuffer = toChar k :: (chunk ++ rest)

theorem clientOk_start {k : Nat} (hk : Routed k) : ClientOk k ⟨startBuffer k, .reading⟩ :=
  ⟨hk, startBuffer_bufferOf k, by intro chunk h; cases h⟩

theorem ClientOk.reading {k : Nat} {buf : Bytes} {pc : ClientPc} (h : ClientOk k ⟨buf, pc⟩) :
    ClientOk k ⟨buf, .reading⟩ :=
  ⟨h.routed, h.buffer, by intro chunk hc; cases hc⟩

theorem ClientOk.read {k : Nat} {buf chunk : Bytes} {pc : ClientPc} (h : ClientOk k ⟨buf, pc⟩)
    (hv : ValidChunk chunk) :
    ClientOk k ⟨readInto buf (.chunk chunk), .sending chunk⟩ := by
  refine ⟨h.routed, h.buffer.readInto hv, ?_⟩
  rintro c ⟨⟩
  obtain ⟨rest, hbuf, -⟩ := h.buffer.exists_cons
  have hbuf : buf = toChar k :: rest := hbuf
  refine ⟨rest.drop chunk.length, ?_⟩
  show readInto buf (.chunk chunk) = _
  rw [hbuf, readInto, store_one_cons, store_zero]

/-- A terminated chunk displays as itself, whatever earlier chunks left behind it. -/
theorem carries_of_terminated {k : Nat} {buf chunk : Bytes}
    (h : ClientOk k ⟨buf, .sending chunk⟩) (ht : Terminated buf chunk) :
    Carries buf (k, chunk) := by
  obtain ⟨rest, hbuf⟩ := h.chunk chunk rfl
  have hbuf : buf = toChar k :: (chunk ++ rest) := hbuf
  have hlen : (chunk ++ rest).length = readSize := by
    have h135 : buf.length = itemSize := h.buffer.length
    rw [hbuf, List.length_cons] at h135
    exact Nat.succ.inj h135
  refine ⟨h.routed, chunk ++ rest, by rw [hbuf, toChar_of_routed h.routed], hlen, ?_⟩
  by_cases hz : (0 : UInt8) ∈ chunk.take (msgNum - 1)
  · -- the chunk brings its own terminator
    obtain ⟨hmem, hcut⟩ := zero_mem_take_iff.mp hz
    have hc : cstr (chunk ++ rest) = cstr chunk := cstr_append_of_zero_mem hmem rest
    refine ⟨zero_mem_take_iff.mpr ⟨List.mem_append_left _ hmem, by rwa [hc]⟩, ?_⟩
    rw [hc, shown, List.take_of_length_le (le_of_lt hcut)]
  · -- the buffer is still clear right behind the chunk
    obtain ⟨hshort, hnul⟩ := ht.resolve_left hz
    have hfree : (0 : UInt8) ∉ chunk := by
      rwa [List.take_of_length_le (le_of_lt hshort)] at hz
    obtain ⟨tail, hrest⟩ : ∃ tail, rest = 0 :: tail := by
      rw [hbuf, Nat.add_comm, List.getElem?_cons_succ, List.getElem?_append_right (le_refl _),
        Nat.sub_self] at hnul
      cases rest with
      | nil => simp at hnul
      | cons b tail => exact ⟨tail, by simpa using hnul⟩
    have hc : cstr (chunk ++ rest) = chunk := by rw [hrest, cstr_append_zero hfree]
    refine ⟨zero_mem_take_iff.mpr ⟨by simp [hrest], by rwa [hc]⟩, ?_⟩
    rw [hc, shown, cstr_of_zero_not_mem hfree, List.take_of_length_le (le_of_lt hshort)]

/-! ## The invariant of faithful runs -/

/-- The item in the local array and the byte behind it. -/
def frameItem (f : Frame) : Bytes := f.msgBuffer ++ [f.past]

theorem frameItem_xQueueReceive {item : Bytes} (h : item.length = itemSize) :
    frameItem (xQueueReceive item) = item := by
  have hlast : [item.getD msgNum 0] = item.drop msgNum := by
    have hlt : msgNum < item.length := by rw [h]; decide
    rw [List.drop_eq_getElem_cons hlt, List.drop_eq_nil_of_le (by rw [h]; decide),
      List.getD_eq_getElem?_getD, List.getElem?_eq_getElem hlt, Option.getD_some]
  rw [frameItem, xQueueReceive, hlast, List.take_append_drop]

/-- The items sent and not yet copied, oldest first. -/
def inTransit (s : State) : List Bytes :=
  match s.reader with
  | .received => frameItem s.frame :: s.socketQueue
  | _ => s.socketQueue

/-- Each string shows the last chunk of its client in `handled`. -/
def Shows (strings : Strings) (handled : List (Nat × Bytes)) : Prop :=
  ∀ k, Routed k → cstr (strings.ofClient k) = ((lastFor k handled).map shown).getD []

structure Inv (s : State) : Prop where
  clients : ∀ k c, s.client k = some c → ClientOk k c
  sized : s.strings.Sized
  history : ∃ handled, Tracks Carries s.sent handled (inTransit s) ∧ Shows s.strings handled

theorem inv_init {ids : List Nat} (hids : ∀ k ∈ ids, Routed k) : Inv (init ids) := by
  refine ⟨?_, Strings.init_sized, [], tracks_nil, ?_⟩
  · intro k c hc
    simp only [init] at hc
    split at hc
    · rename_i hk
      obtain rfl := Option.some.inj hc
      exact clientOk_start (hids k hk)
    · cases hc
  · intro k hk
    rcases hk with rfl | rfl | rfl <;> exact cstr_replicate msgNum

/-- Replacing one client by a sound one keeps them all sound. -/
theorem Inv.setClient {s : State} (h : Inv s) {k : Nat} {c : Client} (hc : ClientOk k c) :
    ∀ j d, (s.setClient k c).client j = some d → ClientOk j d := by
  intro j d hd
  by_cases hj : j = k
  · subst hj
    obtain rfl : c = d := by simpa [State.setClient] using hd
    exact hc
  · exact h.clients j d (by simpa [State.setClient, hj] using hd)

/-- Copying an item that carries a chunk handles that chunk. -/
theorem copyStep_carries {s : State} {m : Nat × Bytes} {handled : List (Nat × Bytes)} (junk : Int)
    (hs : s.strings.Sized) (hm : Carries (frameItem s.frame) m) (hshow : Shows s.strings handled)
    (hlen : s.frame.msgBuffer.length = msgNum) :
    ∃ strings, copyStep junk s = { s with reader := .blocked, strings := strings } ∧
      strings.Sized ∧ Shows strings (handled ++ [m]) := by
  obtain ⟨hk, payload, hitem, hplen, hzero, hstr⟩ := hm
  have hbuf : s.frame.msgBuffer = UInt8.ofNat m.1 :: payload.take (msgNum - 1) := by
    have htake := congrArg (List.take msgNum) hitem
    rwa [frameItem, ← hlen, List.take_left, hlen] at htake
  have hp : (payload.take (msgNum - 1)).length = 133 := by
    rw [List.length_take, hplen]; rfl
  obtain ⟨strings, hcopy, hsized, hself, hother⟩ :=
    copyMessage_terminated junk hk hbuf hp hzero hs
  refine ⟨strings, ?_, hsized, ?_⟩
  · have hne : msgLen junk s.frame ≠ -1 := by
      have hmem : (0 : UInt8) ∈ s.frame.msgBuffer.take msgNum := by
        rw [← hlen, List.take_length, hbuf]
        exact List.mem_cons_of_mem _ hzero
      rw [msgLen, findQueueEnd_of_mem hmem]
      intro h
      simp only [Option.getD_some] at h
      omega
    rw [copyStep, if_neg hne, hcopy]
  · intro j hj
    rw [lastFor_concat]
    by_cases hjk : m.1 = j
    · subst hjk
      rw [if_pos rfl, hself, cstr_take hzero, hstr]
      rfl
    · rw [if_neg hjk, hother j fun h => hjk h.symm]
      exact hshow j hj

/-- The local array always holds `MSG_NUM` bytes while an item is in it. -/
def FrameFilled (s : State) : Prop := s.reader = .received → s.frame.msgBuffer.length = msgNum

theorem inv_step {s t : State} {e : Event} (h : Inv s) (hf : FrameFilled s)
    (hok : SendsTerminated s e) (ht : step s e = some t) : Inv t ∧ FrameFilled t := by
  obtain ⟨handled, htrack, hshow⟩ := h.history
  cases e with
  | read k chunk =>
    obtain ⟨buf, hc, hv, rfl⟩ := step_read ht
    exact ⟨⟨h.setClient ((h.clients k _ hc).read hv), h.sized, handled, htrack, hshow⟩, hf⟩
  | send k =>
    obtain ⟨buf, chunk, hc, rfl⟩ := step_send ht
    have hclient := h.clients k _ hc
    have hterm : Terminated buf chunk := by simpa [SendsTerminated, hc] using hok
    have hcarries := carries_of_terminated hclient hterm
    refine ⟨⟨h.setClient hclient.reading, h.sized, handled, ?_, hshow⟩, hf⟩
    have hsent := htrack.send hcarries
    cases hr : s.reader <;> simpa [inTransit, State.setClient, hr] using hsent
  | timeout k =>
    obtain ⟨buf, chunk, hc, rfl⟩ := step_timeout ht
    exact ⟨⟨h.setClient (h.clients k _ hc).reading, h.sized, handled, htrack, hshow⟩, hf⟩
  | receive =>
    obtain ⟨item, rest, hr, hq, rfl⟩ := step_receive ht
    have hitem : item.length = itemSize := by
      rw [inTransit, hr, hq] at htrack
      obtain ⟨m, ⟨-, payload, rfl, hplen, -⟩, -⟩ := htrack.receive
      rw [List.length_cons, hplen]
      rfl
    refine ⟨⟨h.clients, h.sized, handled, ?_, hshow⟩, ?_⟩
    · show Tracks Carries s.sent handled (frameItem (xQueueReceive item) :: rest)
      rw [frameItem_xQueueReceive hitem]
      simpa [inTransit, hr, hq] using htrack
    · intro _
      show (item.take msgNum).length = msgNum
      rw [List.length_take, hitem]
      rfl
  | copy junk =>
    obtain ⟨hr, rfl⟩ := step_copy ht
    rw [inTransit, hr] at htrack
    obtain ⟨m, hm, hnext⟩ := htrack.receive
    obtain ⟨strings, hcopy, hsized, hshow'⟩ :=
      copyStep_carries junk h.sized hm hshow (hf hr)
    rw [hcopy]
    exact ⟨⟨h.clients, hsized, handled ++ [m], hnext, hshow'⟩, by intro hc; cases hc⟩

theorem Inv.faithful {s : State} (h : Inv s) : Faithful s := by
  intro hq hr k hk
  obtain ⟨handled, htrack, hshow⟩ := h.history
  rw [inTransit, hr, hq] at htrack
  rw [expected, htrack.drained]
  exact hshow k hk

/-! ## Message integrity -/

/-- **Message integrity.** For every set of clients and every interleaving of their reads and
sends with the queue reader: if no client sends a chunk that is not terminated in its buffer, then
in every state of the run in which the queue is empty and the reader blocked, `SocketString_k` is
exactly the last chunk client `k` has sent. -/
theorem always_faithful (ids : List Nat) (hids : ∀ k ∈ ids, Routed k) (events : List Event)
    (hsends : EachStep step SendsTerminated (init ids) events) :
    Always step Faithful (init ids) events := by
  have hstart : Inv (init ids) ∧ FrameFilled (init ids) :=
    ⟨inv_init hids, by intro h; cases h⟩
  have hkeep : ∀ s e t, Inv s ∧ FrameFilled s → SendsTerminated s e → step s e = some t →
      Inv t ∧ FrameFilled t := by
    intro s e t h hok ht
    exact inv_step h.1 h.2 hok ht
  exact (always_of_eachStep hkeep hstart hsends).mono fun s h => h.1.faithful

/-- Two clients, one of which sends a shorter message after one that brought its own NUL. -/
theorem always_faithful_twoClients :
    Always step Faithful (init [1, 2])
      [.read 1 [0x68, 0x65, 0x79, 0], .read 2 [0x79, 0x6f], .send 1, .send 2, .receive, .copy 0,
        .read 1 [0x79, 0x6f, 0], .send 1, .receive, .copy 0, .receive, .copy 0] := by
  refine always_faithful [1, 2] ?_ _ ?_
  · intro k hk
    simp only [List.mem_cons, List.not_mem_nil, or_false] at hk
    rcases hk with rfl | rfl
    · exact Or.inl rfl
    · exact Or.inr (Or.inl rfl)
  · decide +kernel

/-- `hello`, then `hi`, from one client: `SocketString_1` ends up as `hillo`. -/
theorem not_always_faithful :
    ¬ ∀ ids : List Nat, (∀ k ∈ ids, Routed k) → ∀ events : List Event,
      Always step Faithful (init ids) events := by
  intro hall
  let events : List Event :=
    [.read 1 [0x68, 0x65, 0x6c, 0x6c, 0x6f], .send 1, .receive, .copy 0,
      .read 1 [0x68, 0x69], .send 1, .receive, .copy 0]
  have hend : (exec step (init [1]) events).map
      (fun s => (s.socketQueue, s.reader, cstr s.strings.socketString1, expected s 1)) =
      some ([], .blocked, [0x68, 0x69, 0x6c, 0x6c, 0x6f], [0x68, 0x69]) := by decide +kernel
  obtain ⟨t, hrun, ht⟩ := Option.map_eq_some_iff.mp hend
  simp only [Prod.mk.injEq] at ht
  obtain ⟨hq, hr, hstr, hexp⟩ := ht
  have hids : ∀ k ∈ [1], Routed k := by
    intro k hk
    exact Or.inl (List.mem_singleton.mp hk)
  have hfaith := (hall [1] hids events).last hrun hq hr 1 (Or.inl rfl)
  rw [hexp] at hfaith
  exact absurd (hstr.symm.trans hfaith) (by decide)

end EmWinDemo.Socket.Relay
