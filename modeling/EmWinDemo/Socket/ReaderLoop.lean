/-
# EmWinDemo.Socket.ReaderLoop -- what a reader task does with the results of `read`

The loop of `isocketClientRead` (usr_socket.c) and the three statements after it, against any
sequence of results that the calls of `read` can have.  The only exit of the loop is the test for
zero.  An error has the value -1, which passes the test: the task sends its buffer once more and
calls `read` again, on a connection that is gone.

`always_oneSend_iff` says that the loop handles its results as it should exactly as long as none
of them is an error.
-/
import EmWinDemo.Lib.Runs
import EmWinDemo.Socket.ClientRead
import Mathlib.Data.List.Forall2

namespace EmWinDemo.Socket.ReaderLoop

open EmWinDemo.Lib.CMemory EmWinDemo.Lib.Runs EmWinDemo.Socket.ClientRead

/-! ## The task -/

/-- The calls that the rest of the system notices. -/
inductive Call where
  /-- `xQueueSend(Socket_Queue, msg_buffer, 134)`, successful or not -/
  | xQueueSend (item : Bytes)
  | free
  | close
  | vTaskDelete
  deriving Repr, DecidableEq

/-- `results` is a ghost: what the calls of `read` have returned. -/
structure Task where
  msgBuffer : Bytes
  inLoop : Bool
  calls : List Call
  results : List ReadResult
  deriving Repr, DecidableEq

def start (sockClient : Int) : Task := ⟨startBuffer sockClient, true, [], []⟩

/-- What `read` with a length of 134 can return. -/
def CanReturn : ReadResult → Prop
  | .chunk bytes => ValidChunk bytes
  | .closed => True
  | .failed => True

instance : (r : ReadResult) → Decidable (CanReturn r)
  | .chunk bytes => inferInstanceAs (Decidable (ValidChunk bytes))
  | .closed => isTrue trivial
  | .failed => isTrue trivial

/-- One round of the loop, and what follows the loop in the round that leaves it. -/
def step (t : Task) (r : ReadResult) : Option Task :=
  if t.inLoop = true ∧ CanReturn r then
    if leavesLoop r then some { t with
      inLoop := false, calls := t.calls ++ [.free, .close, .vTaskDelete]
      results := t.results ++ [r] }
    else some { t with
      msgBuffer := readInto t.msgBuffer r
      calls := t.calls ++ [.xQueueSend (readInto t.msgBuffer r)], results := t.results ++ [r] }
  else none

/-! ## What the loop promises -/

/-- The chunks among the results. -/
def chunks (results : List ReadResult) : List Bytes :=
  results.filterMap fun
    | .chunk bytes => some bytes
    | .closed => none
    | .failed => none

/-- The items among the calls. -/
def items (calls : List Call) : List Bytes :=
  calls.filterMap fun
    | .xQueueSend item => some item
    | .free => none
    | .close => none
    | .vTaskDelete => none

/-- An item of the client that starts with the chunk. -/
def Carries (sockClient : Int) (chunk item : Bytes) : Prop :=
  BufferOf sockClient item ∧ ∃ rest, item = toChar sockClient :: (chunk ++ rest)

structure OneSend (sockClient : Int) (t : Task) : Prop where
  /-- one send for each chunk, in order, and no other send -/
  sends : List.Forall₂ (Carries sockClient) (chunks t.results) (items t.calls)
  /-- a result that is not positive ends the loop … -/
  leaves : t.inLoop = false ↔ ∃ r ∈ t.results, r.value ≤ 0
  /-- … and is the last one -/
  last : ∀ r ∈ t.results.dropLast, 0 < r.value
  freed : t.calls.count .free = if t.inLoop then 0 else 1
  closed : t.calls.count .close = if t.inLoop then 0 else 1

/-! ## The invariant -/

structure Inv (sockClient : Int) (t : Task) : Prop where
  buffer : BufferOf sockClient t.msgBuffer
  law : OneSend sockClient t

theorem inv_start (sockClient : Int) : Inv sockClient (start sockClient) where
  buffer := startBuffer_bufferOf sockClient
  law := by
    constructor
    · exact .nil
    · simp [start]
    · simp [start]
    · rfl
    · rfl

/-- In the loop every result so far was positive. -/
theorem OneSend.positive {sockClient : Int} {t : Task} (h : OneSend sockClient t)
    (hloop : t.inLoop = true) {r : ReadResult} (hr : r ∈ t.results) : 0 < r.value := by
  by_contra hle
  have hleft := h.leaves.mpr ⟨r, hr, Int.not_lt.mp hle⟩
  rw [hloop] at hleft
  cases hleft

theorem ReadResult.value_pos {bytes : Bytes} (h : ValidChunk bytes) :
    0 < (ReadResult.chunk bytes).value := by
  show (0 : Int) < bytes.length
  exact_mod_cast h.1

/-- A chunk starts the buffer it has been read into. -/
theorem carries_readInto {sockClient : Int} {msgBuffer bytes : Bytes}
    (h : BufferOf sockClient msgBuffer) (hv : ValidChunk bytes) :
    Carries sockClient bytes (readInto msgBuffer (.chunk bytes)) := by
  refine ⟨h.readInto hv, ?_⟩
  obtain ⟨rest, rfl, -⟩ := h.exists_cons
  exact ⟨rest.drop bytes.length, by rw [readInto, store_one_cons, store_zero]⟩

/-- A round that has read a chunk. -/
theorem inv_chunk {sockClient : Int} {t : Task} (h : Inv sockClient t) (hloop : t.inLoop = true)
    {bytes : Bytes} (hv : ValidChunk bytes) :
    Inv sockClient { t with
      msgBuffer := readInto t.msgBuffer (.chunk bytes)
      calls := t.calls ++ [.xQueueSend (readInto t.msgBuffer (.chunk bytes))]
      results := t.results ++ [.chunk bytes] } := by
  have hcarries := carries_readInto h.buffer hv
  refine ⟨hcarries.1, ?_, ?_, ?_, ?_, ?_⟩
  · have hone : List.Forall₂ (Carries sockClient) [bytes]
        [readInto t.msgBuffer (.chunk bytes)] := .cons hcarries .nil
    simpa [chunks, items] using List.rel_append h.law.sends hone
  · refine ⟨fun hleft => ?_, ?_⟩
    · rw [show t.inLoop = false from hleft] at hloop
      cases hloop
    · rintro ⟨r, hr, hle⟩
      rcases List.mem_append.mp hr with hr | hr
      · have := h.law.positive hloop hr
        omega
      · rw [List.mem_singleton.mp hr] at hle
        have := ReadResult.value_pos hv
        omega
  · intro r hr
    rw [List.dropLast_concat] at hr
    exact h.law.positive hloop hr
  · simpa [List.count_append] using h.law.freed
  · simpa [List.count_append] using h.law.closed

/-- The round that has read the end of the connection. -/
theorem inv_closed {sockClient : Int} {t : Task} (h : Inv sockClient t) (hloop : t.inLoop = true) :
    Inv sockClient { t with
      inLoop := false, calls := t.calls ++ [.free, .close, .vTaskDelete]
      results := t.results ++ [.closed] } := by
  have hfreed := h.law.freed
  have hclosed := h.law.closed
  rw [if_pos hloop] at hfreed hclosed
  refine ⟨h.buffer, ?_, ?_, ?_, ?_, ?_⟩
  · simpa [chunks, items] using h.law.sends
  · refine iff_of_true rfl ⟨.closed, List.mem_append_right _ List.mem_cons_self, ?_⟩
    exact Int.le_refl 0
  · intro r hr
    rw [List.dropLast_concat] at hr
    exact h.law.positive hloop hr
  · simp [List.count_append, hfreed]
  · simp [List.count_append, hclosed]

theorem inv_step {sockClient : Int} {t u : Task} {r : ReadResult} (h : Inv sockClient t)
    (hok : r ≠ .failed) (hstep : step t r = some u) : Inv sockClient u := by
  unfold step at hstep
  split at hstep
  · next hg =>
    obtain ⟨hloop, hreturn⟩ := hg
    cases r with
    | chunk bytes =>
      rw [leavesLoop_chunk hreturn] at hstep
      obtain rfl := Option.some.inj hstep
      exact inv_chunk h hloop hreturn
    | closed =>
      obtain rfl := Option.some.inj hstep
      exact inv_closed h hloop
    | failed => exact absurd rfl hok
  · cases hstep

/-- After an error the task is still in its loop. -/
theorem ne_failed_of_oneSend {sockClient : Int} {t u : Task} {r : ReadResult}
    (hstep : step t r = some u) (hu : OneSend sockClient u) : r ≠ .failed := by
  rintro rfl
  unfold step at hstep
  split at hstep
  · next hg =>
    obtain rfl := Option.some.inj hstep
    have hleft := hu.leaves.mpr ⟨.failed, List.mem_append_right _ List.mem_cons_self, by decide⟩
    rw [show t.inLoop = false from hleft] at hg
    cases hg.1
  · cases hstep

/-! ## Runs -/

/-- **One send for each chunk.** Over any results of its calls of `read`, the task sends each chunk
once, leaves the loop at the first result that is not positive and then releases what it holds
once, if and only if no result is an error. -/
theorem always_oneSend_iff (sockClient : Int) (results : List ReadResult)
    (hrun : (exec step (start sockClient) results).isSome) :
    Always step (OneSend sockClient) (start sockClient) results ↔
      ∀ r ∈ results, r ≠ .failed := by
  rw [← eachStep_iff_forall hrun]
  exact always_iff_eachStep (fun _ (h : Inv sockClient _) => h.law)
    (fun _ _ _ h hok hstep => inv_step h hok hstep)
    (fun _ _ _ _ hstep hu => ne_failed_of_oneSend hstep hu) (inv_start sockClient) hrun

/-- Two chunks and an orderly close. -/
theorem always_oneSend_iff_twoChunks :
    Always step (OneSend 1) (start 1) [.chunk [104, 105], .chunk [0], .closed] ↔
      ∀ r ∈ [ReadResult.chunk [104, 105], .chunk [0], .closed], r ≠ .failed :=
  always_oneSend_iff 1 _ (by decide +kernel)

/-- A reset: the buffer is sent although nothing has been read, and the loop goes on. -/
theorem not_always_oneSend :
    ¬∀ (sockClient : Int) (results : List ReadResult),
      (exec step (start sockClient) results).isSome →
        Always step (OneSend sockClient) (start sockClient) results := by
  intro hall
  have hlaw := hall 1 [.failed] (by decide +kernel)
  have hstep : ∃ u, step (start 1) .failed = some u := ⟨_, rfl⟩
  obtain ⟨u, hu⟩ := hstep
  exact ne_failed_of_oneSend hu (hlaw.2 u hu) rfl

end EmWinDemo.Socket.ReaderLoop
