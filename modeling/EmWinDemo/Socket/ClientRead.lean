/-
# EmWinDemo.Socket.ClientRead -- the reader task of one accepted client

`isocketClientRead` (usr_socket.c) owns a 135-byte buffer for its whole life.  Byte 0 carries the
descriptor of the client, the 134 bytes after it are the target of every `read`.  The buffer is
cleared once, before the loop; a round of the loop overwrites as many bytes as `read` delivered
and sends all 135 of them to `Socket_Queue`.
-/
import EmWinDemo.Lib.CMemory

namespace EmWinDemo.Socket.ClientRead

open EmWinDemo.Lib.CMemory

/-- `calloc(1, 135)`: the size of the task's buffer and of an item of `Socket_Queue`. -/
def itemSize : Nat := 135

/-- The third argument of `read`: the bytes behind byte 0. -/
def readSize : Nat := 134

/-- The conversion of an `int` to a `char`. -/
def toChar (n : Int) : UInt8 := UInt8.ofNat (n % 256).toNat

/-- The conversion of an `int` to lwIP's `err_t`, a signed 8-bit integer. -/
def toErrT (n : Int) : Int := if n % 256 < 128 then n % 256 else n % 256 - 256

/-- What a call of `read` comes back with. -/
inductive ReadResult where
  /-- so many bytes were stored behind byte 0 -/
  | chunk (bytes : Bytes)
  /-- the peer closed the connection -/
  | closed
  /-- any error -/
  | failed
  deriving Repr, DecidableEq

/-- The value of the call. -/
def ReadResult.value : ReadResult → Int
  | .chunk bytes => bytes.length
  | .closed => 0
  | .failed => -1

/-- The buffer before the first round: cleared, with the descriptor in byte 0. -/
def startBuffer (sockClient : Int) : Bytes :=
  store (List.replicate itemSize 0) 0 [toChar sockClient]

/-- The buffer after `read(sock_client, &msg_buffer[1], 134)`. -/
def readInto (msgBuffer : Bytes) : ReadResult → Bytes
  | .chunk bytes => store msgBuffer 1 bytes
  | .closed => msgBuffer
  | .failed => msgBuffer

/-- The only exit of the loop: `err == 0`, tested after the conversion to `err_t`. -/
def leavesLoop (r : ReadResult) : Bool := toErrT r.value == 0

/-- A chunk `read` can deliver: not empty, and within the bytes asked for. -/
def ValidChunk (bytes : Bytes) : Prop := 0 < bytes.length ∧ bytes.length ≤ readSize

instance (bytes : Bytes) : Decidable (ValidChunk bytes) :=
  inferInstanceAs (Decidable (_ ∧ _))

/-- The narrowing to `err_t` maps no length of a chunk to zero. -/
theorem toErrT_ne_zero {n : Int} (hpos : 0 < n) (hle : n ≤ 134) : toErrT n ≠ 0 := by
  unfold toErrT
  split <;> omega

theorem leavesLoop_chunk {bytes : Bytes} (h : ValidChunk bytes) :
    leavesLoop (.chunk bytes) = false := by
  have hpos : (0 : Int) < bytes.length := by exact_mod_cast h.1
  have hle : (bytes.length : Int) ≤ 134 := by exact_mod_cast h.2
  simpa [leavesLoop, ReadResult.value] using toErrT_ne_zero hpos hle

/-! ## The shape of the buffer -/

/-- The invariant of the buffer: 135 bytes, the first of them the descriptor. -/
structure BufferOf (sockClient : Int) (msgBuffer : Bytes) : Prop where
  head : msgBuffer.head? = some (toChar sockClient)
  length : msgBuffer.length = itemSize

theorem startBuffer_bufferOf (sockClient : Int) :
    BufferOf sockClient (startBuffer sockClient) :=
  ⟨rfl, rfl⟩

/-- A buffer of the task is the descriptor byte in front of 134 bytes. -/
theorem BufferOf.exists_cons {sockClient : Int} {msgBuffer : Bytes}
    (h : BufferOf sockClient msgBuffer) :
    ∃ rest, msgBuffer = toChar sockClient :: rest ∧ rest.length = readSize := by
  cases msgBuffer with
  | nil => exact absurd h.head (by simp)
  | cons b rest =>
    obtain rfl : b = toChar sockClient := by simpa using h.head
    exact ⟨rest, rfl, by simpa [itemSize, readSize] using h.length⟩

theorem BufferOf.readInto {sockClient : Int} {msgBuffer bytes : Bytes}
    (h : BufferOf sockClient msgBuffer) (hb : ValidChunk bytes) :
    BufferOf sockClient (readInto msgBuffer (.chunk bytes)) := by
  obtain ⟨rest, rfl, hrest⟩ := h.exists_cons
  refine ⟨?_, ?_⟩
  · simp [ClientRead.readInto, store_one_cons]
  · have hlen : 1 + bytes.length ≤ (toChar sockClient :: rest).length := by
      have := hb.2
      simp only [List.length_cons]
      omega
    rw [ClientRead.readInto, length_store hlen]
    exact h.length

end EmWinDemo.Socket.ClientRead
