/-
# EmWinDemo.WebSocket.Session -- a WebSocket session with the echo plugin

The state machine of `httpsrv_ws.c`.  `wsProcess` is `ws_process`, one round of a session: it sends
what the plugin has asked for, receives a frame or as much of one as the receive buffer holds
(`wsRecv`), takes off the mask, checks text and handles what has come (`wsProcessFrame`).  The plugin
is that of `http_server.c`, which sends back what it is told.

The client's bytes come in pieces of any size, and when they are all read the connection is closed.
`none` stands for what goes outside the session's memory, and for a post that would wait for ever.
-/
import EmWinDemo.WebSocket.Send
import EmWinDemo.WebSocket.Utf8

namespace EmWinDemo.WebSocket.Session

open Lib.CMemory Lib.WebSocket Http.Output Frames Send Utf8

/-! ## The context -/

/-- `WS_BUFFER_STRUCT`. -/
structure WsBuffer where
  data : Bytes
  offset : Nat
  deriving Repr, DecidableEq

def WsBuffer.size (b : WsBuffer) : Nat := b.data.length

/-- The buffers that `actual_buffer` and the pointers to data point to. -/
inductive BufferName where
  | hdr
  | rx
  | ctrl
  deriving Repr, DecidableEq

/-- What the client has sent and nobody has read, and how much of it the next calls find at most. -/
structure Connection where
  incoming : Bytes
  pieces : List Nat
  deriving Repr, DecidableEq

/-- `httpsrv_recv`, of a connection that does not fail; an empty piece is its end. -/
def httpsrvRecv (c : Connection) (size : Nat) : Bytes × Connection :=
  match c.pieces with
  | [] => (c.incoming.take size, ⟨c.incoming.drop size, []⟩)
  | n :: pieces => (c.incoming.take (min size (n + 1)), ⟨c.incoming.drop (min size (n + 1)), pieces⟩)

/-- `WS_SES_STATE`. -/
inductive SesState where
  | opening
  | opened
  | waitPong
  | closing
  | closed
  deriving Repr, DecidableEq

/-- `WS_RX_STATE`. -/
inductive RxState where
  | start
  | cont
  deriving Repr, DecidableEq

/-- `WS_DATA_TYPE`. -/
inductive DataType where
  | invalid
  | text
  | binary
  deriving Repr, DecidableEq

/-- The value that the type has as a number, and as an opcode. -/
def DataType.opcode : DataType → Nat
  | .invalid => 0
  | .text => 1
  | .binary => 2

/-- `WS_ERROR_CODE`, as far as a frame gets one. -/
inductive WsErrorCode where
  | ok
  | badFrame
  | badOpcode
  | badSeq
  | noUtf8
  deriving Repr, DecidableEq

/-- `WS_USER_CONTEXT_STRUCT`: what the callbacks are told. -/
structure UserContext where
  type : DataType
  length : Nat
  dataPtr : Option BufferName
  finFlag : Bool
  deriving Repr, DecidableEq

/-- `WS_API_CALL_MSG`. -/
inductive ApiMessage where
  | send (opcode length : Nat) (data : BufferName) (fin : Bool)
  | close
  deriving Repr, DecidableEq

/-- `WS_UTF8_STRUCT`. -/
structure WsUtf8 where
  index : Nat
  data : Bytes
  missing : Nat
  deriving Repr, DecidableEq

/-- `WS_CONTEXT_STRUCT`; `frameData` is the pointer in its frame. -/
structure WsContext where
  sender : Sender
  connection : Connection
  hdr : WsBuffer
  rx : WsBuffer
  ctrl : WsBuffer
  actual : BufferName
  state : SesState
  rxState : RxState
  user : UserContext
  frame : WsFrame
  frameData : BufferName
  utf8 : WsUtf8
  recDataSize : Nat
  remainingData : Nat
  apiQueue : List ApiMessage
  maskOffset : Nat
  deriving Repr, DecidableEq

def WsContext.buffer (c : WsContext) : BufferName → WsBuffer
  | .hdr => c.hdr
  | .rx => c.rx
  | .ctrl => c.ctrl

def WsContext.setBuffer (c : WsContext) (name : BufferName) (b : WsBuffer) : WsContext :=
  match name with
  | .hdr => { c with hdr := b }
  | .rx => { c with rx := b }
  | .ctrl => { c with ctrl := b }

/-- The context that `ws_init` sets up in the session buffer. -/
def wsInit (socket : Socket) (connection : Connection) : WsContext where
  sender := ⟨List.replicate 1360 0, socket, false⟩
  connection := connection
  hdr := ⟨List.replicate 14 0, 0⟩
  rx := ⟨List.replicate 666 0, 0⟩
  ctrl := ⟨List.replicate 125 0, 0⟩
  actual := .hdr
  state := .opened
  rxState := .start
  user := ⟨.invalid, 0, none, false⟩
  frame := ⟨false, 0, 0, false, 0, 0⟩
  frameData := .hdr
  utf8 := ⟨0, List.replicate 4 0x80, 0⟩
  recDataSize := 0
  remainingData := 0
  apiQueue := []
  maskOffset := 0

/-! ## The plugin -/

/-- `WS_send` and `sys_mbox_post`, into a queue for `WS_NUM_MESSAGES`. -/
def wsSend (c : WsContext) (user : UserContext) : Option WsContext :=
  match user.type, user.dataPtr with
  | .invalid, _ => some c
  | _, none => some c
  | type, some data =>
    if c.apiQueue.length < 5 then
      some { c with apiQueue := c.apiQueue ++ [.send type.opcode user.length data user.finFlag] }
    else none

/-- `ws_echo_message`. -/
def wsEchoMessage (c : WsContext) (user : UserContext) : Option WsContext := wsSend c user

/-! ## What the user has asked for -/

inductive ApiStatus where
  | fail
  | server
  | doRecv
  deriving Repr, DecidableEq

/-- The loop of `ws_process_api_calls` over the messages, once there is something to read. -/
def apiLoop : List ApiMessage → WsContext → Option (ApiStatus × WsContext)
  | [], c => some (.doRecv, { c with apiQueue := [] })
  | .send opcode length data fin :: rest, c => do
    let opcode := if c.sender.uTransfer then 0 else opcode
    let sender := if fin then c.sender else { c.sender with uTransfer := true }
    let (retval, sender) ← wsSendFrame sender (filled fin opcode length) (c.buffer data).data
    if retval = -1 then some (.fail, { c with sender := sender, apiQueue := rest })
    else apiLoop rest { c with sender := sender }
  | .close :: rest, c => do
    let (retval, sender) ← wsSendControlFrame c.sender (bigEndian 2 1001) 2 8
    let status : ApiStatus := if retval = -1 then .fail else .server
    some (status, { c with sender := sender, state := .closing, apiQueue := rest })

/-- `ws_process_api_calls`. -/
def wsProcessApiCalls (c : WsContext) : Option (ApiStatus × WsContext) := apiLoop c.apiQueue c

/-! ## Bad frames -/

/-- `ws_check_frame_header`: a later check replaces what an earlier one has found. -/
def wsCheckFrameHeader (rxState : RxState) (frame : WsFrame) : WsErrorCode :=
  let control := frame.opcode &&& 0x8 ≠ 0
  if (rxState = .cont ∧ ¬control ∧ frame.opcode ≠ 0) ∨ (rxState = .start ∧ frame.opcode = 0) then
    .badSeq
  else if control ∧ (frame.length > 125 ∨ frame.fin = false) then .badFrame
  else if (frame.opcode > 2 ∧ frame.opcode < 8) ∨ frame.opcode > 10 then .badFrame
  else if frame.reserved > 0 then .badFrame
  else if frame.masked = false then .badFrame
  else if frame.maskKey = 0 then .badFrame
  else .ok

/-- `ws_bad_frame`; the plugin's error callback does nothing. -/
def wsBadFrame (c : WsContext) (status : WsErrorCode) : Option WsContext := do
  let closeReason := match status with
    | .badOpcode => 1008
    | .noUtf8 => 1007
    | _ => 1002
  let (_, sender) ← wsSendControlFrame c.sender (bigEndian 2 closeReason) 2 8
  some { c with
    sender := sender, state := .closing
    user := { c.user with type := .invalid, dataPtr := none, length := 0 } }

/-! ## Receiving -/

inductive Received where
  | pass
  | badFrame
  | fail
  deriving Repr, DecidableEq

/-- The loop of `ws_recv`; a round that does not end it receives a byte. -/
def recvLoop : Nat → BufferName → Nat → WsContext → Option (Received × WsContext)
  | 0, _, _, _ => none
  | rounds + 1, buffer, reqLength, c =>
    let b := c.buffer buffer
    let size := min (b.size - b.offset) reqLength
    if size = 0 then some (.pass, { c with actual := buffer })
    else
      let (chunk, connection) := httpsrvRecv c.connection size
      if chunk.length < 1 then some (.fail, { c with connection := connection })
      else
        let c := { c.setBuffer buffer ⟨store b.data b.offset chunk, b.offset + chunk.length⟩ with
          connection := connection }
        if buffer = .hdr then do
          let (req, frame) ← wsReadFrameHeader c.hdr.data c.frame c.hdr.offset
          let c := { c with frame := frame }
          if req = 0 then
            let frameStatus := wsCheckFrameHeader c.rxState frame
            if frameStatus ≠ .ok then do
              let c ← wsBadFrame c frameStatus
              some (.badFrame, c)
            else if frame.opcode &&& 0x8 ≠ 0 then
              recvLoop rounds .ctrl frame.length
                { c with frameData := .ctrl, remainingData := frame.length }
            else
              recvLoop rounds .rx (min frame.length c.rx.size)
                { c with frameData := .rx, remainingData := frame.length }
          else recvLoop rounds .hdr req c
        else
          recvLoop rounds buffer (reqLength - chunk.length)
            { c with
              recDataSize := c.recDataSize + chunk.length
              remainingData := c.remainingData - chunk.length }

/-- `ws_recv`. -/
def wsRecv (c : WsContext) : Option (Received × WsContext) :=
  let rounds := c.connection.incoming.length + 2
  if c.actual = .hdr then
    recvLoop rounds .hdr minClientHeaderLength
      { c with
        recDataSize := 0, hdr := { c.hdr with offset := 0 }, ctrl := { c.ctrl with offset := 0 }
        maskOffset := 0 }
  else
    recvLoop rounds c.actual (min (c.buffer c.actual).size c.remainingData)
      { c with recDataSize := 0 }

/-- `ws_unmask_data` on what has just come, and `ws_update_mask_offset`. -/
def unmaskReceived (c : WsContext) : WsContext :=
  let b := c.buffer c.actual
  let start := b.offset - c.recDataSize
  let text := (b.data.drop start).take c.recDataSize
  let data := store b.data start (wsUnmaskData text c.frame.maskKey c.maskOffset)
  let received := c.frame.length - c.remainingData
  let maskOffset :=
    if c.remainingData ≠ 0 ∧ c.remainingData < c.frame.length then
      received / 4 * 4 + 4 - received
    else c.maskOffset
  { c.setBuffer c.actual { b with data := data } with maskOffset := maskOffset }

/-! ## Text -/

/-- `ws_check_utf8_finalize`. -/
def wsCheckUtf8Finalize (data : Bytes) : Option Bool := do
  let c : UInt8 ← data[0]?
  if c ||| 0x7F ≠ 0xFF then utf8Check1 data
  else if c ||| 0xDF ≠ 0xFF then utf8Check2 data
  else if c ||| 0xEF ≠ 0xFF then utf8Check3 data
  else if c ||| 0xF7 ≠ 0xFF then utf8Check4 data
  else some false

/-- The second half of `ws_check_utf8`. -/
def checkRest (u : WsUtf8) (data : Bytes) (fin : Bool) : Option (Bool × WsUtf8) := do
  let r ← utf8IsValid data
  if r.isValid then some (true, u)
  else if r.missing = 0 ∨ fin then some (false, u)
  else
    let bad ← r.bad
    let size := min (4 - r.missing) data.length
    some (true, ⟨size, store u.data 0 ((data.drop bad).take size), r.missing⟩)

/-- `ws_check_utf8`. -/
def wsCheckUtf8 (c : WsContext) (data : Bytes) : Option (Bool × WsUtf8) :=
  let u := c.utf8
  if data.length = 0 then some (true, u)
  else if u.missing ≠ 0 then
    let size := min u.missing data.length
    if u.index + size ≤ 4 then do
      let u := { u with data := store u.data u.index (data.take size), index := u.index + size }
      let r ← utf8IsValid (u.data.take u.index)
      if r.isValid then
        checkRest ⟨0, List.replicate 4 0x80, 0⟩ (data.drop size) c.frame.fin
      else if r.missing = 0 ∨ (c.remainingData = 0 ∧ c.frame.fin) then some (false, u)
      else
        let complete ← wsCheckUtf8Finalize u.data
        some (complete, { u with missing := r.missing })
    else none
  else checkRest u data c.frame.fin

/-- `ws_validate_data`. -/
def wsValidateData (c : WsContext) : Option (Bool × WsContext) :=
  if c.frame.opcode = 1 ∨ (c.frame.opcode = 0 ∧ c.user.type = .text) then do
    let b := c.buffer c.actual
    let length := min c.recDataSize c.frame.length
    let (valid, utf8) ← wsCheckUtf8 c ((b.data.drop (b.offset - c.recDataSize)).take length)
    some (valid, { c with utf8 := utf8 })
  else some (true, c)

/-! ## Frames -/

/-- `ws_check_close_reason`, of a reason in the order of the processor. -/
def wsCheckCloseReason (reason : Nat) : Bool :=
  1000 ≤ reason ∧ reason ≤ 4999 ∧
    ((reason ≤ 1011 ∧ reason ≠ 1004 ∧ reason ≠ 1005 ∧ reason ≠ 1006) ∨ 3000 ≤ reason)

/-- `ws_close_frame`, with whether the session goes on. -/
def wsCloseFrame (c : WsContext) : Option (Bool × WsContext) :=
  if c.state = .closing then some (false, { c with state := .closed })
  else if c.remainingData = 0 then do
    let data := (c.buffer c.frameData).data
    let closeReason ←
      if c.frame.length = 0 then some 1000
      else if c.frame.length ≥ 2 then do
        let reason ← loadBytes data 0 2
        let closeReason := if wsCheckCloseReason (ntoh reason) then ntoh reason else 1002
        if c.frame.length > 2 then do
          let text ← loadBytes data 2 (c.frame.length - 2)
          let (valid, _) ← wsCheckUtf8 c text
          some (if valid then closeReason else 1007)
        else some closeReason
      else some 1002
    let (_, sender) ← wsSendControlFrame c.sender (bigEndian 2 closeReason) 2 8
    some (false, { c with sender := sender, state := .closed })
  else some (true, c)

/-- `ws_ping_frame`. -/
def wsPingFrame (c : WsContext) : Option (Bool × WsContext) := do
  let data := (c.buffer c.frameData).data
  let (retval, sender) ← wsSendControlFrame c.sender data c.frame.length 10
  some (retval ≠ -1, { c with sender := sender, actual := .hdr })

/-- `ws_pong_frame`. -/
def wsPongFrame (c : WsContext) : Option (Bool × WsContext) :=
  let state := if c.state = .waitPong then .opened else c.state
  some (true, { c with state := state, actual := .hdr })

/-- A call of the plugin's `on_message`, and what is reset behind it. -/
def onMessage (c : WsContext) (finFlag : Bool) : Option WsContext := do
  let c ← wsEchoMessage c { c.user with finFlag := finFlag }
  some { c.setBuffer c.actual { c.buffer c.actual with offset := 0 } with
    user := { c.user with finFlag := false, length := 0, dataPtr := none } }

/-- The end of `ws_data_frame`. -/
def noteFirst (c : WsContext) : WsContext :=
  if c.frame.fin = false ∧ c.frame.opcode ≠ 0 ∧ c.rxState = .start then { c with rxState := .cont }
  else c

/-- `ws_data_frame`. -/
def wsDataFrame (c : WsContext) : Option (Bool × WsContext) := do
  let b := c.buffer c.actual
  let length := c.user.length + min c.frame.length c.recDataSize
  let c := { c with user := { c.user with length := length, dataPtr := some c.actual } }
  if b.size - b.offset = 0 then
    let c ← onMessage c c.user.finFlag
    some (true, noteFirst c)
  else if c.remainingData = 0 then
    if c.frame.fin then
      let c ← onMessage { c with rxState := .start } true
      some (true, noteFirst { c with actual := .hdr })
    else some (true, noteFirst { c with actual := .hdr })
  else some (true, noteFirst c)

/-- `ws_process_frame`. -/
def wsProcessFrame (c : WsContext) : Option (Bool × WsContext) :=
  match c.frame.opcode with
  | 1 => wsDataFrame { c with user := { c.user with type := .text } }
  | 2 => wsDataFrame { c with user := { c.user with type := .binary } }
  | 0 => wsDataFrame c
  | 8 => wsCloseFrame c
  | 9 => wsPingFrame c
  | 10 => wsPongFrame c
  | _ => (wsBadFrame c .badOpcode).map fun c => (false, c)

/-! ## The session -/

/-- The part of `ws_process` that receives. -/
def receiveFrame (c : WsContext) : Option (Bool × WsContext) := do
  let (result, c) ← wsRecv c
  if result ≠ .pass then some (false, c)
  else
    let (valid, c) ← wsValidateData (unmaskReceived c)
    if valid then wsProcessFrame c
    else
      let c ← wsBadFrame c .noUtf8
      some (false, c)

/-- `ws_process`, with whether the session goes on. -/
def wsProcess (c : WsContext) : Option (Bool × WsContext) := do
  let (status, c) ← wsProcessApiCalls c
  match status with
  | .fail => some (false, c)
  | .server => some (true, c)
  | .doRecv => receiveFrame c

/-- The loop of `ws_session_run`, up to its end. -/
def sessionLoop : Nat → WsContext → Option WsContext
  | 0, _ => none
  | rounds + 1, c => do
    let (goesOn, c) ← wsProcess c
    if goesOn then sessionLoop rounds c else some c

end EmWinDemo.WebSocket.Session
