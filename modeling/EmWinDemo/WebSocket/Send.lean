/-
# EmWinDemo.WebSocket.Send -- messages to the client, in frames of the transmit buffer

`wsSendFrame` is `ws_send_frame`: it cuts what the user sends into frames, writes each of them into
the transmit buffer (`wsWriteFrame`) and sends it.  The data is what can be read from the user's
pointer on, and a frame that reads or writes outside its memory gives `none`.

What goes out for a whole message is `fragments` (`sendLoop_fragments`), and `send_message_iff` says
for which lengths that is the message.  The loop compares with the size of the buffer in two ways,
less and greater, and asks for the size of a header that belongs to the frame before: a message
that ends with a full buffer, or with four bytes less, is never finished, and one that ends between
these two is read beyond its end.
-/
import EmWinDemo.Http.Output
import EmWinDemo.WebSocket.Frames

namespace EmWinDemo.WebSocket.Send

open Lib.CMemory Lib.WebSocket Http.Output Frames

/-! ## Frames -/

/-- `ws_get_header_size`. -/
def wsGetHeaderSize (frame : WsFrame) : Nat :=
  2 + (if frame.length > 0 ∧ frame.length ≥ 126 then if frame.length < 65536 then 2 else 8 else 0) +
    if frame.masked then 4 else 0

/-- `ws_get_frame_size`. -/
def wsGetFrameSize (frame : WsFrame) : Nat := wsGetHeaderSize frame + frame.length

/-- The header that `ws_write_frame` writes. -/
def writtenHeader (src : WsFrame) : Bytes :=
  let first := (if src.fin then 0x80 else 0) ||| (UInt8.ofNat src.opcode &&& 0x0F)
  let lengthBytes :=
    if src.length ≤ 125 then [UInt8.ofNat src.length &&& 0x7F]
    else if src.length < 65536 then 126 :: bigEndian 2 (src.length % 65536)
    -- `htonl` gives four bytes, which are stored as the lower half of eight
    else 127 :: (bigEndian 4 src.length ++ [0, 0, 0, 0])
  first :: (lengthBytes ++ if src.masked then store32 src.maskKey else [])

/-- `ws_write_frame`. -/
def wsWriteFrame (dst : Bytes) (src : WsFrame) (data : Bytes) : Option Bytes :=
  if src.length ≤ data.length ∧ wsGetFrameSize src ≤ dst.length then
    some (store (store dst (wsGetHeaderSize src) (data.take src.length)) 0 (writtenHeader src))
  else none

/-! ## Sending -/

/-- `tx_buffer.size`. -/
def txSize : Nat := 680

/-- What `ws_send_frame` works on: `tx_buffer.data` with what lies behind it, the socket, and
`u_transfer`. -/
structure Sender where
  buffer : Bytes
  socket : Socket
  uTransfer : Bool
  deriving Repr, DecidableEq

/-- How much of the data the next frame takes, and whether it is the last. -/
def nextFrame (frame : WsFrame) (dataLength : Nat) (userFin : Bool) : WsFrame :=
  if dataLength + wsGetHeaderSize frame < txSize ∧ userFin then
    { frame with fin := true, length := dataLength }
  else if dataLength + wsGetHeaderSize frame > txSize ∧ userFin then
    { frame with fin := false, length := txSize }
  else { frame with fin := false, length := dataLength }

/-- The loop of `ws_send_frame`, from `position` in the data on; every round calls the socket. -/
def sendLoop (data : Bytes) (userFin : Bool) :
    Nat → WsFrame → Nat → Nat → Sender → Option (Int × Sender)
  | 0, _, _, _, _ => none
  | rounds + 1, frame, position, dataLength, s => do
    let frame := nextFrame frame dataLength userFin
    let uTransfer := if frame.fin then false else s.uTransfer
    let buffer ← wsWriteFrame s.buffer frame (data.drop position)
    match httpsrvSend s.socket (buffer.take (wsGetFrameSize frame)) with
    | (none, socket) => some (-1, ⟨buffer, socket, uTransfer⟩)
    | (some sent, socket) =>
      let retval : Int := sent - wsGetHeaderSize frame
      let dataLength := ((dataLength - retval) % 2 ^ 32).toNat
      if position + retval < 0 then none
      else if dataLength > 0 then
        sendLoop data userFin rounds { frame with opcode := 0 } (position + retval).toNat dataLength
          ⟨buffer, socket, uTransfer⟩
      else some (retval, ⟨buffer, socket, uTransfer⟩)

/-- `ws_send_frame`. -/
def wsSendFrame (s : Sender) (frame : WsFrame) (data : Bytes) : Option (Int × Sender) :=
  sendLoop data frame.fin (s.socket.accepts.length + 1) frame 0 frame.length s

/-- The frame that `WS_send` and `ws_send_control_frame` fill. -/
def filled (fin : Bool) (opcode length : Nat) : WsFrame := ⟨fin, opcode, 0, false, length, 0⟩

/-- `ws_send_control_frame`. -/
def wsSendControlFrame (s : Sender) (data : Bytes) (length opcode : Nat) : Option (Int × Sender) :=
  wsSendFrame s (filled true opcode length) data

/-! ## One frame -/

theorem wsGetHeaderSize_short {frame : WsFrame} (hmasked : frame.masked = false)
    (hlen : frame.length < 65536) :
    wsGetHeaderSize frame = if frame.length ≤ 125 then 2 else 4 := by
  rw [wsGetHeaderSize, hmasked, if_neg Bool.false_ne_true, if_pos hlen]
  by_cases hshort : frame.length ≤ 125
  · rw [if_pos hshort, if_neg (by omega)]
  · rw [if_neg hshort, if_pos (by omega)]

theorem firstByte_written (fin : Bool) (opcode : Fin 16) :
    (if fin then 0x80 else 0) ||| (UInt8.ofNat opcode &&& 0x0F) =
      UInt8.ofNat ((if fin then 128 else 0) + opcode) := by
  revert fin opcode
  decide

theorem secondByte_written (short : Fin 126) : UInt8.ofNat short &&& 0x7F = UInt8.ofNat short := by
  revert short
  decide

/-- What the frame says, for a frame that is not masked. -/
theorem writtenHeader_eq {frame : WsFrame} (hmasked : frame.masked = false) (hop : frame.opcode < 16)
    (hlen : frame.length < 65536) {payload : Bytes} (hpayload : payload.length = frame.length) :
    writtenHeader frame = header none ⟨frame.fin, frame.opcode, payload⟩ := by
  have hfirst := firstByte_written frame.fin ⟨frame.opcode, hop⟩
  dsimp only at hfirst
  simp only [writtenHeader, header, hpayload, hmasked, hfirst, Option.isSome_none, Option.map_none,
    Option.getD_none, Bool.false_eq_true, if_false, List.append_nil, Nat.zero_add]
  by_cases hshort : frame.length ≤ 125
  · have hsecond := secondByte_written ⟨frame.length, by omega⟩
    rw [if_pos hshort, lengthField, if_pos hshort]
    exact congrArg (fun b => [_, b]) hsecond
  · rw [if_neg hshort, if_pos hlen, lengthField, if_neg hshort, if_pos hlen, Nat.mod_eq_of_lt hlen]
    rfl

theorem length_writtenHeader {frame : WsFrame} (hmasked : frame.masked = false)
    (hlen : frame.length < 65536) : (writtenHeader frame).length = wsGetHeaderSize frame := by
  rw [wsGetHeaderSize_short hmasked hlen, writtenHeader, hmasked]
  by_cases hshort : frame.length ≤ 125
  · rw [if_pos hshort, if_pos hshort]
    rfl
  · rw [if_neg hshort, if_neg hshort, if_pos hlen]
    simp only [List.length_cons, List.length_append, length_bigEndian, Bool.false_eq_true, if_false,
      List.length_nil]

/-- A header in front of the data. -/
theorem take_store_store (dst front back : Bytes) (h : front.length + back.length ≤ dst.length) :
    (store (store dst front.length back) 0 front).take (front.length + back.length) =
      front ++ back := by
  have hdrop : (store dst front.length back).drop front.length =
      back ++ dst.drop (front.length + back.length) := by
    rw [store, List.append_assoc, List.drop_left' (by rw [List.length_take]; omega)]
  rw [store_zero, hdrop, List.take_length_add_append, List.take_left]

/-- The frame that goes out. -/
theorem wsWriteFrame_encode (dst : Bytes) {data : Bytes} {frame : WsFrame}
    (hmasked : frame.masked = false) (hop : frame.opcode < 16) (hlen : frame.length < 65536)
    (hdata : frame.length ≤ data.length) (hdst : wsGetFrameSize frame ≤ dst.length) :
    ∃ buffer, wsWriteFrame dst frame data = some buffer ∧ buffer.length = dst.length ∧
      buffer.take (wsGetFrameSize frame) =
        encode none ⟨frame.fin, frame.opcode, data.take frame.length⟩ := by
  have hpayload : (data.take frame.length).length = frame.length := List.length_take_of_le hdata
  have hheader := length_writtenHeader hmasked hlen
  rw [wsGetFrameSize] at hdst
  refine ⟨_, if_pos ⟨hdata, hdst⟩, ?_, ?_⟩
  · have hinner : (store dst (wsGetHeaderSize frame) (data.take frame.length)).length = dst.length :=
      length_store (by rw [hpayload]; exact hdst)
    rw [length_store (by rw [hinner]; omega), hinner]
  · rw [wsGetFrameSize, ← hheader, encode, ← writtenHeader_eq hmasked hop hlen hpayload]
    have htake := take_store_store dst (writtenHeader frame) (data.take frame.length) (by omega)
    rw [hpayload] at htake
    exact htake

/-! ## A message -/

/-- The frames of a whole message. -/
def fragments (opcode : Nat) (data : Bytes) : List Frame :=
  if 680 < data.length then ⟨false, opcode, data.take 680⟩ :: fragments 0 (data.drop 680)
  else [⟨decide (data.length < 676), opcode, data⟩]
termination_by data.length
decreasing_by rw [List.length_drop]; omega

theorem fragments_eq (opcode : Nat) (data : Bytes) : fragments opcode data =
    if 680 < data.length then ⟨false, opcode, data.take 680⟩ :: fragments 0 (data.drop 680)
    else [⟨decide (data.length < 676), opcode, data⟩] := by
  rw [fragments]

/-- A socket that takes every frame as a whole, for so many calls. -/
structure Takes (socket : Socket) (calls : Nat) : Prop where
  whole : ∀ n ∈ socket.accepts, 684 ≤ n + 1
  lasts : calls ≤ socket.accepts.length

theorem httpsrvSend_takes {socket : Socket} {calls : Nat} (h : Takes socket (calls + 1))
    {src : Bytes} (hsrc : src.length ≤ 684) :
    ∃ socket', httpsrvSend socket src = (some src.length, socket') ∧
      socket'.sent = socket.sent ++ src ∧ Takes socket' calls := by
  obtain ⟨hwhole, hlasts⟩ := h
  rcases socket with ⟨sent, _ | ⟨n, accepts⟩⟩
  · exact absurd hlasts (Nat.not_succ_le_zero calls)
  · have hn := hwhole n List.mem_cons_self
    refine ⟨⟨sent ++ src, accepts⟩, ?_, rfl, fun k hk => hwhole k (List.mem_cons_of_mem n hk),
      Nat.le_of_succ_le_succ hlasts⟩
    show (some (min (n + 1) src.length), Socket.mk (sent ++ src.take (n + 1)) accepts) = _
    rw [Nat.min_eq_right (by omega), List.take_of_length_le (by omega)]

/-- **One round.**  The next frame goes out as a whole, and the loop goes on behind it. -/
theorem sendLoop_round {data : Bytes} {userFin : Bool} {frame next : WsFrame}
    {position remaining calls : Nat} {s : Sender} (hnext : nextFrame frame remaining userFin = next)
    (hmasked : next.masked = false) (hop : next.opcode < 16) (hsize : next.length ≤ 680)
    (hdata : position + next.length ≤ data.length) (hremaining : next.length ≤ remaining)
    (hshort : remaining < 2 ^ 32) (hbuffer : 684 ≤ s.buffer.length)
    (htakes : Takes s.socket (calls + 1)) (rounds : Nat) :
    ∃ t : Sender, (sendLoop data userFin (rounds + 1) frame position remaining s =
        if remaining - next.length > 0 then
          sendLoop data userFin rounds { next with opcode := 0 } (position + next.length)
            (remaining - next.length) t
        else some (next.length, t)) ∧
      t.socket.sent = s.socket.sent ++
        encode none ⟨next.fin, next.opcode, (data.drop position).take next.length⟩ ∧
      Takes t.socket calls ∧ t.buffer.length = s.buffer.length ∧
      t.uTransfer = (!next.fin && s.uTransfer) := by
  have hheader : wsGetHeaderSize next ≤ 4 := by
    rw [wsGetHeaderSize_short hmasked (by omega)]
    split <;> omega
  have hframe : wsGetFrameSize next ≤ 684 := by rw [wsGetFrameSize]; omega
  obtain ⟨buffer, hwrite, hlength, htake⟩ := wsWriteFrame_encode s.buffer hmasked hop
    (by omega) (show next.length ≤ (data.drop position).length by rw [List.length_drop]; omega)
    (by omega)
  have hsrc : (buffer.take (wsGetFrameSize next)).length = wsGetFrameSize next :=
    List.length_take_of_le (by omega)
  obtain ⟨socket, hsend, hsent, htakes⟩ := httpsrvSend_takes htakes (by rw [hsrc]; exact hframe)
  rw [hsrc] at hsend
  have hretval : ((wsGetFrameSize next : Nat) : Int) - (wsGetHeaderSize next : Nat) = next.length := by
    rw [wsGetFrameSize]
    omega
  have hless : (((remaining : Int) - (next.length : Nat)) % 2 ^ 32).toNat =
      remaining - next.length := by omega
  have hplace : ((position : Int) + (next.length : Nat)).toNat = position + next.length := by omega
  refine ⟨⟨buffer, socket, if next.fin then false else s.uTransfer⟩, ?_, ?_, htakes, hlength, ?_⟩
  · rw [sendLoop, hnext]
    simp only [hwrite, bind, Option.bind, hsend, hretval, hless, hplace]
    rw [if_neg (by omega)]
  · rw [hsent, htake]
  · cases next.fin <;> rfl

/-- A frame of the loop. -/
structure InLoop (frame : WsFrame) (remaining : Nat) : Prop where
  masked : frame.masked = false
  opcode : frame.opcode < 16
  size : frame.length = remaining ∨ frame.length = 680

/-- How the frames of a message are chosen. -/
theorem nextFrame_cases {frame : WsFrame} {remaining : Nat} (h : InLoop frame remaining) :
    nextFrame frame remaining true =
      if remaining < 676 then { frame with fin := true, length := remaining }
      else if remaining = 676 then { frame with fin := false, length := remaining }
      else { frame with fin := false, length := 680 } := by
  have hsize := h.size
  have hheader : (remaining + wsGetHeaderSize frame < txSize ↔ remaining < 676) ∧
      (remaining + wsGetHeaderSize frame > txSize ↔ 676 < remaining) := by
    rw [wsGetHeaderSize, h.masked, if_neg Bool.false_ne_true, txSize]
    split_ifs <;> omega
  obtain hlt | heq | hgt := Nat.lt_trichotomy remaining 676
  · rw [nextFrame, if_pos ⟨hheader.1.mpr hlt, rfl⟩, if_pos hlt]
  · rw [nextFrame, if_neg (by rw [hheader.1]; omega), if_neg (by rw [hheader.2]; omega),
      if_neg (by omega), if_pos heq]
  · rw [nextFrame, if_neg (by rw [hheader.1]; omega), if_pos ⟨hheader.2.mpr hgt, rfl⟩,
      if_neg (by omega), if_neg (by omega)]
    rfl

/-- What goes out for a message, if it does not end where a frame is read beyond its end. -/
theorem sendLoop_fragments {data : Bytes} {frame : WsFrame} {position remaining rounds : Nat}
    {s : Sender} (h : InLoop frame remaining) (hdata : position + remaining = data.length)
    (hshort : data.length < 2 ^ 32) (hends : remaining % 680 ≤ 676)
    (hrounds : remaining / 680 < rounds) (hbuffer : 684 ≤ s.buffer.length)
    (htakes : Takes s.socket (remaining / 680 + 1)) :
    ∃ retval t, sendLoop data true rounds frame position remaining s = some (retval, t) ∧
      t.socket.sent = s.socket.sent ++
        (fragments frame.opcode (data.drop position)).flatMap (encode none) := by
  have hlength : (data.drop position).length = remaining := by rw [List.length_drop]; omega
  induction rounds generalizing frame position remaining s with
  | zero => omega
  | succ rounds ih =>
    have hcases := nextFrame_cases h
    rw [fragments_eq, hlength]
    by_cases hlast : remaining ≤ 676
    · have hnext : nextFrame frame remaining true =
          { frame with fin := decide (remaining < 676), length := remaining } := by
        by_cases hless : remaining < 676
        · rw [hcases, if_pos hless, decide_eq_true hless]
        · rw [hcases, if_neg hless, if_pos (by omega), decide_eq_false hless]
      have hread : position + remaining ≤ data.length := by omega
      obtain ⟨t, hround, hsent, -⟩ := sendLoop_round hnext h.masked h.opcode (by dsimp only; omega)
        hread (Nat.le_refl remaining) (by omega) hbuffer htakes rounds
      refine ⟨_, t, by rw [hround, if_neg (by dsimp only; omega)], ?_⟩
      rw [hsent, if_neg (by omega), List.take_of_length_le (by dsimp only; omega)]
      simp only [List.flatMap_cons, List.flatMap_nil, List.append_nil]
    · rw [if_neg (by omega), if_neg (by omega)] at hcases
      have hread : position + 680 ≤ data.length := by omega
      have hfull : 680 ≤ remaining := by omega
      obtain ⟨t, hround, hsent, htakes', hbuffer', -⟩ := sendLoop_round hcases h.masked h.opcode
        (Nat.le_refl 680) hread hfull (by omega) hbuffer htakes rounds
      by_cases hmore : 680 < remaining
      · have hquotient : remaining / 680 = (remaining - 680) / 680 + 1 := by omega
        rw [hquotient] at htakes' hrounds
        have hloop : InLoop { frame with fin := false, length := 680, opcode := 0 }
            (remaining - 680) := ⟨h.masked, by dsimp only; omega, Or.inr rfl⟩
        obtain ⟨retval, u, hrest, hsent'⟩ := ih hloop
          (show position + 680 + (remaining - 680) = data.length by omega) (by omega) (by omega)
          (by rw [hbuffer']; exact hbuffer) htakes' (by rw [List.length_drop]; omega)
        refine ⟨retval, u, by rw [hround, if_pos (by dsimp only; omega)]; exact hrest, ?_⟩
        rw [hsent', hsent, if_pos hmore, List.flatMap_cons, List.append_assoc, List.drop_drop]
      · refine ⟨_, t, by rw [hround, if_neg (by dsimp only; omega)], ?_⟩
        rw [hsent, if_neg hmore, List.take_of_length_le (by dsimp only; omega),
          decide_eq_false (by omega)]
        simp only [List.flatMap_cons, List.flatMap_nil, List.append_nil]

/-- A message that ends between the two sizes is read beyond its end. -/
theorem sendLoop_overread {data : Bytes} {frame : WsFrame} {position remaining rounds : Nat}
    {s : Sender} (h : InLoop frame remaining) (hdata : position + remaining = data.length)
    (hshort : data.length < 2 ^ 32) (hends : 676 < remaining % 680)
    (hrounds : remaining / 680 < rounds) (hbuffer : 684 ≤ s.buffer.length)
    (htakes : Takes s.socket (remaining / 680 + 1)) :
    sendLoop data true rounds frame position remaining s = none := by
  induction rounds generalizing frame position remaining s with
  | zero => omega
  | succ rounds ih =>
    have hcases := nextFrame_cases h
    rw [if_neg (by omega), if_neg (by omega)] at hcases
    by_cases hmore : 680 ≤ remaining
    · have hread : position + 680 ≤ data.length := by omega
      obtain ⟨t, hround, -, htakes', hbuffer', -⟩ := sendLoop_round hcases h.masked h.opcode
        (Nat.le_refl 680) hread hmore (by omega) hbuffer htakes rounds
      have hquotient : remaining / 680 = (remaining - 680) / 680 + 1 := by omega
      rw [hquotient] at htakes' hrounds
      have hloop : InLoop { frame with fin := false, length := 680, opcode := 0 }
          (remaining - 680) := ⟨h.masked, by dsimp only; omega, Or.inr rfl⟩
      have hends' : 676 < (remaining - 680) % 680 := by omega
      have hrounds' : (remaining - 680) / 680 < rounds := by omega
      rw [hround, if_pos (by dsimp only; omega)]
      exact ih hloop (show position + 680 + (remaining - 680) = data.length by omega) hends'
        hrounds' (by rw [hbuffer']; exact hbuffer) htakes'
    · rw [sendLoop, hcases]
      have hwrite : wsWriteFrame s.buffer { frame with fin := false, length := 680 }
          (data.drop position) = none := by
        rw [wsWriteFrame, if_neg]
        rintro ⟨hread, -⟩
        rw [List.length_drop] at hread
        dsimp only at hread
        omega
      rw [hwrite]
      rfl

/-! ## What the client gets -/

/-- The lengths of messages that are finished as they should be. -/
def Finishes (n : Nat) : Prop := n = 0 ∨ 0 < n % 680 ∧ n % 680 < 676

instance (n : Nat) : Decidable (Finishes n) := inferInstanceAs (Decidable (_ ∨ _))

theorem finishes_sub {n : Nat} (h : 680 < n) : Finishes (n - 680) ↔ Finishes n := by
  unfold Finishes
  omega

/-- The frames behind the beginning of a message. -/
theorem assemble_fragments (type : Nat) (acc data : Bytes) (hends : data.length % 680 ≤ 676) :
    assemble (some (type, acc)) (fragments 0 data) =
      if Finishes data.length then some [.message type (acc ++ data)] else none := by
  induction hn : data.length using Nat.strong_induction_on generalizing acc data with
  | _ n ih =>
    rw [fragments_eq, hn]
    by_cases hmore : 680 < n
    · have hrest := ih (n - 680) (by omega) (acc ++ data.take 680) (data.drop 680)
        (by rw [List.length_drop]; omega) (by rw [List.length_drop, hn])
      simp only [finishes_sub hmore, List.append_assoc, List.take_append_drop] at hrest
      rw [if_pos hmore]
      exact hrest
    · rw [if_neg hmore]
      by_cases hless : n < 676
      · have hfinishes : Finishes n := by unfold Finishes; omega
        rw [decide_eq_true hless, if_pos hfinishes]
        rfl
      · have hnot : ¬Finishes n := by unfold Finishes; omega
        rw [decide_eq_false hless, if_neg hnot]
        rfl

theorem assemble_message {type : Nat} (htype : type = 1 ∨ type = 2) (data : Bytes)
    (hends : data.length % 680 ≤ 676) :
    assemble none (fragments type data) =
      if Finishes data.length then some [.message type data] else none := by
  -- the first frame differs from one inside a message in its opcode alone
  have hopen := assemble_fragments type [] data hends
  rw [List.nil_append] at hopen
  refine Eq.trans ?_ hopen
  rw [fragments_eq type, fragments_eq 0 data]
  rcases htype with rfl | rfl <;> split <;> rfl

theorem encodable_fragments {opcode : Nat} (hop : opcode < 16) (data : Bytes) {f : Frame}
    (hf : f ∈ fragments opcode data) : f.Encodable := by
  induction hn : data.length using Nat.strong_induction_on generalizing opcode data with
  | _ n ih =>
    rw [fragments_eq, hn] at hf
    by_cases hmore : 680 < n
    · rw [if_pos hmore] at hf
      rcases List.mem_cons.mp hf with rfl | hf
      · refine ⟨hop, ?_⟩
        dsimp only
        rw [List.length_take]
        omega
      · exact ih (n - 680) (by omega) (by omega) _ hf (by rw [List.length_drop, hn])
    · rw [if_neg hmore, List.mem_singleton] at hf
      subst hf
      exact ⟨hop, by dsimp only; omega⟩

theorem payload_fragments (opcode : Nat) (data : Bytes) :
    (fragments opcode data).flatMap Frame.payload = data := by
  induction hn : data.length using Nat.strong_induction_on generalizing opcode data with
  | _ n ih =>
    rw [fragments_eq, hn]
    by_cases hmore : 680 < n
    · rw [if_pos hmore, List.flatMap_cons, ih (n - 680) (by omega) 0 (data.drop 680)
        (by rw [List.length_drop, hn])]
      exact List.take_append_drop 680 data
    · rw [if_neg hmore]
      simp only [List.flatMap_cons, List.flatMap_nil, List.append_nil]

/-- A message that does not finish has no last frame. -/
theorem fin_fragments {opcode : Nat} {data : Bytes} (hends : data.length % 680 ≤ 676)
    (hnot : ¬Finishes data.length) : ∀ f ∈ fragments opcode data, f.fin = false := by
  induction hn : data.length using Nat.strong_induction_on generalizing opcode data with
  | _ n ih =>
    rw [hn] at hends hnot
    rw [fragments_eq, hn]
    intro f hf
    by_cases hmore : 680 < n
    · rw [if_pos hmore] at hf
      have hlength : (data.drop 680).length = n - 680 := by rw [List.length_drop, hn]
      rcases List.mem_cons.mp hf with rfl | hf
      · rfl
      · apply ih (n - 680) (by omega) _ _ hlength f hf
        · rw [hlength]
          omega
        · rwa [hlength, finishes_sub hmore]
    · rw [if_neg hmore, List.mem_singleton] at hf
      have hfull : ¬n < 676 := by
        unfold Finishes at hnot
        omega
      rw [hf, decide_eq_false hfull]

/-- What has been sent since then, as the client understands it. -/
def received (s t : Sender) : Option (List Event) :=
  (decodeFrames (t.socket.sent.drop s.socket.sent.length)).bind (assemble none)

theorem received_of_sent {s t : Sender} {gs : List Frame} (hencodable : ∀ g ∈ gs, g.Encodable)
    (hsent : t.socket.sent = s.socket.sent ++ gs.flatMap (encode none)) :
    received s t = assemble none gs := by
  rw [received, hsent, List.drop_left, decodeFrames_encode hencodable]
  rfl

/-- All of the data goes out, and no frame is the last one. -/
def Unfinished (s : Sender) (data : Bytes) (outcome : Option (Int × Sender)) : Prop :=
  ∃ retval t, ∃ gs : List Frame, outcome = some (retval, t) ∧
    t.socket.sent = s.socket.sent ++ gs.flatMap (encode none) ∧ gs.flatMap Frame.payload = data ∧
    ∀ g ∈ gs, g.fin = false

/-- **When a message arrives.**  A user's whole message comes out at the client as this one message
exactly if its last piece leaves room in the buffer.  If it fills the buffer, or all but four bytes
of it, the message is sent and never finished, and in between it is read beyond its end. -/
theorem send_message_iff (s : Sender) {type : Nat} (htype : type = 1 ∨ type = 2) (data : Bytes)
    (hshort : data.length < 2 ^ 32) (hbuffer : 684 ≤ s.buffer.length)
    (htakes : Takes s.socket (data.length / 680 + 1)) :
    ((∃ retval t, wsSendFrame s (filled true type data.length) data = some (retval, t) ∧
      received s t = some [.message type data]) ↔ Finishes data.length) ∧
    (data.length % 680 = 676 ∨ data.length % 680 = 0 ∧ 0 < data.length →
      Unfinished s data (wsSendFrame s (filled true type data.length) data)) ∧
    (676 < data.length % 680 → wsSendFrame s (filled true type data.length) data = none) := by
  have hloop : InLoop (filled true type data.length) data.length :=
    ⟨rfl, show type < 16 by omega, Or.inl rfl⟩
  have hrounds : data.length / 680 < s.socket.accepts.length + 1 := by
    have := htakes.lasts
    omega
  have hplace : 0 + data.length = data.length := Nat.zero_add _
  by_cases hends : data.length % 680 ≤ 676
  · obtain ⟨retval, t, hsend, hsent⟩ :=
      sendLoop_fragments hloop hplace hshort hends hrounds hbuffer htakes
    have hencodable : ∀ f ∈ fragments type data, f.Encodable := fun f hf =>
      encodable_fragments (show type < 16 by omega) data hf
    have hreceived : received s t =
        if Finishes data.length then some [.message type data] else none := by
      rw [received_of_sent hencodable hsent]
      exact assemble_message htype data hends
    refine ⟨⟨?_, ?_⟩, fun hfull => ?_, fun hover => absurd hends (by omega)⟩
    · rintro ⟨retval', t', hsend', hmessage⟩
      obtain ⟨-, rfl⟩ := Prod.mk.inj (Option.some.inj (hsend.symm.trans hsend'))
      by_contra hnot
      rw [hreceived, if_neg hnot] at hmessage
      exact Option.some_ne_none _ hmessage.symm
    · intro hfinishes
      exact ⟨retval, t, hsend, by rw [hreceived, if_pos hfinishes]⟩
    · have hnot : ¬Finishes data.length := by
        unfold Finishes
        omega
      exact ⟨retval, t, fragments type data, hsend, hsent, payload_fragments type data,
        fin_fragments hends hnot⟩
  · -- the last piece is longer than what is there
    have hover := sendLoop_overread hloop hplace hshort (by omega) hrounds hbuffer htakes
    refine ⟨⟨?_, ?_⟩, fun hfull => absurd hends (by omega), fun _ => hover⟩
    · rintro ⟨retval, t, hsend, -⟩
      exact absurd (hover.symm.trans hsend) (Option.some_ne_none _).symm
    · intro hfinishes
      unfold Finishes at hfinishes
      omega

/-- A session whose socket takes what comes, twice. -/
def twoCalls : Sender := ⟨List.replicate 1360 0, ⟨[], [1359, 1359]⟩, false⟩

/-- A text that takes two frames. -/
def sevenHundred : Bytes := List.replicate 700 104

theorem send_message_iff_sevenHundred : ∃ retval t,
    wsSendFrame twoCalls (filled true 1 sevenHundred.length) sevenHundred = some (retval, t) ∧
      received twoCalls t = some [.message 1 sevenHundred] := by
  have hlength : sevenHundred.length = 700 := List.length_replicate
  apply (send_message_iff twoCalls (Or.inl rfl) sevenHundred _ _ _).1.mpr
  · rw [hlength]
    decide
  · rw [hlength]
    decide
  · rw [twoCalls, List.length_replicate]
    decide
  · rw [hlength]
    exact ⟨by decide, by decide⟩

end EmWinDemo.WebSocket.Send
