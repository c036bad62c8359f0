/-
# EmWinDemo.WebSocket.Pieces -- what one round does with a piece of a data frame

A payload that does not fit the receive buffer comes in pieces, one in a round, behind what the
buffer holds of the message already.  `Comes` describes the context in which a piece has come: from
there the mask is taken off, text is checked, and the piece either fills the buffer and is sent back
(`Comes.full`), or ends the message (`Comes.last`), or stays where it is (`Comes.kept`).

`Ready` and `Mid` are what the rounds leave to each other: the session between two frames, and
inside of one.
-/
import EmWinDemo.WebSocket.Receive

namespace EmWinDemo.WebSocket.Session

open Lib.CMemory Lib.Utf8 Lib.WebSocket Http.Output Frames Send Utf8

/-! ## A piece of a data frame -/

/-- What is kept in the context for the next piece of a payload. -/
def MaskAt (maskOffset received : Nat) : Prop :=
  (received = 0 ∧ maskOffset = 0) ∨ maskOffset = received / 4 * 4 + 4 - received

theorem wsUnmaskData_at {maskOffset received : Nat} (key : Key) (text : Bytes)
    (h : text = [] ∨ MaskAt maskOffset received) :
    wsUnmaskData (masked key received text) (load32 key.k0 key.k1 key.k2 key.k3) maskOffset =
      text := by
  have hkey := keyOf_load32 key.k0 key.k1 key.k2 key.k3
  rcases h with rfl | ⟨rfl, rfl⟩ | rfl
  · rw [masked, wsUnmaskData]
    split <;> rfl
  · rw [wsUnmaskData, if_neg (Nat.lt_irrefl 0), unmaskWords_masked, hkey, masked_masked]
  · rw [wsUnmaskData_masked, hkey, masked_masked]

/-- A piece `text` of a payload has come behind what the buffer held. -/
structure Got (c : WsContext) (held text : Bytes) (f : Frame) (key : Key) (received : Nat) :
    Prop where
  actual : c.actual = .rx
  rx : c.rx.data.length = 666
  offset : c.rx.offset = held.length + text.length
  fits : held.length + text.length ≤ 666
  data : c.rx.data.take (held.length + text.length) = held ++ masked key received text
  size : c.recDataSize = text.length
  frame : c.frame = frameOf key f
  part : received + text.length ≤ f.payload.length
  remaining : c.remainingData = f.payload.length - (received + text.length)
  mask : text = [] ∨ MaskAt c.maskOffset received

section Got

variable {c : WsContext} {held text : Bytes} {f : Frame} {key : Key} {received : Nat}

theorem Got.opcode_eq (h : Got c held text f key received) : c.frame.opcode = f.opcode := by
  rw [h.frame]
  rfl

theorem Got.fin_eq (h : Got c held text f key received) : c.frame.fin = f.fin := by
  rw [h.frame]
  rfl

theorem Got.length_eq (h : Got c held text f key received) : c.frame.length = f.payload.length := by
  rw [h.frame]
  rfl

theorem Got.length_le (h : Got c held text f key received) : text.length ≤ c.frame.length := by
  have hpart := h.part
  rw [h.length_eq]
  omega

/-- The piece without its mask. -/
theorem Got.unmasked (h : Got c held text f key received) : ∃ data maskOffset,
      unmaskReceived c = { c with rx := ⟨data, c.rx.offset⟩, maskOffset := maskOffset } ∧
      data.length = 666 ∧ data.take (held.length + text.length) = held ++ text ∧
      (0 < received + text.length → received + text.length < f.payload.length →
        MaskAt maskOffset (received + text.length)) := by
  have hlength := h.length_eq
  obtain ⟨hactual, hrx, hoffset, hfits, hdata, hsize, hframe, hpart, hremaining, hmask⟩ := h
  have hstart : c.rx.offset - c.recDataSize = held.length := by omega
  have hheld : (c.rx.data.drop held.length).take text.length = masked key received text := by
    have hdrop := congrArg (List.drop held.length) hdata
    rwa [List.drop_take, Nat.add_sub_cancel_left, List.drop_left] at hdrop
  have hfront : c.rx.data.take held.length = held := by
    have htake := congrArg (List.take held.length) hdata
    rwa [List.take_take, Nat.min_eq_left (Nat.le_add_right _ _), List.take_left] at htake
  have hplain : wsUnmaskData ((c.rx.data.drop held.length).take text.length) c.frame.maskKey
      c.maskOffset = text := by
    rw [hheld, hframe]
    exact wsUnmaskData_at key text hmask
  refine ⟨store c.rx.data held.length text,
    if c.remainingData ≠ 0 ∧ c.remainingData < c.frame.length then
      (c.frame.length - c.remainingData) / 4 * 4 + 4 - (c.frame.length - c.remainingData)
    else c.maskOffset, ?_, ?_, ?_, ?_⟩
  · unfold unmaskReceived
    rw [hactual]
    simp only [WsContext.buffer, WsContext.setBuffer, hstart]
    rw [hsize, hplain, hactual]
  · rw [length_store (by omega), hrx]
  · have hlen : (c.rx.data.take held.length ++ text).length = held.length + text.length := by
      rw [List.length_append, List.length_take_of_le (by omega)]
    rw [store, List.take_left' hlen, hfront]
  · intro hpos hless
    have hreceived : c.frame.length - c.remainingData = received + text.length := by omega
    rw [if_pos ⟨by omega, by omega⟩, hreceived]
    exact Or.inr rfl

end Got

/-- The type of the message that a frame belongs to. -/
def typeOf (opcode : Nat) (type : DataType) : DataType :=
  if opcode = 1 then .text else if opcode = 2 then .binary else type

theorem utf8IsValid_accepts {text : Bytes} (h : IsUtf8 text) :
    utf8IsValid text = some ⟨true, none, 0⟩ := by
  obtain ⟨r, hr, hanswers⟩ := utf8Loop_answers 0 (Nat.lt_succ_self text.length)
  rw [utf8IsValid, hr]
  rcases hanswers with ⟨-, rfl⟩ | ⟨cs, rest, rfl, hne, hstarts, -⟩
  · rfl
  · exact absurd h (not_isUtf8_append cs hne hstarts)

/-- Where `ws_validate_data` finds the text. -/
theorem received_text {c : WsContext} {held text : Bytes} (hactual : c.actual = .rx)
    (hoffset : c.rx.offset = held.length + text.length) (hsize : c.recDataSize = text.length)
    (hdata : c.rx.data.take (held.length + text.length) = held ++ text)
    (hlength : text.length ≤ c.frame.length) :
    ((c.buffer c.actual).data.drop ((c.buffer c.actual).offset - c.recDataSize)).take
      (min c.recDataSize c.frame.length) = text := by
  have hdrop := congrArg (List.drop held.length) hdata
  rw [List.drop_take, Nat.add_sub_cancel_left, List.drop_left] at hdrop
  rw [hactual, WsContext.buffer, hoffset, hsize, Nat.min_eq_left hlength, Nat.add_sub_cancel]
  exact hdrop

/-- Text of whole characters is accepted. -/
theorem wsValidateData_accepts {c : WsContext} {held text : Bytes} (hactual : c.actual = .rx)
    (hoffset : c.rx.offset = held.length + text.length) (hsize : c.recDataSize = text.length)
    (hdata : c.rx.data.take (held.length + text.length) = held ++ text)
    (hlength : text.length ≤ c.frame.length) (hmissing : c.utf8.missing = 0)
    (htext : typeOf c.frame.opcode c.user.type = .text → IsUtf8 text) :
    wsValidateData c = some (true, c) := by
  unfold wsValidateData
  split_ifs with hcase
  · have htype : typeOf c.frame.opcode c.user.type = .text := by
      unfold typeOf
      rcases hcase with h | ⟨h, h'⟩
      · rw [if_pos h]
      · rw [if_neg (by omega), if_neg (by omega), h']
    have hcheck : wsCheckUtf8 c text = some (true, c.utf8) := by
      unfold wsCheckUtf8
      dsimp only
      by_cases hnil : text.length = 0
      · rw [if_pos hnil]
      · rw [if_neg hnil, if_neg (not_not_intro hmissing), checkRest,
          utf8IsValid_accepts (htext htype)]
        rfl
    dsimp only
    rw [received_text hactual hoffset hsize hdata hlength, hcheck]
    rfl
  · rfl

/-- A data frame goes to `ws_data_frame`. -/
theorem wsProcessFrame_data {c : WsContext} (hop : c.frame.opcode ≤ 2) :
    wsProcessFrame c =
      wsDataFrame { c with user := { c.user with type := typeOf c.frame.opcode c.user.type } } := by
  obtain h | h | h : c.frame.opcode = 0 ∨ c.frame.opcode = 1 ∨ c.frame.opcode = 2 := by omega
  all_goals
    unfold wsProcessFrame
    rw [h]
    rfl

theorem DataType.opcode_lt (type : DataType) : type.opcode < 16 := by
  cases type with
  | invalid => decide
  | text => decide
  | binary => decide

/-- What the plugin posts. -/
def posted (c : WsContext) (type : DataType) (length : Nat) (fin : Bool) : WsContext :=
  { c with
    user := ⟨type, 0, none, false⟩, rx := { c.rx with offset := 0 }
    apiQueue := [.send type.opcode length .rx fin] }

theorem onMessage_posts {c : WsContext} (hactual : c.actual = .rx)
    (hptr : c.user.dataPtr = some .rx) (htype : c.user.type ≠ .invalid) (hqueue : c.apiQueue = [])
    (fin : Bool) : onMessage c fin = some (posted c c.user.type c.user.length fin) := by
  have hsend : wsSend c { c.user with finFlag := fin } =
      some { c with apiQueue := [.send c.user.type.opcode c.user.length .rx fin] } := by
    unfold wsSend
    rw [hptr, hqueue]
    generalize c.user.type = type at htype
    cases type with
    | invalid => exact absurd rfl htype
    | text => rfl
    | binary => rfl
  unfold onMessage wsEchoMessage
  rw [hsend]
  simp only [bind, Option.bind, hactual, WsContext.setBuffer, WsContext.buffer, posted]

/-- What `ws_data_frame` does with a piece that it is given. -/
theorem wsDataFrame_eq {c : WsContext} {n : Nat} (hactual : c.actual = .rx)
    (hrx : c.rx.data.length = 666) (hoffset : c.rx.offset = n) (hfits : n ≤ 666)
    (hlength : c.user.length + min c.frame.length c.recDataSize = n)
    (htype : c.user.type ≠ .invalid) (hflag : c.user.finFlag = false) (hqueue : c.apiQueue = []) :
    wsDataFrame c = some (true, noteFirst
      (if n = 666 then posted c c.user.type n false
      else if c.remainingData = 0 then
        if c.frame.fin then
          { posted { c with rxState := .start } c.user.type n true with actual := .hdr }
        else
          { c with user := { c.user with length := n, dataPtr := some .rx }, actual := .hdr }
      else { c with user := { c.user with length := n, dataPtr := some .rx } })) := by
  have hspace : c.rx.size - c.rx.offset = 0 ↔ n = 666 := by
    rw [WsBuffer.size]
    omega
  unfold wsDataFrame
  simp only [hactual, WsContext.buffer, hlength, bind, Option.bind]
  by_cases hfull : n = 666
  · -- `finFlag` is false here, so the message goes on
    rw [if_pos (hspace.mpr hfull), if_pos hfull,
      onMessage_posts (by rfl) (by rfl) (by exact htype) (by exact hqueue)]
    simp only [hflag, hactual, posted]
  · rw [if_neg (mt hspace.mp hfull), if_neg hfull]
    by_cases hread : c.remainingData = 0
    · rw [if_pos hread, if_pos hread]
      by_cases hfin : c.frame.fin = true
      · rw [if_pos hfin, if_pos hfin,
          onMessage_posts (by rfl) (by rfl) (by exact htype) (by exact hqueue)]
        rfl
      · rw [if_neg hfin, if_neg hfin]
    · rw [if_neg hread, if_neg hread]

/-! ## Sending what has been posted -/

theorem wsSendFrame_single {s : Sender} {data : Bytes} {n opcode calls : Nat} (hn : n ≤ 666)
    (hdata : n ≤ data.length) (hop : opcode < 16) (hbuffer : 684 ≤ s.buffer.length)
    (htakes : Takes s.socket (calls + 1)) (fin : Bool) :
    ∃ t : Sender, wsSendFrame s (filled fin opcode n) data = some ((n : Int), t) ∧
      t.socket.sent = s.socket.sent ++ encode none ⟨fin, opcode, data.take n⟩ ∧
      Takes t.socket calls ∧ t.buffer.length = s.buffer.length ∧
      t.uTransfer = (!fin && s.uTransfer) := by
  have hheader : wsGetHeaderSize (filled fin opcode n) ≤ 4 := by
    rw [wsGetHeaderSize_short rfl (show n < 65536 by omega)]
    split <;> omega
  have hnext : nextFrame (filled fin opcode n) n fin = filled fin opcode n := by
    unfold nextFrame txSize
    cases fin with
    | true => rw [if_pos ⟨by omega, rfl⟩]; rfl
    | false =>
      rw [if_neg (fun h => Bool.false_ne_true h.2), if_neg (fun h => Bool.false_ne_true h.2)]
      rfl
  obtain ⟨t, hround, hsent, hrest⟩ := sendLoop_round hnext rfl hop (show n ≤ 680 by omega)
    (show 0 + n ≤ data.length by omega) (Nat.le_refl n) (by omega) hbuffer htakes
    s.socket.accepts.length
  refine ⟨t, ?_, hsent, hrest⟩
  refine hround.trans ?_
  rw [if_neg (by show ¬n - n > 0; omega)]
  rfl

/-- What has been posted goes out, as the beginning of a message or as its continuation. -/
theorem apiLoop_posted {c : WsContext} {opcode n calls : Nat} (hn : n ≤ 666)
    (hdata : n ≤ c.rx.data.length) (hop : opcode < 16) (hbuffer : 684 ≤ c.sender.buffer.length)
    (htakes : Takes c.sender.socket (calls + 1)) (fin : Bool) :
    ∃ t : Sender, apiLoop [.send opcode n .rx fin] c =
        some (.doRecv, { c with sender := t, apiQueue := [] }) ∧
      t.socket.sent = c.sender.socket.sent ++
        encode none ⟨fin, if c.sender.uTransfer then 0 else opcode, c.rx.data.take n⟩ ∧
      Takes t.socket calls ∧ t.buffer.length = c.sender.buffer.length ∧ t.uTransfer = !fin := by
  -- the flag is set before the frame is sent, and a final frame clears it
  generalize hsender : (if fin then c.sender else { c.sender with uTransfer := true }) = sender
  have hsame : sender.socket = c.sender.socket ∧ sender.buffer = c.sender.buffer ∧
      (!fin && sender.uTransfer) = !fin := by
    subst hsender
    cases fin <;> exact ⟨rfl, rfl, rfl⟩
  obtain ⟨hsocket, hbuffer', htransfer⟩ := hsame
  have hop' : (if c.sender.uTransfer then 0 else opcode) < 16 := by split <;> omega
  obtain ⟨t, hsend, hsent, htakes', hlength, hflag⟩ := wsSendFrame_single hn hdata hop'
    (by rw [hbuffer']; exact hbuffer) (by rw [hsocket]; exact htakes) fin
  refine ⟨t, ?_, by rw [hsent, hsocket], htakes', by rw [hlength, hbuffer'],
    by rw [hflag, htransfer]⟩
  unfold apiLoop
  rw [hsender]
  simp only [WsContext.buffer, hsend, bind, Option.bind]
  rw [if_neg (by omega)]
  rfl

/-! ## Between the rounds -/

/-- What holds of the context whenever nothing is posted. -/
structure Sound (c : WsContext) (calls : Nat) : Prop where
  hdr : c.hdr.data.length = 14
  rx : c.rx.data.length = 666
  ctrl : c.ctrl.data.length = 125
  tx : 684 ≤ c.sender.buffer.length
  takes : Takes c.sender.socket calls
  queue : c.apiQueue = []
  missing : c.utf8.missing = 0
  flag : c.user.finFlag = false

/-- What the session has of a message that is not complete: its type, the end of it that has not
been sent back, and whether a part of it has. -/
structure Echoing where
  opened : Bool
  type : DataType
  held : Bytes
  transfer : Bool
  deriving Repr, DecidableEq

/-- The session between two frames. -/
structure Ready (c : WsContext) (e : Echoing) (calls : Nat) : Prop extends Sound c calls where
  actual : c.actual = .hdr
  rxState : c.rxState = if e.opened then .cont else .start
  offset : c.rx.offset = e.held.length
  held : c.rx.data.take e.held.length = e.held
  room : e.held.length < 666
  length : c.user.length = e.held.length
  type : c.user.type = e.type
  valid : e.opened = true → e.type ≠ .invalid
  transfer : c.sender.uTransfer = e.transfer

/-- The session inside a data frame, behind a piece that has filled the buffer. -/
structure Mid (c : WsContext) (type : DataType) (f : Frame) (key : Key) (received calls : Nat) :
    Prop extends Sound c calls where
  actual : c.actual = .rx
  rxState : f.fin = false → c.rxState = .cont
  offset : c.rx.offset = 0
  length : c.user.length = 0
  kind : c.user.type = type
  frame : c.frame = frameOf key f
  part : received ≤ f.payload.length
  remaining : c.remainingData = f.payload.length - received
  mask : received < f.payload.length → MaskAt c.maskOffset received
  transfer : c.sender.uTransfer = true

/-- One round of the session leads to `c₂`, once what has been posted is sent. -/
def Turns (c c₂ : WsContext) : Prop :=
  ∃ c₁, receiveFrame c = some (true, c₁) ∧ wsProcessApiCalls c₁ = some (.doRecv, c₂)

theorem receiveFrame_pass {c c' c₀ c₁ : WsContext} (hrecv : wsRecv c = some (.pass, c'))
    (hvalid : wsValidateData (unmaskReceived c') = some (true, c₀))
    (hframe : wsProcessFrame c₀ = some (true, c₁)) : receiveFrame c = some (true, c₁) := by
  unfold receiveFrame
  simp only [hrecv, hvalid, hframe, bind, Option.bind]
  rfl

section Piece

variable {c c' : WsContext} {held text : Bytes} {f : Frame} {key : Key} {received calls : Nat}
  {type : DataType}

/-- What a round needs of the context in which a piece has come. -/
structure Comes (c' : WsContext) (held text : Bytes) (f : Frame) (key : Key) (received : Nat)
    (type : DataType) : Prop extends Got c' held text f key received where
  opcode : f.opcode ≤ 2
  kind : typeOf f.opcode c'.user.type = type
  valid : type ≠ .invalid
  length : c'.user.length = held.length
  start : f.fin = false → c'.rxState = .start → f.opcode ≠ 0

/-- The context in which `ws_data_frame` begins. -/
def plain (c' : WsContext) (type : DataType) (data : Bytes) (maskOffset : Nat) : WsContext :=
  { c' with
    rx := ⟨data, c'.rx.offset⟩, maskOffset := maskOffset, user := { c'.user with type := type } }

theorem Comes.handled (h : Comes c' held text f key received type) (hsound : Sound c' calls)
    (htext : type = .text → IsUtf8 text) :
    ∃ data maskOffset, data.length = 666 ∧
      data.take (held.length + text.length) = held ++ text ∧
      (0 < received + text.length → received + text.length < f.payload.length →
        MaskAt maskOffset (received + text.length)) ∧
      ∃ c₀, wsValidateData (unmaskReceived c') = some (true, c₀) ∧
      wsProcessFrame c₀ = some (true, noteFirst
        (if held.length + text.length = 666 then
          posted (plain c' type data maskOffset) type (held.length + text.length) false
        else if c'.remainingData = 0 then
          if f.fin then
            { posted { plain c' type data maskOffset with rxState := .start } type
                (held.length + text.length) true with actual := .hdr }
          else
            { plain c' type data maskOffset with
              user := ⟨type, held.length + text.length, some .rx, c'.user.finFlag⟩, actual := .hdr }
        else
          { plain c' type data maskOffset with
            user := ⟨type, held.length + text.length, some .rx, c'.user.finFlag⟩ })) := by
  obtain ⟨data, maskOffset, hunmask, hdata, htake, hmask⟩ := h.toGot.unmasked
  have hframeOp : c'.frame.opcode = f.opcode := h.opcode_eq
  have hframeFin : c'.frame.fin = f.fin := h.fin_eq
  have hpart : text.length ≤ c'.frame.length := h.length_le
  refine ⟨data, maskOffset, hdata, htake, hmask, unmaskReceived c', ?_, ?_⟩
  · rw [hunmask]
    exact wsValidateData_accepts h.actual h.offset h.size htake hpart hsound.missing
      (by rw [hframeOp, h.kind]; exact htext)
  · rw [hunmask, wsProcessFrame_data (by rw [hframeOp]; exact h.opcode)]
    have hread : c'.user.length + min c'.frame.length c'.recDataSize =
        held.length + text.length := by
      rw [h.length, h.size, Nat.min_eq_right hpart]
    have hdataFrame := wsDataFrame_eq (c := plain c' type data maskOffset) h.actual hdata h.offset
      h.fits hread h.valid hsound.flag hsound.queue
    have hplain : typeOf c'.frame.opcode c'.user.type = type := by rw [hframeOp, h.kind]
    rw [hplain]
    refine hdataFrame.trans ?_
    rw [show (plain c' type data maskOffset).frame.fin = f.fin from hframeFin]
    rfl

/-- Behind a frame that is not the last, a continuation is expected. -/
theorem noteFirst_eq (c : WsContext) : ∃ rxState, noteFirst c = { c with rxState := rxState } ∧
    (c.frame.fin = false → (c.rxState = .start → c.frame.opcode ≠ 0) → rxState = .cont) ∧
    (c.frame.fin = true → rxState = c.rxState) := by
  unfold noteFirst
  split_ifs with h
  · exact ⟨.cont, rfl, fun _ _ => rfl, fun hfin => absurd (h.1.symm.trans hfin) Bool.false_ne_true⟩
  · refine ⟨c.rxState, rfl, fun hfin hop => ?_, fun _ => rfl⟩
    cases hstate : c.rxState with
    | start => exact absurd ⟨hfin, hop hstate, hstate⟩ h
    | cont => rfl

/-- **A piece that fills the buffer** is sent back in a frame that is not the last. -/
theorem Comes.full (h : Comes c' held text f key received type) (hsound : Sound c' (calls + 1))
    (hrecv : wsRecv c = some (.pass, c')) (htext : type = .text → IsUtf8 text)
    (hpos : 0 < received + text.length) (hfull : held.length + text.length = 666) :
    ∃ c₂, Turns c c₂ ∧ Mid c₂ type f key (received + text.length) calls ∧
      c₂.connection = c'.connection ∧ c₂.sender.socket.sent = c'.sender.socket.sent ++
        encode none ⟨false, if c'.sender.uTransfer then 0 else type.opcode, held ++ text⟩ := by
  obtain ⟨data, maskOffset, hdata, htake, hmask, c₀, hvalid, hframe⟩ := h.handled hsound htext
  rw [if_pos hfull] at hframe
  obtain ⟨rxState, hnote, hcont, -⟩ := noteFirst_eq (posted (plain c' type data maskOffset) type
    (held.length + text.length) false)
  rw [hnote] at hframe
  obtain ⟨t, hloop, hsent, htakes, hbuffer, htransfer⟩ := apiLoop_posted
    (c := { posted (plain c' type data maskOffset) type (held.length + text.length) false with
      rxState := rxState }) h.fits (hdata.symm ▸ h.fits) type.opcode_lt hsound.tx hsound.takes false
  have hfin : c'.frame.fin = f.fin := h.fin_eq
  have hopcode : c'.frame.opcode = f.opcode := h.opcode_eq
  refine ⟨_, ⟨_, receiveFrame_pass hrecv hvalid hframe, hloop⟩, ?_, rfl, ?_⟩
  · exact {
      hdr := hsound.hdr, rx := hdata, ctrl := hsound.ctrl, tx := by rw [hbuffer]; exact hsound.tx
      takes := htakes, queue := rfl, missing := hsound.missing, flag := rfl
      actual := h.actual
      rxState := fun hf => hcont (hfin.trans hf) (fun hs => by
        rw [show (posted (plain c' type data maskOffset) type (held.length + text.length)
          false).frame.opcode = f.opcode from hopcode]
        exact h.start hf hs)
      offset := rfl, length := rfl, kind := rfl, frame := h.frame, part := h.part
      remaining := h.remaining, mask := hmask hpos, transfer := htransfer }
  · refine hsent.trans ?_
    exact congrArg (fun s => c'.sender.socket.sent ++
      encode none ⟨false, if c'.sender.uTransfer then 0 else type.opcode, s⟩) htake

/-- **The end of a message** is sent back in its last frame. -/
theorem Comes.last (h : Comes c' held text f key received type) (hsound : Sound c' (calls + 1))
    (hrecv : wsRecv c = some (.pass, c')) (htext : type = .text → IsUtf8 text)
    (hroom : held.length + text.length < 666)
    (hwhole : received + text.length = f.payload.length) (hfin : f.fin = true) :
    ∃ c₂, Turns c c₂ ∧ Ready c₂ ⟨false, type, [], false⟩ calls ∧
      c₂.connection = c'.connection ∧ c₂.sender.socket.sent = c'.sender.socket.sent ++
        encode none ⟨true, if c'.sender.uTransfer then 0 else type.opcode, held ++ text⟩ := by
  obtain ⟨data, maskOffset, hdata, htake, -, c₀, hvalid, hframe⟩ := h.handled hsound htext
  have hread : c'.remainingData = 0 := by
    have := h.remaining
    omega
  -- the buffer has room, the frame is over, and it is the last one
  rw [if_neg (by omega), if_pos hread, if_pos hfin] at hframe
  obtain ⟨rxState, hnote, -, hsame⟩ := noteFirst_eq { posted { plain c' type data maskOffset with
    rxState := .start } type (held.length + text.length) true with actual := .hdr }
  rw [hnote] at hframe
  obtain ⟨t, hloop, hsent, htakes, hbuffer, htransfer⟩ := apiLoop_posted
    (c := { posted { plain c' type data maskOffset with rxState := .start } type
      (held.length + text.length) true with actual := .hdr, rxState := rxState })
    h.fits (hdata.symm ▸ h.fits) type.opcode_lt hsound.tx hsound.takes true
  have hfin' : c'.frame.fin = true := h.fin_eq.trans hfin
  refine ⟨_, ⟨_, receiveFrame_pass hrecv hvalid hframe, hloop⟩, ?_, rfl, ?_⟩
  · exact {
      hdr := hsound.hdr, rx := hdata, ctrl := hsound.ctrl, tx := by rw [hbuffer]; exact hsound.tx
      takes := htakes, queue := rfl, missing := hsound.missing, flag := rfl
      actual := rfl, rxState := hsame hfin', offset := rfl, held := List.take_zero
      room := show 0 < 666 by decide, length := rfl, type := rfl
      valid := fun hopened => absurd hopened Bool.false_ne_true, transfer := htransfer }
  · refine hsent.trans ?_
    exact congrArg (fun s => c'.sender.socket.sent ++
      encode none ⟨true, if c'.sender.uTransfer then 0 else type.opcode, s⟩) htake

/-- **The end of a frame** that is not the last is kept. -/
theorem Comes.kept (h : Comes c' held text f key received type) (hsound : Sound c' calls)
    (hrecv : wsRecv c = some (.pass, c')) (htext : type = .text → IsUtf8 text)
    (hroom : held.length + text.length < 666)
    (hwhole : received + text.length = f.payload.length) (hfin : f.fin = false) :
    ∃ c₂, Turns c c₂ ∧ Ready c₂ ⟨true, type, held ++ text, c'.sender.uTransfer⟩ calls ∧
      c₂.connection = c'.connection ∧ c₂.sender.socket.sent = c'.sender.socket.sent := by
  obtain ⟨data, maskOffset, hdata, htake, -, c₀, hvalid, hframe⟩ := h.handled hsound htext
  have hread : c'.remainingData = 0 := by
    have := h.remaining
    omega
  rw [if_neg (by omega), if_pos hread, if_neg (by rw [hfin]; exact Bool.false_ne_true)] at hframe
  obtain ⟨rxState, hnote, hcont, -⟩ := noteFirst_eq { plain c' type data maskOffset with
    user := ⟨type, held.length + text.length, some .rx, c'.user.finFlag⟩, actual := .hdr }
  rw [hnote] at hframe
  have hfin' : c'.frame.fin = false := h.fin_eq.trans hfin
  have hopcode : c'.frame.opcode = f.opcode := h.opcode_eq
  have hstate : rxState = .cont := hcont hfin' fun hs => by
    rw [show (plain c' type data maskOffset).frame.opcode = f.opcode from hopcode]
    exact h.start hfin hs
  -- nothing has been posted, so the round sends nothing
  have hqueue : wsProcessApiCalls { plain c' type data maskOffset with
      user := ⟨type, held.length + text.length, some .rx, c'.user.finFlag⟩, actual := .hdr
      rxState := rxState } = some (.doRecv, { plain c' type data maskOffset with
      user := ⟨type, held.length + text.length, some .rx, c'.user.finFlag⟩, actual := .hdr
      rxState := rxState, apiQueue := [] }) := by
    rw [wsProcessApiCalls]
    show apiLoop c'.apiQueue _ = _
    rw [hsound.queue]
    rfl
  refine ⟨_, ⟨_, receiveFrame_pass hrecv hvalid hframe, hqueue⟩, ?_, rfl, rfl⟩
  have hlen : (held ++ text).length = held.length + text.length := List.length_append
  exact {
    hdr := hsound.hdr, rx := hdata, ctrl := hsound.ctrl, tx := hsound.tx
    takes := hsound.takes, queue := rfl, missing := hsound.missing, flag := hsound.flag
    actual := rfl, rxState := hstate, offset := h.offset.trans hlen.symm
    held := by rw [hlen]; exact htake
    room := by rw [hlen]; exact hroom
    length := hlen.symm, type := rfl, valid := fun _ => h.valid, transfer := rfl }

end Piece

end EmWinDemo.WebSocket.Session
