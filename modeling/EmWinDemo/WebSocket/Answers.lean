/-
# EmWinDemo.WebSocket.Answers -- the frames in which a session answers

`Echoing` is what a session has of a message that is not complete, and `answers` the frames that it
sends for those of the client, as a function of these alone.  `Ready.answers_stream` is the
refinement: from any frame on, the session sends these answers, whatever the keys are and in whatever
pieces the bytes come in.  A data frame is an induction over what is still to come of it
(`Comes.leads`).
-/
import EmWinDemo.WebSocket.Pieces

namespace EmWinDemo.WebSocket.Session

open Lib.CMemory Lib.Utf8 Lib.WebSocket Http.Output Frames Send Utf8

/-! ## A data frame -/

/-- The session gets from one context to the other. -/
def Leads (c c₂ : WsContext) : Prop :=
  ∃ k, ∀ rounds, sessionLoop (rounds + k) c = sessionLoop rounds c₂

theorem Leads.trans {c c₂ c₃ : WsContext} (h : Leads c c₂) (h' : Leads c₂ c₃) : Leads c c₃ := by
  obtain ⟨k, hk⟩ := h
  obtain ⟨l, hl⟩ := h'
  refine ⟨l + k, fun rounds => ?_⟩
  rw [← Nat.add_assoc, hk, hl]

theorem wsProcessApiCalls_drained {c : WsContext} (h : c.apiQueue = []) :
    wsProcessApiCalls c = some (.doRecv, c) := by
  rw [wsProcessApiCalls, h]
  show some (_, { c with apiQueue := [] }) = _
  rw [← h]

theorem wsProcess_drained {c : WsContext} (h : c.apiQueue = []) : wsProcess c = receiveFrame c := by
  rw [wsProcess, wsProcessApiCalls_drained h]
  rfl

theorem Turns.leads {c c₂ : WsContext} (h : Turns c c₂) (hc : c.apiQueue = [])
    (hc₂ : c₂.apiQueue = []) : Leads c c₂ := by
  obtain ⟨c₁, hreceive, hcalls⟩ := h
  have hsame : wsProcess c₁ = wsProcess c₂ := by
    rw [wsProcess_drained hc₂, wsProcess, hcalls]
    rfl
  refine ⟨1, fun rounds => ?_⟩
  rw [sessionLoop, wsProcess_drained hc, hreceive]
  show sessionLoop rounds c₁ = sessionLoop rounds c₂
  -- what has been posted is sent at the beginning of the next round
  cases rounds with
  | zero => rfl
  | succ rounds => rw [sessionLoop, sessionLoop, hsame]

/-- The frames in which a part of a message is sent back that ends with a frame of the client. -/
def echoed (opcode : Nat) (fin : Bool) (all : Bytes) : List Frame :=
  if 666 ≤ all.length then ⟨false, opcode, all.take 666⟩ :: echoed 0 fin (all.drop 666)
  else if fin then [⟨true, opcode, all⟩] else []
termination_by all.length
decreasing_by rw [List.length_drop]; omega

theorem echoed_eq (opcode : Nat) (fin : Bool) (all : Bytes) : echoed opcode fin all =
    if 666 ≤ all.length then ⟨false, opcode, all.take 666⟩ :: echoed 0 fin (all.drop 666)
    else if fin then [⟨true, opcode, all⟩] else [] := by
  rw [echoed]

/-- What is not sent back yet of a message. -/
def unsent (all : Bytes) : Bytes := all.drop (all.length / 666 * 666)

/-- Text that is cut between characters, first where the buffer is full and then every 666 bytes. -/
inductive Whole : Nat → Bytes → Prop where
  | last {room : Nat} {s : Bytes} : s.length < room → IsUtf8 s → Whole room s
  | piece {room : Nat} {s t : Bytes} : s.length = room → IsUtf8 s → Whole 666 t → Whole room (s ++ t)

theorem Whole.take {room : Nat} {s : Bytes} (h : Whole room s) : IsUtf8 (s.take room) := by
  cases h with
  | last hlen hutf8 => rwa [List.take_of_length_le (by omega)]
  | piece hlen hutf8 _ => rwa [List.take_left' hlen]

theorem Whole.drop {room : Nat} {s : Bytes} (h : Whole room s) (hroom : room ≤ s.length) :
    Whole 666 (s.drop room) := by
  cases h with
  | last hlen _ => omega
  | piece hlen _ hrest => rwa [List.drop_left' hlen]

/-- A payload is masked in the pieces in which it comes. -/
theorem masked_pieces (key : Key) (received n : Nat) (payload : Bytes) :
    masked key received (payload.drop received) =
      masked key received ((payload.drop received).take n) ++
        masked key (received + ((payload.drop received).take n).length)
          (payload.drop (received + ((payload.drop received).take n).length)) := by
  have hparts : (payload.drop received).take n ++
      payload.drop (received + ((payload.drop received).take n).length) =
        payload.drop received := by
    rw [← List.drop_drop, List.length_take]
    by_cases hle : n ≤ (payload.drop received).length
    · rw [Nat.min_eq_left hle, List.take_append_drop]
    · rw [Nat.min_eq_right (by omega), List.drop_length, List.append_nil,
        List.take_of_length_le (by omega)]
  rw [← masked_append, hparts]

/-- Behind a full buffer, the next piece comes to the front of it. -/
theorem Mid.receives {c : WsContext} {type : DataType} {f : Frame} {key : Key}
    {received calls : Nat} {more : Bytes} (h : Mid c type f key received calls)
    (hop : f.opcode ≤ 2) (htype : typeOf f.opcode type = type) (hvalid : type ≠ .invalid)
    (hin : c.connection.incoming = masked key received (f.payload.drop received) ++ more)
    {text : Bytes} (hpart : (f.payload.drop received).take 666 = text) :
    ∃ c', wsRecv c = some (.pass, c') ∧ Comes c' [] text f key received type ∧ Sound c' calls ∧
      c'.sender = c.sender ∧ c'.connection.incoming =
        masked key (received + text.length) (f.payload.drop (received + text.length)) ++ more := by
  have hlength : text.length = min 666 (f.payload.length - received) := by
    rw [← hpart, List.length_take, List.length_drop]
  rw [masked_pieces key received 666, hpart, List.append_assoc] at hin
  have hcount : (masked key received text).length = text.length := length_masked key received text
  have hlong := congrArg List.length hin
  rw [List.length_append, hcount] at hlong
  have hsize : c.rx.size = 666 := h.rx
  obtain ⟨pieces, hloop⟩ := recvLoop_payload (c := { c with recDataSize := 0 })
    (by decide : BufferName.rx ≠ .hdr) hin
    (show (masked key received text).length = min (c.rx.size - c.rx.offset)
      (min c.rx.size c.remainingData) by rw [hcount, hsize, h.offset, h.remaining]; omega)
    (show c.rx.offset ≤ c.rx.size by rw [h.offset]; exact Nat.zero_le _)
    (show (masked key received text).length < c.connection.incoming.length + 2 by omega)
  have hrecv : wsRecv c = recvLoop (c.connection.incoming.length + 2) .rx
      (min c.rx.size c.remainingData) { c with recDataSize := 0 } := by
    unfold wsRecv
    rw [if_neg (by rw [h.actual]; decide), h.actual]
    rfl
  have hstore : (store c.rx.data c.rx.offset (masked key received text)).length = 666 := by
    rw [length_store (by rw [h.offset, h.rx, hcount]; omega), h.rx]
  refine ⟨_, hrecv.trans hloop, ?_, ?_, rfl, rfl⟩
  · exact {
      actual := rfl, rx := hstore
      offset := by
        show c.rx.offset + (masked key received text).length = 0 + text.length
        rw [h.offset, hcount]
      fits := by rw [List.length_nil, Nat.zero_add]; omega
      data := by
        show (store c.rx.data c.rx.offset (masked key received text)).take (0 + text.length) = _
        rw [h.offset, store_zero, Nat.zero_add, List.take_left' hcount]
        rfl
      size := by
        show 0 + (masked key received text).length = text.length
        rw [Nat.zero_add, hcount]
      frame := h.frame, part := by have := h.part; omega
      remaining := by
        show c.remainingData - (masked key received text).length = _
        rw [h.remaining, hcount]
        omega
      mask := by
        by_cases hnil : text = []
        · exact Or.inl hnil
        · have hpos : 0 < text.length := List.length_pos_of_ne_nil hnil
          exact Or.inr (h.mask (by omega))
      opcode := hop
      kind := by
        show typeOf f.opcode c.user.type = type
        rw [h.kind, htype]
      valid := hvalid, length := h.length
      start := fun hfin hs => absurd ((h.rxState hfin).symm.trans hs) (by decide) }
  · exact {
      hdr := h.hdr, rx := hstore, ctrl := h.ctrl, tx := h.tx, takes := h.takes, queue := h.queue
      missing := h.missing, flag := h.flag }

theorem unsent_short {all : Bytes} (h : all.length < 666) : unsent all = all := by
  rw [unsent, Nat.div_eq_of_lt h, Nat.zero_mul, List.drop_zero]

theorem unsent_drop {all : Bytes} (h : 666 ≤ all.length) : unsent (all.drop 666) = unsent all := by
  rw [unsent, unsent, List.length_drop, List.drop_drop]
  congr 1
  omega

/-- What has become of the message behind a data frame. -/
def behind (f : Frame) (type : DataType) (all : Bytes) (transfer : Bool) : Echoing :=
  ⟨!f.fin, type, if f.fin then [] else unsent all,
    !f.fin && (transfer || decide (666 ≤ all.length))⟩

/-- **The rest of a data frame.**  From a piece on, by induction on what is still to come. -/
theorem Comes.leads {more : Bytes} {c c' : WsContext} {held text : Bytes} {f : Frame} {key : Key}
    {received calls : Nat} {type : DataType} (h : Comes c' held text f key received type)
    (hrecv : wsRecv c = some (.pass, c')) (hqueue : c.apiQueue = [])
    (hsound : Sound c' (calls + (echoed (if c'.sender.uTransfer then 0 else type.opcode) f.fin
      (held ++ f.payload.drop received)).length))
    (htype : typeOf f.opcode type = type) (hroom : held.length < 666)
    (hpart : (f.payload.drop received).take (666 - held.length) = text)
    (hwhole : type = .text → Whole (666 - held.length) (f.payload.drop received))
    (hin : c'.connection.incoming =
      masked key (received + text.length) (f.payload.drop (received + text.length)) ++ more) :
    ∃ c₂, Leads c c₂ ∧
      Ready c₂ (behind f type (held ++ f.payload.drop received) c'.sender.uTransfer) calls ∧
      c₂.connection.incoming = more ∧ c₂.sender.socket.sent = c'.sender.socket.sent ++
        (echoed (if c'.sender.uTransfer then 0 else type.opcode) f.fin
          (held ++ f.payload.drop received)).flatMap (encode none) := by
  induction hn : f.payload.length - received using Nat.strong_induction_on
    generalizing c c' held text received with
  | _ n ih =>
    have hlength : text.length = min (666 - held.length) (f.payload.length - received) := by
      rw [← hpart, List.length_take, List.length_drop]
    have hall : (held ++ f.payload.drop received).length =
        held.length + (f.payload.length - received) := by
      rw [List.length_append, List.length_drop]
    have hle := h.part
    have hutf8 : type = .text → IsUtf8 text := fun ht => hpart ▸ (hwhole ht).take
    rw [echoed_eq, hall] at hsound
    rw [echoed_eq, hall]
    by_cases hfull : 666 ≤ held.length + (f.payload.length - received)
    · -- the piece fills the buffer: it is sent back, and the next one comes to the front
      rw [if_pos hfull] at hsound ⊢
      have htake : (held ++ f.payload.drop received).take 666 = held ++ text := by
        rw [← hpart, List.take_append, List.take_of_length_le (Nat.le_of_lt hroom)]
      have hdrop : (held ++ f.payload.drop received).drop 666 =
          f.payload.drop (received + text.length) := by
        rw [List.drop_append, List.drop_eq_nil_of_le (Nat.le_of_lt hroom), List.nil_append,
          List.drop_drop, hlength, Nat.min_eq_left (by omega)]
      rw [List.length_cons, ← Nat.add_assoc, hdrop] at hsound
      rw [htake, hdrop]
      obtain ⟨c₂, hturn, hmid, hconnection, hsent⟩ :=
        h.full hsound hrecv hutf8 (by omega) (by omega)
      have htext : type = .text → Whole 666 (f.payload.drop (received + text.length)) := by
        intro ht
        have hrest := (hwhole ht).drop (by rw [List.length_drop]; omega)
        rwa [List.drop_drop, show received + (666 - held.length) = received + text.length by omega]
          at hrest
      obtain ⟨c₃, hrecv₃, hcomes, hsound₃, hsender, hin₃⟩ := hmid.receives h.opcode htype h.valid
        (by rw [hconnection]; exact hin) rfl
      have htransfer : c₃.sender.uTransfer = true := by rw [hsender]; exact hmid.transfer
      rw [← List.nil_append (f.payload.drop (received + text.length))] at hsound₃
      obtain ⟨c₄, hleads, hready, hmore, hsent₄⟩ := ih _ (by omega) hcomes hrecv₃ hmid.queue
        (by rw [if_pos htransfer]; exact hsound₃) (by decide) rfl htext hin₃ rfl
      refine ⟨c₄, (hturn.leads hqueue hmid.queue).trans hleads, ?_, hmore, ?_⟩
      · have hbehind : behind f type ([] ++ f.payload.drop (received + text.length))
            c₃.sender.uTransfer = behind f type (held ++ f.payload.drop received)
              c'.sender.uTransfer := by
          unfold behind
          rw [List.nil_append, ← hdrop, unsent_drop (by rw [hall]; exact hfull), htransfer, hall,
            decide_eq_true hfull, Bool.true_or, Bool.or_true]
        rw [← hbehind]
        exact hready
      · rw [hsent₄, if_pos htransfer, hsender, hsent, List.nil_append, List.flatMap_cons,
          List.append_assoc]
    · -- what is left fits, and is either sent back or kept
      rw [if_neg hfull] at hsound ⊢
      have hrest : f.payload.drop received = text := by
        rw [← hpart, List.take_of_length_le (by rw [List.length_drop]; omega)]
      have hwholeFrame : received + text.length = f.payload.length := by omega
      have hmore : c'.connection.incoming = more := by
        rw [hin, hwholeFrame, List.drop_length, masked, List.nil_append]
      have hshort : decide (666 ≤ (held ++ f.payload.drop received).length) = false := by
        rw [hall]
        exact decide_eq_false hfull
      unfold behind
      rw [hshort, Bool.or_false, hrest]
      cases hfin : f.fin with
      | true =>
        rw [hfin] at hsound
        obtain ⟨c₂, hturn, hready, hconnection, hsent⟩ :=
          h.last hsound hrecv hutf8 (by omega) hwholeFrame hfin
        refine ⟨c₂, hturn.leads hqueue hready.queue, hready, by rw [hconnection, hmore], ?_⟩
        rw [hsent]
        simp only [if_true, List.flatMap_cons, List.flatMap_nil, List.append_nil]
      | false =>
        rw [hfin] at hsound
        obtain ⟨c₂, hturn, hready, hconnection, hsent⟩ :=
          h.kept hsound hrecv hutf8 (by omega) hwholeFrame hfin
        have hunsent : unsent (held ++ text) = held ++ text :=
          unsent_short (by rw [List.length_append]; omega)
        refine ⟨c₂, hturn.leads hqueue hready.queue, ?_, by rw [hconnection, hmore], ?_⟩
        · rw [hunsent]
          exact hready
        · rw [hsent]
          simp only [Bool.false_eq_true, if_false, List.flatMap_nil, List.append_nil]

/-! ## A frame -/

/-- The frames that a session takes behind an open message or none, the end of it apart. -/
inductive Fits (opened : Bool) (f : Frame) : Prop where
  | data : f.opcode ≤ 2 → (f.opcode = 0 ↔ opened = true) → Fits opened f
  | control : f.opcode = 9 ∨ f.opcode = 10 → f.fin = true → f.payload.length ≤ 125 → Fits opened f

/-- A key that the server accepts. -/
def NonzeroKey (key : Key) : Prop := key ≠ ⟨0, 0, 0, 0⟩

instance (key : Key) : Decidable (NonzeroKey key) := inferInstanceAs (Decidable (¬_ = _))

theorem load32_ne_zero {key : Key} (h : NonzeroKey key) :
    load32 key.k0 key.k1 key.k2 key.k3 ≠ 0 := by
  intro hzero
  have hkey := keyOf_load32 key.k0 key.k1 key.k2 key.k3
  rw [hzero] at hkey
  exact h hkey.symm

theorem Fits.checked {opened : Bool} {f : Frame} (h : Fits opened f) {key : Key}
    (hkey : NonzeroKey key) :
    wsCheckFrameHeader (if opened then .cont else .start) (frameOf key f) = .ok := by
  have hword := load32_ne_zero hkey
  unfold wsCheckFrameHeader frameOf
  cases h with
  | data hop hopened =>
    have hcontrol : f.opcode &&& 0x8 = 0 := by
      obtain h | h | h : f.opcode = 0 ∨ f.opcode = 1 ∨ f.opcode = 2 := by omega
      all_goals rw [h]; rfl
    cases opened with
    | true =>
      -- inside a message only continuations pass
      have hzero := hopened.mpr rfl
      simp [hzero, hword]
    | false =>
      have hnonzero : f.opcode ≠ 0 := fun hz => absurd (hopened.mp hz) Bool.false_ne_true
      simp [hcontrol, hnonzero, hword]
      omega
  | control hop hfin hlen =>
    rcases hop with hop | hop <;> cases opened <;> simp [hop, hfin, hword, hlen]

theorem Ready.begins {c : WsContext} {e : Echoing} {calls : Nat} {f : Frame} {key : Key}
    {rest : Bytes} (h : Ready c e calls) (hfits : Fits e.opened f) (hkey : NonzeroKey key)
    (hop : f.opcode < 16) (hlen : f.payload.length < 2 ^ 32)
    (hin : c.connection.incoming = header (some key) f ++ rest) :
    ∃ rounds data pieces length, rest.length + 2 ≤ rounds ∧ data.length = 14 ∧
      wsRecv c = behindHeader rounds (frameOf key f)
        (announced { c with recDataSize := 0, ctrl := { c.ctrl with offset := 0 }, maskOffset := 0 }
          data (frameOf key f) ⟨rest, pieces⟩ length) := by
  have hpos : 0 < (header (some key) f).length := by rw [length_header]; omega
  obtain ⟨rounds, data, pieces, hrounds, hdata, hloop⟩ := recvLoop_header hop hlen
    (c := { c with
      recDataSize := 0, hdr := { c.hdr with offset := 0 }, ctrl := { c.ctrl with offset := 0 }
      maskOffset := 0 })
    h.hdr (by show wsCheckFrameHeader c.rxState _ = _; rw [h.rxState]; exact hfits.checked hkey)
    hpos rfl hin (Nat.le_refl _)
  refine ⟨rounds, data, pieces, (header (some key) f).length, hrounds, hdata, ?_⟩
  unfold wsRecv
  rw [if_pos h.actual]
  exact hloop

theorem typeOf_typeOf (opcode : Nat) (type : DataType) :
    typeOf opcode (typeOf opcode type) = typeOf opcode type := by
  unfold typeOf
  split_ifs <;> rfl

/-- The beginning of a data frame comes behind what is held. -/
theorem Ready.receives {c : WsContext} {e : Echoing} {calls : Nat} {f : Frame} {key : Key}
    {more : Bytes} (h : Ready c e calls) (hop : f.opcode ≤ 2)
    (hopened : f.opcode = 0 ↔ e.opened = true) (hkey : NonzeroKey key)
    (hlen : f.payload.length < 2 ^ 32)
    (hin : c.connection.incoming = encode (some key) f ++ more)
    {text : Bytes} (hpart : (f.payload.drop 0).take (666 - e.held.length) = text) :
    ∃ c', wsRecv c = some (.pass, c') ∧
      Comes c' e.held text f key 0 (typeOf f.opcode e.type) ∧ Sound c' calls ∧
      c'.sender = c.sender ∧ c'.connection.incoming =
        masked key (0 + text.length) (f.payload.drop (0 + text.length)) ++ more := by
  have hlength : text.length = min (666 - e.held.length) f.payload.length := by
    rw [← hpart, List.length_take, List.length_drop, Nat.sub_zero]
  have hcount : (masked key 0 text).length = text.length := length_masked key 0 text
  have hpieces := masked_pieces key 0 (666 - e.held.length) f.payload
  rw [hpart, List.drop_zero] at hpieces
  rw [encode, List.append_assoc] at hin
  obtain ⟨rounds, data, pieces, length, hrounds, hdata, hbegins⟩ :=
    h.begins (.data hop hopened) hkey (by omega) hlen hin
  have hnot : ¬f.opcode &&& 0x8 ≠ 0 := by
    obtain h | h | h : f.opcode = 0 ∨ f.opcode = 1 ∨ f.opcode = 2 := by omega
    all_goals rw [h]; decide
  have hsize : c.rx.size = 666 := h.rx
  rw [behindHeader, if_neg (show ¬(frameOf key f).opcode &&& 0x8 ≠ 0 from hnot)] at hbegins
  rw [hpieces, List.append_assoc] at hrounds
  have hlong : (masked key 0 text).length < rounds := by
    rw [List.length_append] at hrounds
    omega
  obtain ⟨pieces', hloop⟩ := recvLoop_payload
    (c := { announced { c with recDataSize := 0, ctrl := { c.ctrl with offset := 0 }, maskOffset := 0 }
      data (frameOf key f) ⟨masked key 0 f.payload ++ more, pieces⟩ length with
      frameData := .rx, remainingData := f.payload.length })
    (by decide : BufferName.rx ≠ .hdr) (by rw [hpieces, List.append_assoc]; rfl)
    (show (masked key 0 text).length = min (c.rx.size - c.rx.offset)
      (min f.payload.length c.rx.size) by rw [hcount, hsize, h.offset, hlength]; omega)
    (show c.rx.offset ≤ c.rx.size by rw [h.offset, hsize]; exact Nat.le_of_lt h.room) hlong
  have hfits : e.held.length + text.length ≤ 666 := by
    have := h.room
    omega
  have hstore : (store c.rx.data c.rx.offset (masked key 0 text)).length = 666 := by
    rw [length_store (by rw [h.offset, h.rx, hcount]; exact hfits), h.rx]
  refine ⟨_, hbegins.trans hloop, ?_, ?_, rfl, rfl⟩
  · exact {
      actual := rfl, rx := hstore
      offset := by
        show c.rx.offset + (masked key 0 text).length = _
        rw [h.offset, hcount]
      fits := hfits
      data := by
        show (store c.rx.data c.rx.offset (masked key 0 text)).take _ = _
        have hfront : (c.rx.data.take e.held.length ++ masked key 0 text).length =
            e.held.length + text.length := by
          rw [List.length_append, hcount, List.length_take_of_le (by rw [h.rx]; omega)]
        rw [h.offset, store, List.take_left' hfront, h.held]
      size := by
        show 0 + (masked key 0 text).length = text.length
        rw [Nat.zero_add, hcount]
      frame := rfl, part := by omega
      remaining := by
        show f.payload.length - (masked key 0 text).length = _
        rw [hcount, Nat.zero_add]
      mask := Or.inr (Or.inl ⟨rfl, rfl⟩)
      opcode := hop
      kind := by
        show typeOf f.opcode c.user.type = _
        rw [h.type]
      valid := by
        unfold typeOf
        split_ifs
        · decide
        · decide
        · exact h.valid (hopened.mp (by omega))
      length := h.length
      start := fun _ hs hzero => by
        have hcont : c.rxState = .cont := by rw [h.rxState, if_pos (hopened.mp hzero)]
        exact absurd (hcont.symm.trans hs) (by decide) }
  · exact {
      hdr := hdata, rx := hstore, ctrl := h.ctrl, tx := h.tx, takes := h.takes, queue := h.queue
      missing := h.missing, flag := h.flag }

/-- What a control frame leaves as it was, and where it has come. -/
structure Controlled (c c₀ : WsContext) (f : Frame) (key : Key) (more : Bytes) : Prop where
  sender : c₀.sender = c.sender
  rx : c₀.rx = c.rx
  rxState : c₀.rxState = c.rxState
  user : c₀.user = c.user
  utf8 : c₀.utf8 = c.utf8
  queue : c₀.apiQueue = c.apiQueue
  frame : c₀.frame = frameOf key f
  pointer : c₀.frameData = .ctrl
  hdr : c₀.hdr.data.length = 14
  ctrl : c₀.ctrl.data.length = 125
  payload : c₀.ctrl.data.take f.payload.length = f.payload
  incoming : c₀.connection.incoming = more

/-- A control frame that has come, without its mask. -/
theorem Controlled.intro {c c' : WsContext} {f : Frame} {key : Key} {more : Bytes}
    (hactual : c'.actual = .ctrl) (hoffset : c'.ctrl.offset = f.payload.length)
    (hsize : c'.recDataSize = f.payload.length) (hctrl : c'.ctrl.data.length = 125)
    (hdata : c'.ctrl.data.take f.payload.length = masked key 0 f.payload)
    (hframe : c'.frame = frameOf key f) (hop : f.opcode = 9 ∨ f.opcode = 10)
    (hremaining : c'.remainingData = 0) (hmask : c'.maskOffset = 0) (hlen : f.payload.length ≤ 125)
    (hsame : c'.sender = c.sender ∧ c'.rx = c.rx ∧ c'.rxState = c.rxState ∧ c'.user = c.user ∧
      c'.utf8 = c.utf8 ∧ c'.apiQueue = c.apiQueue)
    (hpointer : c'.frameData = .ctrl) (hhdr : c'.hdr.data.length = 14)
    (hmore : c'.connection.incoming = more) :
    ∃ c₀, wsValidateData (unmaskReceived c') = some (true, c₀) ∧ Controlled c c₀ f key more := by
  obtain ⟨hsender, hrx, hrxState, huser, hutf8, hqueue⟩ := hsame
  have hplain : wsUnmaskData (masked key 0 f.payload) c'.frame.maskKey c'.maskOffset =
      f.payload := by
    rw [hframe]
    exact wsUnmaskData_at key f.payload (Or.inr (Or.inl ⟨rfl, hmask⟩))
  have hstart : c'.ctrl.offset - c'.recDataSize = 0 := by omega
  have hunmask : unmaskReceived c' =
      { c' with ctrl := ⟨store c'.ctrl.data 0 f.payload, c'.ctrl.offset⟩ } := by
    unfold unmaskReceived
    rw [hactual]
    simp only [WsContext.buffer, WsContext.setBuffer, hstart, List.drop_zero]
    rw [hsize, hdata, hplain, if_neg (fun h => h.1 hremaining), hactual]
  have hopcode : c'.frame.opcode = f.opcode := by rw [hframe]; rfl
  refine ⟨{ c' with ctrl := ⟨store c'.ctrl.data 0 f.payload, c'.ctrl.offset⟩ }, ?_, hsender, hrx,
    hrxState, huser, hutf8, hqueue, hframe, hpointer, hhdr, ?_, ?_, hmore⟩
  · rw [hunmask, wsValidateData, if_neg]
    show ¬(c'.frame.opcode = 1 ∨ c'.frame.opcode = 0 ∧ c'.user.type = .text)
    rcases hop with hop | hop <;> omega
  · show (store c'.ctrl.data 0 f.payload).length = 125
    rw [length_store (by omega), hctrl]
  · show (store c'.ctrl.data 0 f.payload).take f.payload.length = f.payload
    rw [store_zero, List.take_left' rfl]

theorem Ready.controls {c : WsContext} {e : Echoing} {calls : Nat} {f : Frame} {key : Key}
    {more : Bytes} (h : Ready c e calls) (hop : f.opcode = 9 ∨ f.opcode = 10)
    (hfin : f.fin = true) (hlen : f.payload.length ≤ 125) (hkey : NonzeroKey key)
    (hin : c.connection.incoming = encode (some key) f ++ more) :
    ∃ c', wsRecv c = some (.pass, c') ∧ ∃ c₀,
      wsValidateData (unmaskReceived c') = some (true, c₀) ∧ Controlled c c₀ f key more := by
  have hcount : (masked key 0 f.payload).length = f.payload.length := length_masked key 0 f.payload
  rw [encode, List.append_assoc] at hin
  obtain ⟨rounds, data, pieces, length, hrounds, hdata, hbegins⟩ :=
    h.begins (.control hop hfin hlen) hkey (by omega) (by omega) hin
  have hcontrol : f.opcode &&& 0x8 ≠ 0 := by
    rcases hop with hop | hop <;> rw [hop] <;> decide
  rw [behindHeader, if_pos (show (frameOf key f).opcode &&& 0x8 ≠ 0 from hcontrol)] at hbegins
  rw [List.length_append] at hrounds
  have hlong : (masked key 0 f.payload).length < rounds := by omega
  have hsize : c.ctrl.size = 125 := h.ctrl
  obtain ⟨pieces', hloop⟩ := recvLoop_payload
    (c := { announced { c with recDataSize := 0, ctrl := { c.ctrl with offset := 0 }, maskOffset := 0 }
      data (frameOf key f) ⟨masked key 0 f.payload ++ more, pieces⟩ length with
      frameData := .ctrl, remainingData := f.payload.length })
    (by decide : BufferName.ctrl ≠ .hdr) rfl
    (show (masked key 0 f.payload).length = min (c.ctrl.size - 0) f.payload.length by
      rw [hcount, hsize]; omega)
    (Nat.zero_le _) hlong
  have hstore : (store c.ctrl.data 0 (masked key 0 f.payload)).length = 125 := by
    rw [length_store (by rw [h.ctrl, hcount]; omega), h.ctrl]
  have hfront : (store c.ctrl.data 0 (masked key 0 f.payload)).take f.payload.length =
      masked key 0 f.payload := by
    rw [store_zero, List.take_left' hcount]
  have hsum : 0 + (masked key 0 f.payload).length = f.payload.length := by rw [hcount, Nat.zero_add]
  have hrest : f.payload.length - (masked key 0 f.payload).length = 0 := by rw [hcount, Nat.sub_self]
  exact ⟨_, hbegins.trans hloop, Controlled.intro rfl hsum hsum hstore hfront rfl hop hrest rfl hlen
    ⟨rfl, rfl, rfl, rfl, rfl, rfl⟩ rfl hdata rfl⟩

/-- Behind a control frame everything else is as it was. -/
theorem Controlled.ready {c c₀ : WsContext} {e : Echoing} {calls n : Nat} {f : Frame} {key : Key}
    {more : Bytes} (hc : Controlled c c₀ f key more) (h : Ready c e n) (state : SesState) (t : Sender)
    (htakes : Takes t.socket calls) (htx : 684 ≤ t.buffer.length) :
    Ready { c₀ with sender := t, state := state, actual := .hdr }
      { e with transfer := t.uTransfer } calls where
  hdr := hc.hdr
  rx := by dsimp only; rw [hc.rx, h.rx]
  ctrl := hc.ctrl
  tx := htx
  takes := htakes
  queue := by dsimp only; rw [hc.queue, h.queue]
  missing := by dsimp only; rw [hc.utf8, h.missing]
  flag := by dsimp only; rw [hc.user, h.flag]
  actual := rfl
  rxState := by dsimp only; rw [hc.rxState, h.rxState]
  offset := by dsimp only; rw [hc.rx, h.offset]
  held := by dsimp only; rw [hc.rx, h.held]
  room := h.room
  length := by dsimp only; rw [hc.user, h.length]
  type := by dsimp only; rw [hc.user, h.type]
  valid := h.valid
  transfer := rfl

theorem Ready.ping {c : WsContext} {e : Echoing} {calls : Nat} {f : Frame} {key : Key}
    {more : Bytes} (h : Ready c e (calls + 1)) (hop : f.opcode = 9) (hfin : f.fin = true)
    (hlen : f.payload.length ≤ 125) (hkey : NonzeroKey key)
    (hin : c.connection.incoming = encode (some key) f ++ more) :
    ∃ c₂, Leads c c₂ ∧ Ready c₂ { e with transfer := false } calls ∧
      c₂.connection.incoming = more ∧
      c₂.sender.socket.sent = c.sender.socket.sent ++ encode none ⟨true, 10, f.payload⟩ := by
  obtain ⟨c', hrecv, c₀, hvalid, hc⟩ := h.controls (Or.inl hop) hfin hlen hkey hin
  obtain ⟨t, hsend, hsent, htakes, hbuffer, htransfer⟩ := wsSendFrame_single
    (show f.payload.length ≤ 666 by omega) (show _ ≤ c₀.ctrl.data.length by rw [hc.ctrl]; exact hlen)
    (show 10 < 16 by decide) (show 684 ≤ c₀.sender.buffer.length by rw [hc.sender]; exact h.tx)
    (show Takes c₀.sender.socket (calls + 1) by rw [hc.sender]; exact h.takes) true
  have hlength : c₀.frame.length = f.payload.length := by rw [hc.frame]; rfl
  have hframe : wsProcessFrame c₀ =
      some (true, { c₀ with sender := t, state := c₀.state, actual := .hdr }) := by
    have hopcode : c₀.frame.opcode = 9 := by rw [hc.frame]; exact hop
    have hret : ((f.payload.length : Nat) : Int) ≠ -1 := by omega
    unfold wsProcessFrame
    rw [hopcode]
    show wsPingFrame c₀ = _
    unfold wsPingFrame wsSendControlFrame
    rw [hc.pointer]
    simp only [WsContext.buffer, hlength, hsend, bind, Option.bind, decide_eq_true hret]
  have hready := hc.ready h c₀.state t htakes (by rw [hbuffer, hc.sender]; exact h.tx)
  rw [htransfer] at hready
  have hturn : Turns c { c₀ with sender := t, state := c₀.state, actual := .hdr } :=
    ⟨_, receiveFrame_pass hrecv hvalid hframe, wsProcessApiCalls_drained hready.queue⟩
  refine ⟨_, hturn.leads h.queue hready.queue, hready, hc.incoming, ?_⟩
  show t.socket.sent = _
  rw [hsent, hc.sender, hc.payload]

theorem Ready.pong {c : WsContext} {e : Echoing} {calls : Nat} {f : Frame} {key : Key}
    {more : Bytes} (h : Ready c e calls) (hop : f.opcode = 10) (hfin : f.fin = true)
    (hlen : f.payload.length ≤ 125) (hkey : NonzeroKey key)
    (hin : c.connection.incoming = encode (some key) f ++ more) :
    ∃ c₂, Leads c c₂ ∧ Ready c₂ e calls ∧ c₂.connection.incoming = more ∧
      c₂.sender.socket.sent = c.sender.socket.sent := by
  obtain ⟨c', hrecv, c₀, hvalid, hc⟩ := h.controls (Or.inr hop) hfin hlen hkey hin
  obtain ⟨state, hframe⟩ : ∃ state, wsProcessFrame c₀ =
      some (true, { c₀ with sender := c₀.sender, state := state, actual := .hdr }) := by
    have hopcode : c₀.frame.opcode = 10 := by rw [hc.frame]; exact hop
    refine ⟨if c₀.state = .waitPong then .opened else c₀.state, ?_⟩
    unfold wsProcessFrame
    rw [hopcode]
    rfl
  have hready := hc.ready h state c₀.sender (by rw [hc.sender]; exact h.takes)
    (by rw [hc.sender]; exact h.tx)
  have hturn : Turns c { c₀ with sender := c₀.sender, state := state, actual := .hdr } :=
    ⟨_, receiveFrame_pass hrecv hvalid hframe, wsProcessApiCalls_drained hready.queue⟩
  rw [hc.sender, h.transfer] at hready
  refine ⟨_, hturn.leads h.queue hready.queue, ?_, hc.incoming, ?_⟩
  · rw [hc.sender]
    exact hready
  · show c₀.sender.socket.sent = _
    rw [hc.sender]

/-! ## Whole sessions -/

/-- What has become of the open message behind a frame. -/
def Echoing.next (e : Echoing) (f : Frame) : Echoing :=
  if f.opcode = 9 then { e with transfer := false }
  else if f.opcode = 10 then e
  else behind f (typeOf f.opcode e.type) (e.held ++ f.payload) e.transfer

/-- What is sent for a frame. -/
def Echoing.answer (e : Echoing) (f : Frame) : List Frame :=
  if f.opcode = 9 then [⟨true, 10, f.payload⟩]
  else if f.opcode = 10 then []
  else echoed (if e.transfer then 0 else (typeOf f.opcode e.type).opcode) f.fin (e.held ++ f.payload)

theorem Echoing.next_ping {f : Frame} (e : Echoing) (hop : f.opcode = 9) :
    e.next f = { e with transfer := false } := by
  rw [Echoing.next, if_pos hop]

theorem Echoing.next_pong {f : Frame} (e : Echoing) (hop : f.opcode = 10) : e.next f = e := by
  rw [Echoing.next, if_neg (by omega), if_pos hop]

theorem Echoing.answer_ping {f : Frame} (e : Echoing) (hop : f.opcode = 9) :
    e.answer f = [⟨true, 10, f.payload⟩] := by
  rw [Echoing.answer, if_pos hop]

theorem Echoing.answer_pong {f : Frame} (e : Echoing) (hop : f.opcode = 10) : e.answer f = [] := by
  rw [Echoing.answer, if_neg (by omega), if_pos hop]

def answers : Echoing → List Frame → List Frame
  | _, [] => []
  | e, f :: fs => e.answer f ++ answers (e.next f) fs

/-- A frame that the server takes. -/
structure Acceptable (e : Echoing) (key : Key) (f : Frame) : Prop where
  fits : Fits e.opened f
  key : NonzeroKey key
  length : f.payload.length < 2 ^ 32
  text : f.opcode ≤ 2 → typeOf f.opcode e.type = .text → Whole (666 - e.held.length) f.payload

def Accepted : Echoing → List (Key × Frame) → Prop
  | _, [] => True
  | e, (key, f) :: fs => Acceptable e key f ∧ Accepted (e.next f) fs

/-- What the client sends. -/
def stream (fs : List (Key × Frame)) : Bytes := fs.flatMap fun (key, f) => encode (some key) f

/-- **One frame**, in whatever pieces it comes. -/
theorem Ready.answers_frame {c : WsContext} {e : Echoing} {calls : Nat} {f : Frame} {key : Key}
    {more : Bytes} (h : Ready c e (calls + (e.answer f).length)) (hok : Acceptable e key f)
    (hin : c.connection.incoming = encode (some key) f ++ more) :
    ∃ c₂, Leads c c₂ ∧ Ready c₂ (e.next f) calls ∧ c₂.connection.incoming = more ∧
      c₂.sender.socket.sent = c.sender.socket.sent ++ (e.answer f).flatMap (encode none) := by
  obtain ⟨hfits, hkey, hlen, htext⟩ := hok
  cases hfits with
  | control hop hfin hshort =>
    rcases hop with hop | hop
    · rw [e.answer_ping hop] at h ⊢
      rw [e.next_ping hop]
      obtain ⟨c₂, hleads, hready, hmore, hsent⟩ := h.ping hop hfin hshort hkey hin
      refine ⟨c₂, hleads, hready, hmore, ?_⟩
      rw [hsent, List.flatMap_cons, List.flatMap_nil, List.append_nil]
    · rw [e.answer_pong hop] at h ⊢
      rw [e.next_pong hop]
      obtain ⟨c₂, hleads, hready, hmore, hsent⟩ := h.pong hop hfin hshort hkey hin
      refine ⟨c₂, hleads, hready, hmore, ?_⟩
      rw [hsent, List.flatMap_nil, List.append_nil]
  | data hop hopened =>
    have hping : f.opcode ≠ 9 := by omega
    have hpong : f.opcode ≠ 10 := by omega
    rw [Echoing.answer, if_neg hping, if_neg hpong] at h ⊢
    rw [Echoing.next, if_neg hping, if_neg hpong]
    have hwhole := htext hop
    rw [← List.drop_zero (l := f.payload)] at hwhole
    obtain ⟨c', hrecv, hcomes, hsound, hsender, hin'⟩ := h.receives hop hopened hkey hlen hin rfl
    have htransfer : c'.sender.uTransfer = e.transfer := by rw [hsender, h.transfer]
    obtain ⟨c₂, hleads, hready, hmore, hsent⟩ := hcomes.leads hrecv h.queue
      (by rw [htransfer, List.drop_zero]; exact hsound) (typeOf_typeOf f.opcode e.type) h.room rfl
      hwhole hin'
    rw [htransfer, List.drop_zero] at hready hsent
    exact ⟨c₂, hleads, hready, hmore, by rw [hsent, hsender]⟩

/-- The end of the connection ends the session. -/
theorem Ready.ends {c : WsContext} {e : Echoing} {calls : Nat} (h : Ready c e calls)
    (hin : c.connection.incoming = []) :
    ∃ c₂, sessionLoop 1 c = some c₂ ∧ c₂.sender.socket.sent = c.sender.socket.sent := by
  obtain ⟨connection, hrecv⟩ : ∃ connection, httpsrvRecv c.connection 6 = ([], connection) := by
    unfold httpsrvRecv
    rw [hin]
    cases c.connection.pieces with
    | nil => exact ⟨_, rfl⟩
    | cons n pieces => exact ⟨⟨[], pieces⟩, by simp only [List.take_nil, List.drop_nil]⟩
  have hroom : min (c.hdr.data.length - 0) minClientHeaderLength = 6 := by rw [h.hdr]; rfl
  obtain ⟨c', hfail, hsent⟩ : ∃ c', wsRecv c = some (.fail, c') ∧
      c'.sender.socket.sent = c.sender.socket.sent := by
    unfold wsRecv
    rw [if_pos h.actual, recvLoop]
    simp only [WsContext.buffer, WsBuffer.size, hroom, hrecv]
    exact ⟨_, rfl, rfl⟩
  refine ⟨c', ?_, hsent⟩
  rw [sessionLoop, wsProcess_drained h.queue, receiveFrame, hfail]
  rfl

/-- **What a session sends**, from any frame on. -/
theorem Ready.answers_stream {c : WsContext} {e : Echoing} {fs : List (Key × Frame)}
    (h : Ready c e (answers e (fs.map Prod.snd)).length) (hok : Accepted e fs)
    (hin : c.connection.incoming = stream fs) :
    ∃ rounds c₂, sessionLoop rounds c = some c₂ ∧ c₂.sender.socket.sent =
      c.sender.socket.sent ++ (answers e (fs.map Prod.snd)).flatMap (encode none) := by
  induction fs generalizing c e with
  | nil =>
    obtain ⟨c₂, hloop, hsent⟩ := h.ends hin
    refine ⟨1, c₂, hloop, ?_⟩
    rw [hsent, List.map_nil, answers, List.flatMap_nil, List.append_nil]
  | cons head fs ih =>
    obtain ⟨key, f⟩ := head
    obtain ⟨hf, hrest⟩ := hok
    rw [List.map_cons, answers, List.length_append, Nat.add_comm] at h
    obtain ⟨c₁, ⟨k, hleads⟩, hready, hmore, hsent⟩ := h.answers_frame hf hin
    obtain ⟨rounds, c₂, hloop, hsent₂⟩ := ih hready hrest hmore
    refine ⟨rounds + k, c₂, by rw [hleads, hloop], ?_⟩
    rw [hsent₂, hsent, List.map_cons, answers, List.flatMap_append, List.append_assoc]

end EmWinDemo.WebSocket.Session
