/-
# EmWinDemo.WebSocket.Text -- which text the server takes

The server checks text in the pieces in which it comes to the receive buffer.  In a message of one
frame there is no waiting for the rest of a character: a piece that is not UTF-8 by itself ends the
session, also where the message as a whole is.  `text_iff` says when a text comes back, and that
otherwise the pieces in front of that one do, with a close frame behind them.
-/
import EmWinDemo.WebSocket.Echo

namespace EmWinDemo.WebSocket.Session

open Lib.CMemory Lib.Utf8 Lib.WebSocket Http.Output Frames Send Utf8

/-! ## Refusing a piece -/

theorem utf8IsValid_refuses {text : Bytes} (h : ¬IsUtf8 text) :
    ∃ r, utf8IsValid text = some r ∧ r.isValid = false := by
  obtain ⟨r, hr, hanswers⟩ := utf8Loop_answers 0 (Nat.lt_succ_self text.length)
  refine ⟨r, hr, ?_⟩
  rcases hanswers with ⟨hutf8, -⟩ | ⟨cs, rest, -, -, -, rfl⟩
  · exact absurd hutf8 h
  · rfl

theorem wsValidateData_refuses {c : WsContext} {held text : Bytes} (hactual : c.actual = .rx)
    (hoffset : c.rx.offset = held.length + text.length) (hsize : c.recDataSize = text.length)
    (hdata : c.rx.data.take (held.length + text.length) = held ++ text)
    (hlength : text.length ≤ c.frame.length) (hmissing : c.utf8.missing = 0)
    (hop : c.frame.opcode = 1) (hfin : c.frame.fin = true) (htext : ¬IsUtf8 text) :
    wsValidateData c = some (false, c) := by
  obtain ⟨r, hr, hinvalid⟩ := utf8IsValid_refuses htext
  have hsome : text.length ≠ 0 := fun hnil =>
    htext ⟨[], List.eq_nil_of_length_eq_zero hnil⟩
  have hcheck : wsCheckUtf8 c text = some (false, c.utf8) := by
    unfold wsCheckUtf8 checkRest
    simp only [hr, hinvalid, hmissing, hfin, bind, Option.bind]
    rw [if_neg hsome]
    simp
  unfold wsValidateData
  rw [if_pos (Or.inl hop)]
  dsimp only
  rw [received_text hactual hoffset hsize hdata hlength, hcheck]
  rfl

/-- The frame that closes a session whose text is not UTF-8. -/
def badType : Frame := ⟨true, 8, bigEndian 2 1007⟩

theorem Got.refused {c c' : WsContext} {held text : Bytes} {f : Frame} {key : Key}
    {received calls : Nat} (h : Got c' held text f key received) (hsound : Sound c' (calls + 1))
    (hrecv : wsRecv c = some (.pass, c')) (hop : f.opcode = 1) (hfin : f.fin = true)
    (htext : ¬IsUtf8 text) : ∃ c₂, receiveFrame c = some (false, c₂) ∧
      c₂.sender.socket.sent = c'.sender.socket.sent ++ encode none badType := by
  obtain ⟨data, maskOffset, hunmask, -, htake, -⟩ := h.unmasked
  have hvalid : wsValidateData (unmaskReceived c') = some (false, unmaskReceived c') := by
    rw [hunmask]
    exact wsValidateData_refuses h.actual h.offset h.size htake h.length_le hsound.missing
      (h.opcode_eq.trans hop) (h.fin_eq.trans hfin) htext
  have hsender : (unmaskReceived c').sender = c'.sender := by rw [hunmask]
  obtain ⟨t, hsend, hsent, -⟩ := wsSendFrame_single (n := 2) (by decide)
    (show 2 ≤ (bigEndian 2 1007).length by decide) (show 8 < 16 by decide) hsound.tx hsound.takes
    true
  refine ⟨{ unmaskReceived c' with
    sender := t, state := .closing
    user := { (unmaskReceived c').user with type := .invalid, dataPtr := none, length := 0 } },
    ?_, hsent⟩
  unfold receiveFrame wsBadFrame wsSendControlFrame
  simp only [hrecv, hvalid, hsender, hsend, bind, Option.bind]
  rfl

/-! ## A message in one frame -/

theorem Sound.mono {c : WsContext} {k l : Nat} (h : Sound c l) (hle : k ≤ l) : Sound c k :=
  { h with takes := ⟨h.takes.whole, Nat.le_trans hle h.takes.lasts⟩ }

/-- What the client has put together when the server is inside a text. -/
def TextOpen (transfer : Bool) (opened : Option (Nat × Bytes)) : Prop :=
  (transfer = true ∧ ∃ acc, opened = some (1, acc)) ∨ (transfer = false ∧ opened = none)

/-- A piece of text that goes out. -/
theorem TextOpen.extend {transfer : Bool} {opened : Option (Nat × Bytes)}
    (h : TextOpen transfer opened) (text : Bytes) : ∃ acc, ∀ gs, assemble opened
      (⟨false, if transfer then 0 else 1, text⟩ :: gs) = assemble (some (1, acc)) gs := by
  rcases h with ⟨rfl, acc, rfl⟩ | ⟨rfl, rfl⟩
  · exact ⟨acc ++ text, fun gs => rfl⟩
  · exact ⟨text, fun gs => rfl⟩

theorem TextOpen.closes {transfer : Bool} {opened : Option (Nat × Bytes)}
    (h : TextOpen transfer opened) (payload : Bytes) :
    assemble opened [badType] ≠ some [.message 1 payload] := by
  rcases h with ⟨-, acc, rfl⟩ | ⟨-, rfl⟩
  · exact (Option.some_ne_none _).symm
  · have hclose : assemble none [badType] = some [.control 8 (bigEndian 2 1007)] := by decide
    intro hmessage
    rw [hclose] at hmessage
    cases hmessage

/-- Parts of a message, none of them the last. -/
def parts : Nat → List Bytes → List Frame
  | _, [] => []
  | opcode, piece :: pieces => ⟨false, opcode, piece⟩ :: parts 0 pieces

/-- What goes out for a text that is refused behind these pieces. -/
def refusal (opcode : Nat) (pieces : List Bytes) : List Frame := parts opcode pieces ++ [badType]

/-- The text is refused behind the pieces: they fill the buffer and are UTF-8, and what would come
next is not. -/
structure RefusedBehind (payload : Bytes) (pieces : List Bytes) : Prop where
  length : ∀ p ∈ pieces, p.length = 666
  utf8 : ∀ p ∈ pieces, IsUtf8 p
  next : ∃ rest, payload = pieces.flatten ++ rest ∧ ¬IsUtf8 (rest.take 666)

theorem RefusedBehind.cons {piece payload : Bytes} {pieces : List Bytes}
    (h : RefusedBehind payload pieces) (hlen : piece.length = 666) (hutf8 : IsUtf8 piece) :
    RefusedBehind (piece ++ payload) (piece :: pieces) := by
  obtain ⟨rest, rfl, hrest⟩ := h.next
  refine ⟨fun p hp => ?_, fun p hp => ?_, rest, ?_, hrest⟩
  · rcases List.mem_cons.mp hp with rfl | hp
    · exact hlen
    · exact h.length p hp
  · rcases List.mem_cons.mp hp with rfl | hp
    · exact hutf8
    · exact h.utf8 p hp
  · rw [List.flatten_cons, List.append_assoc]

/-- The client does not put the text together. -/
theorem TextOpen.refused {transfer : Bool} {opened : Option (Nat × Bytes)}
    (h : TextOpen transfer opened) (pieces : List Bytes) (payload : Bytes) :
    assemble opened (refusal (if transfer then 0 else 1) pieces) ≠ some [.message 1 payload] := by
  induction pieces generalizing transfer opened with
  | nil => exact h.closes payload
  | cons piece pieces ih =>
    obtain ⟨acc, hextend⟩ := h.extend piece
    have hmore : TextOpen true (some (1, acc)) := Or.inl ⟨rfl, acc, rfl⟩
    show assemble opened (⟨false, if transfer then 0 else 1, piece⟩ :: refusal 0 pieces) ≠ _
    rw [hextend]
    exact ih hmore

theorem encodable_refusal {payload : Bytes} {opcode : Nat} {pieces : List Bytes}
    (h : RefusedBehind payload pieces) (hop : opcode < 16) :
    ∀ g ∈ refusal opcode pieces, g.Encodable := by
  have hlen := h.length
  clear h
  induction pieces generalizing opcode with
  | nil =>
    intro g hg
    rw [List.mem_singleton.mp hg]
    exact ⟨by decide, by decide⟩
  | cons piece pieces ih =>
    intro g hg
    rcases List.mem_cons.mp hg with rfl | hg
    · have hpiece : piece.length = 666 := hlen piece List.mem_cons_self
      exact ⟨hop, by dsimp only; omega⟩
    · exact ih (by decide) (fun p hp => hlen p (List.mem_cons_of_mem piece hp)) g hg

/-- **A text with a piece that is not UTF-8** ends the session there: the pieces in front of it have
gone back, and a close frame is the last that is sent. -/
theorem Comes.refuses {more : Bytes} {c c' : WsContext} {text : Bytes} {f : Frame} {key : Key}
    {received : Nat}
    (h : Comes c' [] text f key received .text) (hrecv : wsRecv c = some (.pass, c'))
    (hqueue : c.apiQueue = [])
    (hsound : Sound c' ((f.payload.length - received) / 666 + 1)) (hop : f.opcode = 1)
    (hfin : f.fin = true) (hpart : (f.payload.drop received).take 666 = text)
    (hcut : ¬Whole 666 (f.payload.drop received))
    (hin : c'.connection.incoming =
      masked key (received + text.length) (f.payload.drop (received + text.length)) ++ more) :
    ∃ rounds c₂ pieces, sessionLoop rounds c = some c₂ ∧
      RefusedBehind (f.payload.drop received) pieces ∧
      c₂.sender.socket.sent = c'.sender.socket.sent ++
        (refusal (if c'.sender.uTransfer then 0 else 1) pieces).flatMap (encode none) := by
  induction hn : f.payload.length - received using Nat.strong_induction_on
    generalizing c c' text received with
  | _ n ih =>
    have hlength : text.length = min 666 (f.payload.length - received) := by
      rw [← hpart, List.length_take, List.length_drop]
    have hle := h.part
    by_cases htext : IsUtf8 text
    · -- then there is more to come, for this piece is not where it fails
      have hfull : 666 ≤ f.payload.length - received := by
        by_contra hshort
        refine hcut (.last (by rw [List.length_drop]; omega) ?_)
        rwa [← List.take_of_length_le (show (f.payload.drop received).length ≤ 666 by
          rw [List.length_drop]; omega), hpart]
      have hparts : f.payload.drop received = text ++ f.payload.drop (received + text.length) := by
        rw [← hpart, ← List.drop_drop, List.length_take, List.length_drop, Nat.min_eq_left hfull,
          List.take_append_drop]
      have hrest : ¬Whole 666 (f.payload.drop (received + text.length)) := by
        intro hwhole
        refine hcut ?_
        rw [hparts]
        exact .piece (by omega) htext hwhole
      have hcalls : (f.payload.length - received) / 666 =
          (f.payload.length - (received + text.length)) / 666 + 1 := by omega
      rw [hcalls] at hsound
      obtain ⟨c₂, hturn, hmid, hconnection, hsent⟩ := h.full hsound hrecv (fun _ => htext)
        (by omega) (by rw [List.length_nil]; omega)
      obtain ⟨c₃, hrecv₃, hcomes, hsound₃, hsender, hin₃⟩ := hmid.receives (by omega)
        (by rw [hop]; rfl) (by decide) (by rw [hconnection]; exact hin) rfl
      obtain ⟨rounds, c₄, pieces, hloop, hrefused, hsent₄⟩ := ih _ (by omega) hcomes hrecv₃
        hmid.queue hsound₃ rfl hrest hin₃ rfl
      -- a part has gone out, so what follows continues it
      have htransfer : c₃.sender.uTransfer = true := by rw [hsender]; exact hmid.transfer
      obtain ⟨k, hleads⟩ := hturn.leads hqueue hmid.queue
      refine ⟨rounds + k, c₄, text :: pieces, by rw [hleads, hloop], ?_, ?_⟩
      · rw [hparts]
        exact hrefused.cons (by omega) htext
      · rw [hsent₄, htransfer, if_pos rfl, hsender, hsent, List.append_assoc]
        rfl
    · -- in a frame with FIN there is no second chance for a character that is cut
      obtain ⟨c₂, hreceive, hsent⟩ := h.toGot.refused
        (hsound.mono (show 0 + 1 ≤ _ by omega)) hrecv hop hfin htext
      refine ⟨1, c₂, [], ?_, ⟨nofun, nofun, _, rfl, ?_⟩, ?_⟩
      · rw [sessionLoop, wsProcess_drained hqueue, hreceive]
        rfl
      · rwa [hpart]
      · rw [hsent]
        exact congrArg _ (List.flatMap_singleton _ _).symm

theorem length_echoed (opcode : Nat) (all : Bytes) :
    (echoed opcode true all).length = all.length / 666 + 1 := by
  induction hn : all.length using Nat.strong_induction_on generalizing opcode all with
  | _ n ih =>
    rw [echoed_eq, hn]
    by_cases hfull : 666 ≤ n
    · rw [if_pos hfull, List.length_cons,
        ih (n - 666) (by omega) 0 (all.drop 666) (by rw [List.length_drop, hn])]
      omega
    · rw [if_neg hfull, if_pos rfl, List.length_singleton]
      omega

theorem answers_text (payload : Bytes) :
    answers silent [⟨true, 1, payload⟩] = echoed 1 true payload := by
  show echoed 1 true ([] ++ payload) ++ [] = _
  rw [List.nil_append, List.append_nil]

/-- A text that the server takes goes back in frames of 666 bytes. -/
theorem Ready.takes_text {c : WsContext} {key : Key} {payload : Bytes}
    (h : Ready c silent (payload.length / 666 + 1)) (hkey : NonzeroKey key)
    (hlen : payload.length < 2 ^ 32) (hwhole : Whole 666 payload)
    (hin : c.connection.incoming = encode (some key) ⟨true, 1, payload⟩) :
    ∃ rounds c₂, sessionLoop rounds c = some c₂ ∧
      c₂.sender.socket.sent =
        c.sender.socket.sent ++ (echoed 1 true payload).flatMap (encode none) := by
  have hok : Accepted silent [(key, ⟨true, 1, payload⟩)] :=
    ⟨⟨.data (show 1 ≤ 2 by decide) (show 1 = 0 ↔ false = true by decide), hkey, hlen,
      fun _ _ => hwhole⟩, trivial⟩
  have hstream : c.connection.incoming = stream [(key, ⟨true, 1, payload⟩)] := by
    rw [hin, stream, List.flatMap_singleton]
  have hready :
      Ready c silent (answers silent ([(key, ⟨true, 1, payload⟩)].map Prod.snd)).length := by
    rw [List.map_singleton, answers_text, length_echoed]
    exact h
  obtain ⟨rounds, c₂, hloop, hsent⟩ := hready.answers_stream hok hstream
  rw [List.map_singleton, answers_text] at hsent
  exact ⟨rounds, c₂, hloop, hsent⟩

/-- **Which text comes back.**  A text message in one frame, of any length and in whatever pieces the
bytes come in, comes back exactly if each 666 bytes of it, and what remains, are UTF-8 by
themselves.  Otherwise the pieces in front of the first one that is not UTF-8 come back as parts of a
message, and a close frame with 1007 behind them. -/
theorem text_iff {socket : Socket} {connection : Connection} {key : Key} (payload : Bytes)
    (hin : connection.incoming = encode (some key) ⟨true, 1, payload⟩) (hkey : NonzeroKey key)
    (hlen : payload.length < 2 ^ 32) (htakes : Takes socket (payload.length / 666 + 1)) :
    ∃ rounds c, sessionLoop rounds (wsInit socket connection) = some c ∧
      (received (wsInit socket connection).sender c.sender = some [.message 1 payload] ↔
        Whole 666 payload) ∧
      (¬Whole 666 payload → ∃ pieces, RefusedBehind payload pieces ∧
        c.sender.socket.sent = socket.sent ++ (refusal 1 pieces).flatMap (encode none)) := by
  have hready := ready_wsInit htakes connection
  by_cases hwhole : Whole 666 payload
  · obtain ⟨rounds, c, hloop, hsent⟩ := hready.takes_text hkey hlen hwhole hin
    refine ⟨rounds, c, hloop, ⟨fun _ => hwhole, fun _ => ?_⟩, fun hcut => absurd hwhole hcut⟩
    have hmessage := assemble_begun (Or.inl rfl) true payload []
    rw [List.append_nil] at hmessage
    rw [received_of_sent (fun g hg => encodable_echoed (by decide) true payload hg) hsent, hmessage]
    rfl
  · have hin' : (wsInit socket connection).connection.incoming =
        encode (some key) ⟨true, 1, payload⟩ ++ [] := by rw [List.append_nil]; exact hin
    obtain ⟨c', hrecv, hcomes, hsound, hsender, hmore⟩ :=
      hready.receives (f := ⟨true, 1, payload⟩) (show 1 ≤ 2 by decide)
        (show 1 = 0 ↔ false = true by decide) hkey hlen hin' rfl
    obtain ⟨rounds, c, pieces, hloop, hrefused, hsent⟩ := hcomes.refuses hrecv rfl hsound rfl rfl
      rfl hwhole hmore
    rw [hsender] at hsent
    rw [List.drop_zero] at hrefused
    have hencodable := encodable_refusal hrefused (show 1 < 16 by decide)
    refine ⟨rounds, c, hloop, ⟨fun hmessage => ?_, fun h => absurd h hwhole⟩,
      fun _ => ⟨pieces, hrefused, hsent⟩⟩
    have hopened : TextOpen false none := Or.inr ⟨rfl, rfl⟩
    rw [received_of_sent hencodable hsent] at hmessage
    exact absurd hmessage (hopened.refused pieces payload)

/-- The first byte comes alone. -/
theorem text_iff_sevenHundredLetters : ∃ rounds c,
    sessionLoop rounds (wsInit ⟨[], [1359, 1359]⟩
      ⟨encode (some ⟨1, 2, 3, 4⟩) ⟨true, 1, sevenHundredLetters⟩, [0]⟩) = some c ∧
      received (wsInit ⟨[], [1359, 1359]⟩
        ⟨encode (some ⟨1, 2, 3, 4⟩) ⟨true, 1, sevenHundredLetters⟩, [0]⟩).sender c.sender =
          some [.message 1 sevenHundredLetters] := by
  have hlength := length_sevenHundredLetters
  obtain ⟨rounds, c, hloop, hiff, -⟩ := @text_iff ⟨[], [1359, 1359]⟩
    ⟨encode (some ⟨1, 2, 3, 4⟩) ⟨true, 1, sevenHundredLetters⟩, [0]⟩ ⟨1, 2, 3, 4⟩
    sevenHundredLetters rfl (by decide) (by rw [hlength]; decide)
    ⟨by decide, by rw [hlength]; decide⟩
  exact ⟨rounds, c, hloop, hiff.mpr whole_sevenHundredLetters⟩

end EmWinDemo.WebSocket.Session
