/-
# EmWinDemo.WebSocket.Receive -- a header and a payload, in whatever pieces they come

The loop of `ws_recv` against what the client has written.  Where the bytes end that one call of the
socket finds makes no difference: the loop reads the header of a frame and goes on as it says
(`recvLoop_header`), and takes as much of the payload as is wanted and has room
(`recvLoop_payload`).
-/
import EmWinDemo.WebSocket.Session

namespace EmWinDemo.WebSocket.Session

open Lib.CMemory Lib.WebSocket Frames Send

/-! ## Receiving -/

theorem store_nil (m : Bytes) (off : Nat) : store m off [] = m := by
  rw [store, List.append_nil, List.length_nil, Nat.add_zero, List.take_append_drop]

/-- Two pieces that are written one behind the other. -/
theorem store_store {m : Bytes} {off : Nat} (h : off ≤ m.length) (s t : Bytes) :
    store (store m off s) (off + s.length) t = store m off (s ++ t) := by
  have hfront : (m.take off ++ s).length = off + s.length := by
    rw [List.length_append, List.length_take_of_le h]
  rw [store, store, store, List.take_left' hfront, List.drop_append, hfront]
  rw [List.drop_eq_nil_of_le (by omega), List.nil_append, Nat.add_sub_cancel_left, List.drop_drop,
    List.length_append, ← Nat.add_assoc]
  simp only [List.append_assoc]

theorem httpsrvRecv_cases {c : Connection} {size : Nat} (hsize : 0 < size)
    (hin : c.incoming ≠ []) : ∃ n pieces, 0 < n ∧ n ≤ size ∧ n ≤ c.incoming.length ∧
      httpsrvRecv c size = (c.incoming.take n, ⟨c.incoming.drop n, pieces⟩) := by
  have hpos : 0 < c.incoming.length := List.length_pos_of_ne_nil hin
  -- a call that may take more than there is takes what there is
  have hcut : ∀ n, 0 < n → n ≤ size → ∃ k, 0 < k ∧ k ≤ size ∧ k ≤ c.incoming.length ∧
      c.incoming.take n = c.incoming.take k ∧ c.incoming.drop n = c.incoming.drop k := by
    intro n hn hle
    by_cases hshort : n ≤ c.incoming.length
    · exact ⟨n, hn, hle, hshort, rfl, rfl⟩
    · refine ⟨c.incoming.length, hpos, by omega, Nat.le_refl _, ?_, ?_⟩
      · rw [List.take_length, List.take_of_length_le (by omega)]
      · rw [List.drop_length, List.drop_eq_nil_of_le (by omega)]
  rcases c with ⟨incoming, _ | ⟨p, pieces⟩⟩ <;> unfold httpsrvRecv <;> dsimp only at hcut ⊢
  · obtain ⟨k, hk, hle, hlen, htake, hdrop⟩ := hcut size hsize (Nat.le_refl size)
    exact ⟨k, [], hk, hle, hlen, by rw [htake, hdrop]⟩
  · obtain ⟨k, hk, hle, hlen, htake, hdrop⟩ :=
      hcut (min size (p + 1)) (by omega) (Nat.min_le_left size (p + 1))
    exact ⟨k, pieces, hk, hle, hlen, by rw [htake, hdrop]⟩

/-- A text that has been received into a buffer. -/
def took (c : WsContext) (name : BufferName) (s : Bytes) (connection : Connection) : WsContext :=
  let b := c.buffer name
  let c := c.setBuffer name ⟨store b.data b.offset s, b.offset + s.length⟩
  { c with
    connection := connection, recDataSize := c.recDataSize + s.length
    remainingData := c.remainingData - s.length }

theorem buffer_took (c : WsContext) (name : BufferName) (s : Bytes) (connection : Connection) :
    (took c name s connection).buffer name =
      ⟨store (c.buffer name).data (c.buffer name).offset s,
        (c.buffer name).offset + s.length⟩ := by
  cases name <;> rfl

theorem took_nil (c : WsContext) (name : BufferName) : took c name [] c.connection = c := by
  unfold took
  dsimp only
  rw [store_nil]
  cases name <;> rfl

theorem took_took {c : WsContext} {name : BufferName}
    (h : (c.buffer name).offset ≤ (c.buffer name).size) (s t : Bytes) (k l : Connection) :
    took (took c name s k) name t l = took c name (s ++ t) l := by
  have hdata := store_store h s t
  unfold took
  cases name <;>
    simp only [WsContext.setBuffer, WsContext.buffer] at hdata ⊢ <;>
    rw [hdata, List.length_append, Nat.add_assoc, Nat.add_assoc, Nat.sub_sub]

/-- The loop takes what is wanted and there is room for, in whatever pieces it comes. -/
theorem recvLoop_payload {name : BufferName} (hname : name ≠ .hdr) {rounds req : Nat}
    {c : WsContext} {s rest : Bytes} (hin : c.connection.incoming = s ++ rest)
    (hs : s.length = min ((c.buffer name).size - (c.buffer name).offset) req)
    (hoff : (c.buffer name).offset ≤ (c.buffer name).size) (hrounds : s.length < rounds) :
    ∃ pieces, recvLoop rounds name req c =
      some (.pass, { took c name s ⟨rest, pieces⟩ with actual := name }) := by
  induction rounds generalizing c s req with
  | zero => omega
  | succ rounds ih =>
    rw [recvLoop]
    by_cases hnil : s = []
    · subst hnil
      refine ⟨c.connection.pieces, ?_⟩
      rw [List.nil_append] at hin
      dsimp only
      rw [if_pos (by rw [← hs]; rfl), ← hin, took_nil]
    · have hpos : 0 < s.length := List.length_pos_of_ne_nil hnil
      have hroom : 0 < min ((c.buffer name).size - (c.buffer name).offset) req := by omega
      have hsome : c.connection.incoming ≠ [] := by
        rw [hin]
        exact List.append_ne_nil_of_left_ne_nil hnil rest
      obtain ⟨n, pieces, hn, hle, hlen, hrecv⟩ := httpsrvRecv_cases hroom hsome
      have htake : c.connection.incoming.take n = s.take n := by
        rw [hin, List.take_append_of_le_length (by omega)]
      have hdrop : c.connection.incoming.drop n = s.drop n ++ rest := by
        rw [hin, List.drop_append_of_le_length (by omega)]
      have hchunk : (s.take n).length = n := List.length_take_of_le (by omega)
      rw [htake, hdrop] at hrecv
      dsimp only
      rw [if_neg (by omega), hrecv]
      dsimp only
      rw [if_neg (by omega), if_neg hname]
      -- the rest of it goes behind this piece
      have hbuffer := buffer_took c name (s.take n) ⟨s.drop n ++ rest, pieces⟩
      have hsize : (store (c.buffer name).data (c.buffer name).offset (s.take n)).length =
          (c.buffer name).size := length_store (by rw [hchunk, ← WsBuffer.size]; omega)
      have hnext : (took c name (s.take n) ⟨s.drop n ++ rest, pieces⟩).connection.incoming =
          s.drop n ++ rest := rfl
      have hwanted : (s.drop n).length = min
          (((took c name (s.take n) ⟨s.drop n ++ rest, pieces⟩).buffer name).size -
            ((took c name (s.take n) ⟨s.drop n ++ rest, pieces⟩).buffer name).offset)
          (req - (s.take n).length) := by
        rw [hbuffer, WsBuffer.size, hsize, hchunk, List.length_drop]
        dsimp only
        omega
      obtain ⟨pieces', hloop⟩ := ih hnext hwanted
        (by rw [hbuffer, WsBuffer.size, hsize, hchunk]; dsimp only; omega)
        (by rw [List.length_drop]; omega)
      rw [took_took hoff, List.take_append_drop] at hloop
      exact ⟨pieces', hloop⟩

/-- The context behind a header. -/
def announced (c : WsContext) (data : Bytes) (frame : WsFrame) (connection : Connection)
    (length : Nat) : WsContext :=
  { c with hdr := ⟨data, length⟩, frame := frame, connection := connection }

/-- How the loop goes on behind a header. -/
def behindHeader (rounds : Nat) (frame : WsFrame) (c : WsContext) :
    Option (Received × WsContext) :=
  if frame.opcode &&& 0x8 ≠ 0 then
    recvLoop rounds .ctrl frame.length
      { c with frameData := .ctrl, remainingData := frame.length }
  else
    recvLoop rounds .rx (min frame.length c.rx.size)
      { c with frameData := .rx, remainingData := frame.length }

/-- How much of a header is wanted when so much of it is there. -/
def wanted (length there : Nat) : Nat := if there < 6 then 6 - there else length - there

theorem wants_wanted {f : Frame} (hop : f.opcode < 16) (hlen : f.payload.length < 2 ^ 32) (key : Key)
    (dst : WsFrame) {there : Nat} (hthere : there ≤ (header (some key) f).length) (rest : Bytes) :
    ∃ frame, wsReadFrameHeader ((header (some key) f).take there ++ rest) dst there =
        some (wanted (header (some key) f).length there, frame) ∧
      (there = (header (some key) f).length → frame = frameOf key f) := by
  have hlong : 6 ≤ (header (some key) f).length := by rw [length_header]; omega
  unfold wanted
  by_cases hmin : there < 6
  · rw [if_pos hmin, wants_min _ dst hmin]
    exact ⟨dst, rfl, fun h => absurd h (by omega)⟩
  · -- the first six bytes say how long the header is
    rw [if_neg hmin]
    by_cases hmore : there < (header (some key) f).length
    · have htake := List.take_append_drop 2 ((header (some key) f).take there)
      rw [List.take_take, Nat.min_eq_left (by omega)] at htake
      rw [← htake, List.append_assoc, wants_extended hop dst (by omega) key hmore]
      exact ⟨_, rfl, fun h => absurd h (by omega)⟩
    · obtain rfl : there = (header (some key) f).length := by omega
      rw [List.take_length, reads_header hop hlen dst key rest, Nat.sub_self]
      exact ⟨_, rfl, fun _ => rfl⟩

/-- **A header is read**, in whatever pieces it comes. -/
theorem recvLoop_header {f : Frame} (hop : f.opcode < 16) (hlen : f.payload.length < 2 ^ 32)
    {key : Key} {rounds : Nat} {c : WsContext} {rest : Bytes}
    (hhdr : c.hdr.data.length = 14)
    (hcheck : wsCheckFrameHeader c.rxState (frameOf key f) = .ok)
    (hthere : c.hdr.offset < (header (some key) f).length)
    (hread : c.hdr.data.take c.hdr.offset = (header (some key) f).take c.hdr.offset)
    (hin : c.connection.incoming = (header (some key) f).drop c.hdr.offset ++ rest)
    (hrounds : c.connection.incoming.length + 2 ≤ rounds) :
    ∃ rounds' data pieces, rest.length + 2 ≤ rounds' ∧ data.length = 14 ∧
      recvLoop rounds .hdr (wanted (header (some key) f).length c.hdr.offset) c =
        behindHeader rounds' (frameOf key f)
          (announced c data (frameOf key f) ⟨rest, pieces⟩ (header (some key) f).length) := by
  have hlong : (header (some key) f).length ≤ 14 := by
    rw [length_header]
    rcases lengthField_cases f.payload.length with ⟨-, h⟩ | ⟨-, -, h⟩ | ⟨-, h⟩ <;> rw [h] <;>
      simp only [List.length_nil, length_bigEndian] <;> omega
  induction rounds generalizing c with
  | zero => omega
  | succ rounds ih =>
    have hwanted : 0 < wanted (header (some key) f).length c.hdr.offset ∧
        wanted (header (some key) f).length c.hdr.offset ≤
          (header (some key) f).length - c.hdr.offset := by
      have hmin : 6 ≤ (header (some key) f).length := by rw [length_header]; omega
      unfold wanted
      split_ifs <;> omega
    have hroom : min (c.hdr.size - c.hdr.offset) (wanted (header (some key) f).length c.hdr.offset) =
        wanted (header (some key) f).length c.hdr.offset := by
      rw [WsBuffer.size]
      omega
    have hsome : c.connection.incoming ≠ [] := by
      intro hnil
      rw [hnil] at hin
      have := congrArg List.length hin
      rw [List.length_append, List.length_drop, List.length_nil] at this
      omega
    obtain ⟨n, pieces, hn, hle, -, hrecv⟩ := httpsrvRecv_cases hwanted.1 hsome
    have hpart : n ≤ ((header (some key) f).drop c.hdr.offset).length := by
      rw [List.length_drop]
      omega
    rw [hin, List.take_append_of_le_length hpart, List.drop_append_of_le_length hpart,
      List.drop_drop] at hrecv
    generalize hchunk : ((header (some key) f).drop c.hdr.offset).take n = chunk at hrecv
    have hcount : chunk.length = n := by rw [← hchunk, List.length_take_of_le hpart]
    have hstore : (store c.hdr.data c.hdr.offset chunk).length = 14 := by
      rw [length_store (by omega), hhdr]
    have hbegin : (store c.hdr.data c.hdr.offset chunk).take (c.hdr.offset + n) =
        (header (some key) f).take (c.hdr.offset + n) := by
      have hfront : (c.hdr.data.take c.hdr.offset ++ chunk).length = c.hdr.offset + n := by
        rw [List.length_append, List.length_take_of_le (by omega), hcount]
      rw [store, List.take_left' hfront, hread, ← hchunk, ← List.take_add]
    obtain ⟨frame, hframe, hlast⟩ := wants_wanted hop hlen key c.frame
      (show c.hdr.offset + n ≤ (header (some key) f).length by omega)
      ((store c.hdr.data c.hdr.offset chunk).drop (c.hdr.offset + n))
    rw [← hbegin, List.take_append_drop] at hframe
    rw [recvLoop]
    simp only [WsContext.buffer, WsContext.setBuffer, hroom, hrecv, if_true, bind, Option.bind]
    rw [if_neg (by omega), if_neg (by omega), hcount, hframe]
    dsimp only
    have hlength := congrArg List.length hin
    rw [List.length_append, List.length_drop] at hlength
    by_cases hdone : c.hdr.offset + n = (header (some key) f).length
    · -- the header is complete, and the loop turns to the payload
      have hzero : wanted (header (some key) f).length (c.hdr.offset + n) = 0 := by
        rw [hdone, wanted, if_neg (by rw [length_header]; omega), Nat.sub_self]
      rw [hlast hdone, if_pos hzero, if_neg (not_not_intro hcheck), hdone, List.drop_length,
        List.nil_append]
      exact ⟨rounds, _, pieces, by omega, hstore, rfl⟩
    · have hmore : wanted (header (some key) f).length (c.hdr.offset + n) ≠ 0 := by
        unfold wanted
        split_ifs <;> omega
      rw [if_neg hmore]
      obtain ⟨rounds', data, pieces', hrounds', hdata, hloop⟩ := ih
        (c := { c with
          connection := ⟨(header (some key) f).drop (c.hdr.offset + n) ++ rest, pieces⟩
          hdr := ⟨store c.hdr.data c.hdr.offset chunk, c.hdr.offset + n⟩, frame := frame })
        hstore hcheck (by dsimp only; omega) hbegin rfl
        (by dsimp only; rw [List.length_append, List.length_drop]; omega)
      exact ⟨rounds', data, pieces', hrounds', hdata, hloop⟩

end EmWinDemo.WebSocket.Session
