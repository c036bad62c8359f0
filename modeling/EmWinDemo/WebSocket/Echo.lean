/-
# EmWinDemo.WebSocket.Echo -- what a client of the echo plugin gets

The client puts the answers together to messages.  As long as nothing disturbs it, they are the
messages that it has sent, and there is a pong for each ping.  A pong is a final frame, though, and
`ws_send_frame` takes every final frame for the end of the user's message: if a part of a message has
been sent back already, what follows the pong comes as a message of its own, and the client has one
in the other.  `echo_iff` says that nothing else goes wrong.
-/
import EmWinDemo.WebSocket.Answers

namespace EmWinDemo.WebSocket.Session

open Lib.CMemory Lib.Utf8 Lib.WebSocket Http.Output Frames Send

/-! ## What the client gets -/

/-- Frames that continue a message. -/
theorem assemble_continued (type : Nat) (acc : Bytes) (fin : Bool) (all : Bytes)
    (rest : List Frame) :
    assemble (some (type, acc)) (echoed 0 fin all ++ rest) =
      if fin then (assemble none rest).map (.message type (acc ++ all) :: ·)
      else assemble (some (type, acc ++ all.take (all.length / 666 * 666))) rest := by
  induction hn : all.length using Nat.strong_induction_on generalizing acc all with
  | _ n ih =>
    rw [echoed_eq, hn]
    by_cases hfull : 666 ≤ n
    · have hrest := ih (n - 666) (by omega) (acc ++ all.take 666) (all.drop 666)
        (by rw [List.length_drop, hn])
      have hsum : 666 + (n - 666) / 666 * 666 = n / 666 * 666 := by omega
      rw [if_pos hfull]
      rw [List.append_assoc, List.append_assoc, List.take_append_drop, ← List.take_add, hsum] at hrest
      exact hrest
    · rw [if_neg hfull, Nat.div_eq_of_lt (by omega), Nat.zero_mul, List.take_zero, List.append_nil]
      cases fin <;> rfl

/-- Frames that begin a message. -/
theorem assemble_begun {type : Nat} (htype : type = 1 ∨ type = 2) (fin : Bool) (all : Bytes)
    (rest : List Frame) :
    assemble none (echoed type fin all ++ rest) =
      if fin then (assemble none rest).map (.message type all :: ·)
      else if 666 ≤ all.length then
        assemble (some (type, all.take (all.length / 666 * 666))) rest
      else assemble none rest := by
  by_cases hfull : 666 ≤ all.length
  · -- but for its opcode the first frame is one that continues
    have hcontinued := assemble_continued type [] fin all rest
    rw [List.nil_append, List.nil_append] at hcontinued
    rw [if_pos hfull, ← hcontinued, echoed_eq type, echoed_eq 0 fin all, if_pos hfull, if_pos hfull]
    rcases htype with rfl | rfl <;> rfl
  · rw [if_neg hfull, echoed_eq, if_neg hfull]
    rcases htype with rfl | rfl <;> cases fin <;> rfl

/-- Frames that begin a message where one is open. -/
theorem assemble_misplaced {type : Nat} (htype : type = 1 ∨ type = 2) {fin : Bool} {all : Bytes}
    (hsome : fin = true ∨ 666 ≤ all.length) (opened : Nat × Bytes) (rest : List Frame) :
    assemble (some opened) (echoed type fin all ++ rest) = none := by
  rw [echoed_eq]
  split_ifs with hfull hfin
  · rcases htype with rfl | rfl <;> rfl
  · rcases htype with rfl | rfl <;> rfl
  · rcases hsome with h | h
    · exact absurd h hfin
    · exact absurd h hfull

/-- What the client is to get for what it has sent: its messages, and a pong for each ping. -/
def replies : List Event → List Event
  | [] => []
  | .message type payload :: events => .message type payload :: replies events
  | .control opcode payload :: events =>
    if opcode = 9 then .control 10 payload :: replies events else replies events

/-- No ping comes inside a message behind its first 666 bytes; so many are there of an open one. -/
def Undisturbed : Nat → List Frame → Prop
  | _, [] => True
  | length, f :: fs =>
    if f.opcode = 9 then length < 666 ∧ Undisturbed length fs
    else if f.opcode = 10 then Undisturbed length fs
    else Undisturbed (if f.fin then 0 else length + f.payload.length) fs

/-- What the client has of a message of which so much has come: what fills whole buffers. -/
def sentOf (type : Nat) (acc : Bytes) : Option (Nat × Bytes) :=
  if 666 ≤ acc.length then some (type, acc.take (acc.length / 666 * 666)) else none

theorem unsent_append (acc payload : Bytes) :
    unsent acc ++ payload = (acc ++ payload).drop (acc.length / 666 * 666) := by
  rw [unsent, List.drop_append_of_le_length (by omega)]

/-- What is kept back does not depend on where the frames end. -/
theorem unsent_unsent (acc payload : Bytes) :
    unsent (unsent acc ++ payload) = unsent (acc ++ payload) := by
  have hsum : acc.length / 666 * 666 +
      (acc.length + payload.length - acc.length / 666 * 666) / 666 * 666 =
        (acc.length + payload.length) / 666 * 666 := by omega
  rw [unsent_append, unsent, unsent, List.drop_drop, List.length_drop, List.length_append, hsum]

/-- **One data frame**, as the client gets it. -/
theorem assemble_answer {type : Nat} (htype : type = 1 ∨ type = 2) (acc payload : Bytes) (fin : Bool)
    (rest : List Frame) :
    assemble (sentOf type acc)
      (echoed (if 666 ≤ acc.length then 0 else type) fin (unsent acc ++ payload) ++ rest) =
      if fin then (assemble none rest).map (.message type (acc ++ payload) :: ·)
      else assemble (sentOf type (acc ++ payload)) rest := by
  unfold sentOf
  by_cases hsome : 666 ≤ acc.length
  · -- whole buffers have gone out already, and this frame continues them
    have hfront : acc.take (acc.length / 666 * 666) =
        (acc ++ payload).take (acc.length / 666 * 666) := by
      rw [List.take_append_of_le_length (by omega)]
    have hlong : 666 ≤ (acc ++ payload).length := by rw [List.length_append]; omega
    rw [if_pos hsome, if_pos hsome, assemble_continued, if_pos hlong, unsent_append, hfront,
      List.take_append_drop, ← List.take_add]
    have hsum : acc.length / 666 * 666 +
        ((acc ++ payload).drop (acc.length / 666 * 666)).length / 666 * 666 =
          (acc ++ payload).length / 666 * 666 := by
      rw [List.length_drop, List.length_append]
      omega
    rw [hsum]
  · -- nothing has gone out yet: the message begins here
    rw [if_neg hsome, if_neg hsome, unsent_short (by omega), assemble_begun htype]
    cases fin with
    | true => rfl
    | false =>
      simp only [Bool.false_eq_true, if_false]
      split_ifs <;> rfl

/-- What the server knows of the open message, and what the client does, when all is well. -/
inductive Agrees : Echoing → Option (Nat × Bytes) → Option (Nat × Bytes) → Nat → Prop where
  | closed (type : DataType) : Agrees ⟨false, type, [], false⟩ none none 0
  | opened (type : DataType) (acc : Bytes) : type.opcode = 1 ∨ type.opcode = 2 →
      Agrees ⟨true, type, unsent acc, decide (666 ≤ acc.length)⟩ (some (type.opcode, acc))
        (sentOf type.opcode acc) acc.length

/-- A data frame behind an open message or none: both grow, or the message is complete. -/
theorem Agrees.data {e : Echoing} {opened sent : Option (Nat × Bytes)} {n : Nat} {f : Frame}
    (h : Agrees e opened sent n) (hop : f.opcode ≤ 2) (hopened : f.opcode = 0 ↔ e.opened = true) :
    ∃ type acc, (type = 1 ∨ type = 2) ∧ extend opened f = some (type, acc ++ f.payload) ∧
      sent = sentOf type acc ∧ n = acc.length ∧
      e.answer f = echoed (if 666 ≤ acc.length then 0 else type) f.fin (unsent acc ++ f.payload) ∧
      Agrees (e.next f) (if f.fin then none else some (type, acc ++ f.payload))
        (if f.fin then none else sentOf type (acc ++ f.payload))
        (if f.fin then 0 else n + f.payload.length) := by
  have hping : f.opcode ≠ 9 := by omega
  have hpong : f.opcode ≠ 10 := by omega
  cases h with
  | closed type =>
    have hnonzero : f.opcode ≠ 0 := fun hz => absurd (hopened.mp hz) Bool.false_ne_true
    have htype : (typeOf f.opcode type).opcode = f.opcode ∧ (f.opcode = 1 ∨ f.opcode = 2) := by
      obtain h | h : f.opcode = 1 ∨ f.opcode = 2 := by omega
      all_goals rw [h]; exact ⟨rfl, by omega⟩
    refine ⟨f.opcode, [], htype.2, ?_, rfl, rfl, ?_, ?_⟩
    · rw [extend, if_neg hnonzero, List.nil_append]
    · unfold Echoing.answer
      rw [if_neg hping, if_neg hpong, htype.1]
      rfl
    · unfold Echoing.next behind
      rw [if_neg hping, if_neg hpong]
      dsimp only
      rw [List.nil_append, Nat.zero_add, Bool.false_or]
      have hgrown := Agrees.opened (typeOf f.opcode type) f.payload (by rw [htype.1]; exact htype.2)
      rw [htype.1] at hgrown
      cases f.fin with
      | true => exact .closed _
      | false => exact hgrown
  | opened type acc htype =>
    have hzero : f.opcode = 0 := hopened.mpr rfl
    have hsame : typeOf f.opcode type = type := by rw [hzero]; rfl
    refine ⟨type.opcode, acc, htype, ?_, rfl, rfl, ?_, ?_⟩
    · rw [extend, if_pos hzero]
    · unfold Echoing.answer
      rw [if_neg hping, if_neg hpong, hsame]
      simp only [decide_eq_true_eq]
    · unfold Echoing.next behind
      have hgrown := Agrees.opened type (acc ++ f.payload) htype
      rw [if_neg hping, if_neg hpong, hsame]
      cases f.fin with
      | true => exact .closed _
      | false =>
        have htransfer : (decide (666 ≤ acc.length) ||
            decide (666 ≤ (unsent acc ++ f.payload).length)) =
              decide (666 ≤ (acc ++ f.payload).length) := by
          rw [unsent_append, List.length_drop, List.length_append, ← Bool.decide_or,
            decide_eq_decide]
          omega
        dsimp only
        rw [unsent_unsent, htransfer]
        rw [List.length_append] at hgrown ⊢
        exact hgrown

/-- A data frame is put to the open message. -/
theorem assemble_data {opened : Option (Nat × Bytes)} {f : Frame} (hop : f.opcode ≤ 2)
    {type : Nat} {payload : Bytes} (hextend : extend opened f = some (type, payload))
    (fs : List Frame) :
    assemble opened (f :: fs) = if f.fin then (assemble none fs).map (.message type payload :: ·)
      else assemble (some (type, payload)) fs := by
  have hdata : f.isControl = false := decide_eq_false (by omega)
  rw [assemble, hdata, hextend]
  rfl

theorem assemble_control {opened : Option (Nat × Bytes)} {f : Frame} (hop : 8 ≤ f.opcode)
    (hfin : f.fin = true) (hlen : f.payload.length ≤ 125) (fs : List Frame) :
    assemble opened (f :: fs) = (assemble opened fs).map (.control f.opcode f.payload :: ·) := by
  have hcontrol : f.isControl = true := decide_eq_true hop
  rw [assemble, if_pos hcontrol, if_pos ⟨hfin, hlen⟩]

/-- A pong to the client leaves the open message as it is. -/
theorem assemble_pong (opened : Option (Nat × Bytes)) {payload : Bytes}
    (hlen : payload.length ≤ 125) (fs : List Frame) :
    assemble opened (⟨true, 10, payload⟩ :: fs) =
      (assemble opened fs).map (.control 10 payload :: ·) :=
  assemble_control (show 8 ≤ 10 by decide) rfl hlen fs

theorem Agrees.undisturbed {e : Echoing} {opened sent : Option (Nat × Bytes)} {n : Nat}
    (h : Agrees e opened sent n) (hn : n < 666) : { e with transfer := false } = e := by
  cases h with
  | closed type => rfl
  | opened type acc _ => rw [decide_eq_false (by omega)]

/-- **Undisturbed messages come back.** -/
theorem assemble_undisturbed {e : Echoing} {opened sent : Option (Nat × Bytes)} {n : Nat}
    {fs : List (Key × Frame)} {events : List Event} (h : Agrees e opened sent n)
    (hok : Accepted e fs) (hquiet : Undisturbed n (fs.map Prod.snd))
    (hevents : assemble opened (fs.map Prod.snd) = some events) :
    assemble sent (answers e (fs.map Prod.snd)) = some (replies events) := by
  induction fs generalizing e opened sent n events with
  | nil =>
    cases h with
    | closed type =>
      obtain rfl : [] = events := Option.some.inj hevents
      rfl
    | opened type acc _ => exact absurd hevents (Option.some_ne_none _).symm
  | cons head fs ih =>
    obtain ⟨key, f⟩ := head
    obtain ⟨⟨hfits, -, -, -⟩, hrest⟩ := hok
    simp only [List.map_cons, answers, Undisturbed] at hquiet hevents ⊢
    cases hfits with
    | control hop hfin hlen =>
      rw [assemble_control (by omega) hfin hlen, Option.map_eq_some_iff] at hevents
      obtain ⟨events, hevents, rfl⟩ := hevents
      rcases hop with hop | hop
      · -- nothing of the message has gone out, so the pong can do no harm
        rw [if_pos hop] at hquiet
        have hnext : e.next f = e := by rw [e.next_ping hop, h.undisturbed hquiet.1]
        rw [hnext] at hrest ⊢
        rw [e.answer_ping hop, List.singleton_append, assemble_pong sent hlen,
          ih h hrest hquiet.2 hevents, replies, if_pos hop]
        rfl
      · have hping : f.opcode ≠ 9 := by omega
        rw [if_neg hping, if_pos hop] at hquiet
        rw [e.next_pong hop] at hrest ⊢
        rw [e.answer_pong hop, List.nil_append, ih h hrest hquiet hevents, replies, if_neg hping]
    | data hop hopened =>
      have hping : f.opcode ≠ 9 := by omega
      have hpong : f.opcode ≠ 10 := by omega
      obtain ⟨type, acc, htype, hextend, rfl, rfl, hanswer, hnext⟩ := h.data hop hopened
      rw [assemble_data hop hextend] at hevents
      rw [if_neg hping, if_neg hpong] at hquiet
      rw [hanswer, assemble_answer htype]
      by_cases hfin : f.fin = true
      · rw [if_pos hfin] at hevents hquiet
        simp only [if_pos hfin] at hnext
        rw [Option.map_eq_some_iff] at hevents
        obtain ⟨events, hevents, rfl⟩ := hevents
        rw [if_pos hfin, ih hnext hrest hquiet hevents]
        rfl
      · rw [if_neg hfin] at hevents hquiet ⊢
        simp only [if_neg hfin] at hnext
        exact ih hnext hrest hquiet hevents

/-- Behind a ping in a message that has begun to come back, nothing can be right any more: the
rest of it comes as a message of its own. -/
theorem assemble_broken {e : Echoing} {opened : Nat × Bytes} {sent : Nat × Bytes}
    {fs : List (Key × Frame)} (hopen : e.opened = true) (htransfer : e.transfer = false)
    (htype : e.type.opcode = 1 ∨ e.type.opcode = 2) (hok : Accepted e fs)
    (hevents : assemble (some opened) (fs.map Prod.snd) ≠ none) :
    assemble (some sent) (answers e (fs.map Prod.snd)) = none := by
  induction fs generalizing e opened with
  | nil => exact absurd rfl hevents
  | cons head fs ih =>
    obtain ⟨key, f⟩ := head
    obtain ⟨⟨hfits, -, -, -⟩, hrest⟩ := hok
    simp only [List.map_cons, answers] at hevents ⊢
    cases hfits with
    | control hop hfin hlen =>
      rw [assemble_control (by omega) hfin hlen, Ne, Option.map_eq_none_iff] at hevents
      rcases hop with hop | hop
      · rw [e.next_ping hop] at hrest ⊢
        rw [e.answer_ping hop, List.singleton_append, assemble_pong _ hlen, Option.map_eq_none_iff]
        exact ih hopen rfl htype hrest hevents
      · rw [e.next_pong hop] at hrest ⊢
        rw [e.answer_pong hop, List.nil_append]
        exact ih hopen htransfer htype hrest hevents
    | data hop hopened =>
      have hping : f.opcode ≠ 9 := by omega
      have hpong : f.opcode ≠ 10 := by omega
      have hzero : f.opcode = 0 := hopened.mpr hopen
      have hsame : typeOf f.opcode e.type = e.type := by rw [hzero]; rfl
      rw [Echoing.answer, if_neg hping, if_neg hpong, hsame, htransfer, if_neg Bool.false_ne_true]
      by_cases hsome : f.fin = true ∨ 666 ≤ (e.held ++ f.payload).length
      · exact assemble_misplaced htype hsome sent _
      · -- nothing is sent yet
        rw [not_or] at hsome
        have hnext : e.next f = ⟨true, e.type, e.held ++ f.payload, false⟩ := by
          rw [Echoing.next, if_neg hping, if_neg hpong, hsame, behind, if_neg hsome.1,
            decide_eq_false hsome.2, htransfer, unsent_short (by omega),
            Bool.eq_false_iff.mpr hsome.1]
          rfl
        have hextend : extend (some opened) f = some (opened.1, opened.2 ++ f.payload) := by
          rw [extend, if_pos hzero]
        rw [hnext] at hrest ⊢
        rw [echoed_eq, if_neg hsome.2, if_neg hsome.1, List.nil_append]
        rw [assemble_data hop hextend, if_neg hsome.1] at hevents
        exact ih rfl rfl htype hrest hevents

theorem assemble_disturbed {e : Echoing} {opened sent : Option (Nat × Bytes)} {n : Nat}
    {fs : List (Key × Frame)} (h : Agrees e opened sent n) (hok : Accepted e fs)
    (hdisturbed : ¬Undisturbed n (fs.map Prod.snd))
    (hevents : assemble opened (fs.map Prod.snd) ≠ none) :
    assemble sent (answers e (fs.map Prod.snd)) = none := by
  induction fs generalizing e opened sent n with
  | nil => exact absurd trivial hdisturbed
  | cons head fs ih =>
    obtain ⟨key, f⟩ := head
    obtain ⟨⟨hfits, -, -, -⟩, hrest⟩ := hok
    simp only [List.map_cons, answers, Undisturbed] at hdisturbed hevents ⊢
    cases hfits with
    | control hop hfin hlen =>
      rw [assemble_control (by omega) hfin hlen, Ne, Option.map_eq_none_iff] at hevents
      rcases hop with hop | hop
      · rw [if_pos hop] at hdisturbed
        rw [e.next_ping hop] at hrest ⊢
        rw [e.answer_ping hop, List.singleton_append, assemble_pong sent hlen,
          Option.map_eq_none_iff]
        by_cases hn : n < 666
        · -- this ping is not the one that disturbs
          rw [h.undisturbed hn] at hrest ⊢
          exact ih h hrest (fun hquiet => hdisturbed ⟨hn, hquiet⟩) hevents
        · cases h with
          | closed type => exact absurd (Nat.zero_lt_succ 665) hn
          | opened type acc htype =>
            rw [sentOf, if_pos (by omega)]
            exact assemble_broken rfl rfl htype hrest hevents
      · have hping : f.opcode ≠ 9 := by omega
        rw [if_neg hping, if_pos hop] at hdisturbed
        rw [e.next_pong hop] at hrest ⊢
        rw [e.answer_pong hop, List.nil_append]
        exact ih h hrest hdisturbed hevents
    | data hop hopened =>
      have hping : f.opcode ≠ 9 := by omega
      have hpong : f.opcode ≠ 10 := by omega
      obtain ⟨type, acc, htype, hextend, rfl, rfl, hanswer, hnext⟩ := h.data hop hopened
      rw [assemble_data hop hextend] at hevents
      rw [if_neg hping, if_neg hpong] at hdisturbed
      rw [hanswer, assemble_answer htype]
      by_cases hfin : f.fin = true
      · rw [if_pos hfin] at hevents hdisturbed
        simp only [if_pos hfin] at hnext
        rw [Ne, Option.map_eq_none_iff] at hevents
        rw [if_pos hfin, ih hnext hrest hdisturbed hevents]
        rfl
      · rw [if_neg hfin] at hevents hdisturbed ⊢
        simp only [if_neg hfin] at hnext
        exact ih hnext hrest hdisturbed hevents

/-! ## The session as a whole -/

theorem encodable_echoed {opcode : Nat} (hop : opcode < 16) (fin : Bool) (all : Bytes) {f : Frame}
    (hf : f ∈ echoed opcode fin all) : f.Encodable := by
  induction hn : all.length using Nat.strong_induction_on generalizing opcode all with
  | _ n ih =>
    rw [echoed_eq, hn] at hf
    by_cases hfull : 666 ≤ n
    · rw [if_pos hfull] at hf
      rcases List.mem_cons.mp hf with rfl | hf
      · refine ⟨hop, ?_⟩
        dsimp only
        rw [List.length_take]
        omega
      · exact ih (n - 666) (by omega) (by omega) _ hf (by rw [List.length_drop, hn])
    · rw [if_neg hfull] at hf
      cases fin with
      | true =>
        rw [if_pos rfl, List.mem_singleton] at hf
        subst hf
        exact ⟨hop, by dsimp only; omega⟩
      | false => exact absurd hf List.not_mem_nil

theorem encodable_answers {e : Echoing} {fs : List (Key × Frame)} (hok : Accepted e fs) {g : Frame}
    (hg : g ∈ answers e (fs.map Prod.snd)) : g.Encodable := by
  induction fs generalizing e with
  | nil => exact absurd hg List.not_mem_nil
  | cons head fs ih =>
    obtain ⟨key, f⟩ := head
    obtain ⟨⟨-, -, hlen, -⟩, hrest⟩ := hok
    simp only [List.map_cons, answers] at hg
    rcases List.mem_append.mp hg with hg | hg
    · unfold Echoing.answer at hg
      by_cases hping : f.opcode = 9
      · rw [if_pos hping, List.mem_singleton] at hg
        subst hg
        exact ⟨by show 10 < 16; decide, by dsimp only; omega⟩
      by_cases hpong : f.opcode = 10
      · rw [if_neg hping, if_pos hpong] at hg
        exact absurd hg List.not_mem_nil
      · rw [if_neg hping, if_neg hpong] at hg
        have hop : (if e.transfer then 0 else (typeOf f.opcode e.type).opcode) < 16 := by
          split
          · decide
          · exact DataType.opcode_lt _
        exact encodable_echoed hop f.fin _ hg
    · exact ih hrest hg

/-- The session at its beginning. -/
def silent : Echoing := ⟨false, .invalid, [], false⟩

theorem ready_wsInit {socket : Socket} {calls : Nat} (htakes : Takes socket calls)
    (connection : Connection) : Ready (wsInit socket connection) silent calls where
  hdr := List.length_replicate
  rx := List.length_replicate
  ctrl := List.length_replicate
  tx := by show 684 ≤ (List.replicate 1360 (0 : UInt8)).length; rw [List.length_replicate]; decide
  takes := htakes
  queue := rfl
  missing := rfl
  flag := rfl
  actual := rfl
  rxState := rfl
  offset := rfl
  held := rfl
  room := by decide
  length := rfl
  type := rfl
  valid := fun h => absurd h Bool.false_ne_true
  transfer := rfl

/-- **An echo session.**  Whatever messages and pings a client sends, in whatever frames, with
whatever keys, and in whatever pieces the bytes come in: the session ends with the connection, and
its answers are the client's messages and a pong for each ping exactly if no ping has come inside a
message behind its first 666 bytes. -/
theorem echo_iff {socket : Socket} {connection : Connection} {fs : List (Key × Frame)}
    {events : List Event} (hin : connection.incoming = stream fs)
    (hevents : assemble none (fs.map Prod.snd) = some events) (hok : Accepted silent fs)
    (htakes : Takes socket (answers silent (fs.map Prod.snd)).length) :
    ∃ rounds c, sessionLoop rounds (wsInit socket connection) = some c ∧
      (received (wsInit socket connection).sender c.sender = some (replies events) ↔
        Undisturbed 0 (fs.map Prod.snd)) := by
  obtain ⟨rounds, c, hloop, hsent⟩ := (ready_wsInit htakes connection).answers_stream hok hin
  have hagrees : Agrees silent none none 0 := .closed .invalid
  have hencodable : ∀ g ∈ answers silent (fs.map Prod.snd), g.Encodable := fun g hg =>
    encodable_answers hok hg
  have hreceived : received (wsInit socket connection).sender c.sender =
      assemble none (answers silent (fs.map Prod.snd)) := received_of_sent hencodable hsent
  refine ⟨rounds, c, hloop, ?_⟩
  rw [hreceived]
  constructor
  · intro hreplies
    by_contra hdisturbed
    have hnone := assemble_disturbed hagrees hok hdisturbed
      (by rw [hevents]; exact Option.some_ne_none _)
    exact Option.some_ne_none _ (hreplies.symm.trans hnone)
  · intro hquiet
    exact assemble_undisturbed hagrees hok hquiet hevents

theorem isUtf8_replicate (n : Nat) : IsUtf8 (List.replicate n 97) := by
  refine ⟨List.replicate n 'a', ?_⟩
  unfold utf8
  induction n with
  | zero => rfl
  | succ n ih =>
    rw [List.replicate_succ, ih, List.replicate_succ, List.flatMap_cons]
    rfl

/-- A text of one piece and a rest. -/
def sevenHundredLetters : Bytes := List.replicate 666 97 ++ List.replicate 34 97

theorem length_sevenHundredLetters : sevenHundredLetters.length = 700 := by
  rw [sevenHundredLetters, List.length_append, List.length_replicate, List.length_replicate]

theorem whole_sevenHundredLetters : Whole 666 sevenHundredLetters := by
  apply Whole.piece List.length_replicate (isUtf8_replicate 666)
  apply Whole.last _ (isUtf8_replicate 34)
  rw [List.length_replicate]
  decide

/-- The text in one frame, and a ping behind it. -/
def lettersAndPing : List (Key × Frame) :=
  [(⟨1, 2, 3, 4⟩, ⟨true, 1, sevenHundredLetters⟩), (⟨5, 6, 7, 8⟩, ⟨true, 9, [33]⟩)]

theorem accepted_lettersAndPing : Accepted silent lettersAndPing := by
  refine ⟨⟨.data (by decide) (by decide), by decide, ?_, fun _ _ => whole_sevenHundredLetters⟩,
    ⟨.control (by decide) (by decide) (by decide), by decide, by decide, fun h => ?_⟩, trivial⟩
  · show sevenHundredLetters.length < _
    rw [length_sevenHundredLetters]
    decide
  · exact absurd h (by decide)

theorem length_answers_lettersAndPing :
    (answers silent (lettersAndPing.map Prod.snd)).length = 3 := by
  show (echoed 1 true ([] ++ sevenHundredLetters) ++ [_]).length = 3
  have hpiece : (sevenHundredLetters.drop 666).length = 34 := by
    rw [List.length_drop, length_sevenHundredLetters]
  rw [List.nil_append, echoed_eq, length_sevenHundredLetters, if_pos (by decide), echoed_eq, hpiece,
    if_neg (by decide)]
  rfl

/-- The bytes come in three pieces, the first of them a single byte. -/
theorem echo_iff_lettersAndPing : ∃ rounds c,
    sessionLoop rounds (wsInit ⟨[], [1359, 1359, 1359]⟩ ⟨stream lettersAndPing, [0, 4]⟩) = some c ∧
      received (wsInit ⟨[], [1359, 1359, 1359]⟩ ⟨stream lettersAndPing, [0, 4]⟩).sender c.sender =
        some (replies [.message 1 sevenHundredLetters, .control 9 [33]]) := by
  have hframes : ∀ letters, assemble none [⟨true, 1, letters⟩, ⟨true, 9, [33]⟩] =
      some [.message 1 letters, .control 9 [33]] := fun _ => rfl
  have hevents : assemble none (lettersAndPing.map Prod.snd) =
      some [.message 1 sevenHundredLetters, .control 9 [33]] := hframes sevenHundredLetters
  have hin : ∀ bytes pieces, (Connection.mk bytes pieces).incoming = bytes := fun _ _ => rfl
  obtain ⟨rounds, c, hloop, hiff⟩ := @echo_iff ⟨[], [1359, 1359, 1359]⟩ _ _ _
    (hin (stream lettersAndPing) [0, 4]) hevents accepted_lettersAndPing
    ⟨by decide, by rw [length_answers_lettersAndPing]; decide⟩
  exact ⟨rounds, c, hloop, hiff.mpr ⟨by decide, trivial⟩⟩

end EmWinDemo.WebSocket.Session
