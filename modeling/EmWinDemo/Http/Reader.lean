/-
# EmWinDemo.Http.Reader -- the request header, read through the session buffer

`httpsrvReqRead` is one call of `httpsrv_req_read`: it receives a piece of the request behind what
the session buffer holds already, handles every line that ends in the buffer, and moves what is
left over to the front for the next call.  Once the header is complete, `httpsrvRead` is the
`httpsrv_read` by which a CGI function fetches the body, first from the buffer and then from the
socket.  The functions that handle a line are parameters (`RequestFunctions`): the reader passes
them the text of a line and keeps what they did to the session.

`LineStream.feed` says what the header *means*: the stream, one byte at a time.  `Exact` states
that the session has kept to it -- the handled lines are those of the stream, and the buffer holds
exactly the bytes that nobody has read -- for every way in which the client's bytes come in.
`always_exact_iff` says when that is so.  The buffer is kept as it should only if a call that finds
an unfinished line in it receives the rest of that line and something more: a call that receives
no line end forgets the bytes that were there before, and one that ends exactly at a line end
leaves the old offset, and with it bytes that were handled already, in front of the next line.
-/
import Mathlib.Algebra.Order.Ring.Nat
import EmWinDemo.Lib.CText
import EmWinDemo.Lib.LineStream
import EmWinDemo.Lib.Runs

namespace EmWinDemo.Http.Reader

open Lib.CMemory Lib.CText Lib.Runs Lib.LineStream

variable {σ : Type*}

/-! ## The session -/

/-- `HTTPSRV_SES_BUF_SIZE_PRV`. -/
def sesBufSize : Nat := 1360

/-- The fields of `HTTPSRV_SESSION_STRUCT` that the reader works on; `fields` is what the line
functions read and write. -/
structure Session (σ : Type*) where
  data : Bytes
  offset : Nat
  pending : Nat
  lines : Nat
  processHeader : Bool
  fields : σ

/-- A function that works on a line in place and on the session: whether it accepts the line,
the text it leaves, and the fields. -/
structure LineFunction (σ : Type*) where
  run : Bytes → σ → Bool × Bytes × σ
  length_run : ∀ line u, (run line u).2.1.length = line.length

/-- What the reader calls: `httpsrv_req_line` for the first line, `httpsrv_req_hdr` for the
others, and the status that a line gets which does not fit the buffer. -/
structure RequestFunctions (σ : Type*) where
  reqLine : LineFunction σ
  reqHdr : LineFunction σ
  fieldTooLarge : σ → σ

def RequestFunctions.function (f : RequestFunctions σ) (lines : Nat) : LineFunction σ :=
  if lines = 1 then f.reqLine else f.reqHdr

/-- What a call of `httpsrv_recv` gives: bytes, an empty hand at a timeout, or the end of the
connection. -/
inductive Recv where
  | data (chunk : Bytes)
  | wouldBlock
  | closed
  deriving DecidableEq

inductive Result where
  | ok
  | fail
  | err
  deriving DecidableEq

/-- Sums and differences of `uint32_t`. -/
def add32 (a b : Nat) : Nat := (a + b) % 2 ^ 32

def sub32 (a b : Nat) : Nat := (a + 2 ^ 32 - b % 2 ^ 32) % 2 ^ 32

/-! ## Reading the header -/

/-- `memchr`: where the first `b` from `start` on stands. -/
def memchr (m : Bytes) (start : Nat) (b : UInt8) : Option Nat :=
  if b ∈ m.drop start then some (start + strcspn (m.drop start) b) else none

/-- The line feed at `lineEnd`, and a carriage return before it, give way to NULs. -/
def terminate (data : Bytes) (lineEnd : Nat) : Bytes :=
  let data := data.set lineEnd 0
  if lineEnd ≠ 0 ∧ data[lineEnd - 1]? = some 13 then data.set (lineEnd - 1) 0 else data

/-- The variables of the loop over the lines. -/
structure Scan (σ : Type*) where
  data : Bytes
  lineStart : Nat
  unprocessed : Nat
  pending : Nat
  lines : Nat
  fields : σ

/-- How the loop ends: no further line end, an empty line, or a line that is rejected. -/
inductive Scanned (σ : Type*) where
  | noLine (s : Scan σ)
  | emptyLine (s : Scan σ) (lineEnd : Nat)
  | fail (s : Scan σ)

/-- The loop over the lines in the buffer; a round moves `line_start` on, so the size of the
buffer bounds the rounds. -/
def scan (f : RequestFunctions σ) : Nat → Scan σ → Scanned σ
  | 0, s => .noLine s
  | rounds + 1, s =>
    match memchr s.data s.lineStart 10 with
    | none => .noLine s
    | some lineEnd =>
      let data := terminate s.data lineEnd
      let line := cstr (data.drop s.lineStart)
      let lines := add32 s.lines 1
      let unprocessed := sub32 s.unprocessed (sub32 (lineEnd - s.lineStart + 1) s.pending)
      if line.length = 0 then
        .emptyLine ⟨data, s.lineStart, unprocessed, 0, 0, s.fields⟩ lineEnd
      else
        let (accepted, text, fields) := (f.function lines).run line s.fields
        let data := store data s.lineStart text
        if accepted then
          let lineStart := if lineEnd + 1 > sesBufSize then sesBufSize else lineEnd + 1
          scan f rounds ⟨data, lineStart, unprocessed, 0, lines, fields⟩
        else .fail ⟨data, s.lineStart, unprocessed, 0, lines, fields⟩

/-- The `memset` at the end: nothing old stands behind the offset. -/
def clear (data : Bytes) (offset : Nat) : Bytes :=
  data.take offset ++ List.replicate (sesBufSize - offset) 0

/-- What happens after the loop to the bytes from `src` on that were not handled; `none` if the
move would read behind the buffer. -/
def leftOver (f : RequestFunctions σ) (offset : Nat) (processHeader : Bool) (s : Scan σ)
    (src : Nat) : Option (Result × Session σ) :=
  let pending := add32 s.pending s.unprocessed
  if sesBufSize ≤ pending then
    some (.fail, ⟨s.data, 0, pending, s.lines, processHeader, f.fieldTooLarge s.fields⟩)
  else if sesBufSize ≤ s.unprocessed ∧ s.lines = 0 then
    some (.ok, ⟨clear s.data 0, 0, pending, s.lines, processHeader, s.fields⟩)
  else if s.unprocessed ≠ 0 then
    if src + s.unprocessed ≤ sesBufSize then
      let data := store s.data 0 ((s.data.drop src).take s.unprocessed)
      some (.ok, ⟨clear data s.unprocessed, s.unprocessed, pending, s.lines, processHeader,
        s.fields⟩)
    else none
  else
    some (.ok, ⟨clear s.data offset, offset, pending, s.lines, processHeader, s.fields⟩)

/-- `httpsrv_req_read`. -/
def httpsrvReqRead (f : RequestFunctions σ) (s : Session σ) :
    Recv → Option (Result × Session σ)
  | .wouldBlock => some (.ok, s)
  | .closed => some (.err, s)
  | .data chunk =>
    let data := store s.data s.offset chunk
    match scan f (sesBufSize + 1) ⟨data, 0, chunk.length, s.pending, s.lines, s.fields⟩ with
    | .noLine t => leftOver f s.offset s.processHeader t t.lineStart
    | .emptyLine t lineEnd => leftOver f s.offset false t (lineEnd + 1)
    | .fail t => some (.fail, ⟨t.data, 0, t.pending, t.lines, s.processHeader, t.fields⟩)

/-! ## Reading the body -/

/-- `httpsrv_read` of `len` bytes: from the buffer first, then the chunks that the socket gives
until the request is met. -/
def httpsrvRead (s : Session σ) (len : Nat) (chunks : List Bytes) : Bytes × Session σ :=
  if s.offset > 0 then
    let length := if s.offset < len then s.offset else len
    let tail := sesBufSize - length
    let data := store s.data 0 ((s.data.drop length).take tail)
    (s.data.take length ++ chunks.flatten,
      { s with data := store data tail (List.replicate length 0), offset := s.offset - length })
  else (chunks.flatten, s)

/-- The bytes that a read of `len` bytes still asks the socket for. -/
def wanted (s : Session σ) (len : Nat) : Nat := len - min s.offset len

/-! ## Runs -/

inductive Status where
  | reading
  | finished
  | failed
  | closed
  | outside
  deriving DecidableEq

/-- A connection: the session, the bytes that have come in so far, and the part of them that was
read as a body.  It is `outside` after an access behind the buffer. -/
structure Run (σ : Type*) where
  session : Session σ
  status : Status
  input : Bytes
  body : Bytes

def start (fields : σ) : Run σ :=
  ⟨⟨List.replicate sesBufSize 0, 0, 0, 0, true, fields⟩, .reading, [], []⟩

/-- A call of `httpsrv_req_read`, or, when the header is complete, one of `httpsrv_read`. -/
inductive Event where
  | reqRead (recv : Recv)
  | read (len : Nat) (chunks : List Bytes)
  deriving DecidableEq

/-- The socket gives at least one byte and no more than it is asked for. -/
def Delivers (room : Nat) : Recv → Prop
  | .data chunk => chunk ≠ [] ∧ chunk.length ≤ room
  | .wouldBlock => True
  | .closed => True

instance (room : Nat) : (r : Recv) → Decidable (Delivers room r)
  | .data chunk => inferInstanceAs (Decidable (chunk ≠ [] ∧ chunk.length ≤ room))
  | .wouldBlock => isTrue trivial
  | .closed => isTrue trivial

def Recv.bytes : Recv → Bytes
  | .data chunk => chunk
  | .wouldBlock => []
  | .closed => []

/-- The status after a call of `httpsrv_req_read`. -/
def Result.status (r : Result) (s : Session σ) : Status :=
  match r with
  | .ok => if s.processHeader then .reading else .finished
  | .fail => .failed
  | .err => .closed

def Run.step (f : RequestFunctions σ) (r : Run σ) : Event → Option (Run σ)
  | .reqRead recv =>
    if r.status = .reading ∧ Delivers (sesBufSize - r.session.offset) recv then
      match httpsrvReqRead f r.session recv with
      | some (result, s) => some ⟨s, result.status s, r.input ++ recv.bytes, r.body⟩
      | none => some { r with status := .outside, input := r.input ++ recv.bytes }
    else none
  | .read len chunks =>
    if r.status = .finished ∧ [] ∉ chunks ∧ chunks.flatten.length ≤ wanted r.session len then
      let (bytes, s) := httpsrvRead r.session len chunks
      some { r with session := s, input := r.input ++ chunks.flatten, body := r.body ++ bytes }
    else none

/-! ## What the header means -/

/-- The text of a line: a carriage return at its end does not count, and it ends at a NUL. -/
def lineText (line : Bytes) : Bytes :=
  cstr (if line.getLast? = some 13 then line.dropLast else line)

/-- What a line does to the number of lines and to the session. -/
def handle (f : RequestFunctions σ) (line : Bytes) (s : Nat × σ) : Verdict (Nat × σ) :=
  if (lineText line).length = 0 then .last (0, s.2)
  else
    let (accepted, _, fields) := (f.function (add32 s.1 1)).run (lineText line) s.2
    if accepted then .next (add32 s.1 1, fields) else .reject (add32 s.1 1, fields)

def protocol (f : RequestFunctions σ) : Protocol UInt8 (Nat × σ) where
  newline := 10
  limit := sesBufSize
  line := handle f
  tooLong s := (s.1, f.fieldTooLarge s.2)

/-- How far the bytes that have come in so far take the request. -/
def progress (f : RequestFunctions σ) (fields : σ) (input : Bytes) : Progress UInt8 (Nat × σ) :=
  (protocol f).feed (.reading (0, fields) []) input

/-- The buffer holds these bytes and nothing else. -/
structure Holds (s : Session σ) (bytes : Bytes) : Prop where
  data : s.data = bytes ++ List.replicate (sesBufSize - bytes.length) 0
  offset : s.offset = bytes.length
  fits : bytes.length ≤ sesBufSize

/-- **The session has kept to the stream.**  The lines handled are those of the stream, the body
is read from where the header ends, and the buffer holds exactly the bytes between what was read
and what has not come in yet. -/
def Exact (f : RequestFunctions σ) (fields : σ) (r : Run σ) : Prop :=
  match r.status with
  | .reading => ∃ part, progress f fields r.input = .reading (r.session.lines, r.session.fields) part ∧
      Holds r.session part ∧ r.session.pending = part.length ∧ r.session.processHeader = true ∧
      r.body = []
  | .finished => ∃ lines rest, progress f fields r.input =
      .finished (lines, r.session.fields) (r.body ++ rest) ∧ Holds r.session rest
  | .failed => ∃ lines, progress f fields r.input = .rejected (lines, r.session.fields)
  | .closed => ∃ lines part, progress f fields r.input = .reading (lines, r.session.fields) part
  | .outside => False

/-- The chunk ends the line that was unfinished and leaves something over, or has the request
rejected. -/
def Continues (chunk : Bytes) : Progress UInt8 (Nat × σ) → Prop
  | .reading _ part => 10 ∈ chunk ∧ part ≠ []
  | .finished _ rest => rest ≠ []
  | .rejected _ => True

instance (chunk : Bytes) : (g : Progress UInt8 (Nat × σ)) → Decidable (Continues chunk g)
  | .reading _ part => inferInstanceAs (Decidable (10 ∈ chunk ∧ part ≠ []))
  | .finished _ rest => inferInstanceAs (Decidable (rest ≠ []))
  | .rejected _ => isTrue trivial

/-- **The condition.**  A call that finds an unfinished line in the buffer receives the rest of
that line and leaves something over, unless it has the request rejected. -/
def Kept (f : RequestFunctions σ) (fields : σ) (r : Run σ) : Event → Prop
  | .reqRead (.data chunk) =>
    r.session.offset = 0 ∨ Continues chunk (progress f fields (r.input ++ chunk))
  | .reqRead .wouldBlock => True
  | .reqRead .closed => True
  | .read _ _ => True

instance (f : RequestFunctions σ) (fields : σ) (r : Run σ) :
    (e : Event) → Decidable (Kept f fields r e)
  | .reqRead (.data chunk) => inferInstanceAs (Decidable
      (r.session.offset = 0 ∨ Continues chunk (progress f fields (r.input ++ chunk))))
  | .reqRead .wouldBlock => isTrue trivial
  | .reqRead .closed => isTrue trivial
  | .read _ _ => isTrue trivial

/-! ## The bytes of the buffer -/

theorem memchr_append {front line : Bytes} (hline : (10 : UInt8) ∉ line) (rest : Bytes) :
    memchr (front ++ (line ++ 10 :: rest)) front.length 10 = some (front.length + line.length) := by
  unfold memchr
  rw [List.drop_left, strcspn_append hline, if_pos]
  simp

theorem memchr_eq_none {front rest : Bytes} (hrest : (10 : UInt8) ∉ rest) :
    memchr (front ++ rest) front.length 10 = none := by
  unfold memchr
  rw [List.drop_left, if_neg hrest]

/-- No carriage return stands in front of the line. -/
def Closed (front : Bytes) : Prop := front = [] ∨ ∃ before, front = before ++ [0]

theorem set_append_right (front : Bytes) (b c : UInt8) (rest : Bytes) :
    (front ++ b :: rest).set front.length c = front ++ c :: rest := by
  simp

/-- The line in the buffer after its end was overwritten: as long as before, and read as a C string
it is the text of the line. -/
theorem terminate_append {front : Bytes} (hfront : Closed front) (line rest : Bytes) :
    ∃ line', terminate (front ++ (line ++ 10 :: rest)) (front.length + line.length) =
        front ++ (line' ++ 0 :: rest) ∧
      line'.length = line.length ∧ cstr (line' ++ 0 :: rest) = lineText line := by
  have hset : (front ++ (line ++ 10 :: rest)).set (front.length + line.length) 0 =
      (front ++ line) ++ 0 :: rest := by
    rw [← List.append_assoc, ← List.length_append, set_append_right]
  unfold terminate lineText
  rw [hset]
  rcases List.eq_nil_or_concat' line with rfl | ⟨init, last, rfl⟩
  · -- an empty line: what stands before it is a NUL, or nothing
    refine ⟨[], ?_, rfl, rfl⟩
    rw [if_neg]
    · simp
    · rintro ⟨hne, hcr⟩
      rcases hfront with rfl | ⟨before, rfl⟩
      · exact hne rfl
      · simp at hcr
  · have hprev : ((front ++ (init ++ [last])) ++ 0 :: rest)[front.length + (init ++ [last]).length - 1]? =
        some last := by
      have hidx : front.length + (init ++ [last]).length - 1 = (front ++ init).length := by
        simp only [List.length_append, List.length_singleton]
        omega
      rw [hidx, ← List.append_assoc front, List.append_assoc _ [last]]
      simp
    have hne : front.length + (init ++ [last]).length ≠ 0 := by simp
    dsimp only
    rw [hprev, List.getLast?_concat, List.dropLast_concat]
    by_cases hcr : last = 13
    · subst hcr
      refine ⟨init ++ [0], ?_, by simp, ?_⟩
      · rw [if_pos ⟨hne, rfl⟩]
        have hidx : front.length + (init ++ [(13 : UInt8)]).length - 1 = (front ++ init).length := by
          simp only [List.length_append, List.length_singleton]
          omega
        rw [hidx, ← List.append_assoc front, List.append_assoc _ [13], List.singleton_append,
          set_append_right]
        simp
      · rw [if_pos rfl, List.append_assoc, List.singleton_append, cstr_append_nul]
    · have hcr' : ¬some last = some (13 : UInt8) := fun h => hcr (Option.some.inj h)
      refine ⟨init ++ [last], ?_, rfl, ?_⟩
      · rw [if_neg fun h => hcr' h.2]
        simp
      · rw [if_neg hcr', cstr_append_nul]

/-- The text that a line function leaves stays within the line. -/
theorem store_line {front line' : Bytes} (text rest : Bytes) (htext : text.length ≤ line'.length) :
    ∃ line'', store (front ++ (line' ++ 0 :: rest)) front.length text =
      (front ++ (line'' ++ [0])) ++ rest ∧ line''.length = line'.length := by
  refine ⟨text ++ line'.drop text.length, ?_, ?_⟩
  · have hdrop : (front ++ (line' ++ 0 :: rest)).drop (front.length + text.length) =
        line'.drop text.length ++ 0 :: rest := by
      rw [← List.drop_drop, List.drop_left, List.drop_append_of_le_length htext]
    rw [store, List.take_left, hdrop]
    simp
  · simp only [List.length_append, List.length_drop]
    omega

/-! ## The loop over the lines -/

theorem sub32_sub32 {u p n k : Nat} (hsum : u + p = n) (hk : k ≤ n) (hn : n < 2 ^ 32) :
    sub32 u (sub32 k p) = n - k := by
  unfold sub32
  omega

theorem lt_two_pow_of_le_sesBufSize {n : Nat} (h : n ≤ sesBufSize) : n < 2 ^ 32 := by
  unfold sesBufSize at h
  omega

/-- What the loop leaves over: the bytes from `src` on, behind at least one line. -/
structure Left (t : Scan σ) (src : Nat) (rest : Bytes) : Prop where
  data : ∃ front k, t.data = front ++ (rest ++ List.replicate k 0) ∧ front.length = src
  length : t.data.length = sesBufSize
  pending : t.pending = 0
  unprocessed : t.unprocessed = rest.length
  pos : 0 < src

theorem Left.src_add_le {t : Scan σ} {src : Nat} {rest : Bytes} (h : Left t src rest) :
    src + rest.length ≤ sesBufSize := by
  obtain ⟨front, k, hdata, rfl⟩ := h.data
  have hlen := congrArg List.length hdata
  rw [h.length] at hlen
  simp only [List.length_append] at hlen
  omega

/-- The loop's end agrees with what the stream means. -/
def Agrees (g : Progress UInt8 (Nat × σ)) : Scanned σ → Prop
  | .noLine t => ∃ rest, (10 : UInt8) ∉ rest ∧ Left t t.lineStart rest ∧
      g = .reading (t.lines, t.fields) rest
  | .emptyLine t lineEnd => ∃ rest, Left t (lineEnd + 1) rest ∧
      g = .finished (t.lines, t.fields) rest
  | .fail t => g = .rejected (t.lines, t.fields)

section Loop

variable {f : RequestFunctions σ} {s : Scan σ} {front body : Bytes} {k : Nat}

/-- Without a line end among the bytes, the loop ends at once. -/
theorem scan_noLine (hdata : s.data = front ++ (body ++ List.replicate k 0))
    (hstart : s.lineStart = front.length) (hbody : (10 : UInt8) ∉ body) (rounds : Nat) :
    scan f rounds s = .noLine s := by
  have hnone : memchr s.data s.lineStart 10 = none := by
    rw [hdata, hstart, memchr_eq_none]
    simp [hbody]
  cases rounds with
  | zero => rfl
  | succ rounds => rw [scan, hnone]

/-- What the loop finds in its state: the bytes of the buffer from `line_start` on, all of them
accounted for. -/
structure Scans (s : Scan σ) (front body : Bytes) (k : Nat) : Prop where
  data : s.data = front ++ (body ++ List.replicate k 0)
  length : s.data.length = sesBufSize
  start : s.lineStart = front.length
  closed : Closed front
  unprocessed : s.unprocessed + s.pending = body.length

theorem Scans.length_body_le (h : Scans s front body k) : front.length + body.length ≤ sesBufSize := by
  have hlen := congrArg List.length h.data
  rw [h.length] at hlen
  simp only [List.length_append] at hlen
  omega

section Line

variable {line rest : Bytes} (h : Scans s front (line ++ 10 :: rest) k) (hline : (10 : UInt8) ∉ line)
include h

theorem Scans.memchr_line (hline : (10 : UInt8) ∉ line) :
    memchr s.data s.lineStart 10 = some (front.length + line.length) := by
  rw [h.data, h.start, List.append_assoc, List.cons_append, memchr_append hline]

/-- The bytes that are left when the line is taken off. -/
theorem Scans.sub_line : sub32 s.unprocessed
    (sub32 (front.length + line.length - s.lineStart + 1) s.pending) = rest.length := by
  have hle := h.length_body_le
  simp only [List.length_append, List.length_cons] at hle
  have hsum : s.unprocessed + s.pending = line.length + 1 + rest.length := by
    rw [h.unprocessed]
    simp only [List.length_append, List.length_cons]
    omega
  have hlen : front.length + line.length - s.lineStart + 1 = line.length + 1 := by
    rw [h.start]
    omega
  rw [hlen, sub32_sub32 hsum (by omega) (lt_two_pow_of_le_sesBufSize (by omega))]
  omega

/-- The buffer when the end of the line was overwritten. -/
theorem Scans.terminate_line : ∃ line', terminate s.data (front.length + line.length) =
      front ++ (line' ++ 0 :: (rest ++ List.replicate k 0)) ∧
    line'.length = line.length ∧ cstr line' = lineText line := by
  obtain ⟨line', hterm, hlen, htext⟩ :=
    terminate_append h.closed line (rest ++ List.replicate k 0)
  refine ⟨line', ?_, hlen, by rw [← htext, cstr_append_nul]⟩
  rw [h.data, List.append_assoc, List.cons_append, hterm]

theorem Scans.length_line :
    front.length + (line.length + 1) + (rest.length + k) = sesBufSize := by
  have hlen := h.length
  rw [h.data] at hlen
  simp only [List.length_append, List.length_cons, List.length_replicate] at hlen
  omega

/-- A round that finds an empty line ends the header. -/
theorem scan_emptyLine (hline : (10 : UInt8) ∉ line) (hempty : lineText line = []) (rounds : Nat) :
    ∃ t, scan f (rounds + 1) s = .emptyLine t (front.length + line.length) ∧
      Left t (front.length + line.length + 1) rest ∧ t.lines = 0 ∧ t.fields = s.fields := by
  obtain ⟨line', hdata, hlen', htext⟩ := h.terminate_line
  have htext' : cstr ((terminate s.data (front.length + line.length)).drop s.lineStart) = [] := by
    rw [hdata, h.start, List.drop_left, cstr_append_nul, htext, hempty]
  have hlength := h.length_line
  refine ⟨⟨terminate s.data (front.length + line.length), s.lineStart, rest.length, 0, 0,
    s.fields⟩, ?_, ⟨⟨front ++ (line' ++ [0]), k, ?_, ?_⟩, ?_, rfl, rfl, by omega⟩, rfl, rfl⟩
  · rw [scan, h.memchr_line hline]
    simp only [htext', h.sub_line, List.length_nil, if_true]
  · simp [hdata]
  · simp only [List.length_append, List.length_singleton, hlen']
    omega
  · simp only [hdata, List.length_append, List.length_cons, List.length_replicate, hlen']
    omega

/-- A round that finds any other line hands it to its function, and goes on if that accepts it. -/
theorem scan_line (hline : (10 : UInt8) ∉ line) (hne : lineText line ≠ []) {accepted : Bool}
    {text : Bytes} {fields : σ} (hrun : (f.function (add32 s.lines 1)).run (lineText line) s.fields =
      (accepted, text, fields)) (rounds : Nat) :
    ∃ t, t.lines = add32 s.lines 1 ∧ t.fields = fields ∧
      scan f (rounds + 1) s = (if accepted then scan f rounds t else .fail t) ∧
      (accepted = true → t.pending = 0 ∧ ∃ front', 0 < front'.length ∧ Scans t front' rest k) := by
  obtain ⟨line', hdata, hlen', htext⟩ := h.terminate_line
  have htext' : cstr ((terminate s.data (front.length + line.length)).drop s.lineStart) =
      lineText line := by
    rw [hdata, h.start, List.drop_left, cstr_append_nul, htext]
  have hpos : ¬(lineText line).length = 0 := fun h => hne (List.eq_nil_of_length_eq_zero h)
  have hlength := h.length_line
  have htextle : text.length ≤ line'.length := by
    have hkeep := (f.function (add32 s.lines 1)).length_run (lineText line) s.fields
    rw [hrun, ← htext] at hkeep
    have hcut := length_cstr_le line'
    dsimp only at hkeep
    omega
  obtain ⟨line'', hstore, hlen''⟩ := store_line text (rest ++ List.replicate k 0) htextle
  refine ⟨⟨store (terminate s.data (front.length + line.length)) s.lineStart text,
    if accepted then
      if front.length + line.length + 1 > sesBufSize then sesBufSize
      else front.length + line.length + 1
    else s.lineStart, rest.length, 0, add32 s.lines 1, fields⟩, rfl, rfl, ?_, ?_⟩
  · rw [scan, h.memchr_line hline]
    simp only [htext', h.sub_line, hrun, if_neg hpos]
    cases accepted <;> rfl
  · rintro rfl
    refine ⟨rfl, front ++ (line'' ++ [0]), ?_, ?_, ?_, ?_, ?_, rfl⟩
    · simp only [List.length_append, List.length_singleton]
      omega
    · rw [hdata, h.start, hstore]
    · rw [hdata, h.start, hstore]
      simp only [List.length_append, List.length_replicate, List.length_singleton]
      omega
    · rw [if_pos rfl, if_neg (by omega)]
      simp only [List.length_append, List.length_singleton]
      omega
    · exact Or.inr ⟨front ++ line'', by simp⟩

end Line

/-- **The loop reads the lines of the stream.** -/
theorem scan_agrees {rounds : Nat} (h : Scans s front body k) (hmem : (10 : UInt8) ∈ body)
    (hrounds : body.length < rounds) :
    Agrees ((protocol f).feed (.reading (s.lines, s.fields) []) body) (scan f rounds s) := by
  induction rounds generalizing s front body with
  | zero => exact absurd hrounds (Nat.not_lt_zero _)
  | succ rounds ih =>
    obtain ⟨line, rest, rfl, hline⟩ := List.eq_append_cons_of_mem hmem
    have hlength := h.length_line
    have hfeed : (protocol f).feed (.reading (s.lines, s.fields) []) (line ++ 10 :: rest) =
        (protocol f).feed (handle f line (s.lines, s.fields)).progress rest := by
      apply Protocol.feed_line hline
      show 0 + line.length < sesBufSize
      omega
    rw [hfeed]
    unfold handle
    by_cases hempty : lineText line = []
    · obtain ⟨t, hscan, hleft, hlines, hfields⟩ := scan_emptyLine (f := f) h hline hempty rounds
      rw [hscan, hempty, if_pos (by rfl)]
      refine ⟨rest, hleft, ?_⟩
      rw [hlines, hfields]
      simp [Verdict.progress]
    · rcases hrun : (f.function (add32 s.lines 1)).run (lineText line) s.fields with
        ⟨accepted, text, fields⟩
      obtain ⟨t, hlines, hfields, hscan, hnext⟩ := scan_line h hline hempty hrun rounds
      rw [if_neg fun h => hempty (List.eq_nil_of_length_eq_zero h), hscan]
      dsimp only
      cases accepted with
      | false => simp [Agrees, Verdict.progress, hlines, hfields]
      | true =>
        -- the rest of the buffer is read by the next rounds
        obtain ⟨hpending, front', hfront', ht⟩ := hnext rfl
        simp only [if_true, Verdict.progress]
        rw [← hlines, ← hfields]
        simp only [List.length_append, List.length_cons] at hrounds
        by_cases hrest : (10 : UInt8) ∈ rest
        · exact ih ht hrest (by omega)
        · rw [scan_noLine ht.data ht.start hrest]
          have hle := ht.length_body_le
          refine ⟨rest, hrest, ⟨⟨front', k, ht.data, ht.start.symm⟩, ht.length, hpending, ?_, ?_⟩, ?_⟩
          · have hsum := ht.unprocessed
            omega
          · rw [ht.start]
            exact hfront'
          · apply Protocol.feed_part hrest
            show 0 + rest.length < sesBufSize
            omega

end Loop

/-! ## What one call leaves in the buffer -/

section Call

variable {f : RequestFunctions σ} {t : Scan σ} {src : Nat} {rest : Bytes}

theorem add32_of_le {a b : Nat} (h : a + b ≤ sesBufSize) : add32 a b = a + b :=
  Nat.mod_eq_of_lt (lt_two_pow_of_le_sesBufSize h)

/-- Bytes that are left over are moved to the front. -/
theorem leftOver_moved (h : Left t src rest) (hne : rest ≠ []) (offset : Nat) (processHeader : Bool) :
    ∃ s, leftOver f offset processHeader t src = some (.ok, s) ∧ Holds s rest ∧
      s.pending = rest.length ∧ s.lines = t.lines ∧ s.processHeader = processHeader ∧
      s.fields = t.fields := by
  have hle := h.src_add_le
  have hpos := h.pos
  have hrest : t.unprocessed ≠ 0 := by
    rw [h.unprocessed]
    exact fun h => hne (List.eq_nil_of_length_eq_zero h)
  have hpending : add32 t.pending t.unprocessed = rest.length := by
    rw [h.pending, h.unprocessed, add32_of_le (by omega), Nat.zero_add]
  have hshort : ¬sesBufSize ≤ rest.length := by omega
  obtain ⟨front, k, hdata, rfl⟩ := h.data
  refine ⟨⟨clear (store t.data 0 ((t.data.drop front.length).take t.unprocessed)) t.unprocessed,
    t.unprocessed, rest.length, t.lines, processHeader, t.fields⟩, ?_, ⟨?_, h.unprocessed, by omega⟩,
    rfl, rfl, rfl, rfl⟩
  · unfold leftOver
    simp only [hpending, if_neg hshort]
    rw [h.unprocessed, if_neg fun h => hshort h.1, if_pos (h.unprocessed ▸ hrest), if_pos hle]
  · show clear _ _ = _
    rw [h.unprocessed, hdata, List.drop_left, List.take_left, store_zero, clear, List.take_left]

/-- If nothing is left over, the old offset stays. -/
theorem leftOver_nothing (h : Left t src []) (offset : Nat) (processHeader : Bool) :
    leftOver f offset processHeader t src =
      some (.ok, ⟨clear t.data offset, offset, 0, t.lines, processHeader, t.fields⟩) := by
  have hrest : t.unprocessed = 0 := h.unprocessed
  have hshort : ¬sesBufSize ≤ 0 := by decide
  unfold leftOver
  rw [h.pending, hrest, show add32 0 0 = 0 from rfl]
  simp [hshort]

theorem clear_zero (data : Bytes) : clear data 0 = List.replicate sesBufSize 0 := by
  simp [clear]

/-- After a line was handled the buffer is as it should be, unless nothing is left over and the
offset was not zero. -/
theorem leftOver_holds (h : Left t src rest) (offset : Nat) (processHeader : Bool) :
    ∃ s, leftOver f offset processHeader t src = some (.ok, s) ∧
      (Holds s rest ↔ offset = 0 ∨ rest ≠ []) ∧ s.pending = rest.length ∧ s.lines = t.lines ∧
      s.processHeader = processHeader ∧ s.fields = t.fields := by
  by_cases hne : rest = []
  · subst hne
    refine ⟨_, leftOver_nothing h offset processHeader, ?_, rfl, rfl, rfl, rfl⟩
    constructor
    · intro hholds
      exact Or.inl hholds.offset
    · rintro (rfl | hne)
      · exact ⟨by simp [clear_zero], rfl, Nat.zero_le _⟩
      · exact absurd rfl hne
  · obtain ⟨s, hs, hholds, hrest⟩ := leftOver_moved (f := f) h hne offset processHeader
    exact ⟨s, hs, ⟨fun _ => Or.inr hne, fun _ => hholds⟩, hrest⟩

variable {s : Session σ} {part chunk : Bytes}

/-- A chunk is stored behind the bytes that the buffer holds. -/
theorem Holds.store_chunk (h : Holds s part) (chunk : Bytes) :
    store s.data s.offset chunk =
      (part ++ chunk) ++ List.replicate (sesBufSize - (part.length + chunk.length)) 0 := by
  have hdrop : (part ++ List.replicate (sesBufSize - part.length) (0 : UInt8)).drop
      (part.length + chunk.length) =
      List.replicate (sesBufSize - (part.length + chunk.length)) 0 := by
    rw [← List.drop_drop, List.drop_left, List.drop_replicate]
    congr 1
    omega
  rw [store, h.data, h.offset, List.take_left, hdrop]

/-- Without a line end in the buffer, only the chunk is kept of the unfinished line. -/
theorem leftOver_noLine (hpart : part.length + chunk.length ≤ sesBufSize) (hne : chunk ≠ [])
    (ht : t.data = (part ++ chunk) ++ List.replicate (sesBufSize - (part.length + chunk.length)) 0)
    (hstart : t.lineStart = 0) (hunprocessed : t.unprocessed = chunk.length)
    (hpending : t.pending = part.length) (offset : Nat) (processHeader : Bool) :
    ∃ s, s.lines = t.lines ∧ s.processHeader = processHeader ∧
      s.pending = part.length + chunk.length ∧
      ((part.length + chunk.length = sesBufSize ∧ s.fields = f.fieldTooLarge t.fields ∧
          leftOver f offset processHeader t t.lineStart = some (.fail, s)) ∨
        (part.length + chunk.length < sesBufSize ∧ s.fields = t.fields ∧
          leftOver f offset processHeader t t.lineStart = some (.ok, s) ∧
          (Holds s (part ++ chunk) ↔ part = []))) := by
  have hsum : add32 t.pending t.unprocessed = part.length + chunk.length := by
    rw [hpending, hunprocessed, add32_of_le hpart]
  have hpos : 0 < chunk.length := List.length_pos_of_ne_nil hne
  unfold leftOver
  rw [hsum, hstart, hunprocessed]
  by_cases hfull : part.length + chunk.length = sesBufSize
  · refine ⟨_, ?_, ?_, ?_, Or.inl ⟨hfull, ?_, by simp only [if_pos (Nat.le_of_eq hfull.symm)]; rfl⟩⟩ <;> rfl
  · have hless : part.length + chunk.length < sesBufSize := by omega
    have hnot : ¬sesBufSize ≤ part.length + chunk.length := by omega
    have hnot' : ¬(sesBufSize ≤ chunk.length ∧ t.lines = 0) := by omega
    have hfits : 0 + chunk.length ≤ sesBufSize := by omega
    refine ⟨⟨clear (store t.data 0 ((t.data.drop 0).take chunk.length)) chunk.length, chunk.length,
      part.length + chunk.length, t.lines, processHeader, t.fields⟩, rfl, rfl, rfl,
      Or.inr ⟨hless, rfl, ?_, ?_⟩⟩
    · simp only [if_neg hnot, if_neg hnot', if_pos hpos.ne', if_pos hfits]
    · constructor
      · intro hholds
        have hoff : chunk.length = (part ++ chunk).length := hholds.offset
        rw [List.length_append] at hoff
        exact List.eq_nil_of_length_eq_zero (by omega)
      · rintro rfl
        refine ⟨?_, by simp, by simp only [List.nil_append]; omega⟩
        show clear _ _ = _
        simp [ht, clear, store_zero]

/-- **One call.**  The call goes as far as the stream goes, and the buffer keeps what is left over
exactly under the condition. -/
theorem httpsrvReqRead_data (h : Holds s part) (hpending : s.pending = part.length)
    (hflag : s.processHeader = true) (hpart : (10 : UInt8) ∉ part) (hshort : part.length < sesBufSize)
    (hne : chunk ≠ []) (hroom : chunk.length ≤ sesBufSize - s.offset) :
    ∃ result s', httpsrvReqRead f s (.data chunk) = some (result, s') ∧
      match (protocol f).feed (.reading (s.lines, s.fields) part) chunk with
      | .reading u rest => result = .ok ∧ u = (s'.lines, s'.fields) ∧ s'.processHeader = true ∧
          s'.pending = rest.length ∧
          (Holds s' rest ↔ s.offset = 0 ∨ 10 ∈ chunk ∧ rest ≠ [])
      | .finished u rest => result = .ok ∧ u.2 = s'.fields ∧ s'.processHeader = false ∧
          (Holds s' rest ↔ s.offset = 0 ∨ rest ≠ [])
      | .rejected u => result = .fail ∧ u.2 = s'.fields := by
  have hstore := h.store_chunk chunk
  have hoffset := h.offset
  rw [hoffset] at hroom
  have hscans : Scans (⟨store s.data s.offset chunk, 0, chunk.length, s.pending, s.lines,
      s.fields⟩ : Scan σ) [] (part ++ chunk) (sesBufSize - (part.length + chunk.length)) := by
    refine ⟨hstore, ?_, rfl, Or.inl rfl, ?_⟩
    · simp only [hstore, List.length_append, List.length_replicate]
      omega
    · simp only [hpending, List.length_append]
      omega
  unfold httpsrvReqRead
  dsimp only
  by_cases hmem : (10 : UInt8) ∈ chunk
  · -- the chunk holds a line end
    rw [Protocol.feed_reading hpart hshort]
    have hrounds : (part ++ chunk).length < sesBufSize + 1 := by
      rw [List.length_append]
      omega
    have hagrees := scan_agrees (f := f) hscans (List.mem_append_right part hmem) hrounds
    dsimp only at hagrees ⊢
    split
    · next t ht =>
      rw [ht] at hagrees
      obtain ⟨rest, hrest, hleft, hfeed⟩ := hagrees
      obtain ⟨s', hs', hholds, hpend, hlines, hproc, hfields⟩ :=
        leftOver_holds (f := f) hleft s.offset s.processHeader
      refine ⟨_, s', hs', ?_⟩
      rw [hfeed]
      exact ⟨rfl, by rw [hlines, hfields], hproc.trans hflag, hpend, by simp [hholds, hmem]⟩
    · next t lineEnd ht =>
      rw [ht] at hagrees
      obtain ⟨rest, hleft, hfeed⟩ := hagrees
      obtain ⟨s', hs', hholds, hpend, hlines, hproc, hfields⟩ :=
        leftOver_holds (f := f) hleft s.offset false
      refine ⟨_, s', hs', ?_⟩
      rw [hfeed]
      exact ⟨rfl, hfields.symm, hproc, hholds⟩
    · next t ht =>
      rw [ht] at hagrees
      refine ⟨_, _, rfl, ?_⟩
      rw [show (protocol f).feed _ _ = _ from hagrees]
      exact ⟨rfl, rfl⟩
  · -- no line end: the line goes on
    have hnone : (10 : UInt8) ∉ part ++ chunk := by simp [hpart, hmem]
    rw [scan_noLine hscans.data hscans.start hnone]
    obtain ⟨s', hlines, hproc, hpend, hcase⟩ :=
      leftOver_noLine (f := f) (t := ⟨store s.data s.offset chunk, 0, chunk.length, s.pending,
        s.lines, s.fields⟩) (by omega) hne hstore rfl rfl hpending s.offset s.processHeader
    rcases hcase with ⟨hfull, hfields, hs'⟩ | ⟨hless, hfields, hs', hholds⟩
    · refine ⟨_, s', hs', ?_⟩
      rw [Protocol.feed_tooLong hmem hshort (Nat.le_of_eq hfull.symm)]
      exact ⟨rfl, hfields.symm⟩
    · refine ⟨_, s', hs', ?_⟩
      rw [Protocol.feed_part hmem hless]
      refine ⟨rfl, by rw [hlines, hfields], hproc.trans hflag, ?_, ?_⟩
      · rw [hpend, List.length_append]
      · rw [hholds, hoffset, List.length_eq_zero_iff]
        simp [hmem]

end Call

/-! ## Steps and runs -/

section Steps

variable {f : RequestFunctions σ} {fields : σ} {r t : Run σ}

theorem exact_start (f : RequestFunctions σ) (fields : σ) : Exact f fields (start fields) := by
  refine ⟨[], rfl, ⟨?_, rfl, Nat.zero_le _⟩, rfl, rfl, rfl⟩
  simp [start]

theorem progress_append (input bytes : Bytes) :
    progress f fields (input ++ bytes) = (protocol f).feed (progress f fields input) bytes :=
  (protocol f).feed_append _ input bytes

theorem proper_progress (f : RequestFunctions σ) (fields : σ) (input : Bytes) :
    (protocol f).Proper (progress f fields input) := by
  have hlimit : 0 < (protocol f).limit := by
    show 0 < sesBufSize
    decide
  have hstart : (protocol f).Proper (.reading (0, fields) []) := ⟨List.not_mem_nil, hlimit⟩
  exact Protocol.proper_feed hstart hlimit input

/-- A call that receives something keeps to the stream exactly under the condition. -/
theorem reqRead_iff (h : Exact f fields r) (hreading : r.status = .reading) {recv : Recv}
    (hrecv : Delivers (sesBufSize - r.session.offset) recv)
    (ht : r.step f (.reqRead recv) = some t) : Exact f fields t ↔ Kept f fields r (.reqRead recv) := by
  unfold Exact at h
  rw [hreading] at h
  obtain ⟨part, hinput, hholds, hpending, hflag, hbody⟩ := h
  have hproper := proper_progress f fields r.input
  rw [hinput] at hproper
  have ht' := ht
  rw [Run.step, if_pos ⟨hreading, hrecv⟩] at ht
  cases recv with
  | wouldBlock =>
    obtain rfl := Option.some.inj ht
    have hstatus : Result.status .ok r.session = .reading := by simp [Result.status, hflag]
    refine iff_of_true ?_ trivial
    simp only [Exact, hstatus]
    exact ⟨part, by rw [Recv.bytes, List.append_nil, hinput], hholds, hpending, hflag, hbody⟩
  | closed =>
    obtain rfl := Option.some.inj ht
    refine iff_of_true ?_ trivial
    simp only [Exact, Result.status]
    exact ⟨_, part, by rw [Recv.bytes, List.append_nil, hinput]⟩
  | data chunk =>
    obtain ⟨result, s', hs', hcall⟩ := httpsrvReqRead_data (f := f) hholds hpending hflag hproper.1
      hproper.2 hrecv.1 hrecv.2
    simp only [hs', Recv.bytes] at ht
    obtain rfl := Option.some.inj ht
    have hnow : progress f fields (r.input ++ chunk) =
        (protocol f).feed (.reading (r.session.lines, r.session.fields) part) chunk := by
      rw [progress_append, hinput]
    unfold Kept
    rw [← hnow] at hcall
    rcases hg : progress f fields (r.input ++ chunk) with ⟨u, rest⟩ | ⟨u, rest⟩ | u
    · -- the header goes on
      rw [hg] at hcall
      obtain ⟨rfl, rfl, hproc, hpend, hiff⟩ := hcall
      simp only [Exact, Result.status, hproc, if_true, hg, Continues]
      rw [← hiff]
      constructor
      · rintro ⟨_, hrest, hholds', _⟩
        cases hrest
        exact hholds'
      · intro hholds'
        exact ⟨rest, rfl, hholds', hpend, trivial, hbody⟩
    · -- the header is complete
      rw [hg] at hcall
      obtain ⟨rfl, hu, hproc, hiff⟩ := hcall
      simp only [Exact, Result.status, hproc, Bool.false_eq_true, if_false, hg, hbody,
        List.nil_append, Continues]
      rw [← hiff]
      constructor
      · rintro ⟨_, _, hrest, hholds'⟩
        cases hrest
        exact hholds'
      · intro hholds'
        exact ⟨u.1, rest, by rw [← hu], hholds'⟩
    · rw [hg] at hcall
      obtain ⟨rfl, hu⟩ := hcall
      refine iff_of_true ?_ (Or.inr ?_)
      · simp only [Exact, Result.status, hg]
        exact ⟨u.1, by rw [← hu]⟩
      · rw [hg]
        trivial

/-- The move and the `memset` of `httpsrv_read`. -/
theorem shift_front {m : Bytes} {n : Nat} (hn : n ≤ m.length) :
    store (store m 0 ((m.drop n).take (m.length - n))) (m.length - n) (List.replicate n 0) =
      m.drop n ++ List.replicate n 0 := by
  have hlen : (m.drop n).length = m.length - n := List.length_drop
  have htake : (m.drop n).take (m.length - n) = m.drop n := List.take_of_length_le (by omega)
  have hend : (m.drop n ++ m.drop (m.drop n).length).drop (m.length - n + n) = [] := by
    apply List.drop_of_length_le
    simp only [List.length_append, List.length_drop]
    omega
  rw [htake, store_zero, store, List.length_replicate, hend, ← hlen, List.take_left,
    List.append_nil]

/-- `httpsrv_read` takes the bytes in the buffer first, and leaves the others there. -/
theorem httpsrvRead_holds {s : Session σ} {rest : Bytes} (h : Holds s rest) {len : Nat}
    {chunks : List Bytes} (hchunks : chunks.flatten.length ≤ wanted s len) :
    ∃ left, Holds (httpsrvRead s len chunks).2 left ∧ (httpsrvRead s len chunks).2.fields = s.fields ∧
      rest ++ chunks.flatten = (httpsrvRead s len chunks).1 ++ left := by
  have hoffset := h.offset
  have hfits := h.fits
  unfold httpsrvRead
  by_cases hpos : s.offset > 0
  · rw [if_pos hpos]
    -- `length` bytes leave the buffer; the socket is asked only when it is empty
    have hmin : (if s.offset < len then s.offset else len) = min rest.length len := by
      rw [hoffset]
      split <;> omega
    simp only [hmin]
    refine ⟨rest.drop (min rest.length len), ⟨?_, ?_, ?_⟩, trivial, ?_⟩
    · have hlen : s.data.length = sesBufSize := by
        simp only [h.data, List.length_append, List.length_replicate]
        omega
      have hcount : sesBufSize - rest.length + min rest.length len =
          sesBufSize - (rest.length - min rest.length len) := by omega
      have hmove := shift_front (m := s.data) (n := min rest.length len) (by omega)
      rw [hlen] at hmove
      rw [hmove, h.data, List.drop_append_of_le_length (Nat.min_le_left _ _), List.append_assoc,
        List.replicate_append_replicate, List.length_drop, hcount]
    · simp only [hoffset, List.length_drop]
    · simp only [List.length_drop]
      omega
    · rw [h.data, List.take_append_of_le_length (Nat.min_le_left _ _), List.append_assoc]
      by_cases hall : rest.length ≤ len
      · rw [Nat.min_eq_left hall, List.take_length, List.drop_length, List.append_nil]
      · have hnone : chunks.flatten = [] := by
          unfold wanted at hchunks
          exact List.eq_nil_of_length_eq_zero (by omega)
        rw [hnone, List.nil_append, List.take_append_drop, List.append_nil]
  · have hzero : s.offset = 0 := by omega
    have hnil : rest = [] := List.eq_nil_of_length_eq_zero (by omega)
    subst hnil
    rw [if_neg hpos]
    exact ⟨[], h, rfl, by simp⟩

/-- A read of the body goes on in the stream where the last one ended. -/
theorem read_exact (h : Exact f fields r) {len : Nat} {chunks : List Bytes}
    (ht : r.step f (.read len chunks) = some t) : Exact f fields t := by
  rw [Run.step] at ht
  split at ht
  · next hen =>
    obtain ⟨hfinished, _, hlen⟩ := hen
    unfold Exact at h
    rw [hfinished] at h
    obtain ⟨lines, rest, hinput, hholds⟩ := h
    obtain ⟨left, hleft, hfields, hbytes⟩ := httpsrvRead_holds hholds hlen
    rcases hread : httpsrvRead r.session len chunks with ⟨bytes, s⟩
    rw [hread] at ht hleft hfields hbytes
    obtain rfl := Option.some.inj ht
    simp only [Exact, hfinished]
    refine ⟨lines, left, ?_, hleft⟩
    rw [progress_append, hinput, Protocol.feed_finished, List.append_assoc, hbytes, hfields,
      List.append_assoc]
  · cases ht

theorem step_exact_iff (h : Exact f fields r) {e : Event} (ht : r.step f e = some t) :
    Exact f fields t ↔ Kept f fields r e := by
  cases e with
  | reqRead recv =>
    have hen : r.status = .reading ∧ Delivers (sesBufSize - r.session.offset) recv := by
      by_contra hnot
      rw [Run.step, if_neg hnot] at ht
      cases ht
    exact reqRead_iff h hen.1 hen.2 ht
  | read len chunks => exact iff_of_true (read_exact h ht) trivial

end Steps

/-- **When the server reads what the client wrote.**  In every run, the session keeps to the stream
of the connection, through the header and through the body, exactly if each call that finds an
unfinished line in the buffer receives the rest of it and something more. -/
theorem always_exact_iff (f : RequestFunctions σ) (fields : σ) (es : List Event)
    (hrun : (exec (Run.step f) (start fields) es).isSome) :
    Always (Run.step f) (Exact f fields) (start fields) es ↔
      EachStep (Run.step f) (Kept f fields) (start fields) es :=
  always_iff_eachStep (fun _ h => h) (fun _ _ _ h hok ht => (step_exact_iff h ht).mpr hok)
    (fun _ _ _ h ht hexact => (step_exact_iff h ht).mp hexact) (exact_start f fields) hrun

/-- A session that logs its lines. -/
def logged : RequestFunctions (List Bytes) where
  reqLine := ⟨fun line u => (true, line, u ++ [line]), fun _ _ => rfl⟩
  reqHdr := ⟨fun line u => (true, line, u ++ [line]), fun _ _ => rfl⟩
  fieldTooLarge u := u

/-- The request `G /`, `Host: h` with the body `ab`, cut within the second line and within the
body. -/
def cutOnce : List Event :=
  [.reqRead (.data (ascii ['G', ' ', '/', '\r', '\n', 'H', 'o'])),
    .reqRead (.data (ascii ['s', 't', ':', ' ', 'h', '\r', '\n', '\r', '\n', 'a'])),
    .read 2 [ascii ['b']]]

theorem always_exact_iff_cutOnce :
    Always (Run.step logged) (Exact logged []) (start []) cutOnce :=
  (always_exact_iff logged [] cutOnce (by decide +kernel)).mpr (by decide +kernel)

/-- Cut twice within one line, the request is misread. -/
example : ¬EachStep (Run.step logged) (Kept logged []) (start [])
    [.reqRead (.data (ascii ['G', ' '])), .reqRead (.data (ascii ['/']))] := by
  decide +kernel

end EmWinDemo.Http.Reader
