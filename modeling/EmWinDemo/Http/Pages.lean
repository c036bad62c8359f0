/-
# EmWinDemo.Http.Pages -- files and pages with server side includes

`httpsrvSendfile` is one round of `httpsrv_sendfile`: it sends the header if that has not been sent,
reads the next piece of the file into the session buffer and sends it.  In a page
(`.shtml`) the piece goes through `sendextstr` (`httpsrv_sendextstr`) first, which looks for
`<%name%>` and calls the function of that name; what it knows of the page between two rounds is the
start of the mark in `scriptBuffer`.  `sendPage` are the rounds of a request.

A file that is not a page is received as it is (`file_received`); pages follow in
`EmWinDemo.Http.Includes`.
-/
import EmWinDemo.Http.Client

namespace EmWinDemo.Http.Pages

open Lib.CMemory Lib.CText Lib.Numerals Lib.Chunked Reader Output Response Client

/-! ## The content type of a file -/

/-- A row of `content_tbl`: the extension, its type, and whether clients may cache it. -/
structure ContentRow where
  ext : Bytes
  contentType : Nat
  useCache : Bool
  deriving Repr, DecidableEq

/-- `content_tbl`, ordered by the length of the extension. -/
def contentTbl : List ContentRow :=
  [⟨text "js", 9, true⟩, ⟨text "css", 4, true⟩, ⟨text "gif", 5, true⟩, ⟨text "htm", 3, true⟩,
    ⟨text "jpg", 6, true⟩, ⟨text "pdf", 12, false⟩, ⟨text "png", 7, true⟩, ⟨text "svg", 8, true⟩,
    ⟨text "txt", 2, false⟩, ⟨text "xml", 11, false⟩, ⟨text "zip", 10, false⟩,
    ⟨text "html", 3, true⟩, ⟨text "shtm", 3, false⟩, ⟨text "shtml", 3, false⟩]

/-- `lwip_stricmp`, which is zero. -/
def stricmp (a b : Bytes) : Bool := a.map toLower = b.map toLower

/-- `strrchr`: the text from the last `b` on. -/
def strrchr (s : Bytes) (b : UInt8) : Option Bytes :=
  if s.contains b then some (b :: (s.reverse.takeWhile (· != b)).reverse) else none

/-- The row of an extension; the rows are searched from the first of its length on. -/
def findRow (ext : Bytes) : Option ContentRow :=
  let rows := contentTbl.dropWhile fun row => row.ext.length < ext.length
  (rows.takeWhile fun row => row.ext.length = ext.length).find? fun row => stricmp ext row.ext

/-- `httpsrv_process_file_type`; `ext` starts with the dot. -/
def processFileType (ext : Option Bytes) (s : Session) : Session :=
  match ext.bind fun ext => findRow (ext.drop 1) with
  | some row =>
    let isCacheable := s.isCacheable || row.useCache
    { s with
      contentType := row.contentType
      isCacheable := if s.authRealm ≠ none then false else isCacheable }
  | none => { s with contentType := 1, isCacheable := false }

/-! ## Sending a page -/

/-- A request for a file: the session, the start of a mark that was found at the end of the last
piece, the path and the file. -/
structure Page where
  session : Session
  scriptBuffer : Bytes
  path : Bytes
  file : Bytes
  deriving Repr, DecidableEq

/-- `ssi_lnk_tbl`: names and functions, a function being the data that it writes for a parameter. -/
abbrev SsiTable := List (Bytes × (Bytes → List Bytes))

/-- The writes of the function that is called for `name:parameter`. -/
def ssiWrites (table : SsiTable) (fname : Bytes) : Option (List Bytes) :=
  let name := fname.takeWhile (· != 58)
  let comParam := (fname.drop name.length).drop 1
  (table.find? fun row => row.1 = name).map fun row => row.2 comParam

/-- The calls of `HTTPSRV_ssi_write` by a function; empty data is not written. -/
def ssiWriteAll (o : SesBuffer) : List Bytes → SesBuffer
  | [] => o
  | data :: datas =>
    if data = [] then ssiWriteAll o datas else ssiWriteAll (httpsrvWrite o data).2 datas

/-- `httpsrv_script_handler` for a server side include; a name without a function does nothing. -/
def ssiHandler (table : SsiTable) (o : SesBuffer) (fname : Bytes) : SesBuffer :=
  match ssiWrites table fname with
  | some datas => (sesFlush (ssiWriteAll o datas)).2
  | none => o

/-- The loop that looks for `<%`: how many bytes it went through, and how many of the mark it has
found at their end. -/
def searchToken (src : Bytes) (length : Nat) : Nat → Nat → Nat → Nat → Nat × Nat
  | 0, nSend, i, _ => (nSend, i)
  | rounds + 1, nSend, i, max =>
    if nSend < max ∧ i < 2 then
      if src[nSend]? = [60, 37][i]? then
        let max := if nSend + 2 < length then nSend + 2 else length
        searchToken src length rounds (nSend + 1) (i + 1) max
      else searchToken src length rounds (nSend + 1) 0 length
    else (nSend, i)

/-- The bytes that end the name of a script, ` ;%<>\r\n\t\f` and a NUL. -/
def endsName (b : UInt8) : Bool :=
  ([0, 32, 59, 37, 60, 62, 13, 10, 9, 12] : Bytes).contains b

/-- `strcspn`, none if it would read behind the array. -/
def nameLength (src : Bytes) : Option Nat := src.findIdx? endsName

/-- `HTTPSRV_CFG_MAX_SCRIPT_LN`. -/
def maxScriptLn : Nat := 32

/-- `httpsrv_sendextstr` on a piece of `length` bytes at the front of the buffer: how many bytes it
used up besides those that it leaves in the buffer to be sent. -/
def sendextstr (table : SsiTable) (p : Page) (length : Nat) : Option (Nat × Page) :=
  let o := p.session.buffer
  let src := o.data.drop o.offset
  match p.scriptBuffer with
  | [] =>
    let (nSend, i) := searchToken src length length 0 0 length
    some (i, { p with
      session := { p.session with buffer := { o with offset := nSend - i } }
      scriptBuffer := [60, 37].take i })
  | [first] =>
    if src.head? = some 37 then some (1, { p with scriptBuffer := [first, 37] })
    else
      let (_, socket) := httpsrvSend o.socket [first]
      some (0, { p with
        session := { p.session with buffer := { o with socket } }
        scriptBuffer := [] })
  | _ => do
    let n ← nameLength src
    let termLength ←
      if src[n]? = some 37 then
        (src[n + 1]?).map fun b => if b = 62 then 2 else 1
      else some 1
    if 1 < n ∧ n < maxScriptLn then
      some (n + termLength, { p with
        session := { p.session with buffer := ssiHandler table o (src.take n) }
        scriptBuffer := [] })
    else some (n + termLength, p)

/-- `HTTPSRV_FS_read` of `num` bytes from a location. -/
def fsRead (file : Bytes) (location num : Nat) : Bytes := (file.drop location).take num

/-- The next piece of the file, read behind what the buffer holds. -/
def readPiece (p : Page) (s : Session) : Bytes × Session :=
  let o := s.buffer
  let piece := fsRead p.file s.responseLength.toNat (sesBufSize - o.offset)
  (piece, { s with buffer := { o with data := store o.data o.offset piece } })

/-- `httpsrv_sendfile`, and whether the session stays in the state `HTTPSRV_SES_RESP`. -/
def httpsrvSendfile (table : SsiTable) (p : Page) : Option (Bool × Page) := do
  -- a path without a dot is a null pointer for `lwip_stricmp`
  let ext ← strrchr p.path 46
  let s := processFileType (some ext) p.session
  if stricmp ext (text ".shtml") || stricmp ext (text ".shtm") then
    let s ← httpsrvSendhdr { s with isKeepAlive := false } 0 true
    let (piece, s) := readPiece p s
    if piece = [] then some (false, { p with session := s })
    else
      let (used, p) ← sendextstr table { p with session := s } piece.length
      let s := p.session
      some (true, { p with session := { s with
        responseLength := s.responseLength + used + s.buffer.offset
        buffer := (sesFlush s.buffer).2 } })
  else
    let s ← httpsrvSendhdr s p.file.length true
    let (piece, s) := readPiece p s
    if piece = [] then some (false, { p with session := s })
    else
      match sesFlush { s.buffer with offset := s.buffer.offset + piece.length } with
      | (none, buffer) => some (false, { p with session := { s with buffer } })
      | (some length, buffer) => some (decide (0 < length), { p with session := { s with
          responseLength := s.responseLength + length, buffer } })

/-- `httpsrv_ses_set_state` for a request without a body. -/
def setState (p : Page) : Page :=
  { p with session := { p.session with buffer := { p.session.buffer with offset := 0 } } }

/-- The rounds of a request. -/
def sendPage (table : SsiTable) : Nat → Page → Option Page
  | 0, _ => none
  | rounds + 1, p => do
    let (again, p) ← httpsrvSendfile table p
    if again then sendPage table rounds (setState p) else some (setState p)

/-! ## The header of a file -/

/-- The type of a file is one of the table of content types. -/
theorem processFileType_contentType (ext : Option Bytes) (s : Session) :
    ∃ type, getTableStr contentTypes (processFileType ext s).contentType = some type := by
  have hall : ∀ row ∈ contentTbl, (getTableStr contentTypes row.contentType).isSome := by
    decide +kernel
  unfold processFileType
  cases hrow : ext.bind fun ext => findRow (ext.drop 1) with
  | none =>
    have hrow : getTableStr contentTypes 1 = some (text "application/octet-stream") := by
      decide +kernel
    exact ⟨_, hrow⟩
  | some row =>
    obtain ⟨e, -, hfind⟩ := Option.bind_eq_some_iff.mp hrow
    have hmem : row ∈ contentTbl := by
      have hfound := List.mem_of_find?_eq_some hfind
      exact (List.dropWhile_suffix _).subset ((List.takeWhile_prefix _).subset hfound)
    exact Option.isSome_iff_exists.mp (hall row hmem)

/-- The type of the file has been looked up for this session. -/
def Typed (ext : Option Bytes) (s : Session) : Prop := processFileType ext s = s

theorem typed_processFileType (ext : Option Bytes) (s : Session) :
    Typed ext (processFileType ext s) := by
  unfold Typed processFileType
  cases ext.bind fun ext => findRow (ext.drop 1) with
  | none => rfl
  | some row =>
    by_cases hrealm : s.authRealm = none
    · simp [hrealm]
    · simp [hrealm]

/-- What the rounds of a request change in a session does not change its type. -/
theorem Typed.update {ext : Option Bytes} {s : Session} (h : Typed ext s) (buffer : SesBuffer)
    (isKeepAlive headerSent : Bool) (responseLength : Int) :
    Typed ext { s with buffer, isKeepAlive, headerSent, responseLength } := by
  unfold Typed processFileType at h ⊢
  cases hrow : ext.bind fun ext => findRow (ext.drop 1) with
  | none =>
    rw [hrow] at h
    have htype : 1 = s.contentType := congrArg Session.contentType h
    have hcache : false = s.isCacheable := congrArg Session.isCacheable h
    simp only [htype, hcache]
  | some row =>
    rw [hrow] at h
    have htype : row.contentType = s.contentType := congrArg Session.contentType h
    have hcache : (if s.authRealm ≠ none then false else s.isCacheable || row.useCache) =
      s.isCacheable := congrArg Session.isCacheable h
    simp only [htype, hcache]

/-- A request for a file that is there, before the first round. -/
structure Requested (p : Page) (before ext : Bytes) : Prop where
  ready : Ready p.session before
  path : strrchr p.path 46 = some ext
  offset : p.session.buffer.offset = 0
  responseLength : p.session.responseLength = 0
  scriptBuffer : p.scriptBuffer = []
  statusCode : p.session.statusCode = 200
  file : p.file.length < 2 ^ 31

/-- `httpsrv_sendhdr` for a session that has the type of its file. -/
theorem sendhdr_tells {s : Session} {before : Bytes} (h : Ready s before) (hoffset : s.buffer.offset = 0)
    {contentLen : Int} (hlegal : Legal s contentLen true) :
    ∃ buffer, httpsrvSendhdr s contentLen true = some { s with buffer, headerSent := true } ∧
      Tells buffer (before ++ (wireLines (headerLines s contentLen true) ++ crlf)) ∧
      buffer.offset = 0 ∧ buffer.socket.accepts <:+ s.buffer.socket.accepts := by
  have hempty : Tells s.buffer before := by
    refine ⟨h.length, by omega, by rw [h.sent], fun _ => ?_⟩
    simpa [hoffset] using h.sent
  obtain ⟨o, hprint, htells, hzero, hsuffix⟩ := (printHeader_prints hlegal).flush_tells hempty
  refine ⟨(sesFlush o).2, ?_, htells, hzero, hsuffix⟩
  unfold httpsrvSendhdr
  simp only [h.headerSent, Bool.false_eq_true, if_false]
  show (printHeader s contentLen true s.buffer).bind _ = _
  rw [hprint]
  rfl

/-- The session of a request for a file that is there, with its type looked up. -/
theorem Requested.typed {p : Page} {before ext : Bytes} (h : Requested p before ext) {s : Session}
    (hs : processFileType (some ext) p.session = s) :
    Ready s before ∧ s.buffer.offset = 0 ∧ s.responseLength = 0 ∧ Typed (some ext) s ∧
      ∀ contentLen : Int, contentLen < 2 ^ 31 → Legal s contentLen true := by
  have htyped := typed_processFileType (some ext) p.session
  have htype := processFileType_contentType (some ext) p.session
  have hready := h.ready
  have hfields : s.headerSent = p.session.headerSent ∧ s.isTranscoded = p.session.isTranscoded ∧
      s.buffer = p.session.buffer ∧ s.responseLength = p.session.responseLength ∧
      s.statusCode = p.session.statusCode := by
    rw [← hs]
    unfold processFileType
    split <;> exact ⟨rfl, rfl, rfl, rfl, rfl⟩
  obtain ⟨hheader, htranscoded, hbuffer, hresponse, hstatus⟩ := hfields
  rw [hs] at htyped htype
  have hnot : s.statusCode ≠ 401 := by
    rw [hstatus, h.statusCode]
    decide
  refine ⟨⟨hheader.trans hready.headerSent, htranscoded.trans hready.isTranscoded, ?_, ?_⟩, ?_,
    hresponse.trans h.responseLength, htyped, fun contentLen hlen => ⟨fun h401 => absurd h401 hnot,
    fun h401 => absurd h401 hnot, fun _ => htype, hlen⟩⟩
  · rw [hbuffer, hready.length]
  · rw [hbuffer, hready.sent]
  · rw [hbuffer, h.offset]

/-! ## Files -/

/-- A file that is not a page is being sent: so much of it is on the wire. -/
structure Sending (p : Page) (ext told : Bytes) (location : Nat) : Prop where
  path : strrchr p.path 46 = some ext
  plain : (stricmp ext (text ".shtml") || stricmp ext (text ".shtm")) = false
  typed : Typed (some ext) p.session
  headerSent : p.session.headerSent = true
  offset : p.session.buffer.offset = 0
  responseLength : p.session.responseLength = location
  tells : Tells p.session.buffer told

theorem httpsrvSendhdr_sent {s : Session} (h : s.headerSent = true) (contentLen : Int)
    (hasEntity : Bool) : httpsrvSendhdr s contentLen hasEntity = some s := if_pos h

/-- A piece that is read into the empty buffer and counted is appended to the text. -/
theorem Tells.fill {o : SesBuffer} {told : Bytes} (h : Tells o told) (hoffset : o.offset = 0)
    {piece : Bytes} (hpiece : piece.length ≤ sesBufSize) :
    Tells { o with data := store o.data 0 piece, offset := piece.length } (told ++ piece) := by
  have hlength := h.length
  refine ⟨?_, hpiece, h.sent.trans (List.prefix_append told piece), fun halive => ?_⟩
  · show (store o.data 0 piece).length = sesBufSize
    rw [length_store (by omega), h.length]
  · show o.socket.sent ++ (store o.data 0 piece).take piece.length = told ++ piece
    rw [store_zero, List.take_left, h.sent_eq hoffset halive]

/-- A round behind the header: the next piece, if there is one, goes to the socket. -/
theorem httpsrvSendfile_plain {p : Page} {ext told : Bytes} {location : Nat} (table : SsiTable)
    (h : Sending p ext told location) : httpsrvSendfile table p =
      let piece := (p.file.drop location).take sesBufSize
      let o : SesBuffer := { p.session.buffer with data := store p.session.buffer.data 0 piece }
      if piece = [] then some (false, { p with session := { p.session with buffer := o } })
      else match sesFlush { o with offset := piece.length } with
        | (none, buffer) => some (false, { p with session := { p.session with buffer } })
        | (some length, buffer) => some (decide (0 < length), { p with session := { p.session with
            responseLength := location + length, buffer } }) := by
  have htyped : processFileType (some ext) p.session = p.session := h.typed
  unfold httpsrvSendfile
  rw [h.path]
  simp only [bind, Option.bind, h.plain, Bool.false_eq_true, if_false, htyped,
    httpsrvSendhdr_sent h.headerSent, readPiece, fsRead, h.responseLength, Int.toNat_natCast,
    h.offset, Nat.sub_zero, Nat.zero_add]

theorem drop_append_take_drop (file : Bytes) (location n : Nat) :
    file.drop location = (file.drop location).take n ++
      file.drop (location + ((file.drop location).take n).length) := by
  rw [← List.drop_drop]
  by_cases hn : n ≤ (file.drop location).length
  · rw [List.length_take, Nat.min_eq_left hn, List.take_append_drop]
  · rw [List.take_of_length_le (by omega), List.drop_length, List.append_nil]

/-- A round of a file that is being sent: at its end, at the end of the connection, or one piece
further. -/
theorem sendfile_round {p : Page} {ext told : Bytes} {location : Nat} (table : SsiTable)
    (h : Sending p ext told location) :
    (∃ p', httpsrvSendfile table p = some (false, p') ∧
        Tells (setState p').session.buffer (told ++ p.file.drop location)) ∨
      ∃ p' piece, httpsrvSendfile table p = some (true, p') ∧ piece ≠ [] ∧ p'.file = p.file ∧
        p.file.drop location = piece ++ p.file.drop (location + piece.length) ∧
        Sending (setState p') ext (told ++ piece) (location + piece.length) := by
  have hround := httpsrvSendfile_plain table h
  have hsplit := drop_append_take_drop p.file location sesBufSize
  have hshort : ((p.file.drop location).take sesBufSize).length ≤ sesBufSize :=
    List.length_take_le _ _
  have hnil : (p.file.drop location).take sesBufSize = [] → p.file.drop location = [] := by
    intro hpiece
    have hpos : sesBufSize ≠ 0 := by decide
    simpa [hpos] using List.take_eq_nil_iff.mp hpiece
  generalize (p.file.drop location).take sesBufSize = piece at hround hsplit hshort hnil
  dsimp only at hround
  have hfilled := Tells.fill h.tells h.offset hshort
  by_cases hend : piece = []
  · -- the file is at its end
    left
    rw [if_pos hend] at hround
    rw [hend] at hround hfilled
    refine ⟨_, hround, ?_⟩
    rw [hnil hend]
    exact hfilled
  · rw [if_neg hend] at hround
    obtain ⟨htells, hoffset, -, hfailed⟩ := sesFlush_tells hfilled
    have htotal := fun n => sesFlush_total (n := n) (o := { p.session.buffer with
      data := store p.session.buffer.data 0 piece, offset := piece.length })
      (hfilled.fits.trans_eq hfilled.length.symm)
    generalize sesFlush { p.session.buffer with
      data := store p.session.buffer.data 0 piece, offset := piece.length } = r
      at hround htells hoffset hfailed htotal
    rcases r with ⟨_ | n, o⟩
    · -- the connection is broken
      left
      refine ⟨_, hround, ?_⟩
      rw [hsplit, ← List.append_assoc]
      have hstate : (setState { p with session := { p.session with buffer := o } }).session.buffer =
          o := by
        show { o with offset := 0 } = o
        rw [← hoffset]
      rw [hstate]
      exact htells.broken (hfailed rfl) _
    · right
      obtain rfl : n = piece.length := htotal n rfl
      have hpos : 0 < piece.length := List.length_pos_of_ne_nil hend
      dsimp only at hround
      rw [decide_eq_true hpos] at hround
      refine ⟨_, piece, hround, hend, rfl, hsplit, h.path, h.plain, h.typed.update _ _ _ _,
        h.headerSent, rfl, ?_, ?_⟩
      · show (location : Int) + (piece.length : Nat) = ((location + piece.length : Nat) : Int)
        omega
      · show Tells { o with offset := 0 } _
        have hstate : ({ o with offset := 0 } : SesBuffer) = o := by rw [← hoffset]
        rw [hstate]
        exact htells

/-- The rounds of a file behind the header. -/
theorem sendPage_sending (table : SsiTable) {p : Page} {ext told : Bytes} {location : Nat}
    (h : Sending p ext told location) {rounds : Nat}
    (hrounds : p.file.length - location ≤ rounds) :
    ∃ p', sendPage table (rounds + 1) p = some p' ∧
      Tells p'.session.buffer (told ++ p.file.drop location) ∧ p'.session.buffer.offset = 0 := by
  induction rounds generalizing p told location with
  | zero =>
    rcases sendfile_round table h with ⟨p', hround, htells⟩ |
      ⟨p', piece, hround, hpiece, hfile, hsplit, hnext⟩
    · refine ⟨setState p', ?_, htells, rfl⟩
      rw [sendPage, hround]
      rfl
    · -- there is nothing left, so no piece either
      have hnil : p.file.drop location = [] := List.drop_of_length_le (by omega)
      rw [hnil] at hsplit
      exact absurd (List.append_eq_nil_iff.mp hsplit.symm).1 hpiece
  | succ rounds ih =>
    rcases sendfile_round table h with ⟨p', hround, htells⟩ |
      ⟨p', piece, hround, hpiece, hfile, hsplit, hnext⟩
    · refine ⟨setState p', ?_, htells, rfl⟩
      rw [sendPage, hround]
      rfl
    · have hpos : 0 < piece.length := List.length_pos_of_ne_nil hpiece
      have hfile' : (setState p').file = p.file := hfile
      obtain ⟨p'', hrest, htells, hoffset⟩ := ih hnext (by rw [hfile']; omega)
      refine ⟨p'', ?_, ?_, hoffset⟩
      · rw [sendPage, hround]
        exact hrest
      · rw [hsplit, ← List.append_assoc]
        rw [hfile'] at htells
        exact htells

/-- The first round is the round of a session that has the type of the file and has sent its
header. -/
theorem httpsrvSendfile_first {p : Page} {ext : Bytes} (hpath : strrchr p.path 46 = some ext)
    (hplain : (stricmp ext (text ".shtml") || stricmp ext (text ".shtm")) = false) {s s' : Session}
    (hs : processFileType (some ext) p.session = s)
    (hsend : httpsrvSendhdr s p.file.length true = some s') (htyped : Typed (some ext) s')
    (hsent : s'.headerSent = true) (table : SsiTable) :
    httpsrvSendfile table p = httpsrvSendfile table { p with session := s' } := by
  have hagain : processFileType (some ext) s' = s' := htyped
  unfold httpsrvSendfile
  rw [hpath]
  simp only [bind, Option.bind, hplain, Bool.false_eq_true, if_false, hs, hsend, hagain,
    httpsrvSendhdr_sent hsent]
  rfl

/-- **What a client gets of a file.**  However the socket takes the pieces: the client has a part of
the response from its beginning, and if the connection holds, it has all of it and reads the
file. -/
theorem file_received {p : Page} {before ext : Bytes} (h : Requested p before ext)
    (hplain : (stricmp ext (text ".shtml") || stricmp ext (text ".shtm")) = false)
    (table : SsiTable) {rounds : Nat} (hrounds : p.file.length ≤ rounds) :
    ∃ p' wire, sendPage table (rounds + 1) p = some p' ∧
      p'.session.buffer.socket.sent <+: before ++ wire ∧
      (p'.session.buffer.socket.accepts ≠ [] → p'.session.buffer.socket.sent = before ++ wire) ∧
      receive wire =
        some (headerLines (processFileType (some ext) p.session) p.file.length true, p.file) := by
  generalize hs : processFileType (some ext) p.session = s
  obtain ⟨hready, hoffset, hresponse, htyped, hlegal⟩ := h.typed hs
  have hfile := h.file
  have hlen : (p.file.length : Int) < 2 ^ 31 := by omega
  obtain ⟨buffer, hsend, htells, hzero, -⟩ := sendhdr_tells hready hoffset (hlegal _ hlen)
  have htyped' := htyped.update buffer s.isKeepAlive true s.responseLength
  have hsending : Sending { p with session := { s with buffer, headerSent := true } } ext
      (before ++ (wireLines (headerLines s p.file.length true) ++ crlf)) 0 :=
    ⟨h.path, hplain, htyped', rfl, hzero, hresponse, htells⟩
  obtain ⟨p', hpage, htells, hempty⟩ := sendPage_sending table hsending hrounds
  have hfirst := httpsrvSendfile_first h.path hplain hs hsend htyped' rfl table
  have hsame : sendPage table (rounds + 1) p =
      sendPage table (rounds + 1) { p with session := { s with buffer, headerSent := true } } := by
    rw [sendPage, sendPage, hfirst]
  rw [List.drop_zero, List.append_assoc] at htells
  refine ⟨p', _, hsame.trans hpage, htells.sent, htells.sent_eq hempty, ?_⟩
  rw [receive_response (hlegal _ hlen), if_neg (by rw [hready.isTranscoded]; exact Bool.false_ne_true)]
  by_cases hnone : p.file = []
  · -- a file without bytes is sent without a length
    rw [if_neg (by simp [hnone])]
    rfl
  · have hpos : 0 < p.file.length := List.length_pos_of_ne_nil hnone
    rw [if_pos (by omega), Int.toNat_natCast, if_pos (Nat.le_refl _), List.take_length]
    rfl

/-- A request for a text, of which the socket takes a hundred bytes at a time. -/
def request : Page where
  session := { idle with buffer := { idle.buffer with offset := 0 } }
  scriptBuffer := []
  path := text "/a.b/readme.txt"
  file := text "to be read"

theorem file_received_readme :
    ∃ p' wire, sendPage [] (10 + 1) request = some p' ∧
      p'.session.buffer.socket.sent <+: [] ++ wire ∧
      (p'.session.buffer.socket.accepts ≠ [] → p'.session.buffer.socket.sent = [] ++ wire) ∧
      receive wire = some (headerLines (processFileType (some (text ".txt")) request.session)
        request.file.length true, request.file) :=
  file_received
    ⟨⟨rfl, rfl, List.length_replicate, rfl⟩, by decide +kernel, rfl, rfl, rfl, rfl,
      by decide +kernel⟩ (by decide +kernel) [] (by decide +kernel)

end EmWinDemo.Http.Pages
