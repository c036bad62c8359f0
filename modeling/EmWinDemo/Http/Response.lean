/-
# EmWinDemo.Http.Response -- the response header, and the responses of CGI functions

`httpsrvSendhdr` is `httpsrv_sendhdr`, with the two tables it looks up; `cgiWrite` is
`HTTPSRV_cgi_write`, and `scriptHandler` the part of `httpsrv_script_handler` that calls a CGI
function, which is given by the responses that it writes.

`headerLines` are the lines of the header as they should be read, and `printHeader_prints` says
that they are what is printed, for every session and length that a header can show (`Legal`).
-/
import EmWinDemo.Http.Output
import EmWinDemo.Lib.Chunked

namespace EmWinDemo.Http.Response

open Lib.CMemory Lib.CText Lib.Numerals Lib.Chunked Lib.LineStream Reader Output

/-! ## The tables -/

/-- A string literal. -/
def text (s : String) : Bytes := ascii s.toList

/-- `reason_phrase`. -/
def reasonPhrase : List (Nat × Bytes) :=
  [(100, text "Continue"), (101, text "Switching Protocols"), (200, text "OK"),
    (201, text "Created"), (202, text "Accepted"), (203, text "Non-Authoritative Information"),
    (204, text "No Content"), (205, text "Reset Content"), (206, text "Partial Content"),
    (300, text "Multiple Choices"), (301, text "Moved Permanently"), (302, text "Found"),
    (303, text "See Other"), (304, text "Not Modified"), (305, text "Use Proxy"),
    (307, text "Temporary Redirect"), (400, text "Bad Request"), (401, text "Unauthorized"),
    (402, text "Payment Required"), (403, text "Forbidden"), (404, text "Not Found"),
    (405, text "Method Not Allowed"), (406, text "Not Acceptable"),
    (407, text "Proxy Authentication Required"), (408, text "Request Time-out"),
    (409, text "Conflict"), (410, text "Gone"), (411, text "Length Required"),
    (412, text "Precondition Failed"), (413, text "Request Entity Too Large"),
    (414, text "Request-URI Too Large"), (415, text "Unsupported Media Type"),
    (416, text "Requested range not satisfiable"), (417, text "Expectation Failed"),
    (426, text "Upgrade Required"), (431, text "Request Header Fields Too Large"),
    (500, text "Internal Server Error"), (501, text "Not Implemented"),
    (502, text "Bad Gateway"), (503, text "Service Unavailable"), (504, text "Gateway Time-out"),
    (505, text "HTTP Version not supported")]

/-- `content_type`. -/
def contentTypes : List (Nat × Bytes) :=
  [(2, text "text/plain"), (3, text "text/html"), (4, text "text/css"), (5, text "image/gif"),
    (6, text "image/jpeg"), (7, text "image/png"), (8, text "image/svg+xml"),
    (9, text "application/javascript"), (11, text "application/xml"),
    (10, text "application/zip"), (12, text "application/pdf"),
    (1, text "application/octet-stream")]

/-- `httpsrv_get_table_str`. -/
def getTableStr (table : List (Nat × Bytes)) (id : Nat) : Option Bytes :=
  (table.find? fun row => row.1 = id).map fun row => row.2

/-! ## The header -/

/-- The fields of `WS_HANDSHAKE_STRUCT` that the header shows.  `accept` is empty until
`base64_encode_binary` fills it, and has no line feed. -/
structure Handshake where
  version : Nat
  protocols : Nat
  accept : Bytes
  plain : (10 : UInt8) ∉ accept
  deriving Repr, DecidableEq

/-- The fields of `HTTPSRV_SESSION_STRUCT` that a response depends on.  `upgrade` is the handshake
when the client asked for the WebSocket protocol, `authRealm` the name of the realm. -/
structure Session where
  buffer : SesBuffer
  isKeepAlive : Bool
  doUpgrade : Bool
  isCacheable : Bool
  isTranscoded : Bool
  headerSent : Bool
  statusCode : UInt32
  contentType : Nat
  responseLength : Int
  authRealm : Option Bytes
  upgrade : Option Handshake
  contentLength : Nat
  deriving Repr, DecidableEq

/-- `WS_CHAT_PROTOCOL_MASK`. -/
def chatProtocolMask : Nat := 1

/-- An `if` without `else`. -/
def printIf (c : Prop) [Decidable c] (x : Printer) : Printer := if c then x else pure ()

/-- A text that depends on what a pointer points to; a null pointer is none. -/
def printWith {α : Type} (str : Option α) (print : α → Printer) : Printer :=
  match str with
  | some str => print str
  | none => failure

/-- The lines of a WebSocket handshake. -/
def printUpgrade (h : Handshake) : Printer := do
  httpsrvPrint (text "Upgrade: WebSocket" ++ crlf)
  printIf (h.version ≠ 13) (httpsrvPrint (text "Sec-WebSocket-Version: 13" ++ crlf))
  printIf (h.protocols &&& chatProtocolMask ≠ 0)
    (httpsrvPrint (text "Sec-WebSocket-Protocol: chat" ++ crlf))
  printIf (h.accept.length = 28)
    (httpsrvPrint (text "Sec-WebSocket-Accept: " ++ h.accept ++ crlf))

def printCacheControl (s : Session) : Printer := do
  httpsrvPrint (text "Cache-Control: ")
  if s.isCacheable then httpsrvPrint (text "max-age=3600" ++ crlf)
  else if s.authRealm ≠ none then httpsrvPrint (text "no-store" ++ crlf)
  else httpsrvPrint (text "no-cache" ++ crlf)

/-- The part of `httpsrv_sendhdr` that prints the lines of the header. -/
def printLines (s : Session) (contentLen : Int) (hasEntity : Bool) : Printer := do
  let phrase := (getTableStr reasonPhrase s.statusCode.toNat).getD (text "-")
  let connectionState :=
    if s.doUpgrade then text "Upgrade"
    else if s.isKeepAlive then text "Keep-Alive" else text "close"
  httpsrvPrint (text "HTTP/1.1 " ++ decimalText s.statusCode.toNat ++ text " " ++ phrase ++ crlf)
  httpsrvPrint (text "Connection: " ++ connectionState ++ crlf)
  printIf s.upgrade.isSome (printWith s.upgrade printUpgrade)
  httpsrvPrint (text "Server: HTTPSRV/0.1 - NXP Embedded Web Server v0.1" ++ crlf)
  printIf (s.statusCode = 401) (printWith s.authRealm fun name =>
    httpsrvPrint (text "WWW-Authenticate: Basic realm=\"" ++ name ++ text "\"" ++ crlf))
  printIf hasEntity (printWith (getTableStr contentTypes s.contentType) fun type =>
    httpsrvPrint (text "Content-Type: " ++ type ++ crlf))
  printIf (s.statusCode ≠ 101) (printCacheControl s)
  -- a length of zero is not announced
  printIf (contentLen > 0)
    (httpsrvPrint (text "Content-Length: " ++ decimalText contentLen.toNat ++ crlf))
  printIf s.isTranscoded (httpsrvPrint (text "Transfer-Encoding: chunked" ++ crlf))

def printHeader (s : Session) (contentLen : Int) (hasEntity : Bool) : Printer := do
  printLines s contentLen hasEntity
  httpsrvPrint crlf

/-- `httpsrv_sendhdr`; only the first call for a response sends anything. -/
def httpsrvSendhdr (s : Session) (contentLen : Int) (hasEntity : Bool) : Option Session :=
  if s.headerSent then some s
  else do
    let (_, buffer) ← printHeader s contentLen hasEntity s.buffer
    some { s with buffer := (sesFlush buffer).2, headerSent := true }

/-! ## CGI functions -/

/-- Lines on the wire. -/
def wireLines (lines : List Bytes) : Bytes := lines.flatMap fun line => line ++ crlf

/-- The lines of `printUpgrade`. -/
def upgradeLines (h : Handshake) : List Bytes :=
  [text "Upgrade: WebSocket"] ++
    ((if h.version ≠ 13 then [text "Sec-WebSocket-Version: 13"] else []) ++
      ((if h.protocols &&& chatProtocolMask ≠ 0 then [text "Sec-WebSocket-Protocol: chat"] else []) ++
        (if h.accept.length = 28 then [text "Sec-WebSocket-Accept: " ++ h.accept] else [])))

def statusLine (s : Session) : Bytes :=
  text "HTTP/1.1 " ++ decimalText s.statusCode.toNat ++ text " " ++
    (getTableStr reasonPhrase s.statusCode.toNat).getD (text "-")

def connectionLine (s : Session) : Bytes :=
  text "Connection: " ++ if s.doUpgrade then text "Upgrade"
    else if s.isKeepAlive then text "Keep-Alive" else text "close"

def serverLine : Bytes := text "Server: HTTPSRV/0.1 - NXP Embedded Web Server v0.1"

def authenticateLine (name : Bytes) : Bytes :=
  text "WWW-Authenticate: Basic realm=\"" ++ name ++ text "\""

def contentTypeLine (type : Bytes) : Bytes := text "Content-Type: " ++ type

def cacheLine (s : Session) : Bytes :=
  text "Cache-Control: " ++ if s.isCacheable then text "max-age=3600"
    else if s.authRealm ≠ none then text "no-store" else text "no-cache"

def contentLengthLine (n : Nat) : Bytes := text "Content-Length: " ++ decimalText n

def chunkedLine : Bytes := text "Transfer-Encoding: chunked"

/-- The lines of a response, the empty one at its end excepted. -/
def headerLines (s : Session) (contentLen : Int) (hasEntity : Bool) : List Bytes :=
  [statusLine s] ++ ([connectionLine s] ++
    ((if s.upgrade.isSome then s.upgrade.toList.flatMap upgradeLines else []) ++ ([serverLine] ++
      ((if s.statusCode = 401 then s.authRealm.toList.map authenticateLine else []) ++
        ((if hasEntity then (getTableStr contentTypes s.contentType).toList.map contentTypeLine
            else []) ++
          ((if s.statusCode ≠ 101 then [cacheLine s] else []) ++
            ((if contentLen > 0 then [contentLengthLine contentLen.toNat] else []) ++
              (if s.isTranscoded then [chunkedLine] else []))))))))

/-- What the header needs: a realm whose name fits a line where a client is asked to log in, a
content type of the table, and a length that is one. -/
structure Legal (s : Session) (contentLen : Int) (hasEntity : Bool) : Prop where
  realm : s.statusCode = 401 → s.authRealm ≠ none
  name : s.statusCode = 401 →
    ∀ name, s.authRealm = some name → name.length ≤ 1024 ∧ (10 : UInt8) ∉ name
  contentType : hasEntity = true → ∃ type, getTableStr contentTypes s.contentType = some type
  contentLen : contentLen < 2 ^ 31

theorem wireLines_append (a b : List Bytes) : wireLines (a ++ b) = wireLines a ++ wireLines b :=
  List.flatMap_append

theorem wireLines_singleton (line : Bytes) : wireLines [line] = line ++ crlf := by
  simp [wireLines]

/-- What a table has, its rows have. -/
theorem getTableStr_mem {table : List (Nat × Bytes)} {id : Nat} {str : Bytes}
    (h : getTableStr table id = some str) : ∃ row ∈ table, row.2 = str := by
  obtain ⟨row, hrow, rfl⟩ := Option.map_eq_some_iff.mp h
  exact ⟨row, List.mem_of_find?_eq_some hrow, rfl⟩

theorem reasonPhrase_spec (code : Nat) :
    ((getTableStr reasonPhrase code).getD (text "-")).length ≤ 31 ∧
      (10 : UInt8) ∉ (getTableStr reasonPhrase code).getD (text "-") := by
  have hall : ∀ row ∈ reasonPhrase, row.2.length ≤ 31 ∧ (10 : UInt8) ∉ row.2 := by decide +kernel
  cases h : getTableStr reasonPhrase code with
  | none => exact ⟨by decide +kernel, by decide +kernel⟩
  | some str =>
    obtain ⟨row, hrow, rfl⟩ := getTableStr_mem h
    exact hall row hrow

theorem contentTypes_spec {id : Nat} {type : Bytes} (h : getTableStr contentTypes id = some type) :
    type.length ≤ 24 ∧ (10 : UInt8) ∉ type := by
  have hall : ∀ row ∈ contentTypes, row.2.length ≤ 24 ∧ (10 : UInt8) ∉ row.2 := by decide +kernel
  obtain ⟨row, hrow, rfl⟩ := getTableStr_mem h
  exact hall row hrow

theorem length_decimalText_le {n : Nat} (h : n < 2 ^ 32) : (decimalText n).length ≤ 10 := by
  rw [length_decimalText_le_iff (by decide)]
  omega

theorem length_text (s : String) : (text s).length = s.toList.length := List.length_map _

/-! ## Printing the header -/

section Header

variable {x y : Printer} {a b : List Bytes}

theorem prints_line {line : Bytes} (hlen : line.length ≤ 1100) :
    Prints (httpsrvPrint (line ++ crlf)) (wireLines [line]) := by
  rw [wireLines_singleton]
  apply Prints.print
  simp only [List.length_append, crlf, List.length_cons, List.length_nil, sesBufSize]
  omega

theorem prints_lines (hx : Prints x (wireLines a)) (hy : Prints y (wireLines b)) :
    Prints (do x; y) (wireLines (a ++ b)) := by
  rw [wireLines_append]
  exact hx.seq hy

theorem prints_printIf {c : Prop} [Decidable c] (hx : c → Prints x (wireLines a)) :
    Prints (printIf c x) (wireLines (if c then a else [])) := by
  unfold printIf
  by_cases hc : c
  · rw [if_pos hc, if_pos hc]
    exact hx hc
  · rw [if_neg hc, if_neg hc]
    exact Prints.nothing

theorem prints_printWith {α : Type} {str : Option α} {print : α → Printer} (hstr : str ≠ none)
    {lines : α → List Bytes} (hprint : ∀ v, str = some v → Prints (print v) (wireLines (lines v))) :
    Prints (printWith str print) (wireLines (str.toList.flatMap lines)) := by
  cases str with
  | none => exact absurd rfl hstr
  | some v => simpa [printWith] using hprint v rfl

theorem printUpgrade_prints (h : Handshake) : Prints (printUpgrade h) (wireLines (upgradeLines h)) := by
  unfold printUpgrade upgradeLines
  apply prints_lines (prints_line (by decide +kernel))
  apply prints_lines (prints_printIf fun _ => prints_line (by decide +kernel))
  apply prints_lines (prints_printIf fun _ => prints_line (by decide +kernel))
  apply prints_printIf
  intro hlen
  apply prints_line
  rw [List.length_append, hlen, length_text]
  decide

theorem printCacheControl_prints (s : Session) :
    Prints (printCacheControl s) (wireLines [cacheLine s]) := by
  have hshort : ∀ t : Bytes, t.length ≤ 12 → Prints (httpsrvPrint (t ++ crlf)) (t ++ crlf) := by
    intro t ht
    apply Prints.print
    simp only [List.length_append, crlf, List.length_cons, List.length_nil, sesBufSize]
    omega
  rw [wireLines_singleton, cacheLine, List.append_assoc]
  apply Prints.seq (Prints.print (by decide +kernel))
  by_cases hcache : s.isCacheable = true
  · rw [if_pos hcache, if_pos hcache]
    exact hshort _ (by decide +kernel)
  · rw [if_neg hcache, if_neg hcache]
    by_cases hrealm : s.authRealm ≠ none
    · rw [if_pos hrealm, if_pos hrealm]
      exact hshort _ (by decide +kernel)
    · rw [if_neg hrealm, if_neg hrealm]
      exact hshort _ (by decide +kernel)

theorem length_statusLine_le (s : Session) : (statusLine s).length ≤ 1100 := by
  have hphrase := (reasonPhrase_spec s.statusCode.toNat).1
  have hcode := length_decimalText_le (UInt32.toNat_lt s.statusCode)
  have hfront : (text "HTTP/1.1 ").length = 9 := by decide +kernel
  have hblank : (text " ").length = 1 := by decide +kernel
  simp only [statusLine, List.length_append, hfront, hblank]
  omega

theorem length_connectionLine_le (s : Session) : (connectionLine s).length ≤ 1100 := by
  unfold connectionLine
  split
  · decide +kernel
  · split
    · decide +kernel
    · decide +kernel

theorem printLines_prints {s : Session} {contentLen : Int} {hasEntity : Bool}
    (h : Legal s contentLen hasEntity) :
    Prints (printLines s contentLen hasEntity) (wireLines (headerLines s contentLen hasEntity)) := by
  unfold printLines headerLines
  apply prints_lines (prints_line (length_statusLine_le s))
  apply prints_lines (prints_line (length_connectionLine_le s))
  apply prints_lines
  · apply prints_printIf
    intro hsome
    exact prints_printWith (Option.isSome_iff_ne_none.mp hsome) fun v _ => printUpgrade_prints v
  apply prints_lines (prints_line (by decide +kernel))
  apply prints_lines
  · apply prints_printIf
    intro h401
    rw [← List.flatMap_pure_eq_map]
    apply prints_printWith (h.realm h401)
    intro name hname
    have hfits := (h.name h401 name hname).1
    have hfront : (text "WWW-Authenticate: Basic realm=\"").length = 31 := by decide +kernel
    have hquote : (text "\"").length = 1 := by decide +kernel
    apply prints_line
    simp only [List.length_append, hfront, hquote]
    omega
  apply prints_lines
  · apply prints_printIf
    intro hentity
    obtain ⟨type, htype⟩ := h.contentType hentity
    rw [← List.flatMap_pure_eq_map, htype]
    apply prints_printWith (Option.some_ne_none type)
    rintro v hv
    have hfits := (contentTypes_spec (htype.trans hv)).1
    have hfront : (text "Content-Type: ").length = 14 := by decide +kernel
    apply prints_line
    simp only [List.length_append, hfront]
    omega
  apply prints_lines (prints_printIf fun _ => printCacheControl_prints s)
  apply prints_lines
  · apply prints_printIf
    intro _
    have hlen := h.contentLen
    have hfits := length_decimalText_le (n := contentLen.toNat) (by omega)
    have hfront : (text "Content-Length: ").length = 16 := by decide +kernel
    apply prints_line
    simp only [List.length_append, hfront]
    omega
  exact prints_printIf fun _ => prints_line (by decide +kernel)

/-- **The header is printed line by line.** -/
theorem printHeader_prints {s : Session} {contentLen : Int} {hasEntity : Bool}
    (h : Legal s contentLen hasEntity) :
    Prints (printHeader s contentLen hasEntity)
      (wireLines (headerLines s contentLen hasEntity) ++ crlf) :=
  (printLines_prints h).seq (Prints.print (by decide))

end Header

end EmWinDemo.Http.Response
