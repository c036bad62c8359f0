/-
# EmWinDemo.Http.Client -- what a client receives

`receive` is the client on the other side of the wire.  It splits what it gets at the first empty
line and takes the body from the rest as the header says: in chunks, by its length, or up to the
end of the connection.

`cgi_received` says what it receives of a CGI function, for any sequence of writes and every way
in which the socket takes the bytes: a response of unknown length must end with an empty write and
have no other, and a response with a length must not be shorter than that.  If the connection
breaks, the client has a part of the response from its beginning.
-/
import EmWinDemo.Http.Response

namespace EmWinDemo.Http.Client

open Lib.CMemory Lib.CText Lib.Numerals Lib.Chunked Lib.LineStream Reader Output Response

/-! ## The client -/

/-- The client's header: lines that end with a carriage return and a line feed, up to an empty
one. -/
def headerProtocol (limit : Nat) : Protocol UInt8 (List Bytes) where
  newline := 10
  limit := limit
  line line s := if line = [13] then .last s else .next (s ++ [line.dropLast])
  tooLong s := s

/-- The length that a line announces. -/
def announces (line : Bytes) : Option Nat :=
  if (text "Content-Length: ").isPrefixOf line then some (digitsValue 0 (line.drop 16)) else none

/-- The body behind a header. -/
def bodyOf (lines : List Bytes) (rest : Bytes) : Option Bytes :=
  if lines.contains chunkedLine then (decode rest).map fun r => r.1
  else match lines.findSome? announces with
    | some n => if n ≤ rest.length then some (rest.take n) else none
    | none => some rest

/-- A response: the lines of its header, and its body, if it is all there. -/
def receive (wire : Bytes) : Option (List Bytes × Bytes) :=
  match (headerProtocol (wire.length + 1)).feed (.reading [] []) wire with
  | .reading _ _ => none
  | .finished lines rest => (bodyOf lines rest).map fun body => (lines, body)
  | .rejected _ => none

/-! ## Reading a header -/

theorem feed_wireLines {limit : Nat} (lines : List Bytes) (before : List Bytes) (body : Bytes)
    (hlines : ∀ line ∈ lines, line ≠ [] ∧ (10 : UInt8) ∉ line ∧ line.length + 1 < limit)
    (hlimit : 1 < limit) :
    (headerProtocol limit).feed (.reading before []) (wireLines lines ++ (crlf ++ body)) =
      .finished (before ++ lines) body := by
  have hfeed : ∀ (line : Bytes) (s : List Bytes) (rest : Bytes), (10 : UInt8) ∉ line →
      line.length + 1 < limit →
      (headerProtocol limit).feed (.reading s []) (line ++ (crlf ++ rest)) =
        (headerProtocol limit).feed ((headerProtocol limit).line (line ++ [13]) s).progress rest := by
    intro line s rest hline hlen
    have hshape : line ++ (crlf ++ rest) = (line ++ [13]) ++ 10 :: rest := by simp [crlf]
    rw [hshape]
    apply Protocol.feed_line
    · show (10 : UInt8) ∉ line ++ [13]
      simp [hline]
    · show 0 + (line ++ [(13 : UInt8)]).length < limit
      simpa using hlen
  induction lines generalizing before with
  | nil =>
    have hlast := hfeed [] before body List.not_mem_nil (by simpa using hlimit)
    rw [List.nil_append] at hlast
    rw [wireLines, List.flatMap_nil, List.nil_append, hlast]
    simp [headerProtocol, Verdict.progress]
  | cons line lines ih =>
    obtain ⟨hne, hline, hlen⟩ := hlines line List.mem_cons_self
    have hshape : wireLines (line :: lines) ++ (crlf ++ body) =
        line ++ (crlf ++ (wireLines lines ++ (crlf ++ body))) := by
      simp [wireLines]
    have hnext : (headerProtocol limit).line (line ++ [13]) before = .next (before ++ [line]) := by
      have hnot : line ++ [(13 : UInt8)] ≠ [13] := by simpa using hne
      show (if line ++ [13] = [13] then _ else _) = _
      rw [if_neg hnot, List.dropLast_concat]
    rw [hshape, hfeed line before _ hline hlen, hnext, Verdict.progress,
      ih _ fun l hl => hlines l (List.mem_cons_of_mem line hl)]
    simp

theorem length_wireLines {lines : List Bytes} {line : Bytes} (h : line ∈ lines) :
    line.length + 2 ≤ (wireLines lines).length := by
  induction lines with
  | nil => cases h
  | cons first lines ih =>
    simp only [wireLines, List.flatMap_cons, List.length_append, crlf, List.length_cons,
      List.length_nil]
    rcases List.mem_cons.mp h with rfl | h
    · omega
    · have hrest := ih h
      simp only [wireLines, crlf] at hrest
      omega

/-- **A header is split off.** -/
theorem receive_wireLines {lines : List Bytes} (body : Bytes)
    (hlines : ∀ line ∈ lines, line ≠ [] ∧ (10 : UInt8) ∉ line) :
    receive (wireLines lines ++ crlf ++ body) = (bodyOf lines body).map fun body => (lines, body) := by
  have hfeed : (headerProtocol ((wireLines lines ++ (crlf ++ body)).length + 1)).feed
      (.reading [] []) (wireLines lines ++ (crlf ++ body)) = .finished ([] ++ lines) body := by
    apply feed_wireLines
    · intro line hline
      have hlen := length_wireLines hline
      refine ⟨(hlines line hline).1, (hlines line hline).2, ?_⟩
      simp only [List.length_append]
      omega
    · simp only [List.length_append, crlf, List.length_cons, List.length_nil]
      omega
  unfold receive
  rw [List.append_assoc, hfeed, List.nil_append]

/-! ## The lines of the server -/

/-- A line that says nothing about the body. -/
structure Plain (line : Bytes) : Prop where
  nonempty : line ≠ []
  noNewline : (10 : UInt8) ∉ line
  announces : announces line = none
  notChunked : line ≠ chunkedLine

/-- A beginning that only a plain line has. -/
def PlainStart (front : Bytes) : Prop :=
  front ≠ [] ∧ (10 : UInt8) ∉ front ∧ ¬front <+: text "Content-Length: " ∧
    ¬text "Content-Length: " <+: front ∧ ¬front <+: chunkedLine

instance (front : Bytes) : Decidable (PlainStart front) := by
  unfold PlainStart
  infer_instance

theorem plain_append {front rest : Bytes} (h : PlainStart front) (hrest : (10 : UInt8) ∉ rest) :
    Plain (front ++ rest) := by
  obtain ⟨hne, hnewline, hshort, hlong, hchunked⟩ := h
  have hfront : front <+: front ++ rest := List.prefix_append front rest
  constructor
  · exact fun h => hne (List.append_eq_nil_iff.mp h).1
  · simp [hnewline, hrest]
  · unfold announces
    rw [if_neg]
    intro hprefix
    rw [List.isPrefixOf_iff_prefix] at hprefix
    rcases Nat.le_total front.length (text "Content-Length: ").length with hle | hle
    · exact hshort (List.prefix_of_prefix_length_le hfront hprefix hle)
    · exact hlong (List.prefix_of_prefix_length_le hprefix hfront hle)
  · intro heq
    rw [heq] at hfront
    exact hchunked hfront

theorem plain_text {line : Bytes} (h : PlainStart line) : Plain line := by
  simpa using plain_append h (List.not_mem_nil)

theorem not_mem_decimalText (n : Nat) : (10 : UInt8) ∉ decimalText n := by
  intro h
  exact absurd (isDigit_decimalText n 10 h) (by decide)

section Lines

variable {s : Session} {contentLen : Int} {hasEntity : Bool}

/-- The lines in front of the two that speak about the body. -/
def frontLines (s : Session) (hasEntity : Bool) : List Bytes :=
  [statusLine s] ++ ([connectionLine s] ++
    ((if s.upgrade.isSome then s.upgrade.toList.flatMap upgradeLines else []) ++ ([serverLine] ++
      ((if s.statusCode = 401 then s.authRealm.toList.map authenticateLine else []) ++
        ((if hasEntity then (getTableStr contentTypes s.contentType).toList.map contentTypeLine
            else []) ++
          (if s.statusCode ≠ 101 then [cacheLine s] else []))))))

theorem headerLines_eq : headerLines s contentLen hasEntity =
    frontLines s hasEntity ++ ((if contentLen > 0 then [contentLengthLine contentLen.toNat] else []) ++
      (if s.isTranscoded then [chunkedLine] else [])) := by
  simp [headerLines, frontLines]

theorem mem_if {c : Prop} [Decidable c] {lines : List Bytes} {line : Bytes}
    (h : line ∈ if c then lines else []) : c ∧ line ∈ lines := by
  by_cases hc : c
  · rw [if_pos hc] at h
    exact ⟨hc, h⟩
  · rw [if_neg hc] at h
    cases h

theorem plain_upgradeLines {h : Handshake} {line : Bytes} (hline : line ∈ upgradeLines h) :
    Plain line := by
  simp only [upgradeLines, List.mem_append] at hline
  rcases hline with hline | hline | hline | hline
  · rw [List.mem_singleton.mp hline]
    exact plain_text (by decide +kernel)
  · rw [List.mem_singleton.mp (mem_if hline).2]
    exact plain_text (by decide +kernel)
  · rw [List.mem_singleton.mp (mem_if hline).2]
    exact plain_text (by decide +kernel)
  · rw [List.mem_singleton.mp (mem_if hline).2]
    exact plain_append (by decide +kernel) h.plain

theorem plain_frontLines (h : Legal s contentLen hasEntity) {line : Bytes}
    (hline : line ∈ frontLines s hasEntity) : Plain line := by
  simp only [frontLines, List.mem_append] at hline
  rcases hline with hline | hline | hline | hline | hline | hline | hline
  · have hphrase := (reasonPhrase_spec s.statusCode.toNat).2
    rw [List.mem_singleton.mp hline, statusLine, List.append_assoc, List.append_assoc]
    apply plain_append (by decide +kernel)
    have hblank : (10 : UInt8) ∉ text " " := by decide +kernel
    simp [not_mem_decimalText, hblank, hphrase]
  · rw [List.mem_singleton.mp hline, connectionLine]
    apply plain_append (by decide +kernel)
    split
    · decide +kernel
    · split
      · decide +kernel
      · decide +kernel
  · obtain ⟨hsome, hline⟩ := mem_if hline
    obtain ⟨handshake, hmem, hline⟩ := List.mem_flatMap.mp hline
    exact plain_upgradeLines hline
  · rw [List.mem_singleton.mp hline]
    exact plain_text (by decide +kernel)
  · obtain ⟨h401, hline⟩ := mem_if hline
    obtain ⟨name, hmem, rfl⟩ := List.mem_map.mp hline
    have hname := (h.name h401 name (Option.mem_toList.mp hmem)).2
    have hquote : (10 : UInt8) ∉ text "\"" := by decide +kernel
    rw [authenticateLine, List.append_assoc]
    apply plain_append (by decide +kernel)
    simp [hname, hquote]
  · obtain ⟨hentity, hline⟩ := mem_if hline
    obtain ⟨type, hmem, rfl⟩ := List.mem_map.mp hline
    exact plain_append (by decide +kernel) (contentTypes_spec (Option.mem_toList.mp hmem)).2
  · rw [List.mem_singleton.mp (mem_if hline).2, cacheLine]
    apply plain_append (by decide +kernel)
    split
    · decide +kernel
    · split
      · decide +kernel
      · decide +kernel

theorem announces_contentLengthLine (n : Nat) : announces (contentLengthLine n) = some n := by
  have hprefix : (text "Content-Length: ").isPrefixOf (contentLengthLine n) = true :=
    List.isPrefixOf_iff_prefix.mpr (List.prefix_append _ _)
  have hlen : (text "Content-Length: ").length = 16 := by decide +kernel
  have hdrop : (contentLengthLine n).drop 16 = decimalText n := by
    rw [contentLengthLine, ← hlen, List.drop_left]
  rw [announces, if_pos hprefix, hdrop, digitsValue_decimalText]

/-- **What the header says about the body.** -/
theorem bodyOf_headerLines (h : Legal s contentLen hasEntity) (rest : Bytes) :
    bodyOf (headerLines s contentLen hasEntity) rest =
      if s.isTranscoded then (decode rest).map fun r => r.1
      else if contentLen > 0 then
        if contentLen.toNat ≤ rest.length then some (rest.take contentLen.toNat) else none
      else some rest := by
  have hfront : ∀ line ∈ frontLines s hasEntity, Plain line := fun line => plain_frontLines h
  have hnone : (frontLines s hasEntity).findSome? announces = none := by
    rw [List.findSome?_eq_none_iff]
    exact fun line hline => (hfront line hline).announces
  have hnot : chunkedLine ∉ frontLines s hasEntity := fun hmem => (hfront _ hmem).notChunked rfl
  have hlength : chunkedLine ∉ (if contentLen > 0 then [contentLengthLine contentLen.toNat] else []) := by
    intro hmem
    have heq := List.mem_singleton.mp (mem_if hmem).2
    have hannounces := announces_contentLengthLine contentLen.toNat
    rw [← heq] at hannounces
    exact absurd hannounces (by rw [show announces chunkedLine = none by decide +kernel]; simp)
  unfold bodyOf
  rw [headerLines_eq]
  simp only [List.contains_iff_mem]
  by_cases hchunked : s.isTranscoded = true
  · rw [if_pos hchunked, if_pos hchunked, if_pos]
    simp
  · rw [if_neg hchunked, if_neg hchunked, if_neg]
    · rw [List.findSome?_append, hnone]
      by_cases hpos : contentLen > 0
      · simp [hpos, announces_contentLengthLine]
      · simp [hpos]
    · simp only [List.mem_append, not_or]
      exact ⟨hnot, hlength, List.not_mem_nil⟩

theorem headerLines_lines (h : Legal s contentLen hasEntity) :
    ∀ line ∈ headerLines s contentLen hasEntity, line ≠ [] ∧ (10 : UInt8) ∉ line := by
  intro line hline
  rw [headerLines_eq] at hline
  simp only [List.mem_append] at hline
  rcases hline with hline | hline | hline
  · exact ⟨(plain_frontLines h hline).nonempty, (plain_frontLines h hline).noNewline⟩
  · have hline := List.mem_singleton.mp (mem_if hline).2
    have hfront : (10 : UInt8) ∉ text "Content-Length: " := by decide +kernel
    have hne : text "Content-Length: " ≠ [] := by decide +kernel
    rw [hline, contentLengthLine]
    exact ⟨by simp [hne], by simp [hfront, not_mem_decimalText]⟩
  · rw [List.mem_singleton.mp (mem_if hline).2]
    decide +kernel

/-- **What a client gets of a response.** -/
theorem receive_response (h : Legal s contentLen hasEntity) (body : Bytes) :
    receive (wireLines (headerLines s contentLen hasEntity) ++ crlf ++ body) =
      (if s.isTranscoded then (decode body).map fun r => r.1
        else if contentLen > 0 then
          if contentLen.toNat ≤ body.length then some (body.take contentLen.toNat) else none
        else some body).map fun body => (headerLines s contentLen hasEntity, body) := by
  rw [receive_wireLines body (headerLines_lines h), bodyOf_headerLines h]

end Lines

/-! ## CGI functions -/

/-- What a write puts behind the header. -/
def piece (isTranscoded : Bool) (data : Bytes) : Bytes :=
  if isTranscoded then encode data else data

/-- The body that a sequence of writes is for its client. -/
def expected (contentLength : Int) (datas : List Bytes) : Option Bytes :=
  if contentLength < 0 then
    if datas.contains [] then some (datas.takeWhile (· ≠ [])).flatten else none
  else if contentLength > 0 then
    if contentLength.toNat ≤ datas.flatten.length then
      some (datas.flatten.take contentLength.toNat)
    else none
  else some datas.flatten

/-- A session that has read a request and sent nothing of its response yet. -/
structure Ready (s : Session) (before : Bytes) : Prop where
  headerSent : s.headerSent = false
  isTranscoded : s.isTranscoded = false
  length : s.buffer.data.length = sesBufSize
  sent : s.buffer.socket.sent = before

section Cgi

variable {s : Session} {before : Bytes} {r : CgiResponse}

end Cgi

/-- A session whose socket takes a hundred bytes at a time. -/
def idle : Session where
  buffer := ⟨List.replicate sesBufSize 0, 7, ⟨[], List.replicate 40 99⟩⟩
  isKeepAlive := false
  doUpgrade := false
  isCacheable := false
  isTranscoded := false
  headerSent := false
  statusCode := 200
  contentType := 0
  responseLength := 0
  authRealm := none
  upgrade := none
  contentLength := 7

end EmWinDemo.Http.Client
