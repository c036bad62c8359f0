/-
# EmWinDemo.Http.Templates -- pages as they are written, and what becomes of them

A `Template` is a page as its author writes it: text, in which calls `<%name%>` stand.  No text has
a `<%` in it or a `<` at its end, and the name of a call, with the parameter behind its colon, has
two bytes to 31 and none at which the server would end it.  `source` is the file, and `content` what
a visitor should see: the same text with the output of each function in the place of its call.

`page_received` says that this is what a client gets, wherever the file is cut into pieces: the
server reads the texts and calls of the template out of the file, and nothing else.
-/
import EmWinDemo.Http.Includes

namespace EmWinDemo.Http.Templates

open Lib.CMemory Lib.CText Lib.Chunked Reader Output Response Client Pages Includes

/-! ## Templates -/

/-- Text between calls. -/
structure Prose where
  bytes : Bytes
  noMark : ¬[60, 37] <:+: bytes
  noLess : bytes.getLast? ≠ some 60

/-- What stands in a call: the name of a function, and a parameter behind a colon. -/
structure Name where
  bytes : Bytes
  length_gt : 1 < bytes.length
  length_lt : bytes.length < maxScriptLn
  plain : ∀ b ∈ bytes, endsName b = false

/-- Calls, each with the text in front of it, and the text behind the last one. -/
structure Template where
  calls : List (Prose × Name)
  last : Prose

/-- `<%name%>`. -/
def Name.call (n : Name) : Bytes := [60, 37] ++ n.bytes ++ [37, 62]

/-- The file. -/
def Template.source (t : Template) : Bytes :=
  t.calls.flatMap (fun c => c.1.bytes ++ c.2.call) ++ t.last.bytes

/-- The page that is meant, when a call puts out `f`. -/
def Template.content (f : Bytes → Bytes) (t : Template) : Bytes :=
  t.calls.flatMap (fun c => c.1.bytes ++ f c.2.bytes) ++ t.last.bytes

/-- What the function of the table writes; a name without a function writes nothing. -/
def written (table : SsiTable) (name : Bytes) : Bytes := ((ssiWrites table name).getD []).flatten

/-- Each write of the functions that are called is one that `httpsrv_write` gets through: it fits the
buffer, or the socket takes it with one call. -/
def FitsWrites (table : SsiTable) (socket : Socket) (t : Template) : Prop :=
  ∀ c ∈ t.calls, ∀ datas, ssiWrites table c.2.bytes = some datas →
    ∀ data ∈ datas, TakesWhole socket data

/-! ## What the server reads -/

/-- Text without a mark and without a `<` at its end. -/
def Plain (s : Bytes) : Prop := ¬[60, 37] <:+: s ∧ s.getLast? ≠ some 60

theorem Plain.tail {b : UInt8} {s : Bytes} (h : Plain (b :: s)) : Plain s := by
  refine ⟨fun hmark => h.1 (hmark.trans (List.suffix_cons b s).isInfix), ?_⟩
  cases s with
  | nil => exact fun hlast => nomatch hlast
  | cons c s =>
    have hlast := h.2
    rwa [List.getLast?_cons_cons] at hlast

/-- Something stands behind a `<`, and it is no `%`. -/
theorem Plain.less {s : Bytes} (h : Plain (60 :: s)) : s ≠ [] ∧ s.head? ≠ some 37 := by
  constructor
  · rintro rfl
    exact h.2 rfl
  · intro hhead
    obtain ⟨s', rfl⟩ := List.head?_eq_some_iff.mp hhead
    exact h.1 ⟨[], s', rfl⟩

/-- The bytes of a plain text are read as they stand.  Behind a `<` the reader of the page is in
another mode, so the induction is on the text for all three modes at once. -/
theorem items_plain {s rest : Bytes} {its : List Item} (h : Plain s)
    (hrest : items .text rest = some its) :
    items .text (s ++ rest) = some (s.map .byte ++ its) ∧
      (s ≠ [] → s.head? ≠ some 37 →
        items .less (s ++ rest) = some (.byte 60 :: (s.map .byte ++ its)) ∧
        items .doubled (s ++ rest) = some (.byte 60 :: (s.map .byte ++ its))) := by
  induction s with
  | nil => exact ⟨hrest, fun hne => absurd rfl hne⟩
  | cons b s ih =>
    obtain ⟨htext, hbehind⟩ := ih h.tail
    rw [List.cons_append, List.map_cons, List.cons_append]
    by_cases hless : b = 60
    · subst hless
      obtain ⟨hne, hhead⟩ := h.less
      obtain ⟨hless, hdoubled⟩ := hbehind hne hhead
      refine ⟨?_, fun _ _ => ⟨?_, ?_⟩⟩
      · simp [items, step, stepText, hless]
      · simp [items, step, hdoubled]
      · simp [items, step, hdoubled]
    · refine ⟨?_, fun _ hhead => ?_⟩
      · simp [items, step, stepText, hless, htext]
      · have hpercent : b ≠ 37 := by
          rintro rfl
          exact hhead rfl
        constructor
        · simp [items, step, hpercent, hless, htext]
        · simp [items, step, hpercent, hless, htext]

/-- A name is read up to its end. -/
theorem items_name {name rest : Bytes} {its : List Item} (hname : ∀ b ∈ name, endsName b = false)
    (acc : Bytes) (hlong : 1 < (acc ++ name).length) (hshort : (acc ++ name).length < maxScriptLn)
    (hrest : items .text rest = some its) :
    items (.script acc) (name ++ 37 :: 62 :: rest) = some (.call (acc ++ name) :: its) := by
  induction name generalizing acc with
  | nil =>
    rw [List.append_nil] at hlong hshort ⊢
    have hfits : acc.length + 1 < sesBufSize := by
      have : maxScriptLn < sesBufSize := by decide
      omega
    simp [items, step, stepScript, stepClosing, endScript, hfits, hlong, hshort, hrest]
  | cons b name ih =>
    have hb : endsName b = false := hname b List.mem_cons_self
    have hpercent : b ≠ 37 := by
      rintro rfl
      cases hb
    have happ : acc ++ b :: name = (acc ++ [b]) ++ name := by rw [List.append_assoc]; rfl
    rw [happ] at hlong hshort ⊢
    have hfits : acc.length + 1 < sesBufSize := by
      have : maxScriptLn < sesBufSize := by decide
      simp only [List.length_append, List.length_singleton] at hshort
      omega
    have hmore := ih (fun c hc => hname c (List.mem_cons_of_mem b hc)) (acc ++ [b]) hlong hshort
    simp [items, step, stepScript, hfits, hpercent, hb, hmore]

theorem items_call (n : Name) {rest : Bytes} {its : List Item}
    (hrest : items .text rest = some its) :
    items .text (n.call ++ rest) = some (.call n.bytes :: its) := by
  have hname := items_name n.plain [] n.length_gt n.length_lt hrest
  simp [Name.call, items, step, stepText, hname]

/-- The texts and calls of a template. -/
def Template.items (t : Template) : List Item :=
  t.calls.flatMap (fun c => c.1.bytes.map .byte ++ [.call c.2.bytes]) ++ t.last.bytes.map .byte

/-- **The server reads a template as it is written.** -/
theorem items_source (t : Template) : Includes.items .text t.source = some t.items := by
  obtain ⟨calls, last⟩ := t
  unfold Template.source Template.items
  dsimp only
  induction calls with
  | nil =>
    have hnone : Includes.items .text [] = some [] := rfl
    have hlast := (items_plain ⟨last.noMark, last.noLess⟩ hnone).1
    simpa using hlast
  | cons c calls ih =>
    have hcall := items_call c.2 ih
    have htext := (items_plain ⟨c.1.noMark, c.1.noLess⟩ hcall).1
    simpa using htext

theorem items_content (table : SsiTable) (t : Template) :
    t.items.flatMap (output table) = t.content (written table) := by
  have hbytes : ∀ s : Bytes, (s.map Item.byte).flatMap (output table) = s := by
    intro s
    rw [List.flatMap_map]
    exact List.flatMap_singleton' s
  unfold Template.items Template.content
  rw [List.flatMap_append, hbytes, List.flatMap_assoc]
  congr 2
  funext c
  rw [List.flatMap_append, hbytes]
  exact congrArg (c.1.bytes ++ ·) (List.append_nil _)

/-! ## What a client gets -/

/-- **What a client gets of a page.**  However the file is cut into pieces and the socket takes them:
the client has a part of the response from its beginning, and if the connection holds, it has all of
it and reads the page with the output of the functions in it. -/
theorem page_received {p : Page} {before ext : Bytes} (h : Requested p before ext)
    (hpage : (stricmp ext (text ".shtml") || stricmp ext (text ".shtm")) = true) {t : Template}
    (hfile : p.file = t.source) {table : SsiTable}
    (hwrites : FitsWrites table p.session.buffer.socket t) {rounds : Nat}
    (hrounds : 2 * p.file.length ≤ rounds) :
    ∃ p' wire, sendPage table (rounds + 1) p = some p' ∧
      p'.session.buffer.socket.sent <+: before ++ wire ∧
      (p'.session.buffer.socket.accepts ≠ [] → p'.session.buffer.socket.sent = before ++ wire) ∧
      receive wire = some (headerLines (closing (processFileType (some ext) p.session)) 0 true,
        t.content (written table)) := by
  have hitems : Includes.items .text p.file = some t.items := by
    rw [hfile]
    exact items_source t
  have hwhole : CallsWhole table p.session.buffer.socket t.items := by
    intro name hname
    rcases List.mem_append.mp hname with hname | hname
    · obtain ⟨c, hc, hmem⟩ := List.mem_flatMap.mp hname
      obtain rfl : name = c.2.bytes := by simpa using hmem
      exact hwrites c hc
    · simp at hname
  rw [← items_content]
  exact sendPage_items h hpage hitems hwhole hrounds

/-- A page that shows a light: `<b><%led:1%></b>`. -/
def lightTemplate : Template where
  calls := [(⟨text "<b>", by decide +kernel, by decide +kernel⟩,
    ⟨text "led:1", by decide +kernel, by decide +kernel, by decide +kernel⟩)]
  last := ⟨text "</b>", by decide +kernel, by decide +kernel⟩

def lightPage : Page :=
  { request with path := text "/light.shtml", file := text "<b><%led:1%></b>" }

/-- The function that tells whether it is on. -/
def lights : SsiTable := [(text "led", fun param => [text "led ", param, text " is on"])]

theorem page_received_light :
    ∃ p' wire, sendPage lights (32 + 1) lightPage = some p' ∧
      p'.session.buffer.socket.sent <+: [] ++ wire ∧
      (p'.session.buffer.socket.accepts ≠ [] → p'.session.buffer.socket.sent = [] ++ wire) ∧
      receive wire = some
        (headerLines (closing (processFileType (some (text ".shtml")) lightPage.session)) 0 true,
          text "<b>led 1 is on</b>") := by
  have hcontent : lightTemplate.content (written lights) = text "<b>led 1 is on</b>" := by
    decide +kernel
  rw [← hcontent]
  apply page_received
  · exact ⟨⟨rfl, rfl, List.length_replicate, rfl⟩, by decide +kernel, rfl, rfl, rfl, rfl,
      by decide +kernel⟩
  · decide +kernel
  · decide +kernel
  · intro c hc datas hwrites data hdata
    have hwritten : ssiWrites lights (text "led:1") =
        some [text "led ", text "1", text " is on"] := by decide +kernel
    obtain rfl := List.mem_singleton.mp hc
    obtain rfl := Option.some.inj (hwritten.symm.trans hwrites)
    have hshort : ∀ data ∈ [text "led ", text "1", text " is on"], data.length ≤ sesBufSize := by
      decide +kernel
    exact Or.inl (hshort data hdata)
  · decide +kernel

end EmWinDemo.Http.Templates
