/-
# EmWinDemo.Weather.ReadPage -- fetching the forecast

`ReadPage` (weather.c) opens a socket, sends the request and calls `recv` once; `GetJSONdata` cuts
the text from the first `{` to the last `}` out of the zeroed buffer and `cJSON_Parse` turns it
into a tree.  The results of `connect` and `send` are looked at by nobody; on a socket that is not
connected `recv` fails.  `cJSON_Parse` is a parameter here, an arbitrary function of the text.

TCP delivers a response in pieces.  `readPage_segments_iff` says for which pieces the one call of
`recv` is enough: those without a `}` after the first piece.
-/
import EmWinDemo.Lib.CText
import EmWinDemo.Socket.ClientRead
import EmWinDemo.Weather.CJson
import Mathlib.Data.List.Basic

namespace EmWinDemo.Weather.ReadPage

open EmWinDemo.Lib.CMemory EmWinDemo.Lib.CText EmWinDemo.Socket.ClientRead

/-! ## `GetJSONdata` -/

/-- The first loop: the index of the first `{`, and zero if there is none. -/
def scanStart : Nat → Bytes → Nat
  | _, [] => 0
  | i, b :: rest => if b = 123 then i else scanStart (i + 1) rest

/-- The second loop: the index of the last `}`, and the initial value if there is none. -/
def scanEnd : Nat → Nat → Bytes → Nat
  | _, jsonEnd, [] => jsonEnd
  | i, jsonEnd, b :: rest => scanEnd (i + 1) (if b = 125 then i else jsonEnd) rest

/-- `json_len`. -/
def jsonLen (buffer : Bytes) : Int := scanEnd 0 0 buffer - scanStart 0 buffer + 1

/-- `GetJSONdata`.  A negative length asks `calloc` for more than there is: the result is null. -/
def getJSONdata (buffer : Bytes) : Option Bytes :=
  if 0 ≤ jsonLen buffer then
    some ((buffer.drop (scanStart 0 buffer)).take (jsonLen buffer).toNat)
  else none

/-! ## `ReadPage` -/

/-- `bufsize`. -/
def bufsize : Nat := 2018

/-- `buf` after the call of `recv`. -/
def recvBuffer : ReadResult → Bytes
  | .chunk bytes => store (List.replicate bufsize 0) 0 bytes
  | .closed => List.replicate bufsize 0
  | .failed => List.replicate bufsize 0

/-- `ReadPage`, with what `socket` and `recv` return.  `cJSON_Parse` of a null text is null. -/
def readPage (parse : Bytes → Option CJson) (sock : Int) (reply : ReadResult) : Option CJson :=
  if sock = -1 ∨ sock = -2 then none else (getJSONdata (recvBuffer reply)).bind parse

/-! ## What the two loops find -/

theorem scanStart_of_not_mem {m : Bytes} (h : (123 : UInt8) ∉ m) (i : Nat) :
    scanStart i m = 0 := by
  induction m generalizing i with
  | nil => rfl
  | cons b m ih =>
    have hb : b ≠ 123 := fun hb => h (hb ▸ List.mem_cons_self)
    rw [scanStart, if_neg hb, ih fun hm => h (List.mem_cons_of_mem _ hm)]

theorem scanStart_split {p : Bytes} (hp : (123 : UInt8) ∉ p) (i : Nat) (s : Bytes) :
    scanStart i (p ++ 123 :: s) = i + p.length := by
  induction p generalizing i with
  | nil => rfl
  | cons b p ih =>
    have hb : b ≠ 123 := fun hb => hp (hb ▸ List.mem_cons_self)
    rw [List.cons_append, scanStart, if_neg hb, ih fun hm => hp (List.mem_cons_of_mem _ hm)]
    simp only [List.length_cons]
    omega

theorem scanEnd_of_not_mem {m : Bytes} (h : (125 : UInt8) ∉ m) (i e : Nat) :
    scanEnd i e m = e := by
  induction m generalizing i with
  | nil => rfl
  | cons b m ih =>
    have hb : b ≠ 125 := fun hb => h (hb ▸ List.mem_cons_self)
    rw [scanEnd, if_neg hb, ih fun hm => h (List.mem_cons_of_mem _ hm)]

theorem scanEnd_split {s : Bytes} (hs : (125 : UInt8) ∉ s) (i e : Nat) (p : Bytes) :
    scanEnd i e (p ++ 125 :: s) = i + p.length := by
  induction p generalizing i e with
  | nil =>
    rw [List.nil_append, scanEnd, if_pos rfl, scanEnd_of_not_mem hs]
    rfl
  | cons b p ih =>
    rw [List.cons_append, scanEnd, ih]
    simp only [List.length_cons]
    omega

/-- The last occurrence of a byte. -/
theorem exists_last {b : UInt8} {m : Bytes} (h : b ∈ m) : ∃ p s, m = p ++ b :: s ∧ b ∉ s := by
  obtain ⟨s, p, hsplit, hs⟩ := List.eq_append_cons_of_mem (List.mem_reverse.mpr h)
  refine ⟨p.reverse, s.reverse, ?_, by simpa using hs⟩
  have hrev := congrArg List.reverse hsplit
  simpa using hrev

/-- The second loop finds no index behind the last `}`. -/
theorem scanEnd_le (m z : Bytes) (hz : (125 : UInt8) ∉ z) : scanEnd 0 0 (m ++ z) ≤ m.length - 1 := by
  by_cases hm : (125 : UInt8) ∈ m
  · obtain ⟨p, s, rfl, hs⟩ := exists_last hm
    have hsz : (125 : UInt8) ∉ s ++ z := by simp [hs, hz]
    rw [List.append_assoc, List.cons_append, scanEnd_split hsz]
    simp only [List.length_append, List.length_cons]
    omega
  · have hmz : (125 : UInt8) ∉ m ++ z := by simp [hm, hz]
    rw [scanEnd_of_not_mem hmz]
    exact Nat.zero_le _

/-- A text between the first `{` and the last `}` is cut out exactly. -/
theorem getJSONdata_split {p s : Bytes} (hp : (123 : UInt8) ∉ p) (hs : (125 : UInt8) ∉ s)
    (q : Bytes) :
    getJSONdata (p ++ 123 :: (q ++ 125 :: s)) = some (123 :: (q ++ [125])) := by
  have hstart : scanStart 0 (p ++ 123 :: (q ++ 125 :: s)) = p.length := by
    rw [scanStart_split hp, Nat.zero_add]
  have hend : scanEnd 0 0 (p ++ 123 :: (q ++ 125 :: s)) = p.length + 1 + q.length := by
    have hre : p ++ 123 :: (q ++ 125 :: s) = (p ++ 123 :: q) ++ 125 :: s := by simp
    rw [hre, scanEnd_split hs]
    simp only [List.length_append, List.length_cons]
    omega
  have hlen : jsonLen (p ++ 123 :: (q ++ 125 :: s)) = ((q.length + 2 : Nat) : Int) := by
    rw [jsonLen, hstart, hend]
    omega
  have htext : (123 :: (q ++ 125 :: s)).take (q.length + 2) = 123 :: (q ++ [125]) := by
    rw [List.take_succ_cons, List.take_length_add_append]
    rfl
  rw [getJSONdata, if_pos (by omega), hlen, hstart, List.drop_left, Int.toNat_natCast, htext]

/-! ## Segmentation -/

/-- A way of splitting a response into the chunks that successive calls of `recv` deliver. -/
structure Segmentation (response : Bytes) where
  chunks : List Bytes
  nonempty : ∀ c ∈ chunks, c ≠ []
  flatten : chunks.flatten = response

/-- What the one call of `recv` returns. -/
def Segmentation.reply {response : Bytes} (g : Segmentation response) : ReadResult :=
  match g.chunks with
  | [] => .closed
  | c :: _ => .chunk c

/-- A response that fits into the buffer and whose body is one `{ … }`. -/
structure JsonResponse (response : Bytes) : Prop where
  length_le : response.length ≤ bufsize - 1
  body : ∃ header before inner after, response =
      header ++ [13, 10, 13, 10] ++ before ++ (123 :: (inner ++ [125])) ++ after ∧
    before.all isSpace ∧ after.all isSpace

/-- `ReadPage` yields what `cJSON_Parse` makes of the text in the whole response. -/
def ReadsWhole (response : Bytes) (g : Segmentation response) : Prop :=
  ∀ (parse : Bytes → Option CJson) (sock : Int), 0 ≤ sock →
    readPage parse sock g.reply = (getJSONdata (recvBuffer (.chunk response))).bind parse

/-- The text of a response: the first `{` and the last `}` enclose it. -/
theorem JsonResponse.split {response : Bytes} (h : JsonResponse response) :
    ∃ p q s, response = p ++ 123 :: (q ++ 125 :: s) ∧ (123 : UInt8) ∉ p ∧ (125 : UInt8) ∉ s := by
  obtain ⟨header, before, inner, after, heq, -, -⟩ := h.body
  have hopen : (123 : UInt8) ∈ header ++ [13, 10, 13, 10] ++ before ++ [123] := by simp
  have hclose : (125 : UInt8) ∈ 125 :: after := List.mem_cons_self
  obtain ⟨p, q, hpq, hp⟩ := List.eq_append_cons_of_mem hopen
  obtain ⟨t, s, hts, hs⟩ := exists_last hclose
  refine ⟨p, q ++ inner ++ t, s, ?_, hp, hs⟩
  have hleft : response = (header ++ [13, 10, 13, 10] ++ before ++ [123]) ++
      inner ++ (125 :: after) := by rw [heq]; simp
  rw [hleft, hpq, hts]
  simp

theorem recvBuffer_chunk (bytes : Bytes) :
    ∃ n, recvBuffer (.chunk bytes) = bytes ++ List.replicate n 0 := by
  refine ⟨bufsize - bytes.length, ?_⟩
  rw [recvBuffer, store_zero, List.drop_replicate]

theorem not_mem_zeros {b : UInt8} (hb : b ≠ 0) {s : Bytes} (hs : b ∉ s) (n : Nat) :
    b ∉ s ++ List.replicate n 0 := by
  intro h
  rcases List.mem_append.mp h with h | h
  · exact hs h
  · exact hb (List.eq_of_mem_replicate h)

/-- The text in the buffer when its closing brace has arrived. -/
theorem getJSONdata_recvBuffer {p s : Bytes} (hp : (123 : UInt8) ∉ p) (hs : (125 : UInt8) ∉ s)
    (q : Bytes) : getJSONdata (recvBuffer (.chunk (p ++ 123 :: (q ++ 125 :: s)))) =
      some (123 :: (q ++ [125])) := by
  obtain ⟨n, hn⟩ := recvBuffer_chunk (p ++ 123 :: (q ++ 125 :: s))
  have hz : (125 : UInt8) ∉ s ++ List.replicate n 0 := not_mem_zeros (by decide) hs n
  rw [hn, ← getJSONdata_split hp hz q]
  congr 1
  simp

/-- A chunk that lacks the closing brace yields another text. -/
theorem getJSONdata_prefix_ne {p q s c rest : Bytes} (hp : (123 : UInt8) ∉ p)
    (hs : (125 : UInt8) ∉ s) (hc : c ≠ []) (hrest : (125 : UInt8) ∈ rest)
    (hsplit : p ++ 123 :: (q ++ 125 :: s) = c ++ rest) :
    getJSONdata (recvBuffer (.chunk c)) ≠ some (123 :: (q ++ [125])) := by
  intro htext
  obtain ⟨n, hn⟩ := recvBuffer_chunk c
  have hz : (125 : UInt8) ∉ List.replicate n (0 : UInt8) :=
    not_mem_zeros (by decide) List.not_mem_nil n
  rw [hn, getJSONdata] at htext
  split at htext
  swap
  · exact absurd htext (by simp)
  have htake := Option.some.inj htext
  by_cases hopen : (123 : UInt8) ∈ c
  · -- the two texts start at the same brace, so this one is shorter
    obtain ⟨p', c', rfl, hp'⟩ := List.eq_append_cons_of_mem hopen
    have hstart : p'.length = p.length := by
      have h1 := scanStart_split hp' 0 (c' ++ rest)
      have h2 := scanStart_split hp 0 (q ++ 125 :: s)
      rw [hsplit, List.append_assoc, List.cons_append, h1] at h2
      omega
    have hlast : (p' ++ 123 :: c').length ≤ p.length + 1 + q.length := by
      obtain ⟨u, v, rfl, hv⟩ := exists_last hrest
      have h1 := scanEnd_split hv 0 0 (p' ++ 123 :: c' ++ u)
      have h2 := scanEnd_split hs 0 0 (p ++ 123 :: q)
      have hre : p ++ 123 :: q ++ 125 :: s = p' ++ 123 :: c' ++ u ++ 125 :: v := by
        rw [List.append_assoc, List.cons_append, hsplit]
        simp
      rw [hre, h1] at h2
      simp only [List.length_append, List.length_cons] at h2 ⊢
      omega
    have hlen := congrArg List.length htake
    have hle := scanEnd_le (p' ++ 123 :: c') (List.replicate n 0) hz
    have hs' := scanStart_split hp' 0 (c' ++ List.replicate n 0)
    rw [← List.cons_append, ← List.append_assoc] at hs'
    rw [List.length_take, jsonLen, hs'] at hlen
    simp only [List.length_append, List.length_cons, List.length_nil] at hlen hlast hle
    omega
  · -- no brace has been opened, so this text starts with the first byte of the response
    have hnone : (123 : UInt8) ∉ c ++ List.replicate n 0 := not_mem_zeros (by decide) hopen n
    rw [scanStart_of_not_mem hnone, List.drop_zero] at htake
    apply hnone
    apply List.mem_of_mem_take
    rw [htake]
    exact List.mem_cons_self

/-- When nothing behind the first chunk holds a `}`, the first chunk holds the whole text. -/
theorem prefix_of_not_mem {p q s c rest : Bytes} (hrest : (125 : UInt8) ∉ rest)
    (hsplit : c ++ rest = p ++ 123 :: (q ++ 125 :: s)) :
    ∃ s', c = p ++ 123 :: (q ++ 125 :: s') := by
  have hre : c ++ rest = (p ++ 123 :: q) ++ 125 :: s := by simpa using hsplit
  rcases List.append_eq_append_iff.mp hre with ⟨a, -, hr⟩ | ⟨a, hc, hr⟩
  · exact absurd (hr ▸ List.mem_append_right a List.mem_cons_self) hrest
  · cases a with
    | nil =>
      have hr' : 125 :: s = rest := hr
      exact absurd (hr' ▸ List.mem_cons_self) hrest
    | cons b s' =>
      obtain ⟨rfl, -⟩ := List.cons.inj hr
      exact ⟨s', by simpa using hc⟩

/-- The chunk `ReadPage` sees when the response is split as `c :: later`. -/
theorem readPage_first {c : Bytes} {later : List Bytes} {response : Bytes}
    (hne : ∀ d ∈ c :: later, d ≠ []) (hflat : (c :: later).flatten = response)
    (parse : Bytes → Option CJson) {sock : Int} (hsock : 0 ≤ sock) :
    readPage parse sock (Segmentation.mk (c :: later) hne hflat).reply =
      (getJSONdata (recvBuffer (.chunk c))).bind parse := by
  have hvalid : ¬(sock = -1 ∨ sock = -2) := by omega
  show readPage parse sock (.chunk c) = _
  rw [readPage, if_neg hvalid]

/-- A closing brace that arrives late is missed. -/
theorem closing_brace_in_first {c : Bytes} {later : List Bytes} {response : Bytes}
    (h : JsonResponse response) (hne : ∀ d ∈ c :: later, d ≠ [])
    (hflat : (c :: later).flatten = response)
    (hreads : ReadsWhole response ⟨c :: later, hne, hflat⟩) : ∀ d ∈ later, (125 : UInt8) ∉ d := by
  obtain ⟨p, q, s, hsplit, hp, hs⟩ := h.split
  intro d hd hbrace
  have hlate : (125 : UInt8) ∈ later.flatten := List.mem_flatten.mpr ⟨d, hd, hbrace⟩
  have hrest : p ++ 123 :: (q ++ 125 :: s) = c ++ later.flatten := by
    rw [← hsplit, ← hflat, List.flatten_cons]
  -- a parser that accepts the text of the whole response and nothing else
  let parse : Bytes → Option CJson := fun t =>
    if t = 123 :: (q ++ [125]) then some (.node 0 none none []) else none
  have hrun := hreads parse 0 (Int.le_refl 0)
  rw [readPage_first hne hflat parse (Int.le_refl 0), hsplit, getJSONdata_recvBuffer hp hs q] at hrun
  have hsome : (getJSONdata (recvBuffer (.chunk c))).bind parse = some (.node 0 none none []) := by
    rw [hrun]
    simp [parse]
  obtain ⟨t, ht, hparse⟩ := Option.bind_eq_some_iff.mp hsome
  have htext : t = 123 :: (q ++ [125]) := by
    by_contra hother
    simp [parse, hother] at hparse
  have hfirst : c ≠ [] := hne c List.mem_cons_self
  exact getJSONdata_prefix_ne hp hs hfirst hlate hrest (ht.trans (congrArg some htext))

/-- A first chunk up to the last closing brace is enough. -/
theorem readsWhole_of_first {c : Bytes} {later : List Bytes} {response : Bytes}
    (h : JsonResponse response) (hne : ∀ d ∈ c :: later, d ≠ [])
    (hflat : (c :: later).flatten = response) (hlate : ∀ d ∈ later, (125 : UInt8) ∉ d) :
    ReadsWhole response ⟨c :: later, hne, hflat⟩ := by
  obtain ⟨p, q, s, hsplit, hp, hs⟩ := h.split
  have hnone : (125 : UInt8) ∉ later.flatten := by
    intro hmem
    obtain ⟨d, hd, hbrace⟩ := List.mem_flatten.mp hmem
    exact hlate d hd hbrace
  have hrest : c ++ later.flatten = p ++ 123 :: (q ++ 125 :: s) := by
    rw [← hsplit, ← hflat, List.flatten_cons]
  obtain ⟨s', rfl⟩ := prefix_of_not_mem hnone hrest
  have hs' : (125 : UInt8) ∉ s' := by
    intro hmem
    apply hs
    have hcut : s' ++ later.flatten = s := by simpa using hrest
    rw [← hcut]
    exact List.mem_append_left _ hmem
  intro parse sock hsock
  rw [readPage_first hne hflat parse hsock, getJSONdata_recvBuffer hp hs' q, hsplit,
    getJSONdata_recvBuffer hp hs q]

/-- **One call of `recv`.** For a response whose body is one JSON object, `ReadPage` yields the
tree of the whole response exactly when no `}` arrives after the first chunk. -/
theorem readPage_segments_iff (response : Bytes) (h : JsonResponse response)
    (g : Segmentation response) :
    ReadsWhole response g ↔ ∀ c ∈ g.chunks.tail, (125 : UInt8) ∉ c := by
  obtain ⟨chunks, hne, hflat⟩ := g
  cases chunks with
  | nil =>
    obtain ⟨p, q, s, hsplit, -, -⟩ := h.split
    rw [hsplit] at hflat
    exact absurd hflat (by simp)
  | cons c later =>
    constructor
    · intro hreads
      exact closing_brace_in_first h hne hflat hreads
    · intro hlate
      exact readsWhole_of_first h hne hflat hlate

/-- A status line, the empty line and an empty object. -/
def shortResponse : Bytes :=
  ascii ['H', 'T', 'T', 'P', '/', '1', '.', '1', ' ', '2', '0', '0'] ++ [13, 10, 13, 10] ++
    ascii ['{', '}']

theorem shortResponse_json : JsonResponse shortResponse :=
  ⟨by decide, shortResponse.take 12, [], [], [], by decide, rfl, rfl⟩

/-- The header and the body in a segment each. -/
def shortSplit : Segmentation shortResponse where
  chunks := [shortResponse.take 16, shortResponse.drop 16]
  nonempty := by decide
  flatten := by decide

theorem readPage_segments_iff_short :
    ReadsWhole shortResponse shortSplit ↔ ∀ c ∈ shortSplit.chunks.tail, (125 : UInt8) ∉ c :=
  readPage_segments_iff shortResponse shortResponse_json shortSplit

/-- The tree depends on where the response is split. -/
theorem not_readsWhole_shortSplit :
    ¬∀ response, JsonResponse response → ∀ g : Segmentation response, ReadsWhole response g := by
  intro hall
  have hreads := hall shortResponse shortResponse_json shortSplit
  have hlate := closing_brace_in_first shortResponse_json shortSplit.nonempty shortSplit.flatten hreads
  exact hlate _ List.mem_cons_self (by decide)

end EmWinDemo.Weather.ReadPage
