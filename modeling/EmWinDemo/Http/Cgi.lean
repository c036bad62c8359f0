/-
# EmWinDemo.Http.Cgi -- the form handler of the web server

`cgi_example` (http_server.c) keeps the value of a form in the static array `cgi_data`.  A POST
looks up `post_input` in the request's body, copies its value into `cgi_data` and decodes percent
escapes in place; a GET turns the plus signs in `cgi_data` into spaces, in place as well, and sends
it.  A plus sign that was escaped in the form is a plain one by the time of the first GET.

The loops are the source's, with a bound on the number of their rounds; `urldecodeLoop_spec`,
`replacePlus_spec` and `run_spec` show that the bounds suffice and that no array is left.
-/
import EmWinDemo.Lib.FormUrl
import EmWinDemo.Lib.Runs

namespace EmWinDemo.Http.Cgi

open EmWinDemo.Lib.CMemory EmWinDemo.Lib.CText EmWinDemo.Lib.FormUrl EmWinDemo.Lib.Runs

/-- `CGI_DATA_LENGTH_MAX`. -/
def cgiDataLengthMax : Nat := 96

/-- `sizeof(cgi_data)`. -/
def cgiDataSize : Nat := cgiDataLengthMax + 1

/-- `sizeof("post_input = ") + CGI_DATA_LENGTH_MAX`. -/
def bufferSize : Nat := 14 + cgiDataLengthMax

/-! ## `cgi_urldecode` -/

/-- The test for an escape at the start of `src`; it reads on only as long as it has to. -/
def startsEscape : Bytes → Option Bool
  | [] => none
  | c :: src =>
    if c ≠ 37 then some false
    else match src with
      | [] => none
      | a :: src =>
        if isXDigit a = false then some false
        else match src with
          | [] => none
          | b :: _ => some (isXDigit b)

/-- The loop, with the read and the write position.  An escape's digits are first moved to the
front of a string of their own, which ends where the escape did. -/
def urldecodeLoop : Nat → Bytes → Nat → Nat → Option Bytes
  | 0, _, _, _ => none
  | fuel + 1, url, src, dst =>
    match url.drop src with
    | [] => none
    | c :: rest =>
      if c = 0 then some (url.set dst 0)
      else match startsEscape (c :: rest) with
        | none => none
        | some true =>
          let digits := ((url.set src (url.getD (src + 1) 0)).set (src + 1)
            (url.getD (src + 2) 0)).set (src + 2) 0
          let value := strtol16 0 (cstr (digits.drop src))
          urldecodeLoop fuel (digits.set dst (UInt8.ofNat value)) (src + 3) (dst + 1)
        | some false => urldecodeLoop fuel (url.set dst c) (src + 1) (dst + 1)

/-- `cgi_urldecode`. -/
def cgiUrldecode (url : Bytes) : Option Bytes := urldecodeLoop (url.length + 1) url 0 0

/-! ## `cgi_get_varval` -/

/-- `strncpy` for a text that is cut or padded to `n` bytes. -/
def strncpy (dst src : Bytes) (n : Nat) : Bytes :=
  store dst 0 ((src ++ List.replicate n 0).take n)

/-- The loop over the occurrences of the name; the next search from a null pointer is `none`. -/
def varvalLoop (varName dst : Bytes) (length : Nat) : Nat → Bytes → Option (Bool × Bytes)
  | 0, _ => none
  | fuel + 1, name =>
    match strstr name varName with
    | none => some (false, dst)
    | some name =>
      if name.getD varName.length 0 = 61 then
        let value := name.drop (varName.length + 1)
        let index := strcspn value 38
        -- a value that does not fit is cut
        let index := if length ≤ index then length - 1 else index
        some (true, (strncpy dst value index).set index 0)
      else
        -- the name is the start of a longer one: on to the next pair
        match strchr name 38 with
        | none => none
        | some name => varvalLoop varName dst length fuel name

/-- `cgi_get_varval`: whether the name was found, and the destination. -/
def cgiGetVarval (src varName dst : Bytes) (length : Nat) : Option (Bool × Bytes) :=
  varvalLoop varName (dst.set 0 0) length (src.length + 1) src

/-! ## `cgi_example` -/

inductive Request where
  | get
  /-- the announced length, and what the session has to read -/
  | post (contentLength : Nat) (body : Bytes)
  /-- any other method -/
  | other
  deriving Repr, DecidableEq

inductive ContentType where
  | plain
  | html
  deriving Repr, DecidableEq

/-- `response` as the calls of `HTTPSRV_cgi_write` send it; `writes` has the data of each call. -/
structure Response where
  contentType : Option ContentType
  contentLength : Int
  writes : List Bytes
  deriving Repr, DecidableEq

/-- The loop of the GET branch. -/
def replacePlus : Nat → Bytes → Option Bytes
  | 0, _ => none
  | fuel + 1, cgiData => do
    let text ← readCstr cgiData
    match strchr text 43 with
    | none => some cgiData
    | some c => replacePlus fuel (cgiData.set (text.length - c.length) 32)

/-- `"post_input"`. -/
def postInput : Bytes := ascii ['p', 'o', 's', 't', '_', 'i', 'n', 'p', 'u', 't']

/-- What a POST sends, piece by piece; the last piece is empty. -/
def postPage : List Bytes :=
  ["<!DOCTYPE HTML PUBLIC \"-//W3C//DTD HTML 4.0 Transitional//EN\">",
    "<html><head><title>POST successfull!</title>",
    "<meta http-equiv=\"refresh\" content=\"0; url=cgi.html\"></head><body></body></html>",
    ""].map fun piece => ascii piece.toList

/-- `HTTPSRV_cgi_read` into the zeroed local buffer: what it delivers of the body. -/
def cgiRead (body : Bytes) (contentLength : Nat) : Bytes :=
  body.take (if bufferSize < contentLength then bufferSize else contentLength)

/-- `cgi_example`: the contents of `cgi_data` afterwards, and the response. -/
def cgiExample (cgiData : Bytes) : Request → Option (Bytes × Response)
  | .get => do
    let cgiData ← replacePlus (cgiData.length + 1) cgiData
    let text ← readCstr cgiData
    some (cgiData, ⟨some .plain, text.length, [text]⟩)
  | .post contentLength body => do
    let page : Response := ⟨some .html, -1, postPage⟩
    let read := cgiRead body contentLength
    if 0 < read.length then
      let buffer ← readCstr (store (List.replicate bufferSize 0) 0 read)
      let (_, cgiData) ← cgiGetVarval buffer postInput cgiData cgiDataSize
      let cgiData ← cgiUrldecode cgiData
      some (cgiData, page)
    else some (cgiData, page)
  | .other => some (cgiData, ⟨none, 0, []⟩)

/-! ## Decoding in place -/

/-- Writing over the first byte behind `out` makes the unused gap one byte shorter in front and
one byte longer at its end. -/
theorem set_gap (out gap : Bytes) (v x : UInt8) (rest : Bytes) :
    (out ++ gap ++ x :: rest).set out.length v = (out ++ [v]) ++ (gap ++ [x]).tail ++ rest := by
  cases gap with
  | nil => simp
  | cons g gap => simp

theorem startsEscape_escape {a b : UInt8} (ha : isXDigit a = true) (hb : isXDigit b = true)
    (rest : Bytes) : startsEscape (37 :: a :: b :: rest) = some true := by
  simp [startsEscape, ha, hb]

/-- Before a terminator the test reads no further than it, and fails unless an escape is there. -/
theorem startsEscape_plain {c : UInt8} {s : Bytes} (tail : Bytes) (h : Plain c s) :
    startsEscape (c :: (s ++ 0 :: tail)) = some false := by
  have hzero : isXDigit 0 = false := rfl
  by_cases hc : c = 37
  · match s with
    | [] => simp [startsEscape, hc, hzero]
    | [a] => cases ha : isXDigit a <;> simp [startsEscape, hc, hzero, ha]
    | a :: b :: rest =>
      have hab := h a b rest rfl
      cases ha : isXDigit a with
      | false => simp [startsEscape, hc, ha]
      | true =>
        cases hb : isXDigit b with
        | false => simp [startsEscape, hc, ha, hb]
        | true => exact absurd ⟨hc, ha, hb⟩ hab
  · simp [startsEscape, hc]

theorem urldecodeLoop_end (fuel : Nat) (front tail : Bytes) (dst : Nat) :
    urldecodeLoop (fuel + 1) (front ++ 0 :: tail) front.length dst =
      some ((front ++ 0 :: tail).set dst 0) := by
  rw [urldecodeLoop, List.drop_left]
  rfl

theorem urldecodeLoop_plain {c : UInt8} {s : Bytes} (hc : c ≠ 0) (tail : Bytes)
    (h : startsEscape (c :: (s ++ 0 :: tail)) = some false) (fuel : Nat) (front : Bytes) (dst : Nat) :
    urldecodeLoop (fuel + 1) (front ++ c :: (s ++ 0 :: tail)) front.length dst =
      urldecodeLoop fuel ((front ++ c :: (s ++ 0 :: tail)).set dst c) (front.length + 1)
        (dst + 1) := by
  rw [urldecodeLoop, List.drop_left]
  simp only [if_neg hc, h]

theorem urldecodeLoop_escape {a b : UInt8} (ha : isXDigit a = true) (hb : isXDigit b = true)
    (rest : Bytes) (fuel : Nat) (front : Bytes) (dst : Nat) :
    urldecodeLoop (fuel + 1) (front ++ 37 :: a :: b :: rest) front.length dst =
      urldecodeLoop fuel ((front ++ a :: b :: 0 :: rest).set dst (escaped a b)) (front.length + 3)
        (dst + 1) := by
  have hne : ∀ d : UInt8, isXDigit d = true → d ≠ 0 := by
    rintro d hd rfl
    exact absurd hd (by decide)
  have hdigits : (((front ++ 37 :: a :: b :: rest).set front.length a).set (front.length + 1)
      b).set (front.length + 2) 0 = front ++ a :: b :: 0 :: rest := by simp
  have hstr : cstr (a :: b :: 0 :: rest) = [a, b] := by
    rw [cstr_cons (hne a ha), cstr_cons (hne b hb), cstr_zero]
  have hgeta : (front ++ 37 :: a :: b :: rest).getD (front.length + 1) 0 = a := by simp
  have hgetb : (front ++ 37 :: a :: b :: rest).getD (front.length + 2) 0 = b := by simp
  rw [urldecodeLoop, List.drop_left]
  simp only [startsEscape_escape ha hb, if_neg (show (37 : UInt8) ≠ 0 by decide), hgeta, hgetb,
    hdigits, List.drop_left, hstr, strtol16_pair ha hb]
  rfl

/-- An escape: one byte is written where three were read, so the gap grows by two. -/
theorem urldecodeLoop_step_escape {a b : UInt8} (ha : isXDigit a = true) (hb : isXDigit b = true)
    (rest tail out gap : Bytes) (fuel : Nat) :
    urldecodeLoop (fuel + 1) (out ++ gap ++ (37 :: a :: b :: rest ++ 0 :: tail))
        (out ++ gap).length out.length =
      urldecodeLoop fuel
        (out ++ [escaped a b] ++ ((gap ++ [a]).tail ++ [b, 0]) ++ (rest ++ 0 :: tail))
        (out ++ [escaped a b] ++ ((gap ++ [a]).tail ++ [b, 0])).length
        (out ++ [escaped a b]).length := by
  have hshape : (out ++ gap ++ a :: b :: 0 :: (rest ++ 0 :: tail)).set out.length (escaped a b) =
      out ++ [escaped a b] ++ ((gap ++ [a]).tail ++ [b, 0]) ++ (rest ++ 0 :: tail) := by
    rw [set_gap]
    simp
  have hsrc : (out ++ gap).length + 3 =
      (out ++ [escaped a b] ++ ((gap ++ [a]).tail ++ [b, 0])).length := by
    simp
    omega
  have hdst : out.length + 1 = (out ++ [escaped a b]).length := by simp
  rw [List.cons_append, List.cons_append, List.cons_append, urldecodeLoop_escape ha hb, hshape,
    hsrc, hdst]

/-- A plain byte moves down over the gap. -/
theorem urldecodeLoop_step_plain {c : UInt8} (hc : c ≠ 0) {s : Bytes} (hno : Plain c s)
    (tail out gap : Bytes) (fuel : Nat) :
    urldecodeLoop (fuel + 1) (out ++ gap ++ (c :: s ++ 0 :: tail)) (out ++ gap).length out.length =
      urldecodeLoop fuel (out ++ [c] ++ (gap ++ [c]).tail ++ (s ++ 0 :: tail))
        (out ++ [c] ++ (gap ++ [c]).tail).length (out ++ [c]).length := by
  have hsrc : (out ++ gap).length + 1 = (out ++ [c] ++ (gap ++ [c]).tail).length := by
    simp
    omega
  have hdst : out.length + 1 = (out ++ [c]).length := by simp
  rw [List.cons_append, urldecodeLoop_plain hc tail (startsEscape_plain tail hno), set_gap, hsrc,
    hdst]

/-- **The decoding loop.**  In front of the read position stand the decoded bytes and a gap, behind
it the unread text.  The loop ends with the decoded text terminated in front, and the bytes behind
the terminator of the text are the old ones. -/
theorem urldecodeLoop_spec (tail : Bytes) {fuel : Nat} {s : Bytes} (hs : (0 : UInt8) ∉ s)
    (hfuel : s.length < fuel) (out gap : Bytes) :
    ∃ r, urldecodeLoop fuel (out ++ gap ++ (s ++ 0 :: tail)) (out ++ gap).length out.length =
        some (out ++ decode s ++ 0 :: (r ++ tail)) ∧
      (decode s).length + r.length = s.length + gap.length := by
  induction fuel generalizing s out gap with
  | zero => omega
  | succ fuel ih =>
    cases s with
    | nil =>
      refine ⟨(gap ++ [0]).tail, ?_, by simp [decode]⟩
      rw [List.nil_append, urldecodeLoop_end, set_gap]
      simp [decode]
    | cons c s =>
      have hc : c ≠ 0 := fun h => hs (h ▸ List.mem_cons_self)
      have hrest : (0 : UInt8) ∉ s := fun h => hs (List.mem_cons_of_mem _ h)
      simp only [List.length_cons] at hfuel
      rcases escape_or_plain c s with ⟨a, b, rest, rfl, rfl, ha, hb⟩ | hno
      · have hrest' : (0 : UInt8) ∉ rest := fun h =>
          hrest (List.mem_cons_of_mem _ (List.mem_cons_of_mem _ h))
        simp only [List.length_cons] at hfuel
        obtain ⟨r, hr, hlen⟩ := ih hrest' (by omega) (out ++ [escaped a b])
          ((gap ++ [a]).tail ++ [b, 0])
        refine ⟨r, ?_, ?_⟩
        · rw [urldecodeLoop_step_escape ha hb, hr, decode_escape ha hb]
          simp
        · rw [decode_escape ha hb]
          simp only [List.length_append, List.length_tail, List.length_cons, List.length_nil] at hlen ⊢
          omega
      · obtain ⟨r, hr, hlen⟩ := ih hrest (by omega) (out ++ [c]) (gap ++ [c]).tail
        refine ⟨r, ?_, ?_⟩
        · rw [urldecodeLoop_step_plain hc hno, hr, decode_cons hno]
          simp
        · rw [decode_cons hno]
          simp only [List.length_tail, List.length_append, List.length_cons, List.length_nil] at hlen ⊢
          omega

/-- **`cgi_urldecode` refines the reference decoder.** -/
theorem cgiUrldecode_spec {s : Bytes} (hs : (0 : UInt8) ∉ s) (tail : Bytes) :
    ∃ r, cgiUrldecode (s ++ 0 :: tail) = some (decode s ++ 0 :: (r ++ tail)) ∧
      (decode s).length + r.length = s.length := by
  have hfuel : s.length < (s ++ 0 :: tail).length + 1 := by
    simp only [List.length_append, List.length_cons]
    omega
  obtain ⟨r, hr, hlen⟩ := urldecodeLoop_spec tail hs hfuel [] []
  exact ⟨r, hr, hlen⟩

/-! ## One request -/

def plusToSpace (b : UInt8) : UInt8 := if b = 43 then 32 else b

theorem plusToSpace_eq_zero (b : UInt8) (h : plusToSpace b = 0) : b = 0 := by
  unfold plusToSpace at h
  split at h
  · exact absurd h (by decide)
  · exact h

/-- The loop of the GET branch ends with every plus sign of the text replaced. -/
theorem replacePlus_spec (tail : Bytes) {fuel : Nat} {t : Bytes} (ht : (0 : UInt8) ∉ t)
    (hfuel : t.count 43 < fuel) :
    replacePlus fuel (t ++ 0 :: tail) = some (t.map plusToSpace ++ 0 :: tail) := by
  induction fuel generalizing t with
  | zero => omega
  | succ fuel ih =>
    rw [replacePlus, readCstr_append_zero ht]
    show (match strchr t 43 with | none => _ | some c => _) = _
    cases hfind : strchr t 43 with
    | none =>
      have hplus : ∀ b ∈ t, plusToSpace b = b := by
        intro b hb
        exact if_neg fun h : b = 43 => strchr_eq_none.mp hfind (h ▸ hb)
      rw [List.map_congr_left hplus, List.map_id']
    | some c =>
      obtain ⟨p, q, rfl, rfl⟩ := strchr_eq_some hfind
      -- each round takes one plus sign away, and their number is what bounds the rounds
      have hset : (p ++ 43 :: q ++ 0 :: tail).set ((p ++ 43 :: q).length - (43 :: q).length) 32 =
          p ++ 32 :: q ++ 0 :: tail := by simp
      have hzero : (0 : UInt8) ∉ p ++ 32 :: q := by
        simpa using ht
      have hcount : (p ++ 32 :: q).count 43 < fuel := by
        simp only [List.count_append, List.count_cons] at hfuel ⊢
        simp at hfuel ⊢
        omega
      show replacePlus fuel _ = _
      rw [hset, ih hzero hcount]
      simp [plusToSpace]

/-- **A GET** sends the text with spaces for plus signs, and leaves that text in the array. -/
theorem cgiExample_get {t : Bytes} (ht : (0 : UInt8) ∉ t) (tail : Bytes) :
    cgiExample (t ++ 0 :: tail) .get = some (t.map plusToSpace ++ 0 :: tail,
      ⟨some .plain, (t.map plusToSpace).length, [t.map plusToSpace]⟩) := by
  have hfuel : t.count 43 < (t ++ 0 :: tail).length + 1 := by
    have := t.count_le_length (a := 43)
    simp only [List.length_append, List.length_cons]
    omega
  have hzero : (0 : UInt8) ∉ t.map plusToSpace := zero_not_mem_map plusToSpace_eq_zero ht
  simp only [cgiExample, replacePlus_spec tail ht hfuel, Option.bind_eq_bind, Option.bind_some,
    readCstr_append_zero hzero]

/-- The body of a form with one value. -/
def bodyOf (t : Bytes) : Bytes := postInput ++ 61 :: encode t

/-- A value that fits is found and copied whole. -/
theorem cgiGetVarval_body {u cgiData : Bytes} (hamp : (38 : UInt8) ∉ u)
    (hlen : u.length < cgiData.length) :
    ∃ tail, cgiGetVarval (postInput ++ 61 :: u) postInput cgiData cgiData.length =
      some (true, u ++ 0 :: tail) ∧ u.length + 1 + tail.length = cgiData.length := by
  have hkey : (postInput ++ 61 :: u).getD postInput.length 0 = 61 := by simp
  have hvalue : (postInput ++ 61 :: u).drop (postInput.length + 1) = u := by simp
  have hindex : ¬cgiData.length ≤ u.length := by omega
  have hcopy : strncpy (cgiData.set 0 0) u u.length = u ++ (cgiData.set 0 0).drop u.length := by
    rw [strncpy, List.take_left, store_zero]
  have hdrop : ∃ x tail, (cgiData.set 0 0).drop u.length = x :: tail := by
    cases hd : (cgiData.set 0 0).drop u.length with
    | nil =>
      have hle := List.drop_eq_nil_iff.mp hd
      rw [List.length_set] at hle
      omega
    | cons x tail => exact ⟨x, tail, rfl⟩
  obtain ⟨x, tail, hx⟩ := hdrop
  refine ⟨tail, ?_, ?_⟩
  · have hset : (u ++ x :: tail).set u.length 0 = u ++ 0 :: tail := by simp
    rw [cgiGetVarval, varvalLoop, strstr_append]
    simp only [hkey, if_true, hvalue, strcspn_of_not_mem hamp, if_neg hindex, hcopy, hx, hset]
  · have htotal := congrArg List.length hx
    simp only [List.length_drop, List.length_set, List.length_cons] at htotal
    omega

/-- The body of a form, and no NUL in it. -/
theorem bodyOf_spec (t : Bytes) :
    (bodyOf t).length = 11 + (encode t).length ∧ (0 : UInt8) ∉ bodyOf t := by
  constructor
  · simp [bodyOf, postInput, ascii]
    omega
  · intro h
    rcases List.mem_append.mp h with h | h
    · exact absurd h (by decide)
    · rcases List.mem_cons.mp h with h | h
      · exact absurd h (by decide)
      · exact (not_mem_encode t).2 h

/-- A body that is shorter than the local array arrives in it as a C string. -/
theorem readCstr_cgiRead {body : Bytes} (hlen : body.length < bufferSize)
    (hzero : (0 : UInt8) ∉ body) :
    cgiRead body body.length = body ∧
      readCstr (store (List.replicate bufferSize 0) 0 body) = some body := by
  constructor
  · rw [cgiRead, if_neg (Nat.lt_asymm hlen), List.take_length]
  · have hk : bufferSize - body.length = (bufferSize - body.length - 1) + 1 := by omega
    rw [store_zero, List.drop_replicate, hk, List.replicate_succ, readCstr_append_zero hzero]

/-- **A POST** leaves the decoded value in the array, its spaces as plus signs. -/
theorem cgiExample_post {t cgiData : Bytes} (hfit : (encode t).length ≤ cgiDataLengthMax)
    (hsize : cgiData.length = cgiDataSize) :
    ∃ tail, cgiExample cgiData (.post (bodyOf t).length (bodyOf t)) =
        some (t.map spaceToPlus ++ 0 :: tail, ⟨some .html, -1, postPage⟩) ∧
      (t.map spaceToPlus ++ 0 :: tail).length = cgiDataSize := by
  obtain ⟨hamp, hzero⟩ := not_mem_encode t
  obtain ⟨hbodylen, hbody0⟩ := bodyOf_spec t
  have hshort : (bodyOf t).length < bufferSize := by
    unfold cgiDataLengthMax at hfit
    unfold bufferSize cgiDataLengthMax
    omega
  obtain ⟨hread, hbuffer⟩ := readCstr_cgiRead hshort hbody0
  have hroom : (encode t).length < cgiData.length := by
    rw [hsize]
    exact Nat.lt_succ_of_le hfit
  obtain ⟨tail, hvarval, htail⟩ := cgiGetVarval_body hamp hroom
  obtain ⟨r, hdecode, hr⟩ := cgiUrldecode_spec hzero tail
  rw [decode_encode] at hdecode hr
  refine ⟨r ++ tail, ?_, ?_⟩
  · have hpos : 0 < (bodyOf t).length := by omega
    rw [hsize] at hvarval
    simp only [cgiExample, hread, if_pos hpos, hbuffer, Option.bind_eq_bind, Option.bind_some]
    show (cgiGetVarval (postInput ++ 61 :: encode t) postInput cgiData cgiDataSize).bind _ = _
    rw [hvarval, Option.bind_some, hdecode]
    rfl
  · simp only [List.length_append, List.length_cons] at hr ⊢
    rw [← hsize]
    omega

/-! ## Runs of requests -/

/-- The server between two requests.  `answers` is a ghost: what the GETs since the last POST were
answered with. -/
structure Server where
  cgiData : Bytes
  answers : List Bytes
  deriving Repr, DecidableEq

def step (s : Server) (r : Request) : Option Server :=
  (cgiExample s.cgiData r).map fun (cgiData, response) =>
    match r with
    | .get => ⟨cgiData, s.answers ++ response.writes⟩
    | .post _ _ => ⟨cgiData, []⟩
    | .other => ⟨cgiData, s.answers⟩

def Request.isPost : Request → Bool
  | .post _ _ => true
  | .get => false
  | .other => false

/-- After the POST of `t`, in any state of the server, every GET before the next POST is answered
with `t`. -/
def RoundTrips (t : Bytes) : Prop :=
  ∀ s : Server, s.cgiData.length = cgiDataSize → ∀ rs : List Request,
    (∀ r ∈ rs, r.isPost = false) →
      ∃ s', exec step s (.post (bodyOf t).length (bodyOf t) :: rs) = some s' ∧
        s'.answers = List.replicate (rs.count .get) t

/-- The array holds a text that a GET would send as `t`. -/
def Holds (t : Bytes) (s : Server) : Prop :=
  ∃ p tail, s.cgiData = p ++ 0 :: tail ∧ (0 : UInt8) ∉ p ∧ p.map plusToSpace = t

theorem plusToSpace_idem (t : Bytes) :
    (t.map plusToSpace).map plusToSpace = t.map plusToSpace := by
  rw [List.map_map]
  apply List.map_congr_left
  intro b _
  show plusToSpace (plusToSpace b) = plusToSpace b
  unfold plusToSpace
  split <;> simp_all

/-- A request other than a POST keeps the text, and a GET sends it. -/
theorem step_holds {t : Bytes} {s : Server} (hs : Holds t s) {r : Request}
    (hr : r.isPost = false) :
    ∃ s', step s r = some s' ∧ Holds t s' ∧
      s'.answers = s.answers ++ List.replicate ([r].count .get) t := by
  obtain ⟨p, tail, hdata, hp, hmap⟩ := hs
  cases r with
  | get =>
    have hget := cgiExample_get hp tail
    rw [hmap] at hget
    refine ⟨⟨t ++ 0 :: tail, s.answers ++ [t]⟩, ?_, ⟨t, tail, rfl, ?_, ?_⟩, rfl⟩
    · rw [step, hdata, hget]
      rfl
    · rw [← hmap]
      exact zero_not_mem_map plusToSpace_eq_zero hp
    · rw [← hmap, plusToSpace_idem]
  | post contentLength body => cases hr
  | other => exact ⟨s, rfl, ⟨p, tail, hdata, hp, hmap⟩, by simp⟩

theorem exec_holds {t : Bytes} {s : Server} (hs : Holds t s) {rs : List Request}
    (hrs : ∀ r ∈ rs, r.isPost = false) :
    ∃ s', exec step s rs = some s' ∧
      s'.answers = s.answers ++ List.replicate (rs.count .get) t := by
  induction rs generalizing s with
  | nil => exact ⟨s, rfl, by simp⟩
  | cons r rs ih =>
    obtain ⟨m, hm, hheld, hans⟩ := step_holds hs (hrs r List.mem_cons_self)
    obtain ⟨s', hs', hans'⟩ := ih hheld fun q hq => hrs q (List.mem_cons_of_mem _ hq)
    refine ⟨s', ?_, ?_⟩
    · rw [exec_cons, hm, Option.bind_some, hs']
    · have hcount : (r :: rs).count .get = [r].count .get + rs.count .get := by
        rw [← List.singleton_append, List.count_append]
      rw [hans', hans, hcount, List.append_assoc, List.replicate_append_replicate]

/-- **What the GETs after a POST are answered with**: the text with spaces for its plus signs. -/
theorem run_spec {t : Bytes} (ht : (0 : UInt8) ∉ t) (hfit : (encode t).length ≤ cgiDataLengthMax)
    {s : Server} (hsize : s.cgiData.length = cgiDataSize) {rs : List Request}
    (hrs : ∀ r ∈ rs, r.isPost = false) :
    ∃ s', exec step s (.post (bodyOf t).length (bodyOf t) :: rs) = some s' ∧
      s'.answers = List.replicate (rs.count .get) (t.map plusToSpace) := by
  obtain ⟨tail, hpost, -⟩ := cgiExample_post hfit hsize
  have hheld : Holds (t.map plusToSpace) ⟨t.map spaceToPlus ++ 0 :: tail, []⟩ := by
    refine ⟨t.map spaceToPlus, tail, rfl, ?_, ?_⟩
    · exact zero_not_mem_map spaceToPlus_eq_zero ht
    · rw [List.map_map]
      apply List.map_congr_left
      intro b _
      show plusToSpace (spaceToPlus b) = plusToSpace b
      unfold plusToSpace spaceToPlus
      split
      · next h => simp [h]
      · rfl
  obtain ⟨s', hs', hans⟩ := exec_holds hheld hrs
  refine ⟨s', ?_, by simpa using hans⟩
  rw [exec_cons, step, hpost]
  exact hs'

theorem map_plusToSpace_eq_self {t : Bytes} : t.map plusToSpace = t ↔ (43 : UInt8) ∉ t := by
  constructor
  · intro h hmem
    rw [← h] at hmem
    obtain ⟨b, -, hb⟩ := List.mem_map.mp hmem
    unfold plusToSpace at hb
    split at hb
    · exact absurd hb (by decide)
    · next hne => exact hne hb
  · intro h
    have hsame : ∀ b ∈ t, plusToSpace b = b := by
      intro b hb
      exact if_neg fun heq : b = 43 => h (heq ▸ hb)
    rw [List.map_congr_left hsame, List.map_id']

/-- One GET after the POST tells whether the text survived. -/
theorem no_plus_of_roundTrips {t : Bytes} (ht : (0 : UInt8) ∉ t)
    (hfit : (encode t).length ≤ cgiDataLengthMax) (h : RoundTrips t) : (43 : UInt8) ∉ t := by
  have hsize : (Server.mk (List.replicate cgiDataSize 0) []).cgiData.length = cgiDataSize := by simp
  have hget : ∀ r ∈ [Request.get], r.isPost = false := by decide
  obtain ⟨s1, hs1, hans1⟩ := h _ hsize [.get] hget
  obtain ⟨s2, hs2, hans2⟩ := run_spec ht hfit hsize hget
  obtain rfl : s1 = s2 := Option.some.inj (hs1.symm.trans hs2)
  apply map_plusToSpace_eq_self.mp
  simpa using hans2.symm.trans hans1

/-- **The round trip of a form value.** It holds exactly for the texts without a plus sign. -/
theorem roundTrips_iff (t : Bytes) (ht : (0 : UInt8) ∉ t)
    (hfit : (encode t).length ≤ cgiDataLengthMax) : RoundTrips t ↔ (43 : UInt8) ∉ t := by
  constructor
  · intro h
    exact no_plus_of_roundTrips ht hfit h
  · intro hplus s hsize rs hrs
    obtain ⟨s', hs', hans⟩ := run_spec ht hfit hsize hrs
    exact ⟨s', hs', by rw [hans, map_plusToSpace_eq_self.mpr hplus]⟩

theorem roundTrips_iff_percent :
    RoundTrips (ascii ['1', ' ', '%']) ↔ (43 : UInt8) ∉ ascii ['1', ' ', '%'] :=
  roundTrips_iff _ (by decide) (by decide)

/-- A text of one plus sign comes back as a space. -/
theorem not_roundTrips_plus :
    ¬∀ t : Bytes, (0 : UInt8) ∉ t → (encode t).length ≤ cgiDataLengthMax → RoundTrips t := by
  intro hall
  have ht : (0 : UInt8) ∉ ascii ['+'] := by decide
  have hfit : (encode (ascii ['+'])).length ≤ cgiDataLengthMax := by decide
  exact no_plus_of_roundTrips ht hfit (hall _ ht hfit) (by decide)

end EmWinDemo.Http.Cgi
