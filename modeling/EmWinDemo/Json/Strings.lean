/-
# EmWinDemo.Json.Strings -- how cJSON reads a text, and the strings in it

A pointer into the text is the list of the bytes from it to the end of the allocation.  Reading
through a pointer that stands at the end is an `overread`, writing behind what `cJSON_malloc`
returned an `overwrite`.  `cJSON_malloc` itself is taken to succeed, except in `Json.Build`.

`parse_string` measures a string first and then decodes it into a buffer of that size.  The
measure counts an escape as one byte, and `parseString_cases` says that this is enough for
whatever the text is: the decoder stays inside the buffer, and inside the text if the measuring
loop did.
-/
import EmWinDemo.Lib.Json

namespace EmWinDemo.Json

open EmWinDemo.Lib.CMemory EmWinDemo.Lib.CText EmWinDemo.Lib.Json

/-! ## Reading -/

/-- How a call ends without a result.  `fuel` is the model's own, and never comes up. -/
inductive Fault where
  /-- The text is rejected, `*ep` being the place. -/
  | invalid (ep : Bytes)
  /-- `cJSON_malloc` has returned null; `*ep` stays null too. -/
  | memory
  | overread
  | overwrite
  | fuel
  deriving Repr, DecidableEq

/-- `*p`. -/
def deref : Bytes → Except Fault UInt8
  | [] => .error .overread
  | b :: _ => .ok b

/-- `skip`. -/
def skip : Bytes → Except Fault Bytes
  | [] => .error .overread
  | b :: p => if b ≠ 0 ∧ b ≤ 32 then skip p else .ok (b :: p)

/-- `!strncmp(value, word, strlen(word))`. -/
def startsWith : Bytes → Bytes → Except Fault Bool
  | [], _ => .ok true
  | _ :: _, [] => .error .overread
  | c :: word, b :: value => if b = c then startsWith word value else .ok false

/-! ## `parse_hex4` -/

/-- The digits still to be read, and the value of those read. -/
def hexDigits : Nat → Nat → Bytes → Except Fault Nat
  | 0, h, _ => .ok h
  | _ + 1, _, [] => .error .overread
  | n + 1, h, b :: str =>
    if isXDigit b then hexDigits n (16 * h + xdigitValue b) str else .ok 0

def parseHex4 (str : Bytes) : Except Fault Nat := hexDigits 4 0 str

/-! ## `parse_string` -/

/-- The first loop: `len` and `end_ptr`. -/
def scan (len : Nat) : Bytes → Except Fault (Nat × Bytes)
  | [] => .error .overread
  | b :: p =>
    if b = 34 ∨ b = 0 then .ok (len, b :: p)
    else if b = 92 then
      match p with
      | [] => .error .overread
      | _ :: p => scan (len + 1) p
    else scan (len + 1) p

def firstByteMark : List Nat := [0x00, 0x00, 0xC0, 0xE0, 0xF0, 0xF8, 0xFC]

/-- The switch that falls through: `n` continuation bytes and then the first byte, from the back. -/
def writeBack (mark : Nat) : Nat → Nat → Bytes → Bytes
  | 0, uc, out => UInt8.ofNat (uc ||| mark) :: out
  | n + 1, uc, out => writeBack mark n (uc >>> 6) (UInt8.ofNat ((uc ||| 0x80) &&& 0xBF) :: out)

/-- The bytes written for a character. -/
def transcode (uc : Nat) : Bytes :=
  let len := if uc < 0x80 then 1 else if uc < 0x800 then 2 else if uc < 0x10000 then 3 else 4
  writeBack (firstByteMark.getD len 0) (len - 1) uc []

/-- `case 'u'`, with `p` behind the `u` and `stop` bytes left at `end_ptr`. -/
def unicode (str : Bytes) (stop : Nat) (p : Bytes) : Except Fault (Bytes × Bytes) := do
  let uc ← parseHex4 p
  if (p.drop 3).length ≤ stop then .error (.invalid str)
  else if (0xDC00 ≤ uc ∧ uc ≤ 0xDFFF) ∨ uc = 0 then .error (.invalid str)
  else if 0xD800 ≤ uc ∧ uc ≤ 0xDBFF then
    if (p.drop 3).length < stop + 6 then .error (.invalid str)
    else do
      let b ← deref (p.drop 4)
      let c ← deref (p.drop 5)
      if b ≠ 92 ∨ c ≠ 117 then .error (.invalid str)
      else do
        let uc2 ← parseHex4 (p.drop 6)
        if uc2 < 0xDC00 ∨ 0xDFFF < uc2 then .error (.invalid str)
        else .ok (transcode (0x10000 + (((uc &&& 0x3FF) <<< 10) ||| (uc2 &&& 0x3FF))), p.drop 10)
  else .ok (transcode uc, p.drop 4)

/-- One pass of the second loop: the bytes it writes and where it leaves `ptr`. -/
def unescape (str : Bytes) (stop : Nat) : Bytes → Except Fault (Bytes × Bytes)
  | [] => .error .overread
  | b :: ptr =>
    if b ≠ 92 then .ok ([b], ptr)
    else match ptr with
      | [] => .error .overread
      | c :: ptr =>
        if c = 98 then .ok ([8], ptr)
        else if c = 102 then .ok ([12], ptr)
        else if c = 110 then .ok ([10], ptr)
        else if c = 114 then .ok ([13], ptr)
        else if c = 116 then .ok ([9], ptr)
        else if c = 117 then unicode str stop ptr
        else .ok ([c], ptr)

/-- A write behind the bytes `out` into a buffer of `size` bytes. -/
def emit (size : Nat) (out bytes : Bytes) : Except Fault Bytes :=
  if out.length + bytes.length ≤ size then .ok (out ++ bytes) else .error .overwrite

/-- The second loop.  The NUL that ends the string is not part of the result. -/
def decode (str : Bytes) (stop size : Nat) : Nat → Bytes → Bytes → Except Fault (Bytes × Bytes)
  | 0, _, _ => .error .fuel
  | n + 1, out, ptr =>
    if ptr.length ≤ stop then do
      let _ ← emit size out [0]
      .ok (out, ptr)
    else do
      let (bytes, ptr) ← unescape str stop ptr
      let out ← emit size out bytes
      decode str stop size n out ptr

/-- `parse_string`: the string and the pointer behind it.  The closing quote may be missing. -/
def parseString : Bytes → Except Fault (Bytes × Bytes)
  | [] => .error .overread
  | b :: body =>
    if b ≠ 34 then .error (.invalid (b :: body))
    else do
      let (len, stop) ← scan 0 body
      let (out, ptr) ← decode (b :: body) stop.length (len + 1) (body.length + 1) [] body
      let c ← deref ptr
      .ok (out, if c = 34 then ptr.tail else ptr)

/-! ## What the measuring loop finds

`scan k p = .ok (len, stop)` serves as the invariant of the decoder: from the place it has reached
the measuring loop would still arrive at the same end with the same count, and it has written no
more than the `k` bytes counted so far.
-/

variable {k len : Nat} {p stop : Bytes}

theorem scan_escape (c : UInt8) : scan k (92 :: c :: p) = scan (k + 1) p := by
  rw [scan, if_neg (by decide), if_pos rfl]

theorem scan_plain {b : UInt8} (hquote : b ≠ 34) (hnul : b ≠ 0) (hslash : b ≠ 92) :
    scan k (b :: p) = scan (k + 1) p := by
  have hstop : ¬(b = 34 ∨ b = 0) := not_or.mpr ⟨hquote, hnul⟩
  rw [scan.eq_def]
  show (if b = 34 ∨ b = 0 then _ else if b = 92 then _ else scan (k + 1) p) = _
  rw [if_neg hstop, if_neg hslash]

theorem scan_stop {b : UInt8} (hb : b = 34 ∨ b = 0) : scan k (b :: p) = .ok (k, b :: p) := by
  unfold scan
  rw [if_pos hb]

/-- Where the loop stands if it goes on: at a plain byte or at an escape. -/
theorem scan_cases (h : scan k p = .ok (len, stop)) :
    (k = len ∧ p = stop ∧ ∃ b s, stop = b :: s ∧ (b = 34 ∨ b = 0)) ∨
      (∃ c q, p = 92 :: c :: q ∧ scan (k + 1) q = .ok (len, stop)) ∨
      ∃ b q, p = b :: q ∧ b ≠ 34 ∧ b ≠ 0 ∧ b ≠ 92 ∧ scan (k + 1) q = .ok (len, stop) := by
  match p with
  | [] => cases h
  | b :: q =>
    by_cases hstop : b = 34 ∨ b = 0
    · rw [scan_stop hstop] at h
      cases h
      exact Or.inl ⟨rfl, rfl, b, q, rfl, hstop⟩
    · obtain ⟨hquote, hnul⟩ := not_or.mp hstop
      by_cases hslash : b = 92
      · subst hslash
        match q with
        | [] => cases h
        | c :: q =>
          rw [scan_escape] at h
          exact Or.inr (Or.inl ⟨c, q, rfl, h⟩)
      · rw [scan_plain hquote hnul hslash] at h
        exact Or.inr (Or.inr ⟨b, q, rfl, hquote, hnul, hslash, h⟩)

/-- The loop stops inside what it scans, at a quote or a NUL, and counts upwards. -/
theorem scan_bounds (h : scan k p = .ok (len, stop)) :
    k ≤ len ∧ stop <:+ p ∧ ∃ b s, stop = b :: s ∧ (b = 34 ∨ b = 0) := by
  induction hn : p.length using Nat.strongRecOn generalizing k p with
  | ind n ih =>
    rcases scan_cases h with ⟨rfl, rfl, hstop⟩ | ⟨c, q, rfl, hq⟩ | ⟨b, q, rfl, -, -, -, hq⟩
    · exact ⟨le_refl k, List.suffix_refl p, hstop⟩
    · obtain ⟨hk, hsuffix, hstop⟩ := ih q.length (by simp only [← hn, List.length_cons]; omega) hq rfl
      refine ⟨by omega, hsuffix.trans ?_, hstop⟩
      exact ⟨[92, c], rfl⟩
    · obtain ⟨hk, hsuffix, hstop⟩ := ih q.length (by simp [← hn]) hq rfl
      exact ⟨by omega, hsuffix.trans (List.suffix_cons b q), hstop⟩

theorem scan_error {f : Fault} (h : scan k p = .error f) : f = .overread := by
  induction hn : p.length using Nat.strongRecOn generalizing k p with
  | ind n ih =>
    match p with
    | [] =>
      cases h
      rfl
    | b :: q =>
      unfold scan at h
      split at h
      · cases h
      · split at h
        · match q with
          | [] =>
            cases h
            rfl
          | c :: q => exact ih q.length (by simp only [← hn, List.length_cons]; omega) h rfl
        · exact ih q.length (by simp [← hn]) h rfl

theorem xdigit_not_special {b : UInt8} (h : isXDigit b = true) : b ≠ 34 ∧ b ≠ 0 ∧ b ≠ 92 := by
  refine ⟨?_, ?_, ?_⟩ <;> · rintro rfl; revert h; decide

/-- `parse_hex4` reads no further than the measuring loop, and if it returns anything but zero it
has read `n` digits. -/
theorem hexDigits_scan (h : scan k p = .ok (len, stop)) (n acc : Nat) :
    ∃ v, hexDigits n acc p = .ok v ∧
      (v = 0 ∨ (n ≤ p.length ∧ scan (k + n) (p.drop n) = .ok (len, stop))) := by
  induction n generalizing k p acc with
  | zero => exact ⟨acc, rfl, Or.inr ⟨Nat.zero_le _, h⟩⟩
  | succ n ih =>
    match p with
    | [] => cases h
    | b :: q =>
      by_cases hb : isXDigit b = true
      · obtain ⟨hquote, hnul, hslash⟩ := xdigit_not_special hb
        rw [scan_plain hquote hnul hslash] at h
        obtain ⟨v, hv, hrest⟩ := ih h (16 * acc + xdigitValue b)
        refine ⟨v, by rw [hexDigits, if_pos hb, hv], hrest.imp_right ?_⟩
        rintro ⟨hn, hscan⟩
        refine ⟨Nat.succ_le_succ hn, ?_⟩
        rw [List.drop_succ_cons, show k + (n + 1) = k + 1 + n by omega]
        exact hscan
      · exact ⟨0, by rw [hexDigits, if_neg hb], Or.inl rfl⟩

/-! ## The decoder stays inside its buffer -/

theorem length_writeBack (mark n uc : Nat) (out : Bytes) :
    (writeBack mark n uc out).length = n + 1 + out.length := by
  induction n generalizing uc out with
  | zero => simp [writeBack, Nat.add_comm]
  | succ n ih =>
    rw [writeBack, ih]
    simp only [List.length_cons]
    omega

theorem length_transcode (uc : Nat) : (transcode uc).length ≤ 4 := by
  unfold transcode
  simp only [length_writeBack, List.length_nil]
  split
  · decide
  · split
    · decide
    · split <;> decide

/-- What a pass does: it rejects the string, or it goes on to a place where the measuring loop has
counted at least the bytes written. -/
def Passes (k len : Nat) (str stop p : Bytes) (r : Except Fault (Bytes × Bytes)) : Prop :=
  r = .error (.invalid str) ∨ ∃ bytes q k', r = .ok (bytes, q) ∧
    scan k' q = .ok (len, stop) ∧ k + bytes.length ≤ k' ∧ q.length < p.length

theorem deref_of_lt {n : Nat} (h : n < p.length) : ∃ b, deref (p.drop n) = .ok b ∧
    p.drop n = b :: p.drop (n + 1) := by
  refine ⟨p[n], ?_, List.drop_eq_getElem_cons h⟩
  rw [List.drop_eq_getElem_cons h]
  rfl

theorem unicode_passes (h : scan k p = .ok (len, stop)) (str : Bytes) :
    Passes k len str stop (92 :: 117 :: p) (unicode str stop.length p) := by
  obtain ⟨uc, huc, hread⟩ := hexDigits_scan h 4 0
  have hhex : parseHex4 p = .ok uc := huc
  obtain ⟨-, -, c, s, hstop, -⟩ := scan_bounds h
  have hpos : 0 < stop.length := by simp [hstop]
  simp only [unicode, hhex, bind, Except.bind]
  split
  · exact Or.inl rfl
  split
  · exact Or.inl rfl
  next hroom hvalid =>
  obtain ⟨-, hzero⟩ := not_or.mp hvalid
  obtain ⟨hlen, hfour⟩ := hread.resolve_left hzero
  split
  · split
    · exact Or.inl rfl
    next hpair =>
    rw [List.length_drop] at hpair
    obtain ⟨b, hb, hbcons⟩ := deref_of_lt (p := p) (n := 4) (by omega)
    obtain ⟨d, hd, hdcons⟩ := deref_of_lt (p := p) (n := 5) (by omega)
    simp only [hb, hd]
    split
    · exact Or.inl rfl
    next hescape =>
    obtain ⟨hslash, -⟩ := not_or.mp hescape
    -- the second escape is measured like the first
    have hsix : scan (k + 4 + 1) (p.drop 6) = .ok (len, stop) := by
      rw [hbcons, hdcons, not_not.mp hslash, scan_escape] at hfour
      exact hfour
    obtain ⟨uc2, huc2, hread2⟩ := hexDigits_scan hsix 4 0
    have hhex2 : parseHex4 (p.drop 6) = .ok uc2 := huc2
    simp only [hhex2]
    split
    · exact Or.inl rfl
    next hlow =>
    obtain ⟨hlow, -⟩ := not_or.mp hlow
    obtain ⟨-, hten⟩ := hread2.resolve_left (by omega)
    rw [List.drop_drop] at hten
    refine Or.inr ⟨_, _, k + 4 + 1 + 4, rfl, hten, ?_, ?_⟩
    · have := length_transcode (0x10000 + (((uc &&& 0x3FF) <<< 10) ||| (uc2 &&& 0x3FF)))
      omega
    · simp only [List.length_drop, List.length_cons]
      omega
  · refine Or.inr ⟨_, _, k + 4, rfl, hfour, ?_, ?_⟩
    · have := length_transcode uc
      omega
    · simp only [List.length_drop, List.length_cons]
      omega

theorem unescape_passes (h : scan k p = .ok (len, stop)) (hlt : stop.length < p.length)
    (str : Bytes) : Passes k len str stop p (unescape str stop.length p) := by
  rcases scan_cases h with ⟨-, rfl, -⟩ | ⟨c, q, rfl, hq⟩ | ⟨b, q, rfl, -, -, hslash, hq⟩
  · exact absurd hlt (lt_irrefl _)
  · have hone : ∀ b : UInt8, Passes k len str stop (92 :: c :: q) (.ok ([b], q)) :=
      fun b => Or.inr ⟨[b], q, k + 1, rfl, hq, by simp, by simp only [List.length_cons]; omega⟩
    rw [unescape, if_neg (by decide)]
    show Passes k len str stop (92 :: c :: q) (if c = 98 then .ok ([8], q) else _)
    split
    · exact hone 8
    split
    · exact hone 12
    split
    · exact hone 10
    split
    · exact hone 13
    split
    · exact hone 9
    split
    · next hu =>
      subst hu
      -- the first two bytes of the escape are measured as one
      rcases unicode_passes hq str with hinvalid | ⟨bytes, r, k', hr, hscan, hk', hlen⟩
      · exact Or.inl hinvalid
      · exact Or.inr ⟨bytes, r, k', hr, hscan, by omega, hlen⟩
    · exact hone c
  · refine Or.inr ⟨[b], q, k + 1, ?_, hq, by simp, by simp⟩
    rw [unescape.eq_def]
    show (if b ≠ 92 then _ else _) = _
    rw [if_pos hslash]

/-- The run lemma of the second loop. -/
theorem decode_cases (str out : Bytes) {n : Nat} (h : scan k p = .ok (len, stop))
    (hout : out.length ≤ k) (hn : p.length < n) :
    decode str stop.length (len + 1) n out p = .error (.invalid str) ∨
      ∃ out', decode str stop.length (len + 1) n out p = .ok (out', stop) ∧
        out'.length ≤ len := by
  induction n generalizing k p out with
  | zero => exact absurd hn (Nat.not_lt_zero _)
  | succ n ih =>
    obtain ⟨hk, hsuffix, -⟩ := scan_bounds h
    rw [decode]
    split
    · next hend =>
      have hp : stop = p := hsuffix.eq_of_length_le hend
      refine Or.inr ⟨out, ?_, by omega⟩
      rw [emit, if_pos (by simp; omega), hp]
      rfl
    · next hlt =>
      rcases unescape_passes h (by omega) str with hbad | ⟨bytes, q, k', hq, hscan, hk', hlen⟩
      · left
        rw [hbad]
        rfl
      · obtain ⟨hk'len, -, -⟩ := scan_bounds hscan
        have hroom : out.length + bytes.length ≤ len + 1 := by omega
        simp only [hq, bind, Except.bind, emit, if_pos hroom]
        exact ih _ hscan (by rw [List.length_append]; omega) (by omega)

/-- **The three ways `parse_string` ends.** It reads outside the text only if the measuring loop
does, it rejects the string, or what it decodes fits into the buffer that was measured. -/
theorem parseString_cases (str : Bytes) :
    (parseString str = .error .overread ∧
        (str = [] ∨ ∃ body, str = 34 :: body ∧ scan 0 body = .error .overread)) ∨
      parseString str = .error (.invalid str) ∨
      ∃ body len stop out, str = 34 :: body ∧ scan 0 body = .ok (len, stop) ∧
        out.length ≤ len ∧
        parseString str = .ok (out, if stop.head? = some 34 then stop.tail else stop) := by
  match str with
  | [] => exact Or.inl ⟨rfl, Or.inl rfl⟩
  | b :: body =>
    rw [parseString]
    split
    · exact Or.inr (Or.inl rfl)
    next hb =>
    obtain rfl : b = 34 := not_not.mp hb
    match hscan : scan 0 body with
    | .error f =>
      left
      obtain rfl := scan_error hscan
      exact ⟨rfl, Or.inr ⟨body, rfl, hscan⟩⟩
    | .ok (len, stop) =>
      right
      obtain ⟨-, -, c, s, rfl, hc⟩ := scan_bounds hscan
      rcases decode_cases (34 :: body) [] hscan (le_refl 0) (Nat.lt_succ_self body.length) with
        hbad | ⟨out, hok, hlen⟩
      · left
        simp only [bind, Except.bind]
        rw [hbad]
      · right
        refine ⟨body, len, c :: s, out, rfl, hscan, hlen, ?_⟩
        simp only [bind, Except.bind]
        rw [hok]
        simp [deref]

end EmWinDemo.Json
