/-
# EmWinDemo.Json.StringTexts -- every way to write a string is decoded to that string

The second half of the account of `parse_string`: `parseString_body` says that the text of a
string between its quotes, however its characters are escaped, is decoded to the UTF-8 of the
string.  What a character is transcoded to is compared with the encoding of the core library.
-/
import EmWinDemo.Json.Strings

namespace EmWinDemo.Json

open EmWinDemo.Lib.CMemory EmWinDemo.Lib.CText EmWinDemo.Lib.Json

/-! ## Transcoding -/

/-- Or and mask put the low six bits into a continuation byte. -/
theorem continuation (x : Nat) :
    UInt8.ofNat ((x ||| 0x80) &&& 0xBF) = UInt8.ofNat (x % 0x40 + 0x80) := by
  have hall : ∀ y : Fin 256, (y.val ||| 0x80) &&& 0xBF = y.val % 0x40 + 0x80 := by decide +kernel
  have hor : (x ||| 0x80) % 2 ^ 8 = x % 2 ^ 8 ||| 0x80 % 2 ^ 8 := Nat.or_mod_two_pow
  have hand : ((x ||| 0x80) &&& 0xBF) % 2 ^ 8 = (x ||| 0x80) % 2 ^ 8 &&& 0xBF % 2 ^ 8 :=
    Nat.and_mod_two_pow
  have hlow : (x % 256 ||| 0x80) &&& 0xBF = x % 256 % 0x40 + 0x80 :=
    hall ⟨x % 256, Nat.mod_lt x (by decide)⟩
  apply UInt8.toNat_inj.mp
  simp only [UInt8.toNat_ofNat']
  rw [hand, hor]
  show (x % 256 ||| 128) &&& 191 = _
  rw [hlow]
  omega

/-- Or puts the mark above the bits of a first byte. -/
theorem firstByte {x : Nat} : (x < 0x20 → x ||| 0xC0 = x % 0x20 + 0xC0) ∧
    (x < 0x10 → x ||| 0xE0 = x % 0x10 + 0xE0) ∧ (x < 0x08 → x ||| 0xF0 = x % 0x08 + 0xF0) := by
  have htwo : ∀ y < 0x20, y ||| 0xC0 = y % 0x20 + 0xC0 := by decide
  have hthree : ∀ y < 0x10, y ||| 0xE0 = y % 0x10 + 0xE0 := by decide
  have hfour : ∀ y < 0x08, y ||| 0xF0 = y % 0x08 + 0xF0 := by decide
  exact ⟨htwo x, hthree x, hfour x⟩

theorem toNat_lt (c : Char) : c.toNat < 0x110000 := by
  rcases c.valid with h | ⟨-, h⟩
  · exact h.trans (by decide)
  · exact h

/-- A character is transcoded to its UTF-8. -/
theorem transcode_char (c : Char) : transcode c.toNat = String.utf8EncodeChar c := by
  have hc := toNat_lt c
  unfold transcode String.utf8EncodeChar
  rw [show c.val.toNat = c.toNat from rfl]
  generalize c.toNat = v at hc
  show writeBack _ _ v [] = if v ≤ 0x7f then _ else if v ≤ 0x7ff then _ else
    if v ≤ 0xffff then _ else _
  by_cases hone : v < 0x80
  · rw [if_pos hone, if_pos (Nat.le_of_lt_succ hone)]
    show [UInt8.ofNat (v ||| 0)] = _
    rw [Nat.or_zero]
  simp only [if_neg hone, if_neg (show ¬v ≤ 0x7f by omega)]
  by_cases htwo : v < 0x800
  · have hfirst : v >>> 6 ||| 0xC0 = v / 64 % 0x20 + 0xC0 := by
      rw [firstByte.1 (by rw [Nat.shiftRight_eq_div_pow]; omega), Nat.shiftRight_eq_div_pow]
    simp only [if_pos htwo, if_pos (show v ≤ 0x7ff by omega)]
    show [UInt8.ofNat (v >>> 6 ||| 0xC0), UInt8.ofNat ((v ||| 0x80) &&& 0xBF)] = _
    rw [hfirst, continuation]
  simp only [if_neg htwo, if_neg (show ¬v ≤ 0x7ff by omega)]
  by_cases hthree : v < 0x10000
  · have hfirst : v >>> 6 >>> 6 ||| 0xE0 = v / 4096 % 0x10 + 0xE0 := by
      rw [← Nat.shiftRight_add, Nat.shiftRight_eq_div_pow, firstByte.2.1 (by omega)]
    simp only [if_pos hthree, if_pos (show v ≤ 0xffff by omega)]
    show [UInt8.ofNat (v >>> 6 >>> 6 ||| 0xE0), UInt8.ofNat ((v >>> 6 ||| 0x80) &&& 0xBF),
      UInt8.ofNat ((v ||| 0x80) &&& 0xBF)] = _
    rw [hfirst, continuation, continuation, Nat.shiftRight_eq_div_pow]
  · have hfirst : v >>> 6 >>> 6 >>> 6 ||| 0xF0 = v / 262144 % 0x08 + 0xF0 := by
      rw [← Nat.shiftRight_add, ← Nat.shiftRight_add, Nat.shiftRight_eq_div_pow,
        firstByte.2.2 (by omega)]
    simp only [if_neg hthree, if_neg (show ¬v ≤ 0xffff by omega)]
    show [UInt8.ofNat (v >>> 6 >>> 6 >>> 6 ||| 0xF0),
      UInt8.ofNat ((v >>> 6 >>> 6 ||| 0x80) &&& 0xBF), UInt8.ofNat ((v >>> 6 ||| 0x80) &&& 0xBF),
      UInt8.ofNat ((v ||| 0x80) &&& 0xBF)] = _
    rw [hfirst, continuation, continuation, continuation, ← Nat.shiftRight_add,
      Nat.shiftRight_eq_div_pow, Nat.shiftRight_eq_div_pow]

/-- The two halves of a pair give the character back. -/
theorem surrogates_char {v : Nat} (hlow : 0x10000 ≤ v) (hhigh : v < 0x110000) :
    0x10000 + ((((0xD800 + (v - 0x10000) / 0x400) &&& 0x3FF) <<< 10) |||
      ((0xDC00 + (v - 0x10000) % 0x400) &&& 0x3FF)) = v := by
  have hmask (x : Nat) : x &&& 0x3FF = x % 0x400 := Nat.and_two_pow_sub_one_eq_mod x 10
  have hor := Nat.shiftLeft_add_eq_or_of_lt (b := (0xDC00 + (v - 0x10000) % 0x400) % 0x400) (i := 10)
    (Nat.mod_lt _ (by decide)) ((0xD800 + (v - 0x10000) / 0x400) % 0x400)
  rw [hmask, hmask, ← hor, Nat.shiftLeft_eq]
  omega

/-! ## Hexadecimal digits -/

theorem hexDigits_append {t : Bytes} (ht : ∀ b ∈ t, isXDigit b = true) (h : Nat) (rest : Bytes) :
    hexDigits t.length h (t ++ rest) = .ok (strtol16 h t) := by
  induction t generalizing h with
  | nil => rfl
  | cons b t ih =>
    have hb := ht b List.mem_cons_self
    rw [List.cons_append, List.length_cons, hexDigits, if_pos hb,
      ih fun c hc => ht c (List.mem_cons_of_mem b hc), strtol16, if_pos hb]

theorem parseHex4_append {n : Nat} {t : Bytes} (ht : Hex4 n t) (rest : Bytes) :
    parseHex4 (t ++ rest) = .ok n := by
  have h := hexDigits_append ht.digits 0 rest
  rw [ht.length_eq, ht.value] at h
  exact h

theorem scan_hex {t : Bytes} (ht : ∀ b ∈ t, isXDigit b = true) (k : Nat) (rest : Bytes) :
    scan k (t ++ rest) = scan (k + t.length) rest := by
  induction t generalizing k with
  | nil => rfl
  | cons b t ih =>
    obtain ⟨hquote, hnul, hslash⟩ := xdigit_not_special (ht b List.mem_cons_self)
    rw [List.cons_append, scan_plain hquote hnul hslash,
      ih fun c hc => ht c (List.mem_cons_of_mem b hc), List.length_cons]
    congr 1
    omega

/-! ## One character -/

variable {s t : Bytes}

theorem length_piece (h : Piece s t) : 0 < t.length := by
  cases h with
  | plain _ _ _ => exact Nat.zero_lt_one
  | escape _ => exact Nat.zero_lt_two
  | unicode _ _ => simp
  | surrogates _ _ _ => simp

theorem length_utf8EncodeChar_le (c : Char) : (String.utf8EncodeChar c).length ≤ 4 := by
  rw [← transcode_char]
  exact length_transcode _

/-- The measuring loop counts at least the bytes of the character. -/
theorem piece_scan (h : Piece s t) (k : Nat) (rest : Bytes) :
    ∃ k', k + s.length ≤ k' ∧ scan k (t ++ rest) = scan k' rest := by
  cases h with
  | @plain b hlow hquote hslash =>
    have hnul : b ≠ 0 := by
      rintro rfl
      exact absurd hlow (by decide)
    exact ⟨k + 1, by simp, scan_plain hquote hnul hslash⟩
  | @escape c b _ => exact ⟨k + 1, by simp, scan_escape c⟩
  | @unicode c t _ ht =>
    have := length_utf8EncodeChar_le c
    refine ⟨k + 1 + t.length, by rw [ht.length_eq]; omega, ?_⟩
    rw [← scan_hex ht.digits (k + 1) rest]
    exact scan_escape 117
  | @surrogates c high low _ hhigh hlow =>
    have := length_utf8EncodeChar_le c
    refine ⟨k + 1 + high.length + 1 + low.length, by rw [hhigh.length_eq]; omega, ?_⟩
    rw [← scan_hex hlow.digits (k + 1 + high.length + 1) rest, ← scan_escape 117,
      ← scan_hex hhigh.digits (k + 1), ← scan_escape 117]
    simp

theorem drop_hex4 {n : Nat} (ht : Hex4 n t) (rest : Bytes) (m : Nat) :
    (t ++ rest).drop (4 + m) = rest.drop m := by
  rw [← ht.length_eq, List.drop_length_add_append]

/-- One pass of the second loop decodes the character. -/
theorem piece_unescape (h : Piece s t) (str rest : Bytes) {stop : Nat} (hstop : stop ≤ rest.length) :
    unescape str stop (t ++ rest) = .ok (s, rest) := by
  cases h with
  | @plain b hlow hquote hslash =>
    rw [unescape.eq_def]
    show (if b ≠ 92 then _ else _) = _
    rw [if_pos hslash]
    rfl
  | @escape c b hmem =>
    rw [unescape.eq_def]
    show (if (92 : UInt8) ≠ 92 then _ else _) = _
    rw [if_neg (by decide)]
    simp only [escapes, List.mem_cons, Prod.mk.injEq, List.not_mem_nil, or_false] at hmem
    rcases hmem with ⟨rfl, rfl⟩ | ⟨rfl, rfl⟩ | ⟨rfl, rfl⟩ | ⟨rfl, rfl⟩ | ⟨rfl, rfl⟩ | ⟨rfl, rfl⟩ |
      ⟨rfl, rfl⟩ | ⟨rfl, rfl⟩ <;> rfl
  | @unicode c t hzero ht =>
    show unicode str stop (t ++ rest) = _
    have hroom : ¬((t ++ rest).drop 3).length ≤ stop := by
      rw [List.length_drop, List.length_append, ht.length_eq]
      omega
    have hscalar : ¬((0xDC00 ≤ c.toNat ∧ c.toNat ≤ 0xDFFF) ∨ c.toNat = 0) := by
      rcases c.valid with hc | ⟨hc, -⟩
      · have : c.toNat < 0xD800 := hc
        omega
      · have : 0xDFFF < c.toNat := hc
        omega
    have hhigh : ¬(0xD800 ≤ c.toNat ∧ c.toNat ≤ 0xDBFF) := by
      rcases c.valid with hc | ⟨hc, -⟩
      · have : c.toNat < 0xD800 := hc
        omega
      · have : 0xDFFF < c.toNat := hc
        omega
    simp only [unicode, parseHex4_append ht, bind, Except.bind]
    rw [if_neg hroom, if_neg hscalar, if_neg hhigh, transcode_char, drop_hex4 ht rest 0,
      List.drop_zero]
  | @surrogates c high low hc hhigh hlow =>
    have hlt := toNat_lt c
    have happ : high ++ 92 :: 117 :: low ++ rest = high ++ 92 :: 117 :: (low ++ rest) := by simp
    show unicode str stop (high ++ 92 :: 117 :: low ++ rest) = _
    rw [happ]
    generalize hp : high ++ 92 :: 117 :: (low ++ rest) = p
    have hlen : p.length = 10 + rest.length := by
      rw [← hp]
      simp only [List.length_append, List.length_cons, hhigh.length_eq, hlow.length_eq]
      omega
    have hdrop (m : Nat) : p.drop (4 + m) = (92 :: 117 :: (low ++ rest)).drop m := by
      rw [← hp, drop_hex4 hhigh]
    have hfirst : parseHex4 p = .ok (0xD800 + (c.toNat - 0x10000) / 0x400) := by
      rw [← hp, parseHex4_append hhigh]
    have hsecond : parseHex4 (p.drop 6) = .ok (0xDC00 + (c.toNat - 0x10000) % 0x400) := by
      rw [hdrop 2]
      exact parseHex4_append hlow rest
    have hrest : p.drop 10 = rest := by
      rw [hdrop 6]
      exact drop_hex4 hlow rest 0
    have hb : deref (p.drop 4) = .ok 92 := by
      rw [hdrop 0]
      rfl
    have hd : deref (p.drop 5) = .ok 117 := by
      rw [hdrop 1]
      rfl
    simp only [unicode, hfirst, hsecond, hb, hd, bind, Except.bind]
    rw [if_neg (by rw [List.length_drop]; omega), if_neg (by omega), if_pos (by omega),
      if_neg (by rw [List.length_drop]; omega), if_neg (by decide), if_neg (by omega),
      surrogates_char hc hlt, transcode_char, hrest]

/-! ## The whole string -/

theorem body_scan (h : Body s t) (k : Nat) (rest : Bytes) :
    ∃ k', k + s.length ≤ k' ∧ scan k (t ++ 34 :: rest) = .ok (k', 34 :: rest) := by
  induction h generalizing k with
  | nil => exact ⟨k, le_refl k, scan_stop (Or.inl rfl)⟩
  | @cons s t s' t' hp hs ih =>
    obtain ⟨k', hk', hscan⟩ := piece_scan hp k (t' ++ 34 :: rest)
    obtain ⟨len, hlen, hstop⟩ := ih k'
    refine ⟨len, by rw [List.length_append]; omega, ?_⟩
    rw [List.append_assoc, hscan, hstop]

theorem body_decode (h : Body s t) (str rest : Bytes) {size n : Nat} {out : Bytes}
    (hn : t.length < n) (hout : out.length + s.length + 1 ≤ size) :
    decode str (34 :: rest).length size n out (t ++ 34 :: rest) = .ok (out ++ s, 34 :: rest) := by
  induction h generalizing n out with
  | nil =>
    obtain ⟨n, rfl⟩ := Nat.exists_eq_succ_of_ne_zero (Nat.ne_of_gt hn)
    have hfits : out.length + [(0 : UInt8)].length ≤ size := by simpa using hout
    rw [decode, List.nil_append, if_pos (le_refl _), emit, if_pos hfits, List.append_nil]
    rfl
  | @cons s t s' t' hp hs ih =>
    obtain ⟨n, rfl⟩ := Nat.exists_eq_succ_of_ne_zero (Nat.ne_of_gt (Nat.zero_lt_of_lt hn))
    have hpos := length_piece hp
    simp only [List.length_append] at hn hout
    have hle : (34 :: rest).length ≤ (t' ++ 34 :: rest).length := by
      rw [List.length_append]
      omega
    have hmore : ¬(t ++ t' ++ 34 :: rest).length ≤ (34 :: rest).length := by
      simp only [List.length_append]
      omega
    have hfits : out.length + s.length ≤ size := by omega
    rw [decode, if_neg hmore, List.append_assoc t]
    simp only [piece_unescape hp str (t' ++ 34 :: rest) hle, bind, Except.bind, emit, if_pos hfits]
    rw [ih (by omega) (by rw [List.length_append]; omega), List.append_assoc]

/-- **The text of a string is decoded to the string.** -/
theorem parseString_body (h : Body s t) (rest : Bytes) :
    parseString (34 :: (t ++ 34 :: rest)) = .ok (s, rest) := by
  obtain ⟨len, hlen, hscan⟩ := body_scan h 0 rest
  have hfuel : t.length < (t ++ 34 :: rest).length + 1 := by
    rw [List.length_append]
    omega
  have hsize : ([] : Bytes).length + s.length + 1 ≤ len + 1 := by
    rw [List.length_nil]
    omega
  have hdecode := body_decode h (34 :: (t ++ 34 :: rest)) rest hfuel hsize
  rw [parseString, if_neg (by decide)]
  simp only [hscan, hdecode, bind, Except.bind]
  rfl

end EmWinDemo.Json
