/-
# EmWinDemo.Http.RtcData -- the up-time that the web server reports

`cgi_rtc_data` (http_server.c) prints the hours, minutes and seconds since the start into a local
buffer with room for two digits each, and announces and sends as many bytes as `snprintf` returns.
That is the length of the whole text, also where the buffer holds only the start of it.

`answersTime_iff` says for which values of the tick counter the response is the text.
-/
import EmWinDemo.Lib.Numerals
import EmWinDemo.Http.Cgi

namespace EmWinDemo.Http.RtcData

open EmWinDemo.Lib.CMemory EmWinDemo.Lib.CText EmWinDemo.Lib.Numerals EmWinDemo.Http.Cgi

/-! ## The response -/

/-- `BUFF_SIZE`, the size of `"00\n00\n00\n"` with its terminator. -/
def buffSize : Nat := 10

/-- The text that the format string makes of the three numbers. -/
def timeText (hour min sec : Nat) : Bytes :=
  decimalText hour ++ [10] ++ (decimalText min ++ [10]) ++ (decimalText sec ++ [10])

/-- `snprintf` into an array of `n` bytes, `n` being positive: the array afterwards, and the result,
which is the length of the text whether it fits or not. -/
def snprintf (n : Nat) (text : Bytes) : List (Option UInt8) × Nat :=
  let stored := text.take (n - 1)
  (stored.map some ++ some 0 :: List.replicate (n - 1 - stored.length) none, text.length)

/-- `HTTPSRV_CGI_RES_STRUCT`, without the handle of the session. -/
structure RtcResponse where
  contentType : ContentType
  statusCode : Nat
  data : List (Option UInt8)
  dataLength : Nat
  contentLength : Nat
  deriving Repr, DecidableEq

/-- The bytes that `HTTPSRV_cgi_write` sends; those behind the array are indeterminate. -/
def RtcResponse.sent (r : RtcResponse) : List (Option UInt8) :=
  r.data.take r.dataLength ++ List.replicate (r.dataLength - r.data.length) none

/-- `cgi_rtc_data`: its result, and what it hands to `HTTPSRV_cgi_write`. -/
def cgiRtcData (request : Request) (sysNow : UInt32) : Nat × Option RtcResponse :=
  match request with
  | .get =>
    let sec := sysNow / 1000
    let min := sec / 60
    let hour := min / 60
    let min := min % 60
    let sec := sec % 60
    let (str, length) := snprintf buffSize (timeText hour.toNat min.toNat sec.toNat)
    let response : RtcResponse := ⟨.plain, 200, str, length, length⟩
    (response.contentLength, some response)
  | .post _ _ => (0, none)
  | .other => (0, none)

/-! ## What should be sent -/

/-- The response announces and sends the text, which stands terminated in its buffer. -/
structure Carries (text : Bytes) (r : RtcResponse) : Prop where
  stored : readCells r.data = some text
  dataLength : r.dataLength = text.length
  contentLength : r.contentLength = text.length
  sent : r.sent = text.map some

/-- The answer to a GET at the time `t`. -/
def AnswersTime (t : UInt32) : Prop :=
  ∃ r, (cgiRtcData .get t).2 = some r ∧
    Carries (timeText (t.toNat / 3600000) (t.toNat / 60000 % 60) (t.toNat / 1000 % 60)) r

/-! ## The text -/

theorem zero_not_mem_timeText (hour min sec : Nat) : (0 : UInt8) ∉ timeText hour min sec := by
  have hdecimal : ∀ n, (0 : UInt8) ∉ decimalText n := by
    intro n hzero
    have hdigit := isDigit_decimalText n 0 hzero
    exact absurd hdigit (by decide)
  simp [timeText, hdecimal]

/-- The numbers that leave room for the terminator. -/
theorem length_timeText_lt_iff {hour min sec : Nat} (hh : hour < 10000) (hm : min < 60)
    (hs : sec < 60) : (timeText hour min sec).length < buffSize ↔
      hour < 100 ∨ hour < 1000 ∧ (min < 10 ∨ sec < 10) ∨ min < 10 ∧ sec < 10 := by
  have hpos : ∀ n, 0 < (decimalText n).length := by
    intro n
    rw [decimalText, ascii, List.length_map]
    exact Nat.length_toDigits_pos
  have hone : ∀ n, (decimalText n).length ≤ 1 ↔ n < 10 := fun n =>
    length_decimalText_le_iff Nat.one_pos
  have htwo : ∀ n, (decimalText n).length ≤ 2 ↔ n < 100 := fun n =>
    length_decimalText_le_iff Nat.two_pos
  have hthree := length_decimalText_le_iff (n := hour) (k := 3) (by decide)
  have hfour := length_decimalText_le_iff (n := hour) (k := 4) (by decide)
  have hh1 := hone hour
  have hh2 := htwo hour
  have hm1 := hone min
  have hm2 := htwo min
  have hs1 := hone sec
  have hs2 := htwo sec
  have hhpos := hpos hour
  have hmpos := hpos min
  have hspos := hpos sec
  simp only [timeText, List.length_append, List.length_cons, List.length_nil, buffSize]
  omega

/-! ## The buffer -/

/-- **What is sent** is the text exactly when it fits with its terminator. -/
theorem carries_snprintf_iff {text : Bytes} (h : (0 : UInt8) ∉ text) (n : Nat) (hn : 0 < n) :
    Carries text ⟨.plain, 200, (snprintf n text).1, (snprintf n text).2, (snprintf n text).2⟩ ↔
      text.length < n := by
  constructor
  · intro hc
    have hstored := hc.stored
    have htake : (0 : UInt8) ∉ text.take (n - 1) := fun hm => h (List.mem_of_mem_take hm)
    rw [snprintf, readCells_terminated htake] at hstored
    have hlen := congrArg List.length (Option.some.inj hstored)
    rw [List.length_take] at hlen
    omega
  · intro hlt
    have htake : text.take (n - 1) = text := List.take_of_length_le (by omega)
    have hdata : (snprintf n text).1 =
        text.map some ++ some 0 :: List.replicate (n - 1 - text.length) none := by
      rw [snprintf, htake]
    refine ⟨?_, rfl, rfl, ?_⟩
    · show readCells (snprintf n text).1 = _
      rw [hdata, readCells_terminated h]
    · show (snprintf n text).1.take text.length ++
        List.replicate (text.length - (snprintf n text).1.length) none = _
      have hfront : text.length = (text.map (some : UInt8 → Option UInt8)).length := by simp
      have hroom : text.length - (snprintf n text).1.length = 0 := by
        rw [hdata]
        simp
      rw [hroom, hdata]
      conv in List.take text.length _ => rw [hfront, List.take_left]
      simp

/-- **The up-time.** The response is the text exactly when the text has at most nine characters:
below a hundred hours, below a thousand in the first ten minutes of an hour or seconds of a
minute, and after that in the first ten seconds of the first ten minutes of an hour. -/
theorem answersTime_iff (t : UInt32) : AnswersTime t ↔
    t.toNat / 3600000 < 100 ∨
      t.toNat / 3600000 < 1000 ∧ (t.toNat / 60000 % 60 < 10 ∨ t.toNat / 1000 % 60 < 10) ∨
      t.toNat / 60000 % 60 < 10 ∧ t.toNat / 1000 % 60 < 10 := by
  have hhour : (t / 1000 / 60 / 60).toNat = t.toNat / 3600000 := by
    simp [Nat.div_div_eq_div_mul]
  have hmin : (t / 1000 / 60 % 60).toNat = t.toNat / 60000 % 60 := by
    simp [Nat.div_div_eq_div_mul]
  have hsec : (t / 1000 % 60).toNat = t.toNat / 1000 % 60 := by
    simp
  have hhours : t.toNat / 3600000 < 10000 := by
    have := t.toNat_lt
    omega
  have hminutes : t.toNat / 60000 % 60 < 60 := Nat.mod_lt _ (by decide)
  have hseconds : t.toNat / 1000 % 60 < 60 := Nat.mod_lt _ (by decide)
  have hcarries := carries_snprintf_iff (zero_not_mem_timeText (t.toNat / 3600000)
    (t.toNat / 60000 % 60) (t.toNat / 1000 % 60)) buffSize (by decide)
  rw [← length_timeText_lt_iff hhours hminutes hseconds, ← hcarries, AnswersTime]
  simp only [cgiRtcData, hhour, hmin, hsec, Option.some.injEq, exists_eq_left']

/-- A hundred hours, ten minutes and ten seconds. -/
theorem not_answersTime_hundredHours : ¬∀ t : UInt32, AnswersTime t := by
  intro hall
  obtain ⟨r, hr, hc⟩ := hall 360610000
  obtain rfl := Option.some.inj hr
  exact absurd hc.stored (by decide +kernel)

end EmWinDemo.Http.RtcData
