/-
# EmWinDemo.Weather.Extract -- the text that `GetJSONdata` hands to the parser

`GetJSONdata` (weather.c) is to cut the text from the first `{` to the last `}` out of a buffer,
for a parser that reads it up to a NUL.  It allocates exactly as many bytes as it copies, so there
is no room for one, and both scans leave 0 where they find nothing, which is an index like any
other.

`extracts_iff` says for which buffers the result is what it should be, for all buffers: only those
without a `{` that start with a NUL.
-/
import EmWinDemo.Weather.ReadPage

namespace EmWinDemo.Weather.Extract

open EmWinDemo.Lib.CMemory EmWinDemo.Weather.ReadPage

/-! ## The third loop -/

/-- The rounds from `i` on, `n` of them; none when the buffer is left. -/
def copyLoop (buffer : Bytes) (jsonStart : Nat) : Nat → Nat → Bytes → Option Bytes
  | _, 0, jsonBuffer => some jsonBuffer
  | i, n + 1, jsonBuffer =>
    (buffer[jsonStart + i]?).bind fun b => copyLoop buffer jsonStart (i + 1) n (jsonBuffer.set i b)

/-- `calloc(n, 1)`. -/
def calloc (n : Nat) : Bytes := List.replicate n 0

/-- The loop over the whole length. -/
def copyText (buffer : Bytes) : Option Bytes :=
  let n := (jsonLen buffer).toNat
  copyLoop buffer (scanStart 0 buffer) 0 n (calloc n)

/-! ## What the result should be -/

/-- The index of the first occurrence of a byte. -/
def FirstAt (b : UInt8) (s : Nat) (m : Bytes) : Prop := m[s]? = some b ∧ ∀ i < s, m[i]? ≠ some b

/-- The index of the last occurrence of a byte. -/
def LastAt (b : UInt8) (e : Nat) (m : Bytes) : Prop := m[e]? = some b ∧ ∀ i > e, m[i]? ≠ some b

/-- The first `{` is at `s`, the last `}` at `e`, and not before it. -/
structure Enclosed (buffer : Bytes) (s e : Nat) : Prop where
  first : FirstAt 123 s buffer
  last : LastAt 125 e buffer
  le : s ≤ e

/-- What `GetJSONdata` promises about a buffer. -/
structure Extracts (buffer : Bytes) : Prop where
  /-- the text, and a NUL inside the allocation -/
  enclosed : ∀ s e, Enclosed buffer s e → ∃ rest,
    getJSONdata buffer = some ((buffer.drop s).take (e - s + 1) ++ 0 :: rest)
  /-- without a text the empty string -/
  otherwise : (∀ s e, ¬Enclosed buffer s e) → (getJSONdata buffer).bind readCstr = some []
  allocates : 0 < jsonLen buffer
  copies : (copyText buffer).isSome

/-! ## The loops -/

/-- A list around one of its elements. -/
theorem split_at {b : UInt8} {i : Nat} {m : Bytes} (h : m[i]? = some b) :
    m = m.take i ++ b :: m.drop (i + 1) ∧ (m.take i).length = i := by
  obtain ⟨hlt, hget⟩ := List.getElem?_eq_some_iff.mp h
  refine ⟨?_, List.length_take_of_le (Nat.le_of_lt hlt)⟩
  rw [← hget, ← List.drop_eq_getElem_cons hlt, List.take_append_drop]

theorem firstAt_split {b : UInt8} {s : Nat} {m : Bytes} (h : FirstAt b s m) :
    ∃ p q, m = p ++ b :: q ∧ b ∉ p ∧ p.length = s := by
  obtain ⟨hs, hfirst⟩ := h
  obtain ⟨hsplit, hlen⟩ := split_at hs
  refine ⟨m.take s, m.drop (s + 1), hsplit, ?_, hlen⟩
  intro hmem
  obtain ⟨i, hi, hb⟩ := List.mem_take_iff_getElem.mp hmem
  exact hfirst i (by omega) (List.getElem?_eq_some_iff.mpr ⟨_, hb⟩)

theorem lastAt_split {b : UInt8} {e : Nat} {m : Bytes} (h : LastAt b e m) :
    ∃ p q, m = p ++ b :: q ∧ b ∉ q ∧ p.length = e := by
  obtain ⟨he, hlast⟩ := h
  obtain ⟨hsplit, hlen⟩ := split_at he
  refine ⟨m.take e, m.drop (e + 1), hsplit, ?_, hlen⟩
  intro hmem
  obtain ⟨i, hi⟩ := List.mem_iff_getElem?.mp hmem
  rw [List.getElem?_drop] at hi
  exact hlast (e + 1 + i) (by omega) hi

/-- The first scan finds the first `{`. -/
theorem scanStart_of_firstAt {s : Nat} {buffer : Bytes} (h : FirstAt 123 s buffer) :
    scanStart 0 buffer = s := by
  obtain ⟨p, q, rfl, hp, rfl⟩ := firstAt_split h
  rw [scanStart_split hp, Nat.zero_add]

/-- The second scan finds the last `}`. -/
theorem scanEnd_of_lastAt {e : Nat} {buffer : Bytes} (h : LastAt 125 e buffer) :
    scanEnd 0 0 buffer = e := by
  obtain ⟨p, q, rfl, hq, rfl⟩ := lastAt_split h
  rw [scanEnd_split hq, Nat.zero_add]

theorem exists_firstAt {b : UInt8} {m : Bytes} (h : b ∈ m) : ∃ s, FirstAt b s m := by
  obtain ⟨p, q, rfl, hp⟩ := List.eq_append_cons_of_mem h
  refine ⟨p.length, by simp, fun i hi hb => hp ?_⟩
  rw [List.getElem?_append_left hi] at hb
  exact List.mem_of_getElem? hb

theorem exists_lastAt {b : UInt8} {m : Bytes} (h : b ∈ m) : ∃ e, LastAt b e m := by
  obtain ⟨p, q, rfl, hq⟩ := exists_last h
  refine ⟨p.length, by simp, fun i hi hb => hq ?_⟩
  obtain ⟨k, rfl⟩ := Nat.exists_eq_add_of_lt hi
  rw [List.getElem?_append_right (by omega)] at hb
  have hk : p.length + k + 1 - p.length = k + 1 := by omega
  rw [hk, List.getElem?_cons_succ] at hb
  exact List.mem_of_getElem? hb

/-- The rounds done fill the front of the allocation, the rounds to come its rest. -/
theorem copyLoop_eq (buffer : Bytes) (start n : Nat) (done : Bytes)
    (h : start + done.length + n ≤ buffer.length) :
    copyLoop buffer start done.length n (done ++ calloc n) =
      some (done ++ (buffer.drop (start + done.length)).take n) := by
  induction n generalizing done with
  | zero => simp [copyLoop, calloc]
  | succ n ih =>
    have hlt : start + done.length < buffer.length := by omega
    have hset : (done ++ calloc (n + 1)).set done.length buffer[start + done.length] =
        (done ++ [buffer[start + done.length]]) ++ calloc n := by
      simp [calloc, List.replicate_succ]
    have hlen : (done ++ [buffer[start + done.length]]).length = done.length + 1 := by simp
    have hrest := ih (done ++ [buffer[start + done.length]]) (by rw [hlen]; omega)
    rw [hlen] at hrest
    rw [copyLoop, List.getElem?_eq_getElem hlt, Option.bind_some, hset, hrest,
      List.drop_eq_getElem_cons hlt, List.take_succ_cons]
    simp [Nat.add_assoc]

/-- Where the loop stays in the buffer it yields what `getJSONdata` says. -/
theorem copyText_eq {buffer : Bytes} (hlen : 0 ≤ jsonLen buffer)
    (h : scanStart 0 buffer + (jsonLen buffer).toNat ≤ buffer.length) :
    copyText buffer = getJSONdata buffer := by
  have hcopy := copyLoop_eq buffer (scanStart 0 buffer) (jsonLen buffer).toNat [] (by simpa using h)
  rw [getJSONdata, if_pos hlen]
  exact hcopy

/-! ## The buffers -/

/-- A text in the buffer leaves no room for its NUL. -/
theorem not_enclosed_of_extracts {buffer : Bytes} (h : Extracts buffer) (s e : Nat) :
    ¬Enclosed buffer s e := by
  intro hin
  obtain ⟨rest, hrest⟩ := h.enclosed s e hin
  have hlen : jsonLen buffer = ((e - s + 1 : Nat) : Int) := by
    have hle := hin.le
    rw [jsonLen, scanStart_of_firstAt hin.first, scanEnd_of_lastAt hin.last]
    omega
  rw [getJSONdata, if_pos (by omega), scanStart_of_firstAt hin.first, hlen,
    Int.toNat_natCast] at hrest
  have hsize := congrArg List.length (Option.some.inj hrest)
  simp at hsize

/-- A `{` that no `}` follows: nothing is allocated, or the brace alone. -/
theorem no_brace_of_extracts {buffer : Bytes} (h : Extracts buffer) : (123 : UInt8) ∉ buffer := by
  intro hopen
  have hnone := not_enclosed_of_extracts h
  obtain ⟨s, hs⟩ := exists_firstAt hopen
  have hpos := h.allocates
  rw [jsonLen, scanStart_of_firstAt hs] at hpos
  by_cases hclose : (125 : UInt8) ∈ buffer
  · obtain ⟨e, he⟩ := exists_lastAt hclose
    rw [scanEnd_of_lastAt he] at hpos
    exact hnone s e ⟨hs, he, by omega⟩
  · rw [scanEnd_of_not_mem hclose] at hpos
    obtain rfl : s = 0 := by omega
    have hempty := h.otherwise hnone
    obtain ⟨p, q, rfl, -, hp⟩ := firstAt_split hs
    obtain rfl := List.eq_nil_of_length_eq_zero hp
    have hlen : jsonLen ([] ++ 123 :: q) = 1 := by
      rw [jsonLen, scanStart_of_firstAt hs, scanEnd_of_not_mem hclose]
      rfl
    rw [getJSONdata, hlen] at hempty
    exact absurd hempty (by simp [scanStart, readCstr])

/-- Without a `{` the copy starts at the first byte. -/
theorem head_of_extracts {buffer : Bytes} (h : Extracts buffer) : buffer.head? = some 0 := by
  have hopen := no_brace_of_extracts h
  have hpos := h.allocates
  have hempty := h.otherwise (not_enclosed_of_extracts h)
  have hstart := scanStart_of_not_mem hopen 0
  obtain ⟨n, hn⟩ : ∃ n : Nat, (jsonLen buffer).toNat = n + 1 := ⟨(jsonLen buffer).toNat - 1, by omega⟩
  rw [getJSONdata, if_pos (Int.le_of_lt hpos), hstart, List.drop_zero, hn] at hempty
  cases buffer with
  | nil =>
    exact absurd hempty (by simp [readCstr])
  | cons b buffer =>
    by_contra hb
    have hb0 : b ≠ 0 := fun h0 => hb (by rw [h0]; rfl)
    rw [List.take_succ_cons, Option.bind_some, readCstr] at hempty
    split at hempty
    · rw [cstr_cons hb0] at hempty
      cases hempty
    · cases hempty

theorem scanEnd_lt {m : Bytes} (h : m ≠ []) : scanEnd 0 0 m < m.length := by
  have hle := scanEnd_le m [] List.not_mem_nil
  have hpos := List.length_pos_iff.mpr h
  rw [List.append_nil] at hle
  omega

/-- Without a `{` a leading NUL makes the copy an empty string. -/
theorem extracts_of_head {buffer : Bytes} (hopen : (123 : UInt8) ∉ buffer)
    (hhead : buffer.head? = some 0) : Extracts buffer := by
  have hstart := scanStart_of_not_mem hopen 0
  have hne : buffer ≠ [] := by
    rintro rfl
    cases hhead
  have hend := scanEnd_lt hne
  have hlen : jsonLen buffer = ((scanEnd 0 0 buffer + 1 : Nat) : Int) := by
    rw [jsonLen, hstart]
    omega
  have hin : scanStart 0 buffer + (jsonLen buffer).toNat ≤ buffer.length := by
    rw [hstart, hlen, Int.toNat_natCast]
    omega
  have htext : getJSONdata buffer = some (buffer.take (scanEnd 0 0 buffer + 1)) := by
    rw [getJSONdata, if_pos (by omega), hstart, hlen, Int.toNat_natCast, List.drop_zero]
  constructor
  · intro s e hse
    exact absurd (List.mem_of_getElem? hse.first.1) hopen
  · intro _
    rw [htext]
    cases buffer with
    | nil => cases hhead
    | cons b buffer =>
      obtain rfl : b = 0 := Option.some.inj hhead
      simp [readCstr]
  · omega
  · rw [copyText_eq (by omega) hin, htext]
    rfl

/-- **The text for the parser.** `GetJSONdata` keeps its promise exactly on the buffers that hold
no `{` and start with a NUL. -/
theorem extracts_iff (buffer : Bytes) :
    Extracts buffer ↔ (123 : UInt8) ∉ buffer ∧ buffer.head? = some 0 := by
  constructor
  · intro h
    exact ⟨no_brace_of_extracts h, head_of_extracts h⟩
  · rintro ⟨hopen, hhead⟩
    exact extracts_of_head hopen hhead

/-- An empty object is copied into two bytes, and the parser reads on behind them. -/
theorem not_extracts_braces : ¬∀ buffer : Bytes, Extracts buffer := by
  intro hall
  have hin : Enclosed [123, 125, 0] 0 1 := by
    refine ⟨⟨rfl, by simp⟩, ⟨rfl, fun i hi => ?_⟩, by decide⟩
    match i, hi with
    | 2, _ => simp
    | _ + 3, _ => simp
  exact not_enclosed_of_extracts (hall [123, 125, 0]) 0 1 hin

end EmWinDemo.Weather.Extract
